import Dsplog.Driver
import Dsplog.Theorems.Tick

/-! The registry of instances over runs of the driver. Only a registration adds an instance, for a core
    that has none; only suspend and resume move the log window of an instance. -/

namespace Dsplog
open Bytes Machines RoundRobin

theorem map_modify {α β : Type} {g : α → β} {f : α → α} {h : β → β} (hgf : ∀ a, g (f a) = h (g a)) (l : List α)
    (k : Nat) : (l.modify k f).map g = (l.map g).modify k h := by
  induction l generalizing k with
  | nil => cases k <;> rfl
  | cons a l ih => cases k <;> simp [List.modify_succ_cons, hgf, ih]

theorem map_modify_eq {α β : Type} {g : α → β} {f : α → α} (h : ∀ a, g (f a) = g a) (l : List α) (k : Nat) :
    (l.modify k f).map g = l.map g := by
  have hmap := map_modify (h := id) h l k
  rwa [List.modify_id] at hmap

theorem map_set_eq {α β : Type} {g : α → β} {l : List α} {k : Nat} {a b : α} (ha : l[k]? = some a) (h : g b = g a) :
    (l.set k b).map g = l.map g := by
  obtain ⟨hk, rfl⟩ := List.getElem?_eq_some_iff.mp ha
  rw [List.map_set, h, ← List.getElem_map g, List.set_getElem_self]
  simpa using hk

/-! ### What a registration does -/

namespace Driver
variable {p : Platform} {d d' : Driver} {f : File} {filp : File} {pid k : Nat} {dspId : UInt32} {alloc : Alloc}

theorem allocLogCapInstance_cases (d : Driver) (p : Platform) (filp : File) (pid : Nat) (dspId : UInt32)
    (alloc : Alloc) :
    (alloc.inst = false ∨ alloc.ring = none) ∧ d.allocLogCapInstance p filp pid dspId alloc = (d, none) ∨
    ∃ ring, alloc = ⟨true, some ring⟩ ∧ d.allocLogCapInstance p filp pid dspId alloc =
      ({ d with queue := d.queue ++ [CapInfo.new p filp pid dspId ring] }, some d.queue.length) := by
  obtain ⟨inst, ring⟩ := alloc
  cases inst with
  | false => exact Or.inl ⟨Or.inl rfl, rfl⟩
  | true =>
    cases ring with
    | none => exact Or.inl ⟨Or.inr rfl, rfl⟩
    | some ring => exact Or.inr ⟨ring, rfl, rfl⟩

/-- A registration refuses the core at once, or it stops the timer and then fails, takes over an inactive
    instance of the core, or adds an instance for a core that has none. -/
theorem register_cases (d : Driver) (p : Platform) (filp : File) (pid : Nat) (dspId : UInt32) (alloc : Alloc) :
    p.ucodeCoreNum ≤ dspId.toNat ∧ d.dsplogRegisterLogCap p filp pid dspId alloc = (d, none) ∨
    dspId.toNat < p.ucodeCoreNum ∧
      (((∃ c ∈ d.queue, c.dspId = dspId ∧ c.active = true) ∨
          (∀ c ∈ d.queue, c.dspId ≠ dspId) ∧ (alloc.inst = false ∨ alloc.ring = none)) ∧
        d.dsplogRegisterLogCap p filp pid dspId alloc = (d.dspPrintkDeinitTimer, none) ∨
      (∃ k c, d.queue[k]? = some c ∧ c.dspId = dspId ∧ c.active = false ∧
        d.dsplogRegisterLogCap p filp pid dspId alloc =
          (d.dspPrintkDeinitTimer.setCap k (c.occupy filp pid), some k)) ∨
      ∃ ring, alloc = ⟨true, some ring⟩ ∧ (∀ c ∈ d.queue, c.dspId ≠ dspId) ∧
        d.dsplogRegisterLogCap p filp pid dspId alloc =
          ({ d.dspPrintkDeinitTimer with queue := d.queue ++ [CapInfo.new p filp pid dspId ring] },
            some d.queue.length)) := by
  unfold dsplogRegisterLogCap
  split
  · rename_i hge
    exact Or.inl ⟨hge, rfl⟩
  · rename_i hlt
    refine Or.inr ⟨Nat.lt_of_not_le hlt, ?_⟩
    cases hfind : d.dspPrintkDeinitTimer.queue.findIdx? (·.dspId == dspId) with
    | none =>
      have hnew : ∀ c ∈ d.dspPrintkDeinitTimer.queue, c.dspId ≠ dspId := by
        simpa using List.findIdx?_eq_none_iff.mp hfind
      simp only [hfind]
      rcases d.dspPrintkDeinitTimer.allocLogCapInstance_cases p filp pid dspId alloc with ⟨hfail, h⟩ | ⟨ring, halloc, h⟩
      · exact Or.inl ⟨Or.inr ⟨hnew, hfail⟩, h⟩
      · exact Or.inr (Or.inr ⟨ring, halloc, hnew, h⟩)
    | some k =>
      obtain ⟨hk, hid, -⟩ := List.findIdx?_eq_some_iff_getElem.mp hfind
      have hc : d.dspPrintkDeinitTimer.queue[k]? = some d.dspPrintkDeinitTimer.queue[k] := List.getElem?_eq_getElem hk
      have hid : d.dspPrintkDeinitTimer.queue[k].dspId = dspId := beq_iff_eq.mp hid
      simp only [hfind, hc]
      split
      · rename_i hactive
        exact Or.inl ⟨Or.inl ⟨_, List.getElem_mem hk, hid, hactive⟩, rfl⟩
      · rename_i hinactive
        exact Or.inr (Or.inl ⟨k, _, hc, hid, by simpa using hinactive, rfl⟩)

/-- START works on the instance of the file, or on the one that it registers when there is one core only. -/
theorem start_cases (d : Driver) (p : Platform) (filp : File) (pid : Nat) (alloc : Alloc) (priv : Option Nat) :
    (∃ k, priv = some k ∧ d.dsplogStartCap p filp pid alloc priv = (d.startInstance p k, some k, none)) ∨
    (priv = none ∧ p.ucodeCoreNum ≠ 1 ∧ d.dsplogStartCap p filp pid alloc priv = (d, none, some .efault)) ∨
    (priv = none ∧ p.ucodeCoreNum = 1 ∧ ∃ d₁, (d.dsplogRegisterLogCap p filp pid 0 alloc = (d₁, none) ∧
        d.dsplogStartCap p filp pid alloc priv = (d₁, none, some .efault) ∨
      ∃ k, d.dsplogRegisterLogCap p filp pid 0 alloc = (d₁, some k) ∧
        d.dsplogStartCap p filp pid alloc priv = (d₁.startInstance p k, some k, none))) := by
  cases priv with
  | some k => exact Or.inl ⟨k, rfl, rfl⟩
  | none =>
    right
    by_cases hone : p.ucodeCoreNum = 1
    · obtain ⟨d₁, k, hreg⟩ : ∃ d₁ k, d.dsplogRegisterLogCap p filp pid 0 alloc = (d₁, k) := ⟨_, _, rfl⟩
      refine Or.inr ⟨rfl, hone, d₁, ?_⟩
      simp only [dsplogStartCap, hone, and_self, if_true, hreg]
      cases k with
      | none => exact Or.inl ⟨rfl, rfl⟩
      | some k => exact Or.inr ⟨k, rfl, rfl⟩
    · refine Or.inl ⟨rfl, hone, ?_⟩
      simp only [dsplogStartCap, hone, and_false, if_false]

end Driver

/-! ### What reads and ticks leave alone -/

namespace CapInfo
variable {p : Platform} {m : Mem} {c : CapInfo}

/-- An instance without what reads and ticks change: its ring, its cursor with the numbers it follows, and
    the end of its log. -/
def frame (c : CapInfo) : CapInfo :=
  { c with
    ringbuf := ⟨fun _ => 0, 0, 0, 0, 0, false, 0, 0⟩
    currSeqNum := 0
    seqNumWrapped := false
    dsppfCurrent := 0
    dsplogReadFinish := false }

theorem frame_readRing (c : CapInfo) (p : Platform) (maxSize : Nat) : (c.readRing p maxSize).1.frame = c.frame := by
  unfold readRing
  split
  · rfl
  · split
    · rfl
    · split <;> rfl

theorem frame_readEnter (c : CapInfo) (p : Platform) (m : Mem) (maxSize : Nat) (dump copyOk : Bool) :
    (c.readEnter p m maxSize dump copyOk).1.frame = c.frame := by
  unfold readEnter
  split
  · rfl
  · exact c.frame_readRing p maxSize

theorem frame_readOut {copy : Copy} : (c.readOut copy).1.frame = c.frame := by
  unfold readOut
  simp only
  split <;> rfl

theorem frame_visit : (c.visit p m).cap.frame = c.frame := by
  unfold visit
  simp only
  split
  · rfl
  · split
    · rfl
    · split
      · rfl
      · split <;> rfl

end CapInfo

theorem Service.visit_cap (p : Platform) (m : Mem) (s : Service) :
    (Service.visit p m s).1.cap = (s.cap.visit p m).cap := by
  unfold Service.visit
  split <;> rfl

theorem solo_frame {p : Platform} {m : Mem} {n : Nat} {c : CapInfo} {s : Service}
    (h : solo (Service.visit p m) n ⟨c, []⟩ = some s) : s.cap.frame = c.frame :=
  solo_invariant (P := fun s => s.cap.frame = c.frame)
    (fun s hs => by rw [Service.visit_cap, CapInfo.frame_visit, hs]) rfl h

theorem tick_frame {p : Platform} {m : Mem} {fuel : Nat} {caps : List CapInfo} {services : List Service}
    (h : dspPrintkTimer p m fuel caps = some services) :
    (services.map Service.cap).map CapInfo.frame = caps.map CapInfo.frame := by
  obtain ⟨hlen, hserves⟩ := dspPrintkTimer_serves h
  refine List.ext_getElem? fun k => ?_
  cases hc : caps[k]? with
  | none =>
    have hs : services[k]? = none := by
      rw [List.getElem?_eq_none_iff] at hc ⊢
      omega
    simp [hc, hs]
  | some c =>
    obtain ⟨s, hs, hin, hout⟩ := hserves k c hc
    have hframe : s.cap.frame = c.frame := by
      rcases Nat.lt_or_ge k p.ucodeCoreNum with hk | hk
      · obtain ⟨n, hn⟩ := hin hk
        exact solo_frame hn
      · rw [hout hk]
    simp [hc, hs, hframe]

/-- What reads a frame only does not tell instances with the same frames apart. -/
theorem map_eq_of_frame {β : Type} {g : CapInfo → β} (hg : ∀ c : CapInfo, g c.frame = g c) {caps caps' : List CapInfo}
    (h : caps'.map CapInfo.frame = caps.map CapInfo.frame) : caps'.map g = caps.map g := by
  have hmap := congrArg (List.map g) h
  simpa only [List.map_map, Function.comp_def, hg] using hmap

/-- The operations that leave the frames of all instances and the timer alone. -/
def Op.Frames : Op → Prop
  | .openFile .. | .read .. | .wake .. | .resumeRead .. | .dspWrite .. | .tick _ => True
  | _ => False

namespace Driver
variable {p : Platform} {d d' : Driver} {r : Reply} {op : Op}

theorem wakeReader_cases {i : Nat} {interrupted : Bool} (h : d.wakeReader i interrupted = some d') : ∃ rd c,
    d.readers[i]? = some rd ∧ d.queue[rd.cap]? = some c ∧ rd.awake = false ∧
      (c.ringbuf.fillCompl = 0 ∧ d' = { d with readers := d.readers.set i { rd with awake := true } } ∨
        0 < c.ringbuf.fillCompl ∧ d' = { d with
          readers := d.readers.set i { rd with awake := true }
          queue := d.queue.set rd.cap
            { c with ringbuf := { c.ringbuf with fillCompl := c.ringbuf.fillCompl - 1 } } }) := by
  obtain ⟨rd, hrd, h⟩ := Option.bind_eq_some_iff.mp h
  obtain ⟨c, hc, h⟩ := Option.bind_eq_some_iff.mp h
  refine ⟨rd, c, hrd, hc, ?_⟩
  cases hawake : rd.awake with
  | true =>
    simp only [hawake, if_true] at h
    cases h
  | false =>
    refine ⟨rfl, ?_⟩
    simp only [hawake, Bool.false_eq_true, if_false] at h
    by_cases h0 : c.ringbuf.fillCompl = 0
    · simp only [h0, if_true] at h
      cases interrupted <;> cases h
      exact Or.inl ⟨h0, rfl⟩
    · simp only [h0, if_false] at h
      cases interrupted <;> cases h
      exact Or.inr ⟨Nat.pos_of_ne_zero h0, rfl⟩

theorem resumeReader_cases {i : Nat} {copy : Copy} (h : d.resumeReader i copy = some (d', r)) : ∃ rd c,
    d.readers[i]? = some rd ∧ d.queue[rd.cap]? = some c ∧
      d' = { d.setCap rd.cap (c.readOut copy).1 with readers := d.readers.eraseIdx i } ∧ r = .ofRead (c.readOut copy).2 := by
  obtain ⟨rd, hrd, h⟩ := Option.bind_eq_some_iff.mp h
  obtain ⟨c, hc, h⟩ := Option.bind_eq_some_iff.mp h
  refine ⟨rd, c, hrd, hc, ?_⟩
  simp only at h
  split at h <;> cases h
  exact ⟨rfl, rfl⟩

theorem frame_read {f : File} {context : Context} {maxSize : Nat} {copyOk : Bool} {copy : Copy}
    (h : d.ambaDsplogRead p f context maxSize copyOk copy = some (d', r)) :
    d'.timerInitialized = d.timerInitialized ∧ d'.queue.map CapInfo.frame = d.queue.map CapInfo.frame := by
  unfold ambaDsplogRead at h
  split at h
  · cases h
    exact ⟨rfl, rfl⟩
  · rename_i k
    obtain ⟨c, hc, hd⟩ := Option.map_eq_some_iff.mp h
    have hframe := c.frame_readEnter p d.mem maxSize context.dumpMemSnapshot copyOk
    rcases henter : c.readEnter p d.mem maxSize context.dumpMemSnapshot copyOk with ⟨c₁, dump, entered⟩
    rw [henter] at hframe
    simp only [henter] at hd
    cases entered <;> cases hd
    · exact ⟨rfl, map_set_eq hc hframe⟩
    · exact ⟨rfl, map_set_eq hc (CapInfo.frame_readOut.trans hframe)⟩
    · exact ⟨rfl, map_set_eq hc hframe⟩

theorem step_frame (h : d.step p op = some (d', r)) (hop : op.Frames) :
    d'.timerInitialized = d.timerInitialized ∧ d'.queue.map CapInfo.frame = d.queue.map CapInfo.frame := by
  cases op with
  | openFile f allocOk =>
    simp only [step] at h
    split at h
    · cases h
    · split at h <;> cases h <;> exact ⟨rfl, rfl⟩
  | read f maxSize copyOk copy =>
    obtain ⟨context, -, hd⟩ := Option.bind_eq_some_iff.mp h
    exact frame_read hd
  | wake i interrupted =>
    obtain ⟨d₁, hwake, hd⟩ := Option.map_eq_some_iff.mp h
    cases hd
    obtain ⟨rd, c, -, hc, -, ⟨-, rfl⟩ | ⟨-, rfl⟩⟩ := wakeReader_cases hwake
    · exact ⟨rfl, rfl⟩
    · exact ⟨rfl, map_set_eq hc rfl⟩
  | resumeRead i copy =>
    obtain ⟨rd, c, -, hc, rfl, -⟩ := resumeReader_cases h
    exact ⟨rfl, map_set_eq hc CapInfo.frame_readOut⟩
  | dspWrite a bs =>
    cases h
    exact ⟨rfl, rfl⟩
  | tick fuel =>
    simp only [step] at h
    split at h
    · obtain ⟨services, hs, hd⟩ := Option.map_eq_some_iff.mp h
      cases hd
      exact ⟨rfl, tick_frame hs⟩
    · cases h
  | ioctl f cmd | close f | suspend | resume | resetCap => exact hop.elim

end Driver

/-! ### The place of an instance -/

/-- The core of an instance, its log window, and whether it is suspended. -/
structure Place where
  dspId : UInt32
  base : Nat
  size : UInt32
  suspended : Bool

namespace CapInfo
variable {c : CapInfo}

def place (c : CapInfo) : Place := ⟨c.dspId, c.dsppfBase, c.dsplogBufSize, c.dspSuspended⟩

theorem place_start : c.start.place = c.place := rfl

theorem place_stop : c.stop.place = c.place := rfl

theorem place_reset : c.reset.place = c.place := rfl

theorem place_release {f : File} : (c.release f).place = c.place := by
  unfold release
  split <;> rfl

end CapInfo

/-- The place of an instance of one's own core. -/
def Platform.place (p : Platform) (dspId : UInt32) : Place :=
  ⟨dspId, p.logBase + (p.coreLogSize * dspId).toNat, p.coreLogSize, false⟩

theorem solo_place {p : Platform} {m : Mem} {n : Nat} {c : CapInfo} {s : Service}
    (h : solo (Service.visit p m) n ⟨c, []⟩ = some s) : s.cap.place = c.place := by
  have hframe := congrArg CapInfo.place (solo_frame h)
  exact hframe

namespace Driver
variable {p : Platform} {d d' : Driver} {f : File} {r : Reply} {op : Op}

/-- The places are as before, or an instance for a core that had none was added behind them. -/
def Grows (p : Platform) (d d' : Driver) : Prop :=
  d'.queue.map CapInfo.place = d.queue.map CapInfo.place ∨
    ∃ dspId : UInt32, dspId.toNat < p.ucodeCoreNum ∧ (∀ c ∈ d.queue, c.dspId ≠ dspId) ∧
      d'.queue.map CapInfo.place = d.queue.map CapInfo.place ++ [p.place dspId]

theorem grows_register (d : Driver) (p : Platform) (filp : File) (pid : Nat) (dspId : UInt32) (alloc : Alloc) :
    Grows p d (d.dsplogRegisterLogCap p filp pid dspId alloc).1 := by
  rcases d.register_cases p filp pid dspId alloc with ⟨-, h⟩ | ⟨hlt, ⟨-, h⟩ | ⟨k, c, hc, -, -, h⟩ | ⟨ring, -, hnew, h⟩⟩ <;> rw [h]
  · exact Or.inl rfl
  · exact Or.inl rfl
  · exact Or.inl (map_set_eq hc rfl)
  · refine Or.inr ⟨dspId, hlt, hnew, ?_⟩
    simp [CapInfo.place, Platform.place, CapInfo.new]

theorem startInstance_queue (d : Driver) (p : Platform) (k : Nat) :
    (d.startInstance p k).queue = d.queue.modify k CapInfo.start := by
  unfold startInstance
  simp only
  split <;> rfl

theorem startInstance_place (d : Driver) (p : Platform) (k : Nat) :
    (d.startInstance p k).queue.map CapInfo.place = d.queue.map CapInfo.place := by
  rw [startInstance_queue]
  exact map_modify_eq (fun c => CapInfo.place_start (c := c)) d.queue k

theorem grows_start (d : Driver) (p : Platform) (filp : File) (pid : Nat) (alloc : Alloc) (priv : Option Nat) :
    Grows p d (d.dsplogStartCap p filp pid alloc priv).1 := by
  have hgrows := d.grows_register p filp pid 0 alloc
  rcases d.start_cases p filp pid alloc priv with ⟨k, -, h⟩ | ⟨-, -, h⟩ | ⟨-, -, d₁, ⟨hreg, h⟩ | ⟨k, hreg, h⟩⟩ <;> rw [h]
  · exact Or.inl (d.startInstance_place p k)
  · exact Or.inl rfl
  · rwa [hreg] at hgrows
  · rw [hreg] at hgrows
    rwa [Grows, startInstance_place]

theorem grows_ioctl (d : Driver) (p : Platform) (f : File) (context : Context) (cmd : Ioctl) :
    Grows p d (d.ambaDsplogIoctl p f context cmd).1 := by
  cases cmd with
  | startCapture pid alloc => exact d.grows_start p f pid alloc context.dsplogPrivData
  | stopCapture =>
    cases hpriv : context.dsplogPrivData with
    | none => simp only [ambaDsplogIoctl, hpriv]; exact Or.inl rfl
    | some k =>
      simp only [ambaDsplogIoctl, hpriv]
      exact Or.inl (map_modify_eq (fun c => CapInfo.place_stop (c := c)) d.queue k)
  | setDspCore pid arg alloc =>
    cases arg with
    | none => exact Or.inl rfl
    | some dspId =>
      have hgrows := d.grows_register p f pid dspId alloc
      rcases hreg : d.dsplogRegisterLogCap p f pid dspId alloc with ⟨d₁, _ | k⟩ <;> rw [hreg] at hgrows <;>
        simp only [ambaDsplogIoctl, dsplogSetDspCoreId, hreg] <;> exact hgrows
  | getMemoryInfo copyOk =>
    cases hinfo : d.dsplogGetMemoryInfo context.dsplogPrivData <;> simp only [ambaDsplogIoctl, hinfo] <;> exact Or.inl rfl
  | setLogLevel | getLogLevel copyOk | parseLog | dumpMemorySnapshot arg | other => exact Or.inl rfl

/-- A step other than suspend and resume adds at most an instance, and moves none. -/
theorem step_grows (h : d.step p op = some (d', r)) (hop : op ≠ .suspend) (hop' : op ≠ .resume) : Grows p d d' := by
  cases op with
  | openFile | read | wake | resumeRead | dspWrite | tick =>
    exact Or.inl (map_eq_of_frame (fun _ => rfl) (step_frame h trivial).2)
  | ioctl f cmd =>
    obtain ⟨context, -, hd⟩ := Option.map_eq_some_iff.mp h
    have hgrows := d.grows_ioctl p f context cmd
    rwa [hd] at hgrows
  | close f =>
    simp only [step] at h
    split at h <;> cases h
    left
    show (d.queue.map (·.release f)).map CapInfo.place = d.queue.map CapInfo.place
    rw [List.map_map]
    exact List.map_congr_left fun c _ => CapInfo.place_release
  | suspend => exact absurd rfl hop
  | resume => exact absurd rfl hop'
  | resetCap =>
    cases h
    left
    show (d.queue.map CapInfo.reset).map CapInfo.place = d.queue.map CapInfo.place
    rw [List.map_map]
    exact List.map_congr_left fun c _ => CapInfo.place_reset

def empty : Driver := ⟨[], false, fun _ => 0, fun _ => none, []⟩

theorem empty_initial : Initial empty := ⟨rfl, rfl, fun _ => rfl, rfl⟩

theorem reachable_step (hr : (driver p).Reachable d) (h : d.step p op = some (d', r)) : (driver p).Reachable d' :=
  .step op hr (congrArg (Option.map Prod.fst) h)

/-- A step of the machine is a step of the driver with some outcome. -/
theorem step_outcome (h : (driver p).step d op = some d') : ∃ r, d.step p op = some (d', r) := by
  obtain ⟨⟨d'', r⟩, hstep, rfl⟩ := Option.map_eq_some_iff.mp h
  exact ⟨r, hstep⟩

/-- What holds after `dsplog_init` and is kept by every step holds in every reachable state. -/
theorem reachable_invariant {I : Driver → Prop} (init : ∀ d, Initial d → I d)
    (step : ∀ d op d' r, I d → d.step p op = some (d', r) → I d') (hr : (driver p).Reachable d) : I d := by
  refine hr.invariant init fun d op d' hd hs => ?_
  obtain ⟨r, hstep⟩ := step_outcome hs
  exact step d op d' r hd hstep

/-- `Machine.forall_iff_guarded` for the steps of the driver with their outcomes. -/
theorem forall_iff_guarded {I P : Driver → Prop} {G : Driver → Op → Prop}
    (step : ∀ d op d' r, I d → G d op → d.step p op = some (d', r) → I d') (good : ∀ d, I d → P d)
    (breaks : ∀ d op d' r, I d → ¬G d op → d.step p op = some (d', r) → ¬P d') (hI : I d)
    (h : (driver p).exec d ops = some d') :
    (∀ x ∈ (driver p).visited d ops, P x) ↔ ∀ x ∈ (driver p).trace d ops, G x.1 x.2 := by
  refine Machine.forall_iff_guarded (fun d op d' hd hG hs => ?_) good (fun d op d' hd hG hs => ?_) hI h
  · obtain ⟨r, hstep⟩ := step_outcome hs
    exact step d op d' r hd hG hstep
  · obtain ⟨r, hstep⟩ := step_outcome hs
    exact breaks d op d' r hd hG hstep

/-! ### One instance a core -/

/-- The instances belong to different cores of the platform. -/
structure Registered (p : Platform) (d : Driver) : Prop where
  below : ∀ c ∈ d.queue, c.dspId.toNat < p.ucodeCoreNum
  distinct : (d.queue.map CapInfo.dspId).Nodup

theorem ids_eq_places (d : Driver) : d.queue.map CapInfo.dspId = (d.queue.map CapInfo.place).map Place.dspId := by
  rw [List.map_map]
  rfl

theorem Registered.of_ids (h : Registered p d) (hids : d'.queue.map CapInfo.dspId = d.queue.map CapInfo.dspId) :
    Registered p d' := by
  refine ⟨fun c hc => ?_, hids ▸ h.distinct⟩
  have hmem : c.dspId ∈ d'.queue.map CapInfo.dspId := List.mem_map_of_mem hc
  rw [hids] at hmem
  obtain ⟨c', hc', hid⟩ := List.mem_map.mp hmem
  exact hid ▸ h.below c' hc'

theorem Registered.grows (h : Registered p d) (hg : Grows p d d') : Registered p d' := by
  rcases hg with hsame | ⟨dspId, hlt, hnew, hadd⟩
  · exact h.of_ids (by rw [ids_eq_places, ids_eq_places, hsame])
  · have hlist : d'.queue.map CapInfo.dspId = d.queue.map CapInfo.dspId ++ [dspId] := by
      rw [ids_eq_places, ids_eq_places, hadd, List.map_append]
      rfl
    refine ⟨fun c hc => ?_, ?_⟩
    · have hmem : c.dspId ∈ d'.queue.map CapInfo.dspId := List.mem_map_of_mem hc
      rw [hlist] at hmem
      rcases List.mem_append.mp hmem with hmem | hmem
      · obtain ⟨c', hc', hid⟩ := List.mem_map.mp hmem
        exact hid ▸ h.below c' hc'
      · rw [List.mem_singleton.mp hmem]
        exact hlt
    · rw [hlist, List.nodup_append]
      refine ⟨h.distinct, List.nodup_singleton dspId, fun i hi j hj hij => ?_⟩
      obtain ⟨c, hc, rfl⟩ := List.mem_map.mp hi
      exact hnew c hc (hij.trans (List.mem_singleton.mp hj))

theorem Registered.step (h : Registered p d) (hs : d.step p op = some (d', r)) : Registered p d' := by
  by_cases hsuspend : op = .suspend
  · subst hsuspend
    cases hs
    exact h.of_ids (by rw [dsplogSuspend, List.map_map]; rfl)
  · by_cases hresume : op = .resume
    · subst hresume
      cases hs
      exact h.of_ids (by rw [dsplogResume, List.map_map]; rfl)
    · exact h.grows (step_grows hs hsuspend hresume)

theorem Registered.init (h : Initial d) : Registered p d := ⟨by simp [h.queue], by simp [h.queue]⟩

theorem registered (h : (driver p).Reachable d) : Registered p d :=
  reachable_invariant (fun _ hd => .init hd) (fun _ _ _ _ hd hs => hd.step hs) h

theorem Registered.nodup_toNat (h : Registered p d) : (d.queue.map (·.dspId.toNat)).Nodup := by
  have hmap := h.distinct.map fun _ _ heq => UInt32.toNat_inj.mp heq
  rwa [List.map_map] at hmap

theorem Registered.subset_range (h : Registered p d) : d.queue.map (·.dspId.toNat) ⊆ List.range p.ucodeCoreNum := by
  intro i hi
  obtain ⟨c, hc, rfl⟩ := List.mem_map.mp hi
  exact List.mem_range.mpr (h.below c hc)

theorem Registered.length_le (h : Registered p d) : d.queue.length ≤ p.ucodeCoreNum := by
  have hle := (List.subperm_of_subset h.nodup_toNat h.subset_range).length_le
  rwa [List.length_map, List.length_range] at hle

end Driver
end Dsplog
