import Dsplog.Theorems.Control
import Dsplog.Theorems.Session

/-! What a step of the driver does to one instance. Every operation reaches an instance through one of a few
    functions, whoever makes it and whatever it does to other instances. -/

namespace Dsplog
open Bytes Machines RoundRobin

namespace Driver
variable {p : Platform} {d d' : Driver} {f : File} {k : Nat} {r : Reply} {op : Op} {c c' : CapInfo}

/-- The file's instance is `k`. -/
def Refers (d : Driver) (f : File) (k : Nat) : Prop :=
  ∃ context, d.files f = some context ∧ context.dsplogPrivData = some k

/-- The operation is a START of instance `k`. -/
def Starts (p : Platform) (d : Driver) (k : Nat) : Op → Prop
  | .ioctl f (.startCapture pid alloc) => ∃ context, d.files f = some context ∧
      (d.dsplogStartCap p f pid alloc context.dsplogPrivData).2.1 = some k
  | _ => False

/-- What a step may make of instance `k`. -/
inductive Alters (p : Platform) (d : Driver) (k : Nat) (c : CapInfo) : Op → CapInfo → Prop
  | keep {op : Op} : Alters p d k c op c
  | occupy {f : File} {cmd : Ioctl} (pid : Nat) : Alters p d k c (.ioctl f cmd) (c.occupy f pid)
  | start {op : Op} : Starts p d k op → Alters p d k c op c.start
  | occupyStart {op : Op} (f : File) (pid : Nat) : Starts p d k op → Alters p d k c op (c.occupy f pid).start
  | stop {f : File} : Refers d f k → Alters p d k c (.ioctl f .stopCapture) c.stop
  | readRing {f : File} {maxSize : Nat} {copyOk : Bool} {copy : Copy} : Refers d f k →
      Alters p d k c (.read f maxSize copyOk copy) (c.readRing p maxSize).1
  | readThrough {f : File} {maxSize : Nat} {copyOk : Bool} {copy : Copy} : d.files f = some ⟨some k, false⟩ →
      (c.readRing p maxSize).2 = .proceed → Alters p d k c (.read f maxSize copyOk copy) ((c.readRing p maxSize).1.readOut copy).1
  | readOut {i : Nat} {copy : Copy} {rd : Reader} : d.readers[i]? = some rd → rd.cap = k →
      Alters p d k c (.resumeRead i copy) (c.readOut copy).1
  | takeToken {i : Nat} {interrupted : Bool} : Alters p d k c (.wake i interrupted) c.takeToken
  | release {f : File} : Alters p d k c (.close f) (c.release f)
  | tick {fuel n : Nat} {s : Service} : solo (Service.visit p d.mem) n ⟨c, []⟩ = some s → Alters p d k c (.tick fuel) s.cap
  | suspend : Alters p d k c .suspend (c.suspend p)
  | resume : Alters p d k c .resume (c.resume p)
  | reset : Alters p d k c .resetCap c.reset

theorem register_alters (hc : d.queue[k]? = some c) (filp : File) (pid : Nat) (dspId : UInt32) (alloc : Alloc) :
    (d.dsplogRegisterLogCap p filp pid dspId alloc).1.queue[k]? = some c ∨
      (d.dsplogRegisterLogCap p filp pid dspId alloc).2 = some k ∧
      (d.dsplogRegisterLogCap p filp pid dspId alloc).1.queue[k]? = some (c.occupy filp pid) := by
  rcases d.register_cases p filp pid dspId alloc with ⟨-, h⟩ | ⟨-, ⟨-, h⟩ | ⟨j, cj, hj, -, -, h⟩ | ⟨ring, -, -, h⟩⟩ <;> rw [h]
  · exact Or.inl hc
  · exact Or.inl hc
  · by_cases hjk : j = k
    · subst hjk
      rw [hc] at hj
      cases hj
      exact Or.inr ⟨rfl, List.getElem?_set_self (List.getElem?_eq_some_iff.mp hc).1⟩
    · exact Or.inl ((List.getElem?_set_ne hjk).trans hc)
  · exact Or.inl ((List.getElem?_append_left (List.getElem?_eq_some_iff.mp hc).1).trans hc)

theorem startInstance_alters (hc : d.queue[k]? = some c) (j : Nat) :
    (d.startInstance p j).queue[k]? = some (if j = k then c.start else c) := by
  rw [startInstance_queue, List.getElem?_modify, hc]
  rfl

theorem start_alters {context : Context} {pid : Nat} {alloc : Alloc} (hf : d.files f = some context)
    (hc : d.queue[k]? = some c) (h : d.ambaDsplogIoctl p f context (.startCapture pid alloc) = (d', r)) :
    ∃ c', d'.queue[k]? = some c' ∧ Alters p d k c (.ioctl f (.startCapture pid alloc)) c' := by
  have starts {j : Nat} (hstart : (d.dsplogStartCap p f pid alloc context.dsplogPrivData).2.1 = some j) (hjk : j = k) :
      Starts p d k (.ioctl f (.startCapture pid alloc)) := ⟨context, hf, hjk ▸ hstart⟩
  rcases d.start_cases p f pid alloc context.dsplogPrivData with ⟨j, -, hs⟩ | ⟨-, -, hs⟩ |
    ⟨-, -, d₁, ⟨hreg, hs⟩ | ⟨j, hreg, hs⟩⟩ <;> rw [hs] at starts <;> simp only [ambaDsplogIoctl, hs] at h <;> cases h
  · refine ⟨_, d.startInstance_alters hc j, ?_⟩
    split
    · rename_i hjk
      exact .start (starts rfl hjk)
    · exact .keep
  · exact ⟨c, hc, .keep⟩
  · have halters := register_alters (p := p) hc f pid 0 alloc
    rw [hreg] at halters
    rcases halters with hsame | ⟨hgiven, -⟩
    · exact ⟨c, hsame, .keep⟩
    · cases hgiven
  · have halters := register_alters (p := p) hc f pid 0 alloc
    rw [hreg] at halters
    rcases halters with hsame | ⟨hgiven, hoccupied⟩
    · refine ⟨_, d₁.startInstance_alters hsame j, ?_⟩
      split
      · rename_i hjk
        exact .start (starts rfl hjk)
      · exact .keep
    · cases hgiven
      refine ⟨_, d₁.startInstance_alters hoccupied k, ?_⟩
      rw [if_pos rfl]
      exact .occupyStart f pid (starts rfl rfl)

theorem ioctl_alters {context : Context} {cmd : Ioctl} (hf : d.files f = some context) (hc : d.queue[k]? = some c)
    (h : d.ambaDsplogIoctl p f context cmd = (d', r)) : ∃ c', d'.queue[k]? = some c' ∧ Alters p d k c (.ioctl f cmd) c' := by
  cases cmd with
  | startCapture pid alloc => exact start_alters hf hc h
  | stopCapture =>
    cases hpriv : context.dsplogPrivData with
    | none =>
      simp only [ambaDsplogIoctl, hpriv] at h
      cases h
      exact ⟨c, hc, .keep⟩
    | some j =>
      simp only [ambaDsplogIoctl, hpriv] at h
      cases h
      by_cases hjk : j = k
      · subst hjk
        refine ⟨c.stop, ?_, .stop ⟨context, hf, hpriv⟩⟩
        exact (List.getElem?_modify_eq ..).trans (congrArg (Option.map CapInfo.stop) hc)
      · exact ⟨c, (List.getElem?_modify_ne _ _ hjk).trans hc, .keep⟩
  | setDspCore pid arg alloc =>
    cases arg with
    | none =>
      cases h
      exact ⟨c, hc, .keep⟩
    | some dspId =>
      have halters := register_alters (p := p) hc f pid dspId alloc
      rcases hreg : d.dsplogRegisterLogCap p f pid dspId alloc with ⟨d₁, _ | j⟩ <;> rw [hreg] at halters <;>
        simp only [ambaDsplogIoctl, dsplogSetDspCoreId, hreg] at h <;> cases h
      all_goals
        rcases halters with hsame | ⟨-, hoccupied⟩
        · exact ⟨c, hsame, .keep⟩
        · exact ⟨_, hoccupied, .occupy pid⟩
  | getMemoryInfo copyOk =>
    cases hinfo : d.dsplogGetMemoryInfo context.dsplogPrivData <;> simp only [ambaDsplogIoctl, hinfo] at h <;> cases h <;>
      exact ⟨c, hc, .keep⟩
  | setLogLevel | getLogLevel copyOk | parseLog | dumpMemorySnapshot arg | other =>
    cases h
    exact ⟨c, hc, .keep⟩

theorem read_alters {context : Context} {maxSize : Nat} {copyOk : Bool} {copy : Copy} (hf : d.files f = some context)
    (hc : d.queue[k]? = some c) (h : d.ambaDsplogRead p f context maxSize copyOk copy = some (d', r)) :
    ∃ c', d'.queue[k]? = some c' ∧ Alters p d k c (.read f maxSize copyOk copy) c' := by
  unfold ambaDsplogRead at h
  split at h
  · cases h
    exact ⟨c, hc, .keep⟩
  · rename_i j hpriv
    obtain ⟨cj, hj, hd⟩ := Option.map_eq_some_iff.mp h
    have hqueue {e : CapInfo} (hset : d'.queue = d.queue.set j e)
        (halters : j = k → Alters p d k cj (.read f maxSize copyOk copy) e) :
        ∃ c', d'.queue[k]? = some c' ∧ Alters p d k c (.read f maxSize copyOk copy) c' := by
      rw [hset]
      by_cases hjk : j = k
      · subst hjk
        rw [hc] at hj
        cases hj
        exact ⟨e, List.getElem?_set_self (List.getElem?_eq_some_iff.mp hc).1, halters rfl⟩
      · exact ⟨c, (List.getElem?_set_ne hjk).trans hc, .keep⟩
    have refers (hjk : j = k) : Refers d f k := ⟨context, hf, hjk ▸ hpriv⟩
    cases hdump : context.dumpMemSnapshot with
    | true =>
      simp only [CapInfo.readEnter, hdump, if_true] at hd
      cases hd
      exact hqueue rfl fun _ => .keep
    | false =>
      rcases hring : cj.readRing p maxSize with ⟨c₁, entered⟩
      have hcap : c₁ = (cj.readRing p maxSize).1 := by rw [hring]
      simp only [CapInfo.readEnter, hdump, Bool.false_eq_true, if_false, hring] at hd
      cases entered <;> cases hd
      · exact hqueue rfl fun hjk => hcap ▸ .readRing (refers hjk)
      · refine hqueue rfl fun hjk => ?_
        have hf : d.files f = some ⟨some k, false⟩ := by
          rw [hf, ← hjk, ← hpriv, ← hdump]
        exact hcap ▸ .readThrough hf (congrArg Prod.snd hring)
      · exact hqueue rfl fun hjk => hcap ▸ .readRing (refers hjk)

theorem step_alters (hk : k < p.ucodeCoreNum) (hc : d.queue[k]? = some c) (h : d.step p op = some (d', r)) :
    ∃ c', d'.queue[k]? = some c' ∧ Alters p d k c op c' := by
  have mapped {g : CapInfo → CapInfo} (hmap : d'.queue = d.queue.map g) : d'.queue[k]? = some (g c) := by
    rw [hmap, List.getElem?_map, hc]
    rfl
  cases op with
  | openFile f allocOk =>
    simp only [step] at h
    split at h
    · cases h
    · split at h <;> cases h <;> exact ⟨c, hc, .keep⟩
  | ioctl f cmd =>
    obtain ⟨context, hf, hd⟩ := Option.map_eq_some_iff.mp h
    exact ioctl_alters hf hc hd
  | read f maxSize copyOk copy =>
    obtain ⟨context, hf, hd⟩ := Option.bind_eq_some_iff.mp h
    exact read_alters hf hc hd
  | wake i interrupted =>
    obtain ⟨d₁, hwake, hd⟩ := Option.map_eq_some_iff.mp h
    cases hd
    obtain ⟨rd, cr, -, hcr, -, ⟨-, rfl⟩ | ⟨-, rfl⟩⟩ := wakeReader_cases hwake
    · exact ⟨c, hc, .keep⟩
    · by_cases hrk : rd.cap = k
      · subst hrk
        rw [hc] at hcr
        cases hcr
        exact ⟨c.takeToken, List.getElem?_set_self (List.getElem?_eq_some_iff.mp hc).1, .takeToken⟩
      · exact ⟨c, (List.getElem?_set_ne hrk).trans hc, .keep⟩
  | resumeRead i copy =>
    obtain ⟨rd, cr, hrd, hcr, rfl, -⟩ := resumeReader_cases h
    by_cases hrk : rd.cap = k
    · subst hrk
      rw [hc] at hcr
      cases hcr
      exact ⟨_, List.getElem?_set_self (List.getElem?_eq_some_iff.mp hc).1, .readOut hrd rfl⟩
    · exact ⟨c, (List.getElem?_set_ne hrk).trans hc, .keep⟩
  | close f =>
    simp only [step] at h
    split at h <;> cases h
    exact ⟨c.release f, mapped (g := (·.release f)) rfl, .release⟩
  | dspWrite a bs =>
    cases h
    exact ⟨c, hc, .keep⟩
  | tick fuel =>
    obtain ⟨n, s, hsolo, hs⟩ := tick_serves h hc hk
    exact ⟨s.cap, hs, .tick hsolo⟩
  | suspend =>
    cases h
    exact ⟨_, mapped rfl, .suspend⟩
  | resume =>
    cases h
    exact ⟨_, mapped rfl, .resume⟩
  | resetCap =>
    cases h
    exact ⟨_, mapped rfl, .reset⟩

/-! ### New instances -/

theorem register_new (hk : d.queue.length ≤ k) (filp : File) (pid : Nat) (dspId : UInt32) (alloc : Alloc)
    (hc : (d.dsplogRegisterLogCap p filp pid dspId alloc).1.queue[k]? = some c) :
    dspId.toNat < p.ucodeCoreNum ∧ ∃ ring, c = CapInfo.new p filp pid dspId ring := by
  have hnone : d.queue[k]? = none := List.getElem?_eq_none hk
  rcases d.register_cases p filp pid dspId alloc with ⟨-, h⟩ | ⟨hlt, ⟨-, h⟩ | ⟨j, cj, hj, -, -, h⟩ | ⟨ring, -, -, h⟩⟩ <;>
    rw [h] at hc
  · rw [hnone] at hc
    cases hc
  · have hc : d.queue[k]? = some c := hc
    rw [hnone] at hc
    cases hc
  · have hj := (List.getElem?_eq_some_iff.mp hj).1
    have hc : (d.queue.set j (cj.occupy filp pid))[k]? = some c := hc
    rw [List.getElem?_set_ne (by omega), hnone] at hc
    cases hc
  · have hmem := List.mem_of_getElem? hc
    rw [List.getElem?_append_right hk] at hc
    exact ⟨hlt, ring, List.mem_singleton.mp (List.mem_of_getElem? hc)⟩

/-- An instance that a step adds is a new one, of a core of the platform, and perhaps started at once. -/
theorem step_new (h : d.step p op = some (d', r)) (hk : d.queue.length ≤ k) (hc : d'.queue[k]? = some c) :
    ∃ filp pid dspId ring, dspId.toNat < p.ucodeCoreNum ∧
      (c = CapInfo.new p filp pid dspId ring ∨ c = (CapInfo.new p filp pid dspId ring).start) := by
  have hlt := (List.getElem?_eq_some_iff.mp hc).1
  have old {Q : Prop} (hlen : d'.queue.length = d.queue.length) : Q := by omega
  cases op with
  | openFile | read | wake | resumeRead | dspWrite | tick =>
    exact old (by simpa only [List.length_map] using congrArg List.length (step_frame h trivial).2)
  | ioctl f cmd =>
    obtain ⟨context, -, hd⟩ := Option.map_eq_some_iff.mp h
    cases cmd with
    | startCapture pid alloc =>
      rcases d.start_cases p f pid alloc context.dsplogPrivData with ⟨j, -, hs⟩ | ⟨-, -, hs⟩ |
        ⟨-, -, d₁, ⟨hreg, hs⟩ | ⟨j, hreg, hs⟩⟩ <;> simp only [ambaDsplogIoctl, hs] at hd <;> cases hd
      · refine old ?_
        show (d.startInstance p j).queue.length = d.queue.length
        rw [startInstance_queue, List.length_modify]
      · exact old rfl
      · obtain ⟨hid, ring, hnew⟩ := register_new (p := p) hk f pid 0 alloc (by rw [hreg]; exact hc)
        exact ⟨f, pid, 0, ring, hid, Or.inl hnew⟩
      · have hc : (d₁.startInstance p j).queue[k]? = some c := hc
        rw [startInstance_queue, List.getElem?_modify] at hc
        obtain ⟨c₀, hc₀, hstart⟩ := Option.map_eq_some_iff.mp hc
        obtain ⟨hid, ring, rfl⟩ := register_new (p := p) hk f pid 0 alloc (by rw [hreg]; exact hc₀)
        refine ⟨f, pid, 0, ring, hid, ?_⟩
        split at hstart
        · exact Or.inr hstart.symm
        · exact Or.inl hstart.symm
    | stopCapture =>
      cases hpriv : context.dsplogPrivData <;> simp only [ambaDsplogIoctl, hpriv] at hd <;> cases hd
      · exact old rfl
      · exact old (List.length_modify ..)
    | setDspCore pid arg alloc =>
      cases arg with
      | none =>
        cases hd
        exact old rfl
      | some dspId =>
        have hnew {c : CapInfo} := register_new (p := p) (c := c) hk f pid dspId alloc
        rcases hreg : d.dsplogRegisterLogCap p f pid dspId alloc with ⟨d₁, _ | j⟩ <;> rw [hreg] at hnew <;>
          simp only [ambaDsplogIoctl, dsplogSetDspCoreId, hreg] at hd <;> cases hd
        all_goals
          obtain ⟨hid, ring, hnew⟩ := hnew hc
          exact ⟨f, pid, dspId, ring, hid, Or.inl hnew⟩
    | getMemoryInfo copyOk =>
      cases hinfo : d.dsplogGetMemoryInfo context.dsplogPrivData <;> simp only [ambaDsplogIoctl, hinfo] at hd <;> cases hd <;>
        exact old rfl
    | setLogLevel | getLogLevel copyOk | parseLog | dumpMemorySnapshot arg | other =>
      cases hd
      exact old rfl
  | close f =>
    simp only [step] at h
    split at h <;> cases h
    exact old (List.length_map ..)
  | suspend | resume | resetCap =>
    cases h
    exact old (List.length_map ..)

end Driver
end Dsplog
