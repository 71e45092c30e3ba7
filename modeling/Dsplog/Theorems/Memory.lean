import Dsplog.Theorems.Freeze
import Dsplog.Theorems.Partition

/-! What the driver writes, over whole runs. It clears only the DSP's log region, stores records only in the blocks of
    the rings, and copies no more to the user than the buffer of the read holds. -/

namespace Dsplog
open Bytes Machines RoundRobin

/-! ### The log region -/

/-- The address does not belong to the log region. -/
def Platform.Outside (p : Platform) (x : Nat) : Prop := x < p.logBase ∨ p.logBase + p.logSize.toNat ≤ x

/-- The window lies in the log region. -/
def Platform.Contains (p : Platform) (q : Place) : Prop :=
  p.logBase ≤ q.base ∧ q.base + q.size.toNat ≤ p.logBase + p.logSize.toNat

section Region
variable {p : Platform} {m : Mem} {x base : Nat} {size : UInt32}

theorem Platform.contains_place {dspId : UInt32} (hid : dspId.toNat < p.ucodeCoreNum) : p.Contains (p.place dspId) := by
  have hlast : p.logSize.toNat / p.ucodeCoreNum * (dspId.toNat + 1) ≤ p.logSize.toNat :=
    (Nat.mul_le_mul_left _ hid).trans (Nat.div_mul_le_self _ _)
  rw [Nat.mul_succ] at hlast
  refine ⟨Nat.le_add_right _ _, ?_⟩
  show p.logBase + (p.coreLogSize * dspId).toNat + p.coreLogSize.toNat ≤ p.logBase + p.logSize.toNat
  rw [Platform.coreOffset_toNat hid, Platform.coreLogSize_toNat]
  omega

theorem clearLog_outside (h : x < base ∨ base + size.toNat ≤ x) : clearLog m base size x = m x := by
  unfold clearLog
  split
  · rfl
  · exact if_neg (by omega)

/-- Clearing windows of the log region changes nothing outside it. -/
theorem foldl_clearLog_outside {α : Type} (place : α → Place) {l : List α} (hl : ∀ a ∈ l, p.Contains (place a))
    (hx : p.Outside x) : l.foldl (fun m a => clearLog m (place a).base (place a).size) m x = m x := by
  induction l generalizing m with
  | nil => rfl
  | cons a l ih =>
    obtain ⟨hlow, hhigh⟩ := hl a List.mem_cons_self
    rw [List.foldl_cons, ih fun b hb => hl b (List.mem_cons_of_mem _ hb)]
    refine clearLog_outside ?_
    rcases hx with hx | hx
    · exact Or.inl (Nat.lt_of_lt_of_le hx hlow)
    · exact Or.inr (Nat.le_trans hhigh hx)

end Region

/-- The operations that leave the memory of the DSP alone. -/
def Op.KeepsMem : Op → Prop
  | .dspWrite .. | .suspend | .resetCap => False
  | _ => True

namespace Driver
variable {p : Platform} {d d' : Driver} {op : Op} {r : Reply}

/-- All windows lie in the log region. -/
def Windows (p : Platform) (d : Driver) : Prop := ∀ c ∈ d.queue, p.Contains c.place

theorem Windows.step (h : Windows p d) (hs : d.step p op = some (d', r)) : Windows p d' := by
  have whole (dspId : UInt32) (suspended : Bool) : p.Contains ⟨dspId, p.logBase, p.logSize, suspended⟩ :=
    ⟨Nat.le_refl _, Nat.le_refl _⟩
  have grown (hop : op ≠ .suspend) (hop' : op ≠ .resume) : Windows p d' := by
    intro c hc
    have hplace : c.place ∈ d'.queue.map CapInfo.place := List.mem_map_of_mem hc
    rcases step_grows hs hop hop' with hsame | ⟨dspId, hid, -, hadded⟩
    · rw [hsame] at hplace
      obtain ⟨c₀, hc₀, heq⟩ := List.mem_map.mp hplace
      exact heq ▸ h c₀ hc₀
    · rw [hadded, List.mem_append, List.mem_singleton] at hplace
      rcases hplace with hold | hnew
      · obtain ⟨c₀, hc₀, heq⟩ := List.mem_map.mp hold
        exact heq ▸ h c₀ hc₀
      · exact hnew ▸ Platform.contains_place hid
  cases op with
  | suspend =>
    cases hs
    intro c hc
    obtain ⟨c₀, -, rfl⟩ := List.mem_map.mp hc
    exact whole _ _
  | resume =>
    cases hs
    intro c hc
    obtain ⟨c₀, -, rfl⟩ := List.mem_map.mp hc
    exact whole _ _
  | openFile | ioctl | read | wake | resumeRead | close | dspWrite | tick | resetCap => exact grown nofun nofun

theorem windows (h : (driver p).Reachable d) : Windows p d :=
  reachable_invariant (fun d hd c hc => by rw [hd.queue] at hc; cases hc) (fun _ _ _ _ hd hs => hd.step hs) h

theorem ioctl_mem (d : Driver) (p : Platform) (f : File) (context : Context) (cmd : Ioctl) :
    (d.ambaDsplogIoctl p f context cmd).1.mem = d.mem := by
  have register (pid : Nat) (dspId : UInt32) (alloc : Alloc) : (d.dsplogRegisterLogCap p f pid dspId alloc).1.mem = d.mem := by
    rcases d.register_cases p f pid dspId alloc with ⟨-, h⟩ | ⟨-, ⟨-, h⟩ | ⟨k, c, -, -, -, h⟩ | ⟨ring, -, -, h⟩⟩ <;> rw [h] <;> rfl
  have start (d : Driver) (k : Nat) : (d.startInstance p k).mem = d.mem := by
    unfold startInstance
    simp only
    split <;> rfl
  cases cmd with
  | startCapture pid alloc =>
    have hregister := register pid 0 alloc
    rcases d.start_cases p f pid alloc context.dsplogPrivData with ⟨k, -, h⟩ | ⟨-, -, h⟩ |
      ⟨-, -, d₁, ⟨hreg, h⟩ | ⟨k, hreg, h⟩⟩ <;> simp only [ambaDsplogIoctl, h]
    · exact start d k
    · rfl
    · rwa [hreg] at hregister
    · rw [hreg] at hregister
      exact (start d₁ k).trans hregister
  | stopCapture => cases hpriv : context.dsplogPrivData <;> simp only [ambaDsplogIoctl, hpriv] <;> rfl
  | setDspCore pid arg alloc =>
    cases arg with
    | none => rfl
    | some dspId =>
      have hregister := register pid dspId alloc
      rcases hreg : d.dsplogRegisterLogCap p f pid dspId alloc with ⟨d₁, _ | k⟩ <;> rw [hreg] at hregister <;>
        simp only [ambaDsplogIoctl, dsplogSetDspCoreId, hreg] <;> exact hregister
  | getMemoryInfo copyOk =>
    cases hinfo : d.dsplogGetMemoryInfo context.dsplogPrivData <;> simp only [ambaDsplogIoctl, hinfo]
  | setLogLevel | getLogLevel copyOk | parseLog | dumpMemorySnapshot arg | other => rfl

theorem step_mem (h : d.step p op = some (d', r)) (hop : op.KeepsMem) : d'.mem = d.mem := by
  cases op with
  | openFile f allocOk =>
    simp only [step] at h
    split at h
    · cases h
    · split at h <;> cases h <;> rfl
  | ioctl f cmd =>
    obtain ⟨context, -, hd⟩ := Option.map_eq_some_iff.mp h
    have hmem := d.ioctl_mem p f context cmd
    rwa [hd] at hmem
  | read f maxSize copyOk copy =>
    obtain ⟨context, -, hd⟩ := Option.bind_eq_some_iff.mp h
    unfold ambaDsplogRead at hd
    split at hd
    · cases hd
      rfl
    · obtain ⟨c, -, hd⟩ := Option.map_eq_some_iff.mp hd
      rcases henter : c.readEnter p d.mem maxSize context.dumpMemSnapshot copyOk with ⟨c₁, dump, entered⟩
      simp only [henter] at hd
      cases entered <;> cases hd <;> rfl
  | wake i interrupted =>
    obtain ⟨d₁, hwake, hd⟩ := Option.map_eq_some_iff.mp h
    cases hd
    obtain ⟨rd, c, -, -, -, ⟨-, rfl⟩ | ⟨-, rfl⟩⟩ := wakeReader_cases hwake <;> rfl
  | resumeRead i copy =>
    obtain ⟨rd, c, -, -, rfl, -⟩ := resumeReader_cases h
    rfl
  | close f =>
    simp only [step] at h
    split at h <;> cases h
    rfl
  | tick fuel =>
    simp only [step] at h
    split at h
    · obtain ⟨services, -, hd⟩ := Option.map_eq_some_iff.mp h
      cases hd
      rfl
    · cases h
  | resume =>
    cases h
    rfl
  | dspWrite | suspend | resetCap => exact hop.elim

/-- The driver itself writes to no memory of the DSP outside the log region. -/
theorem step_outside (hw : Windows p d) (h : d.step p op = some (d', r)) (hop : ∀ a bs, op ≠ .dspWrite a bs) {x : Nat}
    (hx : p.Outside x) : d'.mem x = d.mem x := by
  cases op with
  | dspWrite a bs => exact absurd rfl (hop a bs)
  | suspend =>
    cases h
    exact foldl_clearLog_outside (fun c : CapInfo => ⟨c.dspId, p.logBase, p.logSize, true⟩) (fun _ _ => ⟨Nat.le_refl _, Nat.le_refl _⟩) hx
  | resetCap =>
    cases h
    exact foldl_clearLog_outside CapInfo.place hw hx
  | openFile | ioctl | read | wake | resumeRead | close | tick | resume => rw [step_mem h trivial]

end Driver

/-! ### The rings -/

/-- The ring is still the same block, and no byte outside it was written. -/
structure SameBlock (p : Platform) (rb rb' : RingBuf) : Prop where
  start : rb'.start = rb.start
  outside : ∀ x, x < rb.start ∨ rb.start + p.printkBufSize ≤ x → rb'.mem x = rb.mem x

namespace SameBlock
variable {p : Platform} {rb rb' rb'' : RingBuf} {record : List UInt8}

theorem of_eq (hstart : rb'.start = rb.start) (hmem : rb'.mem = rb.mem) : SameBlock p rb rb' :=
  ⟨hstart, fun x _ => by rw [hmem]⟩

theorem trans (h : SameBlock p rb rb') (h' : SameBlock p rb' rb'') : SameBlock p rb rb'' := by
  refine ⟨h'.start.trans h.start, fun x hx => ?_⟩
  rw [h'.outside x (by rwa [h.start]), h.outside x hx]

theorem add (h : rb.Layout p) (hrec : record.length = dsplogEntrySize) :
    SameBlock p rb (rb.dspLogAddToRingBuffer p record) := by
  have hstore : SameBlock p rb (rb.store record) := by
    cases hfull : rb.full with
    | true =>
      rw [RingBuf.store_of_full hfull]
      exact .of_eq rfl rfl
    | false =>
      rw [RingBuf.store_of_not_full hfull]
      refine ⟨rfl, fun x hx => ?_⟩
      obtain ⟨hlow, hhigh, hmod⟩ := h.write
      have hend := h.end_eq
      have hsize : p.printkBufSize = dsplogEntrySize * p.printkBufEntries := rfl
      simp only [dsplogEntrySize_eq] at *
      show rb.mem.write rb.writePtr record x = rb.mem x
      rcases hx with hx | hx
      · exact Mem.write_of_lt (by omega)
      · exact Mem.write_of_ge (by omega)
  obtain ⟨n, c, hsignal⟩ := (rb.store record).signal_eq p
  rw [RingBuf.dspLogAddToRingBuffer, hsignal]
  exact hstore.trans (.of_eq rfl rfl)

variable {m : Mem} {c c' : CapInfo}

theorem visit (h : c.Sound p) : SameBlock p c.ringbuf (c.visit p m).cap.ringbuf := by
  rcases c.visit_ring p m with ⟨-, hring⟩ | ⟨record, hrec, -, hring⟩ <;> rw [hring]
  · exact .of_eq rfl rfl
  · exact .add h.wf.toLayout hrec

theorem readRing (maxSize : Nat) : SameBlock p c.ringbuf (c.readRing p maxSize).1.ringbuf := by
  rcases c.readRing_cases p maxSize with ⟨result, hr⟩ | ⟨-, hr⟩ | ⟨-, -, hr⟩ | ⟨-, -, hr⟩ <;> rw [hr] <;> exact .of_eq rfl rfl

theorem readOut (h : c.Sound p) (copy : Copy) : SameBlock p c.ringbuf (c.readOut copy).1.ringbuf := by
  rcases CapInfo.readOut_cases h.wf.toLayout copy with hr | hr <;> rw [hr] <;> exact .of_eq rfl rfl

/-- Whatever a step makes of an instance, it writes only in the block of its ring. -/
theorem alters {d : Driver} {k : Nat} {op : Op} (h : c.Sound p) (ha : d.Alters p k c op c') :
    SameBlock p c.ringbuf c'.ringbuf := by
  cases ha with
  | @readRing f maxSize => exact .readRing maxSize
  | @readThrough f maxSize copyOk copy => exact (readRing maxSize).trans (.readOut (h.readRing maxSize) copy)
  | @readOut i copy => exact .readOut h copy
  | release =>
    unfold CapInfo.release
    split <;> exact .of_eq rfl rfl
  | tick hsolo =>
    refine (solo_invariant (P := fun s : Service => s.cap.Sound p ∧ SameBlock p c.ringbuf s.cap.ringbuf)
      (fun s hs => ?_) ⟨h, .of_eq rfl rfl⟩ hsolo).2
    rw [Service.visit_cap]
    exact ⟨hs.1.visit, hs.2.trans (.visit hs.1)⟩
  | keep | occupy | start | occupyStart | stop | takeToken | suspend | resume | reset => exact .of_eq rfl rfl

end SameBlock

/-! ### The user's buffer -/

/-- A ring holds less than its size. -/
theorem CapInfo.Sound.unread_lt {p : Platform} {c : CapInfo} (h : c.Sound p) :
    (c.ringbuf.queued p).flatten.length < p.printkBufSize := by
  rw [RingBuf.flatten_queued_length]
  exact Nat.mul_lt_mul_of_pos_left h.wf.toLayout.count_lt (by decide)

theorem CapInfo.readOut_fits {p : Platform} {c : CapInfo} (h : c.Sound p) (copy : Copy) {bs : List UInt8}
    (hbs : Reply.ofRead (c.readOut copy).2 = .bytes bs) : bs.length < p.printkBufSize := by
  rcases CapInfo.readOut_cases h.wf.toLayout copy with hr | hr <;> rw [hr] at hbs <;> cases hbs
  exact h.unread_lt

namespace Driver
variable {p : Platform} {d d' : Driver} {op : Op} {r : Reply} {f : File} {maxSize : Nat} {copyOk : Bool} {copy : Copy}

/-- A read returns at most what its buffer holds, and when it waits, its buffer holds what a ring can return. -/
theorem read_fits (hr : (driver p).Reachable d) (h : d.step p (.read f maxSize copyOk copy) = some (d', r)) :
    (∀ bs, r = .bytes bs → bs.length ≤ maxSize) ∧ (r = .asleep → p.printkBufSize ≤ maxSize) := by
  obtain ⟨context, -, hd⟩ := Option.bind_eq_some_iff.mp h
  have failed {e : Errno} (he : r = .error e) :
      (∀ bs, r = .bytes bs → bs.length ≤ maxSize) ∧ (r = .asleep → p.printkBufSize ≤ maxSize) := by
    subst he
    exact ⟨fun bs hbs => (by cases hbs), fun hasleep => (by cases hasleep)⟩
  unfold ambaDsplogRead at hd
  split at hd
  · cases hd
    exact failed rfl
  · obtain ⟨c, hc, hd⟩ := Option.map_eq_some_iff.mp hd
    have hsound := sound hr c (List.mem_of_getElem? hc)
    cases hdump : context.dumpMemSnapshot with
    | true =>
      simp only [CapInfo.readEnter, hdump, if_true, CapInfo.readSnapshot] at hd
      split at hd
      · cases hd
        exact failed rfl
      · split at hd <;> cases hd
        · refine ⟨fun bs hbs => ?_, fun hasleep => by cases hasleep⟩
          cases hbs
          exact Nat.le_of_eq Mem.read_length
        · exact failed rfl
    | false =>
      simp only [CapInfo.readEnter, hdump, Bool.false_eq_true, if_false] at hd
      by_cases hsize : maxSize % dsplogEntrySize ≠ 0 ∨ maxSize < p.printkBufSize
      · rw [CapInfo.readRing, if_pos hsize] at hd
        cases hd
        exact failed rfl
      · have hle : p.printkBufSize ≤ maxSize := by omega
        refine ⟨fun bs hbs => ?_, fun _ => hle⟩
        rcases hring : c.readRing p maxSize with ⟨c₁, entered⟩
        have hsound₁ : c₁.Sound p := by
          have hkept := hsound.readRing maxSize
          rwa [hring] at hkept
        simp only [hring] at hd
        cases entered with
        | exit result =>
          -- past the size checks a read ends early only with no bytes
          rw [CapInfo.readRing, if_neg hsize] at hring
          split at hring
          · cases hring
            cases hd
            cases hbs
            exact Nat.zero_le _
          · split at hring
            · split at hring <;> cases hring
            · cases hring
        | proceed =>
          cases hd
          exact Nat.le_trans (Nat.le_of_lt (CapInfo.readOut_fits hsound₁ copy hbs)) hle
        | wait =>
          cases hd
          cases hbs

/-! ### All of it -/

/-- What a step touches: of the memory of the DSP the log region only, of a ring its block only, with the pointers of all
    rings inside them, and of the user's memory no more than the buffer of the read. A read that waits has a buffer for
    all that its ring can return. -/
structure Touches (p : Platform) (d d' : Driver) (op : Op) (r : Reply) : Prop where
  region : (∀ a bs, op ≠ .dspWrite a bs) → ∀ x, p.Outside x → d'.mem x = d.mem x
  block : ∀ (k : Nat) (c : CapInfo), d.queue[k]? = some c → ∃ c', d'.queue[k]? = some c' ∧ SameBlock p c.ringbuf c'.ringbuf
  pointers : ∀ c ∈ d'.queue, c.ringbuf.Layout p
  buffer : ∀ f maxSize copyOk copy, op = .read f maxSize copyOk copy →
    (∀ bs, r = .bytes bs → bs.length ≤ maxSize) ∧ (r = .asleep → p.printkBufSize ≤ maxSize)
  waited : ∀ i copy, op = .resumeRead i copy → ∀ bs, r = .bytes bs → bs.length < p.printkBufSize

/-- No step of any run of the driver writes outside the memory that is its own to write. -/
theorem memory_safe (hr : (driver p).Reachable d) (h : d.step p op = some (d', r)) : Touches p d d' op r where
  region hop x hx := step_outside (windows hr) h hop hx
  block k c hc := by
    have hk := Nat.lt_of_lt_of_le (List.getElem?_eq_some_iff.mp hc).1 (registered hr).length_le
    obtain ⟨c', hc', ha⟩ := step_alters hk hc h
    exact ⟨c', hc', .alters (sound hr c (List.mem_of_getElem? hc)) ha⟩
  pointers c hc := (sound (reachable_step hr h) c hc).wf.toLayout
  buffer f maxSize copyOk copy hop := by
    subst hop
    exact read_fits hr h
  waited i copy hop bs hbs := by
    subst hop
    obtain ⟨rd, c, -, hc, -, rfl⟩ := resumeReader_cases h
    exact CapInfo.readOut_fits (sound hr c (List.mem_of_getElem? hc)) copy hbs

/-- One record is stored and the capture stopped. -/
def oneLeft : List Op :=
  [.openFile 0 true, .ioctl 0 (.startCapture 10 ⟨true, some 64⟩),
    .dspWrite 4096 (IdspPrintf.bytes ⟨1, 0, 9, 0, 0, 0, 0, 0⟩), .tick 4, .ioctl 0 .stopCapture]

theorem exec_oneLeft : ∃ d, (driver (Platform.tiny 1 (by decide))).exec empty oneLeft = some d ∧ ∃ d' bs,
    d.step (Platform.tiny 1 (by decide)) (.read 0 64 true ⟨true, true⟩) = some (d', .bytes bs) ∧ bs.length = 32 :=
  ⟨_, rfl, _, _, rfl, by decide +kernel⟩

theorem memory_safe_oneLeft : ∃ d d' bs, bs.length = 32 ∧
    Touches (Platform.tiny 1 (by decide)) d d' (.read 0 64 true ⟨true, true⟩) (.bytes bs) := by
  obtain ⟨d, hexec, d', bs, hstep, hlen⟩ := exec_oneLeft
  exact ⟨d, d', bs, hlen, memory_safe (Machine.Reachable.exec (.init empty_initial) hexec) hstep⟩

end Driver
end Dsplog
