import Dsplog.Theorems.Instance
import Dsplog.Theorems.Settled

/-! The log of a core after its STOP. The timer does not look at `dsplog_state`, so a START of another core lets it
    add records to the stopped core's ring; and a read of a core that was read to its end before, without a START
    in between, does not come to the ring. Without these two the log stays as it was, and the first read returns it. -/

namespace Dsplog
open Bytes Machines RoundRobin

/-! ### The ring under reads and visits -/

namespace RingBuf
variable {p : Platform} {rb : RingBuf} {record : List UInt8}

theorem Layout.queued_eq_nil (h : rb.Layout p) : rb.queued p = [] ↔ rb.readPtr = rb.writePtr := by
  refine ⟨fun hnil => ?_, queued_of_eq⟩
  have hcount : rb.count p = 0 := by rw [← queued_length, hnil, List.length_nil]
  have hslot := Cyclic.add_distance_mod h.slot_lt.1 h.slot_lt.2
  rw [count, span] at hcount
  rw [hcount, Nat.add_zero, Nat.mod_eq_of_lt h.slot_lt.1] at hslot
  rw [h.read.addr, h.write.addr, hslot]

theorem Wf.add (h : rb.Wf p) (record : List UInt8) : (rb.dspLogAddToRingBuffer p record).Wf p := (h.store record).signal

theorem Wf.add_queued (h : rb.Wf p) (hrec : record.length = dsplogEntrySize) :
    (rb.dspLogAddToRingBuffer p record).queued p =
      if (rb.queued p).length < p.printkBufEntries - 1 then rb.queued p ++ [record] else rb.queued p := by
  rw [dspLogAddToRingBuffer, signal_queued, h.store_queued hrec]

/-- A full ring has no room for a further record. -/
theorem Wf.full_iff_length (h : rb.Wf p) : rb.full = true ↔ ¬(rb.queued p).length < p.printkBufEntries - 1 := by
  have hlt := h.count_lt
  rw [h.full_iff, Layout.queued_length]
  omega

end RingBuf

namespace CapInfo
variable {p : Platform} {m : Mem} {c c' : CapInfo}

/-- A read of an empty ring returns nothing, whether user memory can be written or not. -/
theorem readOut_of_empty (h : c.ringbuf.Layout p) (hempty : c.ringbuf.queued p = []) (copy : Copy) :
    c.readOut copy = (c.emptied, .ok []) := by
  have hptr := h.queued_eq_nil.mp hempty
  rcases readOut_cases h copy with hr | hr
  · rw [hr, hempty]
    rfl
  · have hcopy : c.ringbuf.copyOut c.ringbuf.writePtr c.ringbuf.readPtr copy = .ok [] := by
      rw [RingBuf.copyOut, hptr, if_neg (Nat.lt_irrefl _), if_neg (Nat.lt_irrefl _)]
    simp only [readOut, hcopy, emptied]

theorem emptied_queued : c.emptied.ringbuf.queued p = [] := RingBuf.queued_of_eq rfl

/-- A visit leaves the ring alone, or it adds a record to it. -/
theorem visit_ring (c : CapInfo) (p : Platform) (m : Mem) :
    (c.visit p m).handed = none ∧ (c.visit p m).cap.ringbuf = c.ringbuf ∨
      ∃ record, record.length = dsplogEntrySize ∧ (c.visit p m).handed = some record ∧
        (c.visit p m).cap.ringbuf = c.ringbuf.dspLogAddToRingBuffer p record := by
  unfold visit
  simp only
  split
  · exact Or.inl ⟨rfl, rfl⟩
  · split
    · exact Or.inl ⟨rfl, rfl⟩
    · split
      · exact Or.inl ⟨rfl, rfl⟩
      · split
        · exact Or.inl ⟨rfl, rfl⟩
        · exact Or.inr ⟨_, Mem.read_length, rfl, rfl⟩

theorem visit_takes_iff (c : CapInfo) (p : Platform) (m : Mem) : (c.visit p m).handed ≠ none ↔ c.Takes m := by
  cases hawake : c.dspSuspended with
  | true => simp [Takes, hawake, (visit_of_suspended (p := p) hawake).1]
  | false => rw [ne_eq, visit_handed_iff hawake, not_not, Takes, hawake, eq_self, true_and]

theorem visit_state (c : CapInfo) (p : Platform) (m : Mem) : (c.visit p m).cap.dsplogState = c.dsplogState := by
  have hframe := congrArg CapInfo.dsplogState (frame_visit (p := p) (m := m) (c := c))
  exact hframe

theorem visit_finish (c : CapInfo) (p : Platform) (m : Mem) :
    (c.visit p m).cap.dsplogReadFinish = c.dsplogReadFinish := by
  unfold visit
  simp only
  split
  · rfl
  · split
    · rfl
    · split
      · rfl
      · split <;> rfl

end CapInfo

/-! ### All rings are in order -/

namespace CapInfo.Sound
variable {p : Platform} {m : Mem} {c c' : CapInfo}

theorem of_eq (h : c.Sound p) (hring : c'.ringbuf = c.ringbuf) (hstate : c'.dsplogState = c.dsplogState)
    (hfinish : c'.dsplogReadFinish = c.dsplogReadFinish) : c'.Sound p := by
  refine ⟨hring ▸ h.wf, ?_⟩
  rw [hstate, hfinish]
  exact h.unfinished

theorem readRing (h : c.Sound p) (maxSize : Nat) : (c.readRing p maxSize).1.Sound p := by
  rcases c.readRing_cases p maxSize with ⟨result, hr⟩ | ⟨-, hr⟩ | ⟨-, -, hr⟩ | ⟨-, -, hr⟩ <;> rw [hr]
  · exact h
  · exact h
  · exact h.enlist
  · exact h.enlist

theorem visit (h : c.Sound p) : (c.visit p m).cap.Sound p := by
  refine ⟨?_, ?_⟩
  · rcases c.visit_ring p m with ⟨-, hring⟩ | ⟨record, -, -, hring⟩ <;> rw [hring]
    · exact h.wf
    · exact h.wf.add record
  · rw [c.visit_state, c.visit_finish]
    exact h.unfinished

/-- A visit takes nothing out of the ring. -/
theorem visit_le (h : c.Sound p) : (c.ringbuf.queued p).length ≤ ((c.visit p m).cap.ringbuf.queued p).length := by
  rcases c.visit_ring p m with ⟨-, hring⟩ | ⟨record, hrec, -, hring⟩ <;> rw [hring]
  rw [h.wf.add_queued hrec]
  split
  · rw [List.length_append]
    exact Nat.le_add_right _ _
  · exact Nat.le_refl _

theorem alters {d : Driver} {k : Nat} {op : Op} (h : c.Sound p) (ha : d.Alters p k c op c') : c'.Sound p := by
  cases ha with
  | keep => exact h
  | occupy pid => exact h.of_eq rfl rfl rfl
  | start => exact h.start
  | occupyStart f pid => exact (h.of_eq rfl rfl rfl : (c.occupy f pid).Sound p).start
  | stop => exact h.stop
  | @readRing f maxSize => exact h.readRing maxSize
  | @readThrough f maxSize copyOk copy => exact (h.readRing maxSize).readOut copy
  | @readOut i copy => exact h.readOut copy
  | takeToken => exact h.takeToken
  | release =>
    unfold CapInfo.release
    split
    · exact h.of_eq rfl rfl rfl
    · exact h
  | tick hsolo =>
    exact solo_invariant (P := fun s : Service => s.cap.Sound p)
      (fun s hs => by rw [Service.visit_cap]; exact hs.visit) h hsolo
  | suspend => exact h.of_eq rfl rfl rfl
  | resume => exact h.of_eq rfl rfl rfl
  | reset => exact h.of_eq rfl rfl rfl

end CapInfo.Sound

namespace Driver
variable {p : Platform} {d : Driver}

theorem sound (h : (driver p).Reachable d) : ∀ c ∈ d.queue, c.Sound p := by
  have hboth : Registered p d ∧ ∀ c ∈ d.queue, c.Sound p := by
    refine reachable_invariant (I := fun d => Registered p d ∧ ∀ c ∈ d.queue, c.Sound p)
      (fun d hd => ⟨.init hd, by simp [hd.queue]⟩) (fun d op d' r ⟨hreg, hsound⟩ hs => ⟨hreg.step hs, fun c' hc' => ?_⟩) h
    obtain ⟨k, hk⟩ := List.mem_iff_getElem?.mp hc'
    rcases Nat.lt_or_ge k d.queue.length with hlt | hge
    · obtain ⟨c'', hc'', ha⟩ := step_alters (Nat.lt_of_lt_of_le hlt hreg.length_le) (List.getElem?_eq_getElem hlt) hs
      rw [hk] at hc''
      cases hc''
      exact (hsound _ (List.getElem_mem hlt)).alters ha
    · obtain ⟨filp, pid, dspId, ring, -, rfl | rfl⟩ := step_new hs hge hk
      · exact .new
      · exact CapInfo.Sound.new.start
  exact hboth.2

end Driver
/-! ### A tick -/

section Tick
variable {p : Platform} {m : Mem} {c : CapInfo} {n : Nat} {s : Service}

/-- A tick leaves a ring alone that is full, or whose instance has no record to take. -/
theorem tick_keeps (h : c.Sound p) (hkeep : c.ringbuf.full = true ∨ ¬c.Takes m)
    (hsolo : solo (Service.visit p m) n ⟨c, []⟩ = some s) : s.cap.ringbuf.queued p = c.ringbuf.queued p := by
  rcases hkeep with hfull | hdry
  · have hinv : s.cap.Sound p ∧ s.cap.ringbuf.queued p = c.ringbuf.queued p := by
      refine solo_invariant (P := fun s => s.cap.Sound p ∧ s.cap.ringbuf.queued p = c.ringbuf.queued p)
        (fun s ⟨hs, hsame⟩ => ?_) ⟨h, rfl⟩ hsolo
      rw [Service.visit_cap]
      refine ⟨hs.visit, ?_⟩
      rcases s.cap.visit_ring p m with ⟨-, hring⟩ | ⟨record, hrec, -, hring⟩ <;> rw [hring]
      · exact hsame
      · rw [hs.wf.add_queued hrec, hsame, if_neg (h.wf.full_iff_length.mp hfull)]
    exact hinv.2
  · have hnone := not_not.mp ((c.visit_takes_iff p m).not.mpr hdry)
    have hend := solo_of_dry (n := 0) (Service.visit_dry_iff (s := ⟨c, []⟩).mpr hnone)
    obtain rfl := solo_unique hsolo hend
    rw [Service.visit_cap]
    rcases c.visit_ring p m with ⟨-, hring⟩ | ⟨record, -, hbusy, -⟩
    · exact congrArg (RingBuf.queued p) hring
    · rw [hnone] at hbusy
      cases hbusy

/-- A tick of an instance with a record to take and room for it adds to the ring. -/
theorem tick_adds (h : c.Sound p) (hroom : c.ringbuf.full = false) (htakes : c.Takes m)
    (hsolo : solo (Service.visit p m) n ⟨c, []⟩ = some s) :
    (c.ringbuf.queued p).length < (s.cap.ringbuf.queued p).length := by
  rcases c.visit_ring p m with ⟨hnone, -⟩ | ⟨record, hrec, hbusy, hring⟩
  · exact absurd hnone ((c.visit_takes_iff p m).mpr htakes)
  · have hnodry : (Service.visit p m ⟨c, []⟩).2 = false := by
      rw [← Bool.not_eq_true, Service.visit_dry_iff, hbusy]
      simp
    have hlonger : (c.ringbuf.queued p).length < ((Service.visit p m ⟨c, []⟩).1.cap.ringbuf.queued p).length := by
      have hlt := not_not.mp (h.wf.full_iff_length.not.mp (by simp [hroom]))
      rw [Service.visit_cap, hring, h.wf.add_queued hrec, if_pos hlt, List.length_append]
      exact Nat.lt_succ_self _
    cases n with
    | zero => cases hsolo
    | succ n =>
      rw [solo_of_busy hnodry] at hsolo
      have hfirst : (Service.visit p m ⟨c, []⟩).1.cap.Sound p := by
        rw [Service.visit_cap]
        exact h.visit
      have hinv : s.cap.Sound p ∧ (c.ringbuf.queued p).length < (s.cap.ringbuf.queued p).length := by
        refine solo_invariant (P := fun s => s.cap.Sound p ∧ (c.ringbuf.queued p).length < (s.cap.ringbuf.queued p).length)
          (fun s ⟨hs, hlt⟩ => ?_) ⟨hfirst, hlonger⟩ hsolo
        rw [Service.visit_cap]
        exact ⟨hs.visit, Nat.lt_of_lt_of_le hlt hs.visit_le⟩
      exact hinv.2

theorem tick_state (hsolo : solo (Service.visit p m) n ⟨c, []⟩ = some s) : s.cap.dsplogState = c.dsplogState := by
  have hframe := congrArg CapInfo.dsplogState (solo_frame hsolo)
  exact hframe

end Tick
/-! ### Ring reads -/

/-- A driver after the STOP of an instance: the records that were unread then, and the replies of the ring reads
    of the instance since. -/
structure Stopped where
  now : Driver
  left : List (List UInt8)
  replies : List Reply

/-- What the ring reads after the STOP reply: errors, then the bytes that were left, then nothing more. -/
def Flushes (left : List UInt8) : List Reply → Prop
  | [] => True
  | .error _ :: rs => Flushes left rs
  | .bytes bs :: rs => bs = left ∧ ∀ r ∈ rs, r = .bytes []
  | _ :: _ => False

def Op.isRead : Op → Bool
  | .read .. => true
  | _ => false

def Op.isTick : Op → Bool
  | .tick _ => true
  | _ => false

def Reply.isBytes : Reply → Bool
  | .bytes _ => true
  | _ => false

namespace Driver
variable {p : Platform} {d d' : Driver} {k : Nat} {op : Op} {r : Reply} {c : CapInfo}

/-- The operation reads the ring of instance `k`: a read that passes the size checks, or one that has waited. -/
def ReadsRing (p : Platform) (d : Driver) (k : Nat) : Op → Prop
  | .read f maxSize _ _ => d.files f = some ⟨some k, false⟩ ∧ maxSize % dsplogEntrySize = 0 ∧ p.printkBufSize ≤ maxSize
  | .resumeRead i _ => ∃ rd ∈ d.readers[i]?, rd.cap = k
  | _ => False

instance (p : Platform) (d : Driver) (k : Nat) : ∀ op, Decidable (ReadsRing p d k op)
  | .read _ _ _ _ => inferInstanceAs (Decidable (_ ∧ _ ∧ _))
  | .resumeRead i _ => inferInstanceAs (Decidable (∃ rd ∈ d.readers[i]?, rd.cap = k))
  | .openFile .. | .ioctl .. | .wake .. | .close _ | .dspWrite .. | .tick _ | .suspend | .resume | .resetCap =>
    inferInstanceAs (Decidable False)

instance (p : Platform) (d : Driver) (k : Nat) : ∀ op, Decidable (Starts p d k op)
  | .ioctl f (.startCapture pid alloc) => inferInstanceAs (Decidable (∃ context ∈ d.files f,
      (d.dsplogStartCap p f pid alloc context.dsplogPrivData).2.1 = some k))
  | .ioctl _ .stopCapture | .ioctl _ (.setDspCore ..) | .ioctl _ .setLogLevel | .ioctl _ (.getLogLevel _)
  | .ioctl _ .parseLog | .ioctl _ (.getMemoryInfo _) | .ioctl _ (.dumpMemorySnapshot _) | .ioctl _ .other
  | .openFile .. | .read .. | .wake .. | .resumeRead .. | .close _ | .dspWrite .. | .tick _ | .suspend | .resume
  | .resetCap => inferInstanceAs (Decidable False)

theorem ReadsRing.not_tick (h : ReadsRing p d k op) : ¬op.isTick = true := by
  cases op with
  | tick => exact h.elim
  | openFile | ioctl | read | wake | resumeRead | close | dspWrite | suspend | resume | resetCap => exact Bool.false_ne_true

theorem readRing_stopped {maxSize : Nat} (hstopped : c.dsplogState = false) (hmod : maxSize % dsplogEntrySize = 0)
    (hle : p.printkBufSize ≤ maxSize) :
    c.readRing p maxSize = (c, if c.dsplogReadFinish then .exit (.ok []) else .proceed) := by
  have hsize : ¬(maxSize % dsplogEntrySize ≠ 0 ∨ maxSize < p.printkBufSize) := by omega
  rw [CapInfo.readRing, if_neg hsize, hstopped]
  cases c.dsplogReadFinish <;> rfl

/-- A ring read of a stopped instance comes to the ring, or it is told that the log was read to its end. -/
theorem ring_read (hread : ReadsRing p d k op) (hc : d.queue[k]? = some c) (hstopped : c.dsplogState = false)
    (h : d.step p op = some (d', r)) :
    op.isRead = true ∧ c.dsplogReadFinish = true ∧ d'.queue[k]? = some c ∧ r = .bytes [] ∨
    ¬(op.isRead = true ∧ c.dsplogReadFinish = true) ∧
      ∃ copy, d'.queue[k]? = some (c.readOut copy).1 ∧ r = .ofRead (c.readOut copy).2 := by
  have hk := (List.getElem?_eq_some_iff.mp hc).1
  cases op with
  | read f maxSize copyOk copy =>
    obtain ⟨hf, hmod, hle⟩ := hread
    simp only [step, hf, Option.bind_some, ambaDsplogRead, hc, Option.map_some, Option.some.injEq, CapInfo.readEnter,
      Bool.false_eq_true, if_false, readRing_stopped hstopped hmod hle] at h
    cases hfinish : c.dsplogReadFinish <;> rw [hfinish] at h <;> cases h
    · exact Or.inr ⟨by simp, copy, List.getElem?_set_self hk, rfl⟩
    · exact Or.inl ⟨rfl, rfl, List.getElem?_set_self hk, rfl⟩
  | resumeRead i copy =>
    obtain ⟨rd, hrd, rfl⟩ := hread
    obtain ⟨rd', c', hrd', hc', rfl, rfl⟩ := resumeReader_cases h
    obtain rfl : rd' = rd := Option.some.inj (hrd'.symm.trans hrd)
    obtain rfl : c' = c := Option.some.inj (hc'.symm.trans hc)
    exact Or.inr ⟨by simp [Op.isRead], copy, List.getElem?_set_self hk, rfl⟩
  | openFile | ioctl | wake | close | dspWrite | tick | suspend | resume | resetCap => exact hread.elim

/-- Other steps than ring reads and ticks leave the records of a stopped instance alone. -/
theorem other_step (hk : k < p.ucodeCoreNum) (hread : ¬ReadsRing p d k op) (hstart : ¬Starts p d k op)
    (htick : ∀ fuel, op ≠ .tick fuel) (hc : d.queue[k]? = some c) (hstopped : c.dsplogState = false)
    (h : d.step p op = some (d', r)) :
    ∃ c', d'.queue[k]? = some c' ∧ c'.dsplogState = false ∧ c'.ringbuf.queued p = c.ringbuf.queued p := by
  obtain ⟨c', hc', ha⟩ := step_alters hk hc h
  refine ⟨c', hc', ?_⟩
  cases ha with
  | keep => exact ⟨hstopped, rfl⟩
  | occupy pid => exact ⟨hstopped, rfl⟩
  | start hs => exact absurd hs hstart
  | occupyStart f pid hs => exact absurd hs hstart
  | stop => exact ⟨rfl, rfl⟩
  | @readRing f maxSize =>
    rcases c.readRing_cases p maxSize with ⟨result, hr⟩ | ⟨-, hr⟩ | ⟨hstate, -⟩ | ⟨hstate, -⟩
    · rw [hr]
      exact ⟨hstopped, rfl⟩
    · rw [hr]
      exact ⟨hstopped, rfl⟩
    · rw [hstopped] at hstate
      cases hstate
    · rw [hstopped] at hstate
      cases hstate
  | @readThrough f maxSize copyOk copy hf hproceed =>
    refine absurd ⟨hf, ?_⟩ hread
    by_contra hsize
    rw [CapInfo.readRing, if_pos (by omega)] at hproceed
    cases hproceed
  | readOut hrd hcap => exact absurd ⟨_, hrd, hcap⟩ hread
  | takeToken => exact ⟨hstopped, rfl⟩
  | release =>
    unfold CapInfo.release
    split <;> exact ⟨hstopped, rfl⟩
  | tick => exact absurd rfl (htick _)
  | suspend => exact ⟨hstopped, rfl⟩
  | resume => exact ⟨hstopped, rfl⟩
  | reset => exact ⟨hstopped, rfl⟩

end Driver
/-! ### After a STOP -/

namespace Stopped

def step (p : Platform) (k : Nat) (s : Stopped) (op : Op) : Option Stopped :=
  if Driver.Starts p s.now k op then none
  else (s.now.step p op).map fun (d, r) => { s with
    now := d
    replies := if Driver.ReadsRing p s.now k op then s.replies ++ [r] else s.replies }

/-- A file has just stopped instance `k`, in any reachable state of the driver. -/
def Initial (p : Platform) (k : Nat) (s : Stopped) : Prop :=
  ∃ d f r c, (driver p).Reachable d ∧ d.Refers f k ∧ d.queue[k]? = some c ∧
    d.step p (.ioctl f .stopCapture) = some (s.now, r) ∧ s.left = c.ringbuf.queued p ∧ s.replies = []

/-- The ring holds what was left at the STOP until a read has returned it, and nothing after that. -/
structure Frozen (p : Platform) (k : Nat) (s : Stopped) : Prop where
  records : ∀ c, s.now.queue[k]? = some c →
    c.ringbuf.queued p = if s.replies.any Reply.isBytes then [] else s.left
  flushes : Flushes s.left.flatten s.replies

/-- A tick finds the ring of the instance full, or no record for it. A ring read of an instance whose log was read to
    its end before finds the ring empty. -/
def Undisturbed (p : Platform) (k : Nat) (s : Stopped) (op : Op) : Prop :=
  (op.isTick = true → ∀ c ∈ s.now.queue[k]?, c.ringbuf.full = true ∨ ¬c.Takes s.now.mem) ∧
    (op.isRead = true → Driver.ReadsRing p s.now k op → ∀ c ∈ s.now.queue[k]?, c.dsplogReadFinish = true →
      c.ringbuf.readPtr = c.ringbuf.writePtr)

instance (p : Platform) (k : Nat) (s : Stopped) (op : Op) : Decidable (Undisturbed p k s op) :=
  inferInstanceAs (Decidable (_ ∧ _))

end Stopped

/-- The driver after a STOP of instance `k`, up to its next START. -/
def stopped (p : Platform) (k : Nat) : Machine Stopped Op where
  Init := Stopped.Initial p k
  step := Stopped.step p k

theorem flushes_concat {left : List UInt8} {rs : List Reply} {r : Reply} : Flushes left (rs ++ [r]) ↔
    Flushes left rs ∧ if rs.any Reply.isBytes then r = .bytes [] else r = .bytes left ∨ ∃ e, r = .error e := by
  induction rs with
  | nil => cases r <;> simp [Flushes]
  | cons r' rs ih =>
    cases r' with
    | error e =>
      have herror : Reply.isBytes (.error e) = false := rfl
      rw [List.cons_append, Flushes, Flushes, ih, List.any_cons, herror, Bool.false_or]
    | bytes bs => simp [Flushes, Reply.isBytes, or_imp, forall_and, and_assoc]
    | done | level | memInfo | asleep => simp [Flushes]

namespace Stopped
variable {p : Platform} {k : Nat} {s t : Stopped} {op : Op} {c : CapInfo}

structure Inv (p : Platform) (k : Nat) (s : Stopped) : Prop where
  reachable : (driver p).Reachable s.now
  stopped : ∃ c, s.now.queue[k]? = some c ∧ c.dsplogState = false
  frozen : Frozen p k s

theorem Initial.inv (h : Initial p k s) : Inv p k s := by
  obtain ⟨d, f, r, c, hreach, ⟨context, hf, hpriv⟩, hc, hstep, hleft, hreplies⟩ := h
  have hstop : s.now.queue[k]? = some c.stop := by
    simp only [Driver.step, hf, Option.map_some, Driver.ambaDsplogIoctl, hpriv, Option.some.injEq] at hstep
    have hnow : s.now = (d.dsplogStopCap (some k)).1 := (congrArg Prod.fst hstep).symm
    rw [hnow]
    exact (List.getElem?_modify_eq ..).trans (congrArg (Option.map CapInfo.stop) hc)
  refine ⟨Driver.reachable_step hreach hstep, ⟨c.stop, hstop, rfl⟩, ⟨fun c' hc' => ?_, ?_⟩⟩
  · rw [hstop] at hc'
    cases hc'
    rw [hreplies, hleft]
    rfl
  · rw [hreplies]
    trivial

/-! ### Steps -/

namespace Inv

theorem tick (h : Inv p k s) {fuel : Nat} {d' : Driver} {r : Reply} (hs : s.now.step p (.tick fuel) = some (d', r)) :
    (Undisturbed p k s (.tick fuel) → Inv p k { s with now := d' }) ∧
      (¬Undisturbed p k s (.tick fuel) → ¬Frozen p k { s with now := d' }) := by
  obtain ⟨c, hc, hstate⟩ := h.stopped
  have hk := Nat.lt_of_lt_of_le (List.getElem?_eq_some_iff.mp hc).1 (Driver.registered h.reachable).length_le
  have hsound := Driver.sound h.reachable c (List.mem_of_getElem? hc)
  obtain ⟨n, sv, hsolo, hc'⟩ := Driver.tick_serves hs hc hk
  constructor
  · intro hquiet
    refine ⟨Driver.reachable_step h.reachable hs, ⟨sv.cap, hc', (tick_state hsolo).trans hstate⟩,
      ⟨fun c'' hc'' => ?_, h.frozen.flushes⟩⟩
    rw [hc'] at hc''
    cases hc''
    rw [tick_keeps hsound (hquiet.1 rfl c hc) hsolo]
    exact h.frozen.records c hc
  · intro hloud hfrozen
    have hadds : c.ringbuf.full = false ∧ c.Takes s.now.mem := by
      by_contra hnot
      refine hloud ⟨fun _ c' hc' => ?_, fun hread => by cases hread⟩
      obtain rfl : c' = c := Option.some.inj (hc'.symm.trans hc)
      cases hfull : c'.ringbuf.full with
      | true => exact Or.inl rfl
      | false => exact Or.inr fun htakes => hnot ⟨hfull, htakes⟩
    have hlonger := tick_adds hsound hadds.1 hadds.2 hsolo
    rw [hfrozen.records sv.cap hc', h.frozen.records c hc] at hlonger
    exact absurd hlonger (Nat.lt_irrefl _)

theorem ringRead (h : Inv p k s) {d' : Driver} {r : Reply} (hread : Driver.ReadsRing p s.now k op)
    (hs : s.now.step p op = some (d', r)) :
    (Undisturbed p k s op → Inv p k { s with now := d', replies := s.replies ++ [r] }) ∧
      (¬Undisturbed p k s op → ¬Frozen p k { s with now := d', replies := s.replies ++ [r] }) := by
  obtain ⟨c, hc, hstate⟩ := h.stopped
  have hsound := Driver.sound h.reachable c (List.mem_of_getElem? hc)
  have hrecords := h.frozen.records c hc
  have hnext := Driver.reachable_step h.reachable hs
  have keeps {c' : CapInfo} (hc' : d'.queue[k]? = some c') (hstate' : c'.dsplogState = false)
      (hrecords' : c'.ringbuf.queued p = if (s.replies ++ [r]).any Reply.isBytes then [] else s.left)
      (hreply : if s.replies.any Reply.isBytes then r = .bytes [] else r = .bytes s.left.flatten ∨ ∃ e, r = .error e) :
      Inv p k { s with now := d', replies := s.replies ++ [r] } := by
    refine ⟨hnext, ⟨c', hc', hstate'⟩, ⟨fun c'' hc'' => ?_, flushes_concat.mpr ⟨h.frozen.flushes, hreply⟩⟩⟩
    rw [hc'] at hc''
    cases hc''
    exact hrecords'
  rcases Driver.ring_read hread hc hstate hs with ⟨hop, hfinish, hc', rfl⟩ | ⟨hring, copy, hc', rfl⟩
  · -- The log was read to its end before: the read returns nothing, whatever is unread.
    constructor
    · intro hquiet
      have hnone := hsound.wf.queued_eq_nil.mpr (hquiet.2 hop hread c hc hfinish)
      refine keeps hc' hstate ?_ ?_
      · rw [hnone, List.any_append]
        simp [Reply.isBytes]
      · rw [hnone] at hrecords
        split
        · rfl
        · rename_i hfirst
          rw [if_neg hfirst] at hrecords
          rw [← hrecords]
          exact Or.inl rfl
    · intro hloud hfrozen
      have hsome : c.ringbuf.queued p ≠ [] := by
        intro hnone
        refine hloud ⟨fun htick => absurd htick hread.not_tick, fun _ _ c' hc' _ => ?_⟩
        obtain rfl : c' = c := Option.some.inj (hc'.symm.trans hc)
        exact hsound.wf.queued_eq_nil.mp hnone
      have hreply := (flushes_concat.mp hfrozen.flushes).2
      split at hrecords
      · exact hsome hrecords
      · rename_i hfirst
        rw [if_neg hfirst] at hreply
        rcases hreply with hall | ⟨e, herror⟩
        · have hlen := congrArg List.length (Reply.bytes.inj hall)
          rw [← hrecords, RingBuf.flatten_queued_length, List.length_nil, dsplogEntrySize] at hlen
          refine hsome (List.eq_nil_of_length_eq_zero ?_)
          rw [RingBuf.Layout.queued_length]
          omega
        · cases herror
  · have hquiet : Undisturbed p k s op := by
      refine ⟨fun htick => absurd htick hread.not_tick, fun hop _ c' hc' hfinish => ?_⟩
      obtain rfl : c' = c := Option.some.inj (hc'.symm.trans hc)
      exact absurd ⟨hop, hfinish⟩ hring
    refine ⟨fun _ => ?_, fun hnot => absurd hquiet hnot⟩
    by_cases hfirst : s.replies.any Reply.isBytes = true
    · rw [if_pos hfirst] at hrecords
      rw [CapInfo.readOut_of_empty hsound.wf.toLayout hrecords] at hc' keeps ⊢
      refine keeps hc' hstate ?_ ?_
      · rw [CapInfo.emptied_queued, List.any_append, hfirst]
        rfl
      · rw [if_pos hfirst]
        rfl
    · rw [if_neg hfirst] at hrecords
      rcases CapInfo.readOut_cases hsound.wf.toLayout copy with hr | hr <;> rw [hr] at hc' keeps ⊢
      · refine keeps hc' hstate ?_ ?_
        · rw [CapInfo.emptied_queued, List.any_append]
          simp [Reply.isBytes, Reply.ofRead]
        · rw [if_neg hfirst, ← hrecords]
          exact Or.inl rfl
      · refine keeps hc' hstate ?_ ?_
        · rw [List.any_append, eq_false_of_ne_true hfirst, hrecords]
          rfl
        · rw [if_neg hfirst]
          exact Or.inr ⟨_, rfl⟩

end Inv

theorem Inv.step (h : Inv p k s) (hs : Stopped.step p k s op = some t) :
    (Undisturbed p k s op → Inv p k t) ∧ (¬Undisturbed p k s op → ¬Frozen p k t) := by
  simp only [Stopped.step] at hs
  split at hs
  · cases hs
  · rename_i hstart
    obtain ⟨⟨d', r⟩, hstep, rfl⟩ := Option.map_eq_some_iff.mp hs
    by_cases hread : Driver.ReadsRing p s.now k op
    · simp only [hread, if_true]
      exact h.ringRead hread hstep
    · simp only [hread, if_false]
      by_cases htick : op.isTick = true
      · cases op <;> cases htick
        exact h.tick hstep
      · have hquiet : Undisturbed p k s op := ⟨fun h => absurd h htick, fun _ h => absurd h hread⟩
        refine ⟨fun _ => ?_, fun hnot => absurd hquiet hnot⟩
        obtain ⟨c, hc, hstate⟩ := h.stopped
        have hk := Nat.lt_of_lt_of_le (List.getElem?_eq_some_iff.mp hc).1 (Driver.registered h.reachable).length_le
        obtain ⟨c', hc', hstate', hsame⟩ := Driver.other_step hk hread hstart
          (fun fuel heq => htick (by rw [heq]; rfl)) hc hstate hstep
        refine ⟨Driver.reachable_step h.reachable hstep, ⟨c', hc', hstate'⟩, ⟨fun c'' hc'' => ?_, h.frozen.flushes⟩⟩
        rw [hc'] at hc''
        cases hc''
        rw [hsame]
        exact h.frozen.records c hc

/-- Between a STOP of an instance and its next START, the log stays as it was and the first read returns it, exactly
    when no tick and no read disturbs it. -/
theorem frozen_iff {ops : List Op} (h : (stopped p k).Init s) (he : (stopped p k).exec s ops = some t) :
    (∀ x ∈ (stopped p k).visited s ops, Frozen p k x) ↔ ∀ x ∈ (stopped p k).trace s ops, Undisturbed p k x.1 x.2 :=
  Machine.forall_iff_guarded (I := Inv p k) (fun _ _ _ hI hG hs => (hI.step hs).1 hG) (fun _ hI => hI.frozen)
    (fun _ _ _ hI hG hs => (hI.step hs).2 hG) h.inv he

/-- A STOP in a state that the driver reaches leaves what is unread then. -/
theorem init_stop {d d' : Driver} {f : File} {context : Context} {r : Reply} {left : List (List UInt8)}
    (h : (driver p).Reachable d) (hf : d.files f = some context) (hpriv : context.dsplogPrivData = some k)
    (hleft : d.queue[k]?.map (fun c => c.ringbuf.queued p) = some left)
    (hstop : d.step p (.ioctl f .stopCapture) = some (d', r)) : (stopped p k).Init ⟨d', left, []⟩ := by
  obtain ⟨c, hc, hqueued⟩ := Option.map_eq_some_iff.mp hleft
  exact ⟨d, f, r, c, h, ⟨context, hf, hpriv⟩, hc, hstop, hqueued.symm, rfl⟩

/-! ### The timer runs on -/

/-- A START of the other core switches the timer on, and the DSP of the stopped one still writes. -/
def otherStarts : List Op :=
  [.ioctl 1 (.startCapture 11 ⟨false, none⟩), .dspWrite 4096 (IdspPrintf.bytes ⟨1, 0, 9, 0, 0, 0, 0, 0⟩), .tick 4]

/-- Both cores are captured, the first one is stopped, and the second one started again. -/
theorem run_otherStarts : ∃ d d' t,
    (driver (Platform.tiny 2 (by decide))).exec Driver.empty Driver.bothRunning = some d ∧
    d.files 0 = some ⟨some 0, false⟩ ∧
    d.queue[0]?.map (fun c => c.ringbuf.queued (Platform.tiny 2 (by decide))) = some [] ∧
    d.step (Platform.tiny 2 (by decide)) (.ioctl 0 .stopCapture) = some (d', .done) ∧
    (stopped (Platform.tiny 2 (by decide)) 0).exec ⟨d', [], []⟩ otherStarts = some t ∧ t.left = [] ∧ t.replies = [] ∧
    t.now.queue[0]?.map (fun c => (c.ringbuf.queued (Platform.tiny 2 (by decide))).length) = some 1 :=
  ⟨_, _, _, rfl, rfl, rfl, rfl, rfl, rfl, rfl, by decide +kernel⟩

theorem exec_otherStarts : ∃ s t, (stopped (Platform.tiny 2 (by decide)) 0).Init s ∧
    (stopped (Platform.tiny 2 (by decide)) 0).exec s otherStarts = some t ∧ t.left = [] ∧ t.replies = [] ∧
      t.now.queue[0]?.map (fun c => (c.ringbuf.queued (Platform.tiny 2 (by decide))).length) = some 1 := by
  obtain ⟨d, d', t, hexec, hf, hempty, hstop, hrun, hleft, hreplies, hadded⟩ := run_otherStarts
  have hreach := Machine.Reachable.exec (.init Driver.empty_initial) hexec
  exact ⟨⟨d', [], []⟩, t, init_stop hreach hf rfl hempty hstop, hrun, hleft, hreplies, hadded⟩

/-- The tick adds a record to the ring of the stopped core. -/
theorem other_core_adds : ¬∀ s, (stopped (Platform.tiny 2 (by decide)) 0).Reachable s →
    Frozen (Platform.tiny 2 (by decide)) 0 s := by
  intro h
  obtain ⟨s, t, hinit, hexec, hleft, hreplies, hadded⟩ := exec_otherStarts
  obtain ⟨c, hc, hlen⟩ := Option.map_eq_some_iff.mp hadded
  have hrecords := (h t (Machine.Reachable.exec (.init hinit) hexec)).records c hc
  rw [hreplies, hleft] at hrecords
  rw [hrecords] at hlen
  cases hlen

/-! ### The log is read to its end -/

def firstRecord : List UInt8 := IdspPrintf.bytes ⟨1, 0, 9, 0, 0, 0, 0, 0⟩

/-- The timer runs on for the other core and finds the stopped one's ring full; the log is read, and read again. -/
def readToEnd : List Op :=
  [.ioctl 1 (.startCapture 11 ⟨false, none⟩), .dspWrite 4128 (IdspPrintf.bytes ⟨2, 0, 9, 0, 0, 0, 0, 0⟩), .tick 8,
    .read 0 64 true ⟨true, true⟩, .read 0 64 true ⟨true, true⟩]

/-- Both cores are captured, and the first one is stopped with one record in its ring. -/
theorem run_readToEnd : ∃ d d' t,
    (driver (Platform.tiny 2 (by decide))).exec Driver.empty (Driver.bothRunning ++ [.dspWrite 4096 firstRecord, .tick 4]) =
      some d ∧
    d.files 0 = some ⟨some 0, false⟩ ∧
    d.queue[0]?.map (fun c => c.ringbuf.queued (Platform.tiny 2 (by decide))) = some [firstRecord] ∧
    d.step (Platform.tiny 2 (by decide)) (.ioctl 0 .stopCapture) = some (d', .done) ∧
    (stopped (Platform.tiny 2 (by decide)) 0).exec ⟨d', [firstRecord], []⟩ readToEnd = some t ∧
    t.replies = [.bytes firstRecord, .bytes []] :=
  ⟨_, _, _, rfl, rfl, by decide +kernel, rfl, rfl, by decide +kernel⟩

theorem frozen_iff_readToEnd : ∃ s t, s.left = [firstRecord] ∧
    (stopped (Platform.tiny 2 (by decide)) 0).exec s readToEnd = some t ∧ t.replies = [.bytes firstRecord, .bytes []] ∧
    ((∀ x ∈ (stopped (Platform.tiny 2 (by decide)) 0).visited s readToEnd, Frozen (Platform.tiny 2 (by decide)) 0 x) ↔
      ∀ x ∈ (stopped (Platform.tiny 2 (by decide)) 0).trace s readToEnd,
        Undisturbed (Platform.tiny 2 (by decide)) 0 x.1 x.2) := by
  obtain ⟨d, d', t, hexec, hf, hleft, hstop, hrun, hreplies⟩ := run_readToEnd
  have hreach := Machine.Reachable.exec (.init Driver.empty_initial) hexec
  exact ⟨⟨d', [firstRecord], []⟩, t, rfl, hrun, hreplies, frozen_iff (init_stop hreach hf rfl hleft hstop) hrun⟩

end Stopped
end Dsplog
