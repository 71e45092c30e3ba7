import Dsplog.Lib.Fifo
import Dsplog.Driver
import Dsplog.Theorems.Ring

/-! The ring of a started instance refines a bounded queue: records pushed by the timer, reads as a whole
    and further starts act on the unread records as on a queue of one record less than the ring has. -/

namespace Dsplog
open Bytes Fifo

namespace RingBuf
variable {p : Platform} {rb : RingBuf}

theorem init_layout {start : Nat} : (init p start).Layout p := by
  have h := p.two_le_printkBufEntries
  have hb : (init p start).Boundary start := by
    simp only [Boundary, init, Platform.printkBufSize, dsplogEntrySize_eq]
    omega
  exact ⟨rfl, hb, hb⟩

theorem Layout.restart (h : rb.Layout p) : rb.restart.Wf p := by
  refine ⟨⟨h.end_eq, h.write, h.write⟩, ?_⟩
  have h2 := p.two_le_printkBufEntries
  have hc : rb.restart.count p = 0 := Cyclic.distance_self
  rw [hc]
  simp only [RingBuf.restart, Bool.false_eq_true, false_iff]
  omega

theorem queued_of_eq (h : rb.readPtr = rb.writePtr) : rb.queued p = [] := by
  simp [queued, between, span, h]

@[simp] theorem restart_queued : rb.restart.queued p = [] := queued_of_eq rfl

theorem Wf.drained (h : rb.Wf p) : (rb.commit rb.writePtr).clearFull.Wf p := by
  have h2 := p.two_le_printkBufEntries
  refine ⟨⟨h.end_eq, h.write, h.write⟩, ?_⟩
  have hc : (rb.commit rb.writePtr).clearFull.count p = 0 := Cyclic.distance_self
  rw [hc]
  simp only [clearFull, Bool.false_eq_true, false_iff]
  omega

end RingBuf

/-- What others do to an instance between two reads, or while its reader waits. -/
inductive Arrival where
  | add (r : IdspPrintf)
  | start
  deriving DecidableEq, Repr

/-- An operation on a started instance: an arrival, or a complete read with the log memory it sees, its
    size and snapshot flag, the outcome of its copies, and what arrives while it waits. -/
inductive RingOp where
  | arrive (a : Arrival)
  | read (m : Mem) (maxSize : Nat) (dump copyOk : Bool) (copy : Copy) (meanwhile : List Arrival)

/-- What a read returns, and whether it waited for the timer; other operations return nothing. -/
structure Outcome where
  waited : Bool
  value : Except Errno (List UInt8)

def Entered.waits : Entered → Bool
  | .wait => true
  | _ => false

namespace CapInfo

def arrive (p : Platform) (c : CapInfo) : Arrival → CapInfo
  | .add r => { c with ringbuf := c.ringbuf.dspLogAddToRingBuffer p r.bytes }
  | .start => c.start

def ringOp (p : Platform) (c : CapInfo) : RingOp → CapInfo × Option Outcome
  | .arrive a => (c.arrive p a, none)
  | .read m maxSize dump copyOk copy meanwhile =>
    let (c', _, result) := c.dsplogRead p m maxSize dump copyOk copy fun c => meanwhile.foldl (arrive p) c
    (c', some ⟨(c.readEnter p m maxSize dump copyOk).2.2.waits, result⟩)

def ringOps (p : Platform) (c : CapInfo) : List RingOp → CapInfo × List (Option Outcome)
  | [] => (c, [])
  | op :: ops => (((c.ringOp p op).1.ringOps p ops).1, (c.ringOp p op).2 :: ((c.ringOp p op).1.ringOps p ops).2)

end CapInfo

/-! ### The abstract queue -/

/-- The queue that the ring stands for: one record less than the ring has slots. -/
abbrev RecordQueue (p : Platform) : Type := Queue (List UInt8) (p.printkBufEntries - 1)

namespace RecordQueue
variable {p : Platform}

def arrive (q : RecordQueue p) : Arrival → RecordQueue p
  | .add r => q.add r.bytes
  | .start => .empty

/-- The queue that a read finds: what arrives while it waits comes first. -/
def found (q : RecordQueue p) (waited : Bool) (meanwhile : List Arrival) : RecordQueue p :=
  if waited then meanwhile.foldl arrive q else q

/-- What an operation may do to the queue and return. A ring read takes all records that it finds, or
    fails and leaves them. A memory snapshot leaves the queue alone. -/
inductive Does : RecordQueue p → RingOp → Option Outcome → RecordQueue p → Prop
  | arrive (q : RecordQueue p) (a : Arrival) : Does q (.arrive a) none (q.arrive a)
  | snapshot (q : RecordQueue p) (m : Mem) (maxSize : Nat) (copyOk : Bool) (copy : Copy) (meanwhile : List Arrival)
      (value : Except Errno (List UInt8)) :
      Does q (.read m maxSize true copyOk copy meanwhile) (some ⟨false, value⟩) q
  | taken {q q' : RecordQueue p} (m : Mem) {maxSize : Nat} (copyOk : Bool) (copy : Copy) {meanwhile : List Arrival}
      {waited : Bool} (found : q' = q.found waited meanwhile)
      (whole : q'.items.flatten.length % dsplogEntrySize = 0)
      (bound : q'.items.flatten.length ≤ dsplogEntrySize * (p.printkBufEntries - 1))
      (fits : dsplogEntrySize * (p.printkBufEntries - 1) < maxSize) :
      Does q (.read m maxSize false copyOk copy meanwhile) (some ⟨waited, .ok q'.items.flatten⟩) .empty
  | failed {q q' : RecordQueue p} (m : Mem) (maxSize : Nat) (copyOk : Bool) (copy : Copy) {meanwhile : List Arrival}
      {waited : Bool} (e : Errno) (found : q' = q.found waited meanwhile) :
      Does q (.read m maxSize false copyOk copy meanwhile) (some ⟨waited, .error e⟩) q'

inductive Run : RecordQueue p → List RingOp → List (Option Outcome) → RecordQueue p → Prop
  | nil (q : RecordQueue p) : Run q [] [] q
  | cons {q q' q'' : RecordQueue p} {op : RingOp} {ops : List RingOp} {r : Option Outcome} {rs : List (Option Outcome)}
      (does : Does q op r q') (rest : Run q' ops rs q'') : Run q (op :: ops) (r :: rs) q''

end RecordQueue

/-! ### The refinement -/

/-- A started instance whose ring is in order and holds the records of `q`. -/
structure Holds (p : Platform) (c : CapInfo) (q : RecordQueue p) : Prop where
  wf : c.ringbuf.Wf p
  started : c.dsplogState = true
  unfinished : c.dsplogReadFinish = false
  items : c.ringbuf.queued p = q.items
  records : ∀ x ∈ q.items, x.length = dsplogEntrySize

namespace Holds
variable {p : Platform} {c : CapInfo} {q : RecordQueue p}

theorem start (h : c.ringbuf.Layout p) : Holds p c.start .empty where
  wf := h.restart
  started := rfl
  unfinished := rfl
  items := RingBuf.restart_queued
  records := by simp

theorem arrive (h : Holds p c q) (a : Arrival) : Holds p (c.arrive p a) (RecordQueue.arrive q a) := by
  cases a with
  | start => exact Holds.start h.wf.toLayout
  | add r =>
    refine ⟨(h.wf.store r.bytes).signal, h.started, h.unfinished, ?_, Queue.add_forall h.records r.bytes_length⟩
    show ((c.ringbuf.store r.bytes).signal p).queued p = (Queue.add q r.bytes).items
    rw [RingBuf.signal_queued, h.wf.store_queued r.bytes_length, Queue.add_items, h.items]

theorem arrivals (h : Holds p c q) (as : List Arrival) :
    Holds p (as.foldl (CapInfo.arrive p) c) (as.foldl RecordQueue.arrive q) := by
  induction as generalizing c q with
  | nil => exact h
  | cons a as ih => exact ih (h.arrive a)

theorem flatten_length (h : Holds p c q) : q.items.flatten.length = dsplogEntrySize * q.items.length := by
  have hl : q.items.map List.length = List.replicate q.items.length dsplogEntrySize :=
    List.eq_replicate_iff.mpr ⟨by simp, by simpa using h.records⟩
  rw [List.length_flatten, hl, List.sum_replicate_nat, Nat.mul_comm]

theorem enlist (h : Holds p c q) : Holds p c.enlist q :=
  ⟨⟨⟨h.wf.end_eq, h.wf.read, h.wf.write⟩, h.wf.full_iff⟩, h.started, h.unfinished, h.items, h.records⟩

theorem readOut (h : Holds p c q) (copy : Copy) :
    ((c.readOut copy).2 = .ok q.items.flatten ∧ Holds p (c.readOut copy).1 .empty) ∨
      ((c.readOut copy).2 = .error .efault ∧ (c.readOut copy).1 = c) := by
  rcases CapInfo.readOut_cases h.wf.toLayout copy with hc | hc <;> rw [hc]
  · refine Or.inl ⟨by rw [h.items], h.wf.drained, h.started, ?_, RingBuf.queued_of_eq rfl, by simp⟩
    show (c.dsplogReadFinish || !c.dsplogState) = false
    rw [h.started, h.unfinished]
    rfl
  · exact Or.inr ⟨rfl, rfl⟩

/-- A complete read does to the unread records what the queue allows. -/
theorem read (h : Holds p c q) (m : Mem) (maxSize : Nat) (dump copyOk : Bool) (copy : Copy)
    (meanwhile : List Arrival) :
    ∃ q', RecordQueue.Does q (.read m maxSize dump copyOk copy meanwhile)
        (c.ringOp p (.read m maxSize dump copyOk copy meanwhile)).2 q' ∧
      Holds p (c.ringOp p (.read m maxSize dump copyOk copy meanwhile)).1 q' := by
  cases dump with
  | true => exact ⟨q, .snapshot .., h⟩
  | false =>
    have h2 := p.two_le_printkBufEntries
    -- The end of a read that has passed the size check, on an instance that holds `q'`.
    have finish : ∀ {c' : CapInfo} {q' : RecordQueue p} {waited : Bool}, Holds p c' q' → p.printkBufSize ≤ maxSize →
        q' = q.found waited meanwhile →
        ∃ q'', RecordQueue.Does q (.read m maxSize false copyOk copy meanwhile) (some ⟨waited, (c'.readOut copy).2⟩)
          q'' ∧ Holds p (c'.readOut copy).1 q'' := by
      intro c' q' waited h' hmax hq'
      have hlen := h'.flatten_length
      have hle := q'.le
      simp only [Platform.printkBufSize, dsplogEntrySize_eq] at hmax hlen
      rcases h'.readOut copy with ⟨hres, hholds⟩ | ⟨hres, hc⟩
      · rw [hres]
        exact ⟨.empty, .taken m copyOk copy hq' (by rw [hlen, dsplogEntrySize_eq]; omega)
          (by rw [hlen, dsplogEntrySize_eq]; omega) (by rw [dsplogEntrySize_eq]; omega), hholds⟩
      · rw [hres, hc]
        exact ⟨q', .failed m maxSize copyOk copy .efault hq', h'⟩
    by_cases hsize : maxSize % dsplogEntrySize ≠ 0 ∨ maxSize < p.printkBufSize
    · refine ⟨q, ?_⟩
      simp only [CapInfo.ringOp, CapInfo.dsplogRead, CapInfo.readEnter, CapInfo.readRing, if_pos hsize]
      exact ⟨.failed m maxSize copyOk copy .einval rfl, h⟩
    · simp only [CapInfo.ringOp, CapInfo.dsplogRead, CapInfo.readEnter, CapInfo.readRing, if_neg hsize,
        h.started, h.unfinished, Bool.false_eq_true, if_false, if_true]
      have hmax : p.printkBufSize ≤ maxSize := Nat.le_of_not_lt fun hlt => hsize (Or.inr hlt)
      by_cases hn : c.enlist.ringbuf.numReader = 0
      · rw [if_pos hn]
        exact finish h.enlist hmax rfl
      · rw [if_neg hn]
        exact finish (h.enlist.arrivals meanwhile) hmax rfl

theorem ringOp (h : Holds p c q) (op : RingOp) :
    ∃ q', RecordQueue.Does q op (c.ringOp p op).2 q' ∧ Holds p (c.ringOp p op).1 q' := by
  cases op with
  | arrive a => exact ⟨_, .arrive q a, h.arrive a⟩
  | read m maxSize dump copyOk copy meanwhile => exact h.read m maxSize dump copyOk copy meanwhile

theorem ringOps (h : Holds p c q) (ops : List RingOp) :
    ∃ q', RecordQueue.Run q ops (c.ringOps p ops).2 q' ∧ Holds p (c.ringOps p ops).1 q' := by
  induction ops generalizing c q with
  | nil => exact ⟨q, .nil q, h⟩
  | cons op ops ih =>
    obtain ⟨q', hdoes, h'⟩ := h.ringOp op
    obtain ⟨q'', hrun, h''⟩ := ih h'
    exact ⟨q'', .cons hdoes hrun, h''⟩

end Holds

/-- The ring of an instance that was initialised and started refines a bounded queue under any sequence
    of pushes, complete reads and further starts: the pointers stay on record boundaries, the full flag
    is set exactly when one slot is left, and every operation returns and leaves what the queue does. -/
theorem ring_refines_queue (p : Platform) (c : CapInfo) (start : Nat) (ops : List RingOp) :
    let c₀ := ({ c with ringbuf := RingBuf.init p start } : CapInfo).start
    let rb := (c₀.ringOps p ops).1.ringbuf
    (rb.Boundary rb.readPtr ∧ rb.Boundary rb.writePtr) ∧
      (rb.full = true ↔ (rb.queued p).length = p.printkBufEntries - 1) ∧
      ∃ q : RecordQueue p, q.items = rb.queued p ∧ RecordQueue.Run .empty ops (c₀.ringOps p ops).2 q := by
  intro c₀ rb
  have h₀ : Holds p c₀ .empty := Holds.start (c := { c with ringbuf := RingBuf.init p start }) RingBuf.init_layout
  obtain ⟨q, hrun, h⟩ := h₀.ringOps ops
  refine ⟨⟨h.wf.read, h.wf.write⟩, ?_, q, h.items.symm, hrun⟩
  rw [RingBuf.Layout.queued_length]
  exact h.wf.full_iff

end Dsplog
