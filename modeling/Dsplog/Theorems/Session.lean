import Dsplog.Lib.Run
import Dsplog.Theorems.Queue

/-! One reader of one instance over whole histories of START, STOP, reads and pushes. A wait ends by a token
    of the completion, and neither START nor a read takes away a token that is left over. -/

namespace Dsplog
open Bytes Machines

/-- Where the reader is: outside a read, waiting, or woken with the mutex still to take. -/
inductive ReaderPhase where
  | idle
  | blocked
  | woken (interrupted : Bool)
  deriving DecidableEq, Repr

/-- The end of a read that has waited: whether a signal ended the wait, whether the instance was started
    when the read returned, and its result. -/
structure ReadEnd where
  interrupted : Bool
  started : Bool
  result : Except Errno (List UInt8)

/-- An instance with its reader and the ends of the reads that have waited. -/
structure Session where
  cap : CapInfo
  reader : ReaderPhase
  ends : List ReadEnd

inductive SessionEvent where
  | start
  | stop
  | push (r : IdspPrintf)
  | read (maxSize : Nat) (copy : Copy)
  | wake
  | interrupt
  | finish (copy : Copy)
  deriving DecidableEq, Repr

namespace CapInfo

def push (p : Platform) (c : CapInfo) (r : IdspPrintf) : CapInfo :=
  { c with ringbuf := c.ringbuf.dspLogAddToRingBuffer p r.bytes }

def takeToken (c : CapInfo) : CapInfo :=
  { c with ringbuf := { c.ringbuf with fillCompl := c.ringbuf.fillCompl - 1 } }

end CapInfo

namespace Session

def step (p : Platform) (s : Session) : SessionEvent → Option Session
  | .start => some { s with cap := s.cap.start }
  | .stop => some { s with cap := s.cap.stop }
  | .push r => some { s with cap := s.cap.push p r }
  | .read maxSize copy =>
    if s.reader = .idle then
      match s.cap.readRing p maxSize with
      | (c, .exit _) => some { s with cap := c }
      | (c, .proceed) => some { s with cap := (c.readOut copy).1 }
      | (c, .wait) => some { s with cap := c, reader := .blocked }
    else none
  | .wake =>
    if s.reader = .blocked ∧ 0 < s.cap.ringbuf.fillCompl then some { s with cap := s.cap.takeToken, reader := .woken false }
    else none
  | .interrupt =>
    if s.reader = .blocked ∧ s.cap.ringbuf.fillCompl = 0 then some { s with reader := .woken true } else none
  | .finish copy =>
    match s.reader with
    | .woken interrupted => some {
        cap := (s.cap.readOut copy).1
        reader := .idle
        ends := s.ends ++ [⟨interrupted, s.cap.dsplogState, (s.cap.readOut copy).2⟩] }
    | _ => none

end Session

def session (p : Platform) : Machine Session SessionEvent where
  Init s := ∃ filp pid dspId ring, s = ⟨CapInfo.new p filp pid dspId ring, .idle, []⟩
  step := Session.step p

def Session.tinySession : Session := ⟨CapInfo.new (Platform.tiny 1 Nat.one_pos) 0 0 0 0, .idle, []⟩

/-- A session with the driver's own sizes. -/
def Session.freshSession : Session := ⟨CapInfo.new .oneCore 0 0 0 0, .idle, []⟩

/-! ### The instance stays in order -/

/-- The ring is in order, and no started instance is at the end of its log. -/
structure CapInfo.Sound (p : Platform) (c : CapInfo) : Prop where
  wf : c.ringbuf.Wf p
  unfinished : c.dsplogState = true → c.dsplogReadFinish = false

namespace CapInfo.Sound
variable {p : Platform} {c : CapInfo}

theorem new {filp pid ring : Nat} {dspId : UInt32} : (CapInfo.new p filp pid dspId ring).Sound p := by
  have hstart : (CapInfo.new p filp pid dspId ring).ringbuf = (RingBuf.init p ring).restart := rfl
  refine ⟨?_, fun h => rfl⟩
  rw [hstart]
  exact RingBuf.init_layout.restart

theorem start (h : c.Sound p) : c.start.Sound p := ⟨h.wf.toLayout.restart, fun _ => rfl⟩

theorem stop (h : c.Sound p) : c.stop.Sound p :=
  ⟨⟨⟨h.wf.end_eq, h.wf.read, h.wf.write⟩, h.wf.full_iff⟩, fun hstate => by cases hstate⟩

theorem push (h : c.Sound p) (r : IdspPrintf) : (c.push p r).Sound p :=
  ⟨(h.wf.store r.bytes).signal, h.unfinished⟩

theorem enlist (h : c.Sound p) : c.enlist.Sound p :=
  ⟨⟨⟨h.wf.end_eq, h.wf.read, h.wf.write⟩, h.wf.full_iff⟩, h.unfinished⟩

theorem takeToken (h : c.Sound p) : c.takeToken.Sound p :=
  ⟨⟨⟨h.wf.end_eq, h.wf.read, h.wf.write⟩, h.wf.full_iff⟩, h.unfinished⟩

theorem readOut (h : c.Sound p) (copy : Copy) : (c.readOut copy).1.Sound p := by
  rcases CapInfo.readOut_cases h.wf.toLayout copy with hc | hc <;> rw [hc]
  · refine ⟨h.wf.drained, fun hstate => ?_⟩
    have hstate : c.dsplogState = true := hstate
    show (c.dsplogReadFinish || !c.dsplogState) = false
    rw [hstate, h.unfinished hstate]
    rfl
  · exact h

end CapInfo.Sound

/-- How a ring read begins: it ends at once and changes nothing, or it goes on to the ring of a stopped
    instance, or it is counted in as a reader of a started one. -/
theorem CapInfo.readRing_cases (c : CapInfo) (p : Platform) (maxSize : Nat) :
    (∃ result, c.readRing p maxSize = (c, .exit result)) ∨
    c.dsplogState = false ∧ c.readRing p maxSize = (c, .proceed) ∨
    c.dsplogState = true ∧ c.enlist.ringbuf.numReader = 0 ∧ c.readRing p maxSize = (c.enlist, .proceed) ∨
    c.dsplogState = true ∧ c.enlist.ringbuf.numReader ≠ 0 ∧ c.readRing p maxSize = (c.enlist, .wait) := by
  unfold readRing
  split
  · exact Or.inl ⟨_, rfl⟩
  · split
    · exact Or.inl ⟨_, rfl⟩
    · right
      cases hstate : c.dsplogState with
      | false => exact Or.inl ⟨rfl, rfl⟩
      | true =>
        right
        by_cases h0 : c.enlist.ringbuf.numReader = 0
        · exact Or.inl ⟨rfl, h0, by simp [h0]⟩
        · exact Or.inr ⟨rfl, h0, by simp [h0]⟩

theorem Session.readRing_started {p : Platform} {c : CapInfo} (hstate : c.dsplogState = true)
    (hunf : c.dsplogReadFinish = false) :
    c.readRing p p.printkBufSize = (c.enlist, if c.enlist.ringbuf.numReader = 0 then .proceed else .wait) := by
  have hsize : ¬(p.printkBufSize % dsplogEntrySize ≠ 0 ∨ p.printkBufSize < p.printkBufSize) := by
    rw [Platform.printkBufSize, Nat.mul_mod_right]
    omega
  simp only [CapInfo.readRing, if_neg hsize, hunf, hstate, Bool.false_eq_true, if_false, if_true]

theorem RingBuf.store_waits (rb : RingBuf) (record : List UInt8) :
    (rb.store record).numReader = rb.numReader ∧ (rb.store record).fillCompl = rb.fillCompl := by
  cases hfull : rb.full
  · rw [RingBuf.store_of_not_full hfull]
    exact ⟨rfl, rfl⟩
  · rw [RingBuf.store_of_full hfull]
    exact ⟨rfl, rfl⟩

/-- A push takes a counted reader off and may give a token, but only with a ring that is due after it. -/
theorem CapInfo.push_cases (p : Platform) (c : CapInfo) (r : IdspPrintf) :
    (c.ringbuf.numReader = 0 ∨ (c.push p r).ringbuf.due p = false) ∧
        (c.push p r).ringbuf.numReader = c.ringbuf.numReader ∧
        (c.push p r).ringbuf.fillCompl = c.ringbuf.fillCompl ∨
      (c.push p r).ringbuf.due p = true ∧ (c.push p r).ringbuf.numReader = c.ringbuf.numReader - 1 ∧
        (c.push p r).ringbuf.fillCompl =
          if c.ringbuf.numReader - 1 = 0 then c.ringbuf.fillCompl + 1 else c.ringbuf.fillCompl := by
  have hcap : (c.push p r).ringbuf = (c.ringbuf.store r.bytes).signal p := rfl
  have hkept := c.ringbuf.store_waits r.bytes
  rw [hcap]
  rcases (c.ringbuf.store r.bytes).signal_cases p with ⟨hnone, hsig⟩ | ⟨⟨-, hdue⟩, hsig⟩ <;> rw [hsig]
  · rw [hkept.1] at hnone ⊢
    exact Or.inl ⟨hnone, rfl, hkept.2⟩
  · refine Or.inr ⟨hdue, congrArg (· - 1) hkept.1, ?_⟩
    simp only [hkept]

theorem CapInfo.Sound.push_count {p : Platform} {c : CapInfo} (h : c.Sound p) (r : IdspPrintf) :
    (c.push p r).ringbuf.count p = if c.ringbuf.full then c.ringbuf.count p else c.ringbuf.count p + 1 := by
  have hqueued := congrArg List.length (h.wf.toLayout.store_queued r.bytes_length h.wf.full_iff.mpr)
  have hcount : (c.push p r).ringbuf.count p = (c.ringbuf.store r.bytes).count p := by
    rw [← RingBuf.Layout.queued_length, ← RingBuf.Layout.queued_length]
    exact congrArg List.length RingBuf.signal_queued
  rw [hcount, ← RingBuf.Layout.queued_length, hqueued]
  split <;> simp [RingBuf.Layout.queued_length]

namespace Session
variable {p : Platform} {s t : Session} {e : SessionEvent}

theorem sound_step (h : s.cap.Sound p) (hs : s.step p e = some t) : t.cap.Sound p := by
  cases e with
  | start => cases hs; exact h.start
  | stop => cases hs; exact h.stop
  | push r => cases hs; exact h.push r
  | read maxSize copy =>
    simp only [step] at hs
    split at hs
    · rcases s.cap.readRing_cases p maxSize with ⟨result, hr⟩ | ⟨-, hr⟩ | ⟨-, -, hr⟩ | ⟨-, -, hr⟩ <;>
        rw [hr] at hs <;> cases hs
      · exact h
      · exact h.readOut copy
      · exact h.enlist.readOut copy
      · exact h.enlist
    · cases hs
  | wake =>
    simp only [step] at hs
    split at hs <;> cases hs
    exact h.takeToken
  | interrupt =>
    simp only [step] at hs
    split at hs <;> cases hs
    exact h
  | finish copy =>
    simp only [step] at hs
    split at hs <;> cases hs
    exact h.readOut copy

end Session
end Dsplog
