import Dsplog.Lib.Run
import Dsplog.Driver

/-! The wake-up of readers: any number of threads that read one instance, the timer, START, STOP and
    signals, as atomic steps on `num_reader` and on the tokens of the completion. A push takes one reader off
    the count but gives a token only for the last, and START and STOP forget the readers counted so far. -/

namespace Dsplog
open Machines

/-- How far a call of `dsp_log_add_to_ring_buffer` has got with its readers. -/
inductive PushPhase where
  | idle
  | armed
  | signalling
  deriving DecidableEq, Repr

/-- The reader count and the completion of an instance, the readers between their increment and the end of
    their wait, and the calls that are half-way. -/
structure Waiting where
  numReader : Int32
  tokens : Nat
  blocked : Nat
  push : PushPhase
  stopping : Bool

/-- The atomic steps. `pushTest` carries whether the ring is full or beyond the threshold. -/
inductive WaitEvent where
  | readEnter
  | waitDone
  | waitSignal
  | pushTest (due : Bool)
  | pushDec
  | pushComplete
  | start
  | stopSet
  | stopComplete
  deriving DecidableEq, Repr

namespace Waiting

/-- READ, START and STOP hold the mutex, and STOP has deleted the timer before it sets the count. -/
def step (s : Waiting) : WaitEvent → Option Waiting
  | .readEnter =>
    if s.stopping then none
    else
      let n := s.numReader + 1
      some { s with numReader := n, blocked := if n = 0 then s.blocked else s.blocked + 1 }
  | .waitDone =>
    if 0 < s.blocked ∧ 0 < s.tokens then some { s with blocked := s.blocked - 1, tokens := s.tokens - 1 } else none
  | .waitSignal => if 0 < s.blocked then some { s with blocked := s.blocked - 1 } else none
  | .pushTest due =>
    if s.push = .idle ∧ s.stopping = false then
      some { s with push := if s.numReader ≠ 0 ∧ due then .armed else .idle }
    else none
  | .pushDec =>
    if s.push = .armed then
      let n := s.numReader - 1
      some { s with numReader := n, push := if n = 0 then .signalling else .idle }
    else none
  | .pushComplete => if s.push = .signalling then some { s with tokens := s.tokens + 1, push := .idle } else none
  | .start => if s.stopping then none else some { s with numReader := 0 }
  | .stopSet =>
    if s.push = .idle ∧ s.stopping = false then some { s with numReader := 0, stopping := true } else none
  | .stopComplete => if s.stopping then some { s with tokens := s.tokens + 1, stopping := false } else none

end Waiting

def waiting : Machine Waiting WaitEvent where
  Init s := s = ⟨0, 0, 0, .idle, false⟩
  step := Waiting.step

namespace Waiting
variable {s t : Waiting} {e : WaitEvent}

/-! ### The steps of the driver's functions -/

/-- The counters of a ring, between two calls. -/
def ofRing (rb : RingBuf) (blocked : Nat) : Waiting := ⟨rb.numReader, rb.fillCompl, blocked, .idle, false⟩

/-- A push tests, and then takes a reader off the count, and then completes, as far as it gets. -/
theorem exec_signal (p : Platform) (rb : RingBuf) (blocked : Nat) :
    ∃ es ∈ [[WaitEvent.pushTest (rb.due p)], [.pushTest (rb.due p), .pushDec],
      [.pushTest (rb.due p), .pushDec, .pushComplete]],
      waiting.exec (ofRing rb blocked) es = some (ofRing (rb.signal p) blocked) := by
  by_cases h0 : rb.numReader = 0
  · refine ⟨[.pushTest (rb.due p)], by simp, ?_⟩
    simp [Machine.exec, waiting, step, ofRing, RingBuf.signal, h0]
  · cases hdue : rb.due p with
    | false =>
      refine ⟨[.pushTest false], by simp, ?_⟩
      simp [Machine.exec, waiting, step, ofRing, RingBuf.signal, h0, hdue]
    | true =>
      by_cases h1 : rb.numReader - 1 = 0
      · refine ⟨[.pushTest true, .pushDec, .pushComplete], by simp, ?_⟩
        simp [Machine.exec, waiting, step, ofRing, RingBuf.signal, RingBuf.release, h0, h1, hdue]
      · refine ⟨[.pushTest true, .pushDec], by simp, ?_⟩
        simp [Machine.exec, waiting, step, ofRing, RingBuf.signal, RingBuf.release, h0, h1, hdue]

theorem exec_restart (rb : RingBuf) (blocked : Nat) :
    waiting.exec (ofRing rb blocked) [.start] = some (ofRing rb.restart blocked) := rfl

theorem exec_flush (rb : RingBuf) (blocked : Nat) :
    waiting.exec (ofRing rb blocked) [.stopSet, .stopComplete] = some (ofRing rb.flush blocked) := rfl

theorem exec_enlist (c : CapInfo) (blocked : Nat) : waiting.exec (ofRing c.ringbuf blocked) [.readEnter] =
    some (ofRing c.enlist.ringbuf (if c.enlist.ringbuf.numReader = 0 then blocked else blocked + 1)) := rfl

/-! ### The readers are accounted for -/

def Quiet (s : Waiting) : Prop := s.push = .idle ∧ s.stopping = false

/-- The count is not negative, and between the calls every blocked reader is counted or has a token. -/
def WakesUp (s : Waiting) : Prop :=
  0 ≤ s.numReader.toInt ∧ (s.Quiet → (s.blocked : Int) ≤ s.numReader.toInt + s.tokens)

/-- The tokens that the calls half-way are about to give. -/
def owed (s : Waiting) : Nat := (if s.push = .signalling then 1 else 0) + if s.stopping then 1 else 0

/-- A reader does not overflow the count; a push takes off the last counted reader, or one that no blocked
    reader depends on; START and STOP find no blocked reader without a token, except the one whom STOP's own
    token releases. -/
def Orderly (s : Waiting) : WaitEvent → Prop
  | .readEnter => s.numReader.toInt < 2147483647
  | .pushDec => 0 < s.numReader.toInt ∧ (s.numReader.toInt = 1 ∨ (s.blocked : Int) < s.numReader.toInt + s.tokens)
  | .start => s.blocked ≤ s.tokens + s.owed
  | .stopSet => s.blocked ≤ s.tokens + 1
  | _ => True

instance : ∀ (s : Waiting) (e : WaitEvent), Decidable (Orderly s e)
  | s, .readEnter => inferInstanceAs (Decidable (s.numReader.toInt < 2147483647))
  | s, .pushDec => inferInstanceAs (Decidable (0 < s.numReader.toInt ∧
      (s.numReader.toInt = 1 ∨ (s.blocked : Int) < s.numReader.toInt + s.tokens)))
  | s, .start => inferInstanceAs (Decidable (s.blocked ≤ s.tokens + s.owed))
  | s, .stopSet => inferInstanceAs (Decidable (s.blocked ≤ s.tokens + 1))
  | _, .waitDone | _, .waitSignal | _, .pushTest _ | _, .pushComplete | _, .stopComplete => inferInstanceAs (Decidable True)

theorem succ_toInt {n : Int32} (h0 : 0 ≤ n.toInt) (h : n.toInt < 2147483647) : (n + 1).toInt = n.toInt + 1 := by
  rw [Int32.toInt_add]
  exact Int.bmod_eq_of_le (by simp; omega) (by simp; omega)

theorem pred_toInt {n : Int32} (h : 0 ≤ n.toInt) : (n - 1).toInt = n.toInt - 1 := by
  have hlt := n.toInt_lt
  rw [Int32.toInt_sub]
  exact Int.bmod_eq_of_le (by simp; omega) (by simp; omega)

theorem eq_zero_iff {n : Int32} : n = 0 ↔ n.toInt = 0 := Int32.toInt_inj.symm

/-- Every blocked reader is counted, has a token, or is owed one. -/
structure Inv (s : Waiting) : Prop where
  nonneg : 0 ≤ s.numReader.toInt
  le : (s.blocked : Int) ≤ s.numReader.toInt + s.tokens + s.owed
  alone : s.stopping = true → s.push = .idle

namespace Inv

theorem init (h : s = ⟨0, 0, 0, .idle, false⟩) : Inv s := by
  subst h
  exact ⟨Int.le_refl 0, Int.le_refl 0, fun _ => rfl⟩

theorem wakesUp (h : Inv s) : WakesUp s := by
  refine ⟨h.nonneg, fun ⟨hpush, hstop⟩ => ?_⟩
  have hle := h.le
  simpa [owed, hpush, hstop] using hle

theorem readEnter (h : Inv s) (hG : s.numReader.toInt < 2147483647) : Inv { s with
    numReader := s.numReader + 1
    blocked := if s.numReader + 1 = 0 then s.blocked else s.blocked + 1 } := by
  obtain ⟨hpos, hle, halone⟩ := h
  have hnext := succ_toInt hpos hG
  have hne : s.numReader + 1 ≠ 0 := fun h0 => by
    have := eq_zero_iff.mp h0
    omega
  rw [if_neg hne]
  refine ⟨?_, ?_, halone⟩
  · show 0 ≤ (s.numReader + 1).toInt
    omega
  · show ((s.blocked + 1 : Nat) : Int) ≤ (s.numReader + 1).toInt + s.tokens + s.owed
    omega

theorem waitDone (h : Inv s) (htok : 0 < s.tokens) (hblocked : 0 < s.blocked) :
    Inv { s with blocked := s.blocked - 1, tokens := s.tokens - 1 } := by
  obtain ⟨hpos, hle, halone⟩ := h
  refine ⟨hpos, ?_, halone⟩
  show ((s.blocked - 1 : Nat) : Int) ≤ s.numReader.toInt + (s.tokens - 1 : Nat) + s.owed
  omega

theorem waitSignal (h : Inv s) : Inv { s with blocked := s.blocked - 1 } := by
  obtain ⟨hpos, hle, halone⟩ := h
  refine ⟨hpos, ?_, halone⟩
  show ((s.blocked - 1 : Nat) : Int) ≤ s.numReader.toInt + s.tokens + s.owed
  omega

theorem pushTest (h : Inv s) (hidle : s.push = .idle) (hstop : s.stopping = false) {push : PushPhase}
    (hpush : push ≠ .signalling) :
    Inv { s with push := push } := by
  obtain ⟨hpos, hle, halone⟩ := h
  have howed : owed { s with push := push } = s.owed := by simp [owed, hidle, hpush]
  refine ⟨hpos, howed ▸ hle, fun hon => ?_⟩
  have hon : s.stopping = true := hon
  rw [hstop] at hon
  cases hon

theorem pushDec (h : Inv s) (harmed : s.push = .armed) (hG : Orderly s .pushDec) : Inv { s with
    numReader := s.numReader - 1
    push := if s.numReader - 1 = 0 then .signalling else .idle } := by
  obtain ⟨hpos, hle, halone⟩ := h
  obtain ⟨hn, hcase⟩ := hG
  have hprev := pred_toInt hpos
  have hzero : s.numReader - 1 = 0 ↔ (s.numReader - 1).toInt = 0 := eq_zero_iff
  refine ⟨?_, ?_, fun hon => ?_⟩
  · show 0 ≤ (s.numReader - 1).toInt
    omega
  · by_cases h0 : s.numReader - 1 = 0
    · have howed : owed { s with numReader := s.numReader - 1, push := .signalling } = s.owed + 1 := by
        simp [owed, harmed, Nat.add_comm]
      have h0' := hzero.mp h0
      rw [if_pos h0, howed]
      show (s.blocked : Int) ≤ (s.numReader - 1).toInt + s.tokens + (s.owed + 1 : Nat)
      omega
    · have h0' : (s.numReader - 1).toInt ≠ 0 := fun h => h0 (hzero.mpr h)
      have howed : owed { s with numReader := s.numReader - 1, push := .idle } = s.owed := by simp [owed, harmed]
      rw [if_neg h0, howed]
      show (s.blocked : Int) ≤ (s.numReader - 1).toInt + s.tokens + s.owed
      omega
  · have hidle := halone hon
    rw [harmed] at hidle
    cases hidle

theorem pushComplete (h : Inv s) (hsig : s.push = .signalling) :
    Inv { s with tokens := s.tokens + 1, push := .idle } := by
  obtain ⟨hpos, hle, halone⟩ := h
  have howed : s.owed = owed { s with tokens := s.tokens + 1, push := .idle } + 1 := by
    simp [owed, hsig, Nat.add_comm]
  refine ⟨hpos, ?_, fun _ => rfl⟩
  show (s.blocked : Int) ≤ s.numReader.toInt + (s.tokens + 1 : Nat) +
    (owed { s with tokens := s.tokens + 1, push := .idle } : Nat)
  omega

theorem start (h : Inv s) (hG : s.blocked ≤ s.tokens + s.owed) : Inv { s with numReader := 0 } := by
  refine ⟨Int.le_refl 0, ?_, h.alone⟩
  show (s.blocked : Int) ≤ 0 + s.tokens + s.owed
  omega

theorem stopSet (hidle : s.push = .idle) (hG : s.blocked ≤ s.tokens + 1) :
    Inv { s with numReader := 0, stopping := true } := by
  have howed : 1 ≤ owed { s with numReader := 0, stopping := true } := Nat.le_add_left 1 _
  refine ⟨Int.le_refl 0, ?_, fun _ => hidle⟩
  show (s.blocked : Int) ≤ 0 + s.tokens + (owed { s with numReader := 0, stopping := true } : Nat)
  omega

theorem stopComplete (h : Inv s) (hstop : s.stopping = true) :
    Inv { s with tokens := s.tokens + 1, stopping := false } := by
  obtain ⟨hpos, hle, halone⟩ := h
  have howed : s.owed = owed { s with tokens := s.tokens + 1, stopping := false } + 1 := by simp [owed, hstop]
  refine ⟨hpos, ?_, fun _ => halone hstop⟩
  show (s.blocked : Int) ≤ s.numReader.toInt + (s.tokens + 1 : Nat) +
    (owed { s with tokens := s.tokens + 1, stopping := false } : Nat)
  omega

theorem step (h : Inv s) (hG : Orderly s e) (hs : s.step e = some t) : Inv t := by
  cases e <;> simp only [Waiting.step] at hs <;> split at hs <;> cases hs
  case readEnter => exact h.readEnter hG
  case waitDone hcan => exact h.waitDone hcan.2 hcan.1
  case waitSignal => exact h.waitSignal
  case pushTest hcan => exact h.pushTest hcan.1 hcan.2 (by split <;> simp)
  case pushDec harmed => exact h.pushDec harmed hG
  case pushComplete hsig => exact h.pushComplete hsig
  case start => exact h.start hG
  case stopSet hcan => exact stopSet hcan.1 hG
  case stopComplete hstop => exact h.stopComplete hstop

theorem breaks (h : Inv s) (hG : ¬Orderly s e) (hs : s.step e = some t) :
    ∃ es u, waiting.exec t es = some u ∧ ¬WakesUp u := by
  obtain ⟨hpos, -, halone⟩ := h
  cases e with
  | readEnter =>
    have hmax : s.numReader = 2147483647 := by
      have hlt := s.numReader.toInt_lt
      have hge : ¬s.numReader.toInt < 2147483647 := hG
      exact Int32.toInt_inj.mp (by show s.numReader.toInt = 2147483647; omega)
    simp only [Waiting.step] at hs
    split at hs <;> cases hs
    refine ⟨[], _, rfl, fun hwakes => ?_⟩
    have hneg : 0 ≤ (s.numReader + 1).toInt := hwakes.1
    rw [hmax] at hneg
    exact absurd hneg (by decide)
  | pushDec =>
    simp only [Waiting.step] at hs
    split at hs <;> cases hs
    rename_i harmed
    have hstop : s.stopping = false := by
      cases hstop : s.stopping with
      | false => rfl
      | true =>
        rw [halone hstop] at harmed
        cases harmed
    have hprev := pred_toInt hpos
    refine ⟨[], _, rfl, fun ⟨hpos', hle⟩ => ?_⟩
    have hpos' : 0 ≤ (s.numReader - 1).toInt := hpos'
    have hG : ¬(0 < s.numReader.toInt ∧
      (s.numReader.toInt = 1 ∨ (s.blocked : Int) < s.numReader.toInt + s.tokens)) := hG
    have hne : ¬s.numReader - 1 = 0 := fun h0 => by
      have := eq_zero_iff.mp h0
      omega
    have hle : (s.blocked : Int) ≤ (s.numReader - 1).toInt + s.tokens := hle ⟨if_neg hne, hstop⟩
    omega
  | start =>
    have hG : ¬s.blocked ≤ s.tokens + s.owed := hG
    simp only [Waiting.step] at hs
    split at hs <;> cases hs
    rename_i hstop
    have hstop : s.stopping = false := by simpa using hstop
    cases hpush : s.push with
    | idle =>
      refine ⟨[], _, rfl, fun ⟨_, hle⟩ => ?_⟩
      have hle : (s.blocked : Int) ≤ 0 + s.tokens := hle ⟨rfl, hstop⟩
      have howed : s.owed = 0 := by simp [owed, hpush, hstop]
      omega
    | armed =>
      refine ⟨[.pushDec], _, rfl, fun hwakes => ?_⟩
      have hneg : 0 ≤ ((0 : Int32) - 1).toInt := hwakes.1
      exact absurd hneg (by decide)
    | signalling =>
      refine ⟨[.pushComplete], _, rfl, fun ⟨_, hle⟩ => ?_⟩
      have hle : (s.blocked : Int) ≤ 0 + (s.tokens + 1 : Nat) := hle ⟨rfl, hstop⟩
      have howed : s.owed = 1 := by simp [owed, hpush, hstop]
      omega
  | stopSet =>
    have hG : ¬s.blocked ≤ s.tokens + 1 := hG
    simp only [Waiting.step] at hs
    split at hs <;> cases hs
    rename_i hidle
    refine ⟨[.stopComplete], _, rfl, fun ⟨_, hle⟩ => ?_⟩
    have hle : (s.blocked : Int) ≤ 0 + (s.tokens + 1 : Nat) := hle ⟨hidle.1, rfl⟩
    omega
  | waitDone | waitSignal | pushTest due | pushComplete | stopComplete => exact absurd trivial hG

end Inv

/-- In a run of orderly steps every reader that waits is counted or has a token, so none is left waiting with
    nobody to wake it; and after any other step the account may come out wrong. -/
theorem wakes_up_exact (h : (waiting.guard Orderly).Reachable s) : WakesUp s ∧
    ∀ e t, ¬Orderly s e → waiting.step s e = some t → ∃ es u, waiting.exec t es = some u ∧ ¬WakesUp u :=
  Machine.guard_exact (I := Inv) (fun _ h => Inv.init h) (fun _ _ _ hI hG hs => hI.step hG hs)
    (fun _ hI => hI.wakesUp) (fun _ _ _ hI hG hs => hI.breaks hG hs) h

/-- Two readers wait; two records beyond the threshold take them off the count, but give one token, and the
    second reader is left behind. -/
theorem second_reader_lost : ¬∀ s, waiting.Reachable s → WakesUp s := by
  intro h
  have hwakes := h _ (Machine.Reachable.exec (.init rfl) (show waiting.exec _ [.readEnter, .readEnter, .pushTest true,
    .pushDec, .pushTest true, .pushDec, .pushComplete, .waitDone] = some _ from rfl))
  exact absurd (hwakes.2 ⟨rfl, rfl⟩) (by decide)

/-- Two readers wait and a signal takes one of them away; two records take both off the count, and the other one gets the
    token. A third reader is woken by STOP. -/
def oneInterrupted : List WaitEvent :=
  [.readEnter, .readEnter, .waitSignal, .pushTest true, .pushDec, .pushTest true, .pushDec, .pushComplete, .waitDone,
    .readEnter, .stopSet, .stopComplete]

theorem wakes_up_oneInterrupted : ∃ s, (waiting.guard Orderly).exec ⟨0, 0, 0, .idle, false⟩ oneInterrupted = some s ∧
    s.Quiet ∧ s.blocked = 1 ∧ s.tokens = 1 ∧ WakesUp s :=
  ⟨_, rfl, ⟨rfl, rfl⟩, rfl, rfl, (wakes_up_exact (Machine.Reachable.exec (M := waiting.guard Orderly) (.init rfl)
    (rfl : Machine.exec _ _ oneInterrupted = some _))).1⟩

end Waiting
end Dsplog
