import Dsplog.Lib.Run
import Dsplog.Driver
import Dsplog.Theorems.Window

/-! Capture of one core's log, before its sequence numbers wrap. The DSP writes records, also over those
    not yet captured, the timer visits the instance, and a reader takes bytes from the ring, in any order:
    the records handed to the ring are records of the DSP, in the order in which it wrote them. -/

namespace Dsplog
open Bytes Cyclic Machines

/-- An instance whose window of `N` slots is cleared and whose cursor is at its start. -/
structure Fresh (N : Nat) (c : CapInfo) (m : Mem) : Prop where
  two_le : 2 ≤ N
  size : c.dsplogBufSize.toNat = dsplogEntrySize * N
  zero : ∀ x, c.dsppfBase ≤ x → x < c.dsppfBase + dsplogEntrySize * N → m x = 0
  current : c.dsppfCurrent = c.dsppfBase
  seq : c.currSeqNum = 0
  unwrapped : c.seqNumWrapped = false
  awake : c.dspSuspended = false

/-- Record `j` of a DSP that counts from `s0` and does not reach the wrap of its numbers. -/
def Numbered (s0 j : Nat) (r : IdspPrintf) : Prop :=
  r.seqNum.toNat = s0 + j ∧ s0 + j < 0xFFFFFFFF ∧ (r.seqNum = 0 → r.formatAddr ≠ 0)

instance (s0 j : Nat) (r : IdspPrintf) : Decidable (Numbered s0 j r) :=
  inferInstanceAs (Decidable (r.seqNum.toNat = s0 + j ∧ s0 + j < 0xFFFFFFFF ∧ (r.seqNum = 0 → r.formatAddr ≠ 0)))

/-- An instance with its reader, the log memory, the records that the DSP has written, those that the
    timer has handed to the ring, and the bytes that reads have returned. -/
structure Capture where
  cap : CapInfo
  mem : Mem
  phase : ReadPhase
  written : List IdspPrintf
  handed : List (List UInt8)
  returned : List UInt8

inductive CaptureEvent where
  | dspWrite (r : IdspPrintf)
  | visit
  | read (e : ReadStep)
  deriving DecidableEq, Repr

namespace Capture

def step (p : Platform) (N s0 : Nat) (s : Capture) : CaptureEvent → Option Capture
  | .dspWrite r =>
    if Numbered s0 s.written.length r then
      some { s with
        mem := s.mem.write (s.cap.dsppfBase + dsplogEntrySize * (s.written.length % N)) r.bytes
        written := s.written ++ [r] }
    else none
  | .visit => some { s with
      cap := (s.cap.visit p s.mem).cap
      handed := s.handed ++ (s.cap.visit p s.mem).handed.toList }
  | .read e => (s.cap.ringbuf.readStep s.phase e).map fun (ring, phase, out) =>
      { s with cap := { s.cap with ringbuf := ring }, phase := phase, returned := s.returned ++ out }

def Initial (N : Nat) (s : Capture) : Prop := Fresh N s.cap s.mem ∧ s.written = [] ∧ s.handed = []

end Capture

def capture (p : Platform) (N s0 : Nat) : Machine Capture CaptureEvent where
  Init := Capture.Initial N
  step := Capture.step p N s0

namespace Capture
variable {p : Platform} {N s0 e : Nat} {s t : Capture}

/-! ### The fresh capture state -/

/-- The instance that START leaves of one just made, in a cleared window. -/
theorem fresh_start {m : Mem} {dspId : UInt32} {filp pid ring : Nat} (hN : 2 ≤ N)
    (hsize : p.coreLogSize.toNat = dsplogEntrySize * N)
    (hzero : ∀ x, p.logBase + (p.coreLogSize * dspId).toNat ≤ x →
      x < p.logBase + (p.coreLogSize * dspId).toNat + dsplogEntrySize * N → m x = 0) :
    Fresh N (CapInfo.new p filp pid dspId ring).start m := ⟨hN, hsize, hzero, rfl, rfl, rfl, rfl⟩

/-- An instance after `dsplog_reset_cap`, unless it is suspended. -/
theorem fresh_reset {c : CapInfo} {m : Mem} (hN : 2 ≤ N) (hsize : c.dsplogBufSize.toNat = dsplogEntrySize * N)
    (hbase : c.dsppfBase ≠ 0) (hawake : c.dspSuspended = false) :
    Fresh N c.reset (clearLog m c.dsppfBase c.dsplogBufSize) := by
  refine ⟨hN, hsize, fun x hx hx' => ?_, rfl, rfl, rfl, hawake⟩
  rw [clearLog, if_neg hbase, hsize]
  exact Mem.clear_of_mem hx hx'

/-! ### The cursor -/

/-- The instance follows the DSP: record `e` is the first that may still be handed over. The number that the
    instance remembers is that of the record before it, or zero in the first round of the window, or that
    of record `e` itself, after a visit that found it too far ahead. -/
structure Follows (N s0 : Nat) (s : Capture) (e : Nat) : Prop where
  two_le : 2 ≤ N
  size : s.cap.dsplogBufSize.toNat = dsplogEntrySize * N
  awake : s.cap.dspSuspended = false
  unwrapped : s.cap.seqNumWrapped = false
  window : Window s.mem s.cap.dsppfBase N s.written
  numbered : ∀ j r, s.written[j]? = some r → Numbered s0 j r
  current : s.cap.dsppfCurrent = s.cap.dsppfBase + dsplogEntrySize * (e % N)
  le : e ≤ s.written.length
  seq : s.cap.currSeqNum.toNat = 0 ∧ e < N ∨ 0 < e ∧ s.cap.currSeqNum.toNat = s0 + e - 1 ∨
    e < s.written.length ∧ s.cap.currSeqNum.toNat = s0 + e
  handed : ∃ l : List IdspPrintf, l.Sublist (s.written.take e) ∧ s.handed = l.map IdspPrintf.bytes

namespace Follows

theorem init (h : Initial N s) : Follows N s0 s 0 := by
  obtain ⟨hfresh, hwritten, hhanded⟩ := h
  have hN := hfresh.two_le
  refine ⟨hN, hfresh.size, hfresh.awake, hfresh.unwrapped, ?_, ?_, ?_, Nat.zero_le _, ?_, [], by simp, by simpa⟩
  · rw [hwritten]
    exact window_nil hfresh.zero
  · simp [hwritten]
  · rw [hfresh.current, Nat.zero_mod]
    rfl
  · rw [hfresh.seq]
    exact Or.inl ⟨rfl, by omega⟩

theorem N_lt (h : Follows N s0 s e) : N < 2 ^ 27 := by
  have hsize := h.size
  have hlt := s.cap.dsplogBufSize.toNat_lt
  rw [dsplogEntrySize] at hsize
  omega

theorem dspWrite (h : Follows N s0 s e) {r : IdspPrintf} (hr : Numbered s0 s.written.length r) :
    Follows N s0 { s with
      mem := s.mem.write (s.cap.dsppfBase + dsplogEntrySize * (s.written.length % N)) r.bytes
      written := s.written ++ [r] } e := by
  have hlen : (s.written ++ [r]).length = s.written.length + 1 := by simp
  refine ⟨h.two_le, h.size, h.awake, h.unwrapped, h.window.write r, forall_getElem?_concat h.numbered hr, h.current,
    ?_, ?_, ?_⟩
  · exact hlen ▸ Nat.le_succ_of_le h.le
  · rcases h.seq with hseq | hseq | ⟨hlt, hseq⟩
    · exact Or.inl hseq
    · exact Or.inr (Or.inl hseq)
    · exact Or.inr (Or.inr ⟨hlen ▸ Nat.lt_succ_of_lt hlt, hseq⟩)
  · obtain ⟨l, hl, hhanded⟩ := h.handed
    exact ⟨l, by rwa [List.take_append_of_le_length h.le], hhanded⟩

/-- The number that the instance remembers is never the last one before the wrap. -/
theorem follow_unwrapped (h : Follows N s0 s e) (seq : UInt32) : (s.cap.follow seq).seqNumWrapped = false := by
  refine CapInfo.follow_unwrapped h.unwrapped (fun hlast => ?_) seq
  have hle := h.le
  have hseq := h.seq
  have hlen : s.written.length - 1 < s.written.length := by omega
  obtain ⟨-, hbound, -⟩ := h.numbered _ _ (List.getElem?_eq_getElem hlen)
  omega

/-- A record that is too far ahead of the last one only sets the number to follow. -/
theorem jump (h : Follows N s0 s e) {j : Nat} {r : IdspPrintf} (hj : s.written[j]? = some r) (hmod : j % N = e % N)
    (hej : e ≤ j) : Follows N s0 { s with cap := { s.cap with currSeqNum := r.seqNum } } j := by
  have hlt : j < s.written.length := (List.getElem?_eq_some_iff.mp hj).1
  obtain ⟨l, hl, hhanded⟩ := h.handed
  refine ⟨h.two_le, h.size, h.awake, h.unwrapped, h.window, h.numbered, ?_, Nat.le_of_lt hlt, ?_, l, ?_, hhanded⟩
  · rw [hmod]
    exact h.current
  · exact Or.inr (Or.inr ⟨hlt, (h.numbered j r hj).1⟩)
  · exact hl.trans (List.take_sublist_take_left hej)

theorem reset (h : Follows N s0 s e) (heN : e < N) : Follows N s0 { s with cap := s.cap.follow 0 } e :=
  ⟨h.two_le, h.size, h.awake, h.follow_unwrapped 0, h.window, h.numbered, h.current, h.le, Or.inl ⟨rfl, heN⟩, h.handed⟩

theorem hand (h : Follows N s0 s e) {j : Nat} {r : IdspPrintf} (rb : RingBuf) (hj : s.written[j]? = some r)
    (hmod : j % N = e % N) (hej : e ≤ j) :
    Follows N s0 { s with
      cap := ({ s.cap.follow r.seqNum with ringbuf := rb } : CapInfo).advance
      handed := s.handed ++ [r.bytes] } (j + 1) := by
  have hN := h.two_le
  have hlt : j < s.written.length := (List.getElem?_eq_some_iff.mp hj).1
  obtain ⟨l, hl, hhanded⟩ := h.handed
  refine ⟨hN, h.size, h.awake, h.follow_unwrapped r.seqNum, h.window, h.numbered, ?_, hlt, ?_,
    l ++ [r], ?_, by simp [hhanded]⟩
  · refine CapInfo.advance_current (by omega) h.size ?_
    rw [hmod]
    exact h.current
  · refine Or.inr (Or.inl ⟨by omega, ?_⟩)
    show r.seqNum.toNat = s0 + (j + 1) - 1
    rw [(h.numbered j r hj).1]
    omega
  · rw [List.take_add_one, hj]
    exact (hl.trans (List.take_sublist_take_left hej)).append (List.Sublist.refl [r])

theorem older_of_old (h : Follows N s0 s e) {j : Nat} {r : IdspPrintf} (hj : s.written[j]? = some r)
    (hround : e = j + N) (hall : e = s.written.length) : s.cap.older r.seqNum = true := by
  have hN := h.two_le
  have hN27 := h.N_lt
  have hseq := h.seq
  have hnum := (h.numbered j r hj).1
  have hlen : s.written.length - 1 < s.written.length := by omega
  obtain ⟨-, hbound, -⟩ := h.numbered _ _ (List.getElem?_eq_getElem hlen)
  rw [CapInfo.older_iff]
  omega

theorem visit (h : Follows N s0 s e) : ∃ e', Follows N s0 { s with
    cap := (s.cap.visit p s.mem).cap
    handed := s.handed ++ (s.cap.visit p s.mem).handed.toList } e' := by
  have hN := h.two_le
  obtain ⟨r, hload, hread, hslot⟩ := h.window.next_slot (by omega) h.le
  rw [← h.current] at hload hread
  rcases s.cap.visit_cases p s.mem h.awake hload with ⟨-, hhanded, hcap⟩ | ⟨hold, hold', hhanded, hcap⟩ |
    ⟨hold, hold', hzero, hhanded, hcap⟩ | ⟨hold, hold', hzero, hhanded, rb, hcap⟩ <;> rw [hhanded, hcap]
  · exact ⟨e, by simpa using h⟩
  · rcases hslot with ⟨rfl, -, -⟩ | ⟨j, hj, hmod, -, ⟨hround, hall⟩ | hej⟩
    · exact absurd (CapInfo.olderWrapped_iff.mp hold').2.1 (Nat.not_lt_zero _)
    · rw [h.older_of_old hj hround hall] at hold
      cases hold
    · exact ⟨j, by simpa using h.jump hj hmod hej⟩
  · rcases hslot with ⟨rfl, heN, -⟩ | ⟨j, hj, -⟩
    · exact ⟨e, by rw [Option.toList_none, List.append_nil]; exact h.reset heN⟩
    · exact absurd hzero.2.2 ((h.numbered j r hj).2.2 hzero.1)
  · rcases hslot with ⟨rfl, heN, hall⟩ | ⟨j, hj, hmod, -, ⟨hround, hall⟩ | hej⟩
    · exact absurd ⟨rfl, h.follow_unwrapped 0, rfl⟩ hzero
    · rw [h.older_of_old hj hround hall] at hold
      cases hold
    · rw [hread]
      exact ⟨j + 1, h.hand rb hj hmod hej⟩

theorem step {ev : CaptureEvent} (h : Follows N s0 s e) (hs : Capture.step p N s0 s ev = some t) :
    ∃ e', Follows N s0 t e' := by
  cases ev with
  | dspWrite r =>
    simp only [Capture.step, Option.ite_none_right_eq_some, Option.some.injEq] at hs
    obtain ⟨hr, rfl⟩ := hs
    exact ⟨e, h.dspWrite hr⟩
  | visit =>
    cases hs
    exact h.visit
  | read ev =>
    obtain ⟨⟨ring, phase, out⟩, -, rfl⟩ := Option.map_eq_some_iff.mp hs
    exact ⟨e, h.two_le, h.size, h.awake, h.unwrapped, h.window, h.numbered, h.current, h.le, h.seq, h.handed⟩

end Follows

theorem follows (h : (capture p N s0).Reachable s) : ∃ e, Follows N s0 s e :=
  Machine.Reachable.invariant (I := fun s => ∃ e, Follows N s0 s e) (fun _ h => ⟨0, Follows.init h⟩)
    (fun _ _ _ ⟨_, h⟩ hs => h.step hs) h

/-- However the DSP, the timer and a reader take turns, the records handed to the ring are records of the
    DSP in the order in which it wrote them: their numbers strictly increase. -/
theorem captured_in_order (h : (capture p N s0).Reachable s) : ∃ l : List IdspPrintf, l.Sublist s.written ∧
    s.handed = l.map IdspPrintf.bytes ∧ (l.map (·.seqNum)).Pairwise (· < ·) := by
  obtain ⟨e, hf⟩ := follows h
  obtain ⟨l, hl, hhanded⟩ := hf.handed
  have hl := hl.trans (List.take_sublist e s.written)
  refine ⟨l, hl, hhanded, ?_⟩
  rw [List.pairwise_map]
  refine List.Pairwise.sublist hl (List.pairwise_iff_getElem.mpr fun i j hi hj hij => ?_)
  have hni := (hf.numbered i _ (List.getElem?_eq_getElem hi)).1
  have hnj := (hf.numbered j _ (List.getElem?_eq_getElem hj)).1
  rw [UInt32.lt_iff_toNat_lt]
  omega

def tinyCapture : Capture where
  cap := (CapInfo.new (Platform.tiny 1 Nat.one_pos) 0 0 0 0).start
  mem := fun _ => 0
  phase := .idle
  written := []
  handed := []
  returned := []

theorem tinyCapture_initial : Initial 2 tinyCapture :=
  ⟨fresh_start (by decide) (by decide) fun _ _ _ => rfl, rfl, rfl⟩

/-- The DSP overwrites its first record before the timer comes. -/
def lapped : List CaptureEvent :=
  [.dspWrite ⟨1, 0, 9, 0, 0, 0, 0, 0⟩, .dspWrite ⟨2, 0, 9, 0, 0, 0, 0, 0⟩, .dspWrite ⟨3, 0, 9, 0, 0, 0, 0, 0⟩,
    .visit, .visit, .dspWrite ⟨4, 0, 9, 0, 0, 0, 0, 0⟩, .visit]

theorem captured_in_order_lapped : ∃ s, (capture (Platform.tiny 1 (by decide)) 2 1).exec tinyCapture lapped = some s ∧
    s.handed.length = 2 ∧ ∃ l : List IdspPrintf, l.Sublist s.written ∧ s.handed = l.map IdspPrintf.bytes ∧
      (l.map (·.seqNum)).Pairwise (· < ·) :=
  ⟨_, rfl, rfl, captured_in_order (Machine.Reachable.exec (M := capture (Platform.tiny 1 (by decide)) 2 1)
    (.init tinyCapture_initial) (rfl : Machine.exec _ tinyCapture lapped = some _))⟩

end Capture
end Dsplog
