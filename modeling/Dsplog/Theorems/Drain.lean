import Dsplog.Theorems.Registry
import Dsplog.Theorems.Window

/-! One tick's service of one core, whose DSP numbers its records modulo `2 ^ 32`. Between ticks the instance
    is at rest behind the last record that it has handed over; a tick runs through the new records and comes
    to rest behind them, unless the last of them carries the last number before the wrap or the first after
    it: then it goes round the window for ever. -/

namespace Dsplog
open Bytes Cyclic RoundRobin

/-- An instance whose window of `N` slots the DSP has filled with records numbered from `s0` on. -/
structure Log (N s0 : Nat) (m : Mem) (written : List IdspPrintf) (c : CapInfo) : Prop where
  two_le : 2 ≤ N
  size : c.dsplogBufSize.toNat = dsplogEntrySize * N
  awake : c.dspSuspended = false
  window : Window m c.dsppfBase N written
  numbered : ∀ j r, written[j]? = some r → r.seqNum.toNat = (s0 + j) % 4294967296

/-- The last of `n` records is numbered `0xFFFFFFFF`, or it is numbered zero and not the first one. -/
def WrapAt (s0 n : Nat) : Prop :=
  0 < n ∧ ((s0 + (n - 1)) % 4294967296 = 4294967295 ∨ (s0 + (n - 1)) % 4294967296 = 0 ∧ 2 ≤ n)

/-- The instance knows of a wrap exactly when it has followed one: the record numbered zero is one of
    those before record `j`, and only records already written can be it. -/
structure Wraps (s0 j n : Nat) (c : CapInfo) : Prop where
  of_passed : ∀ i, 0 < i → i < j → (s0 + i) % 4294967296 = 0 → c.seqNumWrapped = true
  passed_of : c.seqNumWrapped = true → ∃ i, 0 < i ∧ i < n ∧ (s0 + i) % 4294967296 = 0

/-- The cursor stands before record `j`: none, some or all of the last `N` records lie ahead of it. -/
structure Before (N s0 : Nat) (m : Mem) (written : List IdspPrintf) (j : Nat) (c : CapInfo) : Prop
    extends Log N s0 m written c where
  le : j ≤ written.length
  near : written.length ≤ j + N
  current : c.dsppfCurrent = c.dsppfBase + dsplogEntrySize * (j % N)
  wraps : Wraps s0 j written.length c

/-- The instance has followed record `j - 1` and comes to record `j`. -/
structure Running (N s0 : Nat) (m : Mem) (written : List IdspPrintf) (j : Nat) (c : CapInfo) : Prop
    extends Before N s0 m written j c where
  pos : 0 < j
  seq : c.currSeqNum.toNat = (s0 + (j - 1)) % 4294967296

/-- The number that an instance at rest behind record `e - 1` remembers: none yet; that of the record; zero,
    after it met a cleared slot from a number of at least `0xF0000000`; or that of the stale record in the
    next slot, when that record is from before a wrap. -/
inductive Mark (N s0 e : Nat) (c : CapInfo) : Prop
  | fresh (none : e = 0) (seq : c.currSeqNum.toNat = 0) (unwrapped : c.seqNumWrapped = false)
  | last (pos : 0 < e) (seq : c.currSeqNum.toNat = (s0 + (e - 1)) % 4294967296) (calm : ¬WrapAt s0 e)
  | cleared (pos : 0 < e) (lt : e < N) (seq : c.currSeqNum.toNat = 0)
      (high : 4026531840 ≤ (s0 + (e - 1)) % 4294967296) (calm : ¬WrapAt s0 e)
  | stale (le : N ≤ e) (low : (s0 + (e - 1)) % 4294967296 < N - 1) (pos : 0 < (s0 + (e - 1)) % 4294967296)
      (seq : c.currSeqNum.toNat = (s0 + (e - N)) % 4294967296)

structure Rest (N s0 : Nat) (m : Mem) (written : List IdspPrintf) (e : Nat) (c : CapInfo) : Prop
    extends Before N s0 m written e c where
  mark : Mark N s0 e c

variable {N s0 e j : Nat} {p : Platform} {m : Mem} {written : List IdspPrintf} {c : CapInfo}

/-! ### Slots -/

namespace Log

theorem N_lt (h : Log N s0 m written c) : N < 134217728 := by
  have hsize := h.size
  have hlt := c.dsplogBufSize.toNat_lt
  rw [dsplogEntrySize] at hsize
  omega

/-- Slot `j % N` holds record `j`, if that is one of the last `N`. -/
theorem read_slot (h : Log N s0 m written c) (hj : j < written.length) (hnear : written.length ≤ j + N) :
    ∃ r, written[j]? = some r ∧ m.read (c.dsppfBase + dsplogEntrySize * (j % N)) dsplogEntrySize = r.bytes := by
  have hN := h.two_le
  obtain ⟨r, -, hread, ⟨-, -, heq⟩ | ⟨j', hj', hmod, hround, ⟨-, heq⟩ | hle⟩⟩ :=
    h.window.next_slot (by omega) (Nat.le_of_lt hj)
  · omega
  · omega
  · have hlt := (List.getElem?_eq_some_iff.mp hj').1
    have heq : j' = j := by
      rcases Nat.lt_or_ge j j' with hlt' | hge
      · have := add_le_of_mod_eq hlt' hmod.symm
        omega
      · omega
    subst heq
    exact ⟨r, hj', hread⟩

theorem slot (h : Log N s0 m written c) (hj : j < written.length) (hnear : written.length ≤ j + N) :
    ∃ r, written[j]? = some r ∧ IdspPrintf.load m (c.dsppfBase + dsplogEntrySize * (j % N)) = r ∧
      r.seqNum.toNat = (s0 + j) % 4294967296 := by
  obtain ⟨r, hr, hread⟩ := h.read_slot hj hnear
  exact ⟨r, hr, IdspPrintf.load_of_read hread, h.numbered j r hr⟩

/-- The slot of the record to come is cleared in the first round, and holds a record of the last round later. -/
theorem next_slot (h : Log N s0 m written c) : ∃ r,
    IdspPrintf.load m (c.dsppfBase + dsplogEntrySize * (written.length % N)) = r ∧
      (written.length < N ∧ r = .blank ∨
        N ≤ written.length ∧ r.seqNum.toNat = (s0 + (written.length - N)) % 4294967296) := by
  have hN := h.two_le
  rcases Nat.lt_or_ge written.length N with hlt | hge
  · refine ⟨.blank, ?_, Or.inl ⟨hlt, rfl⟩⟩
    rw [h.window.load (Nat.mod_lt _ (by omega))]
    rcases lastIn_cases written (Nat.mod_lt written.length (show 0 < N by omega)) with ⟨-, hblank⟩ | ⟨j, -, hj, hmod, -⟩
    · exact hblank
    · have := add_le_of_mod_eq hj hmod
      omega
  · obtain ⟨r, -, hload, hseq⟩ := h.slot (j := written.length - N) (by omega) (by omega)
    have hmod : (written.length - N) % N = written.length % N := (Nat.mod_eq_sub_mod hge).symm
    rw [hmod] at hload
    exact ⟨r, hload, Or.inr ⟨hge, hseq⟩⟩

end Log

theorem Running.passes (h : Running N s0 m written j c) {r : IdspPrintf} (hr : r.seqNum.toNat = (s0 + j) % 4294967296) :
    c.Passes r := by
  have hseq := h.seq
  have hpos := h.pos
  refine ⟨CapInfo.older_eq_false (by omega), CapInfo.olderWrapped_eq_false (by omega), ?_⟩
  rintro ⟨hzero, hunwrapped, -⟩
  have hzero : r.seqNum.toNat = 0 := congrArg UInt32.toNat hzero
  rw [← Bool.not_eq_true, CapInfo.follow_wrapped] at hunwrapped
  exact hunwrapped (Or.inr (by omega))

/-- What a visit that hands over record `j` makes of an instance in front of it. -/
theorem Log.hand (h : Log N s0 m written c) (hj : j < written.length) (hnear : written.length ≤ j + 1 + N)
    (hcur : c.dsppfCurrent = c.dsppfBase + dsplogEntrySize * (j % N)) {r : IdspPrintf}
    (hr : r.seqNum.toNat = (s0 + j) % 4294967296)
    (hpassed : ∀ i, 0 < i → i < j + 1 → (s0 + i) % 4294967296 = 0 →
      c.seqNumWrapped = true ∨ c.currSeqNum.toNat = 4294967295)
    (hof : c.seqNumWrapped = true ∨ c.currSeqNum.toNat = 4294967295 →
      ∃ i, 0 < i ∧ i < written.length ∧ (s0 + i) % 4294967296 = 0) (rb : RingBuf) :
    Running N s0 m written (j + 1) ({ c.follow r.seqNum with ringbuf := rb } : CapInfo).advance := by
  have hN := h.two_le
  refine ⟨⟨⟨hN, h.size, h.awake, h.window, h.numbered⟩, hj, hnear, CapInfo.advance_current (by omega) h.size hcur,
    ⟨fun i hi hij hzero => ?_, fun hw => ?_⟩⟩, Nat.succ_pos j, hr⟩
  · exact (CapInfo.follow_wrapped c r.seqNum).mpr (hpassed i hi hij hzero)
  · exact hof ((CapInfo.follow_wrapped c r.seqNum).mp hw)

theorem Running.visit (h : Running N s0 m written j c) (hj : j < written.length) :
    (c.visit p m).handed = some (m.read c.dsppfCurrent dsplogEntrySize) ∧
      Running N s0 m written (j + 1) (c.visit p m).cap := by
  obtain ⟨r, -, hload, hseq⟩ := h.slot hj h.near
  rw [← h.current] at hload
  obtain ⟨hhanded, rb, hcap⟩ := CapInfo.visit_of_passes (p := p) h.awake hload (h.passes hseq)
  have hprev := h.seq
  have hpos := h.pos
  refine ⟨hhanded, hcap ▸ h.hand hj (by have := h.near; omega) h.current hseq ?_ ?_ rb⟩
  · intro i hi hij hzero
    rcases Nat.lt_or_ge i j with hlt | hge
    · exact Or.inl (h.wraps.of_passed i hi hlt hzero)
    · have : i = j := by omega
      subst this
      exact Or.inr (by omega)
  · rintro (hw | hlast)
    · exact h.wraps.passed_of hw
    · exact ⟨j, hpos, hj, by omega⟩

/-! ### The last visit of a tick -/

/-- The instance knows of no wrap when the DSP has counted on from its first number. -/
theorem Wraps.unwrapped {n : Nat} (h : Wraps s0 j n c) (hn : n ≤ (s0 + (n - 1)) % 4294967296 + 1) (hlt : n < 4294967296) :
    c.seqNumWrapped = false := by
  rw [← Bool.not_eq_true]
  intro hw
  obtain ⟨i, hi, hin, hzero⟩ := h.passed_of hw
  omega

/-- What looks like a cleared slot leaves an instance with no number to follow, unless it knows of a wrap or
    has a number to compare with. -/
theorem Before.unwritten (h : Before N s0 m written e c) {r : IdspPrintf} (hload : IdspPrintf.load m c.dsppfCurrent = r)
    (hz : r.seqNum = 0 ∧ r.formatAddr = 0) (hunwrapped : c.seqNumWrapped = false) (hold : c.older r.seqNum = false)
    (hlast : c.currSeqNum.toNat ≠ 4294967295) : (c.visit p m).handed = none ∧ Before N s0 m written e (c.visit p m).cap ∧
      (c.visit p m).cap.currSeqNum.toNat = 0 ∧ (c.visit p m).cap.seqNumWrapped = false := by
  have hzero : r.seqNum.toNat = 0 := congrArg UInt32.toNat hz.1
  have hunwrapped' := CapInfo.follow_unwrapped hunwrapped hlast r.seqNum
  obtain ⟨hhanded, hcap⟩ := CapInfo.visit_of_unwritten (p := p) h.awake hload hold
    (CapInfo.olderWrapped_eq_false (by omega)) ⟨hz.1, hunwrapped', hz.2⟩
  rw [hcap]
  refine ⟨hhanded, ⟨⟨h.two_le, h.size, h.awake, h.window, h.numbered⟩, h.le, h.near, h.current, ?_, ?_⟩, hzero, hunwrapped'⟩
  · intro i hi hij hzero
    exact (CapInfo.follow_wrapped c _).mpr (Or.inl (h.wraps.of_passed i hi hij hzero))
  · intro hw
    rw [hunwrapped'] at hw
    cases hw

/-- Behind the last record a visit runs dry, if that record is not at the wrap. -/
theorem Running.finish (h : Running N s0 m written written.length c) (hcalm : ¬WrapAt s0 written.length) :
    (c.visit p m).handed = none ∧ Rest N s0 m written written.length (c.visit p m).cap := by
  have hpos := h.pos
  have hN := h.two_le
  have hN' := h.N_lt
  have hseq := h.seq
  have hq : (s0 + (written.length - 1)) % 4294967296 ≠ 4294967295 ∧
      ((s0 + (written.length - 1)) % 4294967296 = 0 → written.length = 1) := by
    unfold WrapAt at hcalm
    omega
  obtain ⟨r, hload, hslot⟩ := h.next_slot
  rw [← h.current] at hload
  by_cases hold : c.older r.seqNum = true
  · obtain ⟨hhanded, hcap⟩ := CapInfo.visit_of_older (p := p) h.awake hload hold
    rw [hcap]
    exact ⟨hhanded, h.toBefore, .last hpos hseq hcalm⟩
  · have hnew := eq_false_of_ne_true hold
    rw [CapInfo.older_iff] at hold
    rcases hslot with ⟨hfirst, rfl⟩ | ⟨hround, hr⟩
    · have hzero : IdspPrintf.blank.seqNum.toNat = 0 := rfl
      obtain ⟨hhanded, hbefore, hzero', -⟩ := h.unwritten (p := p) hload ⟨rfl, rfl⟩
        (h.wraps.unwrapped (by omega) (by omega)) hnew (by omega)
      refine ⟨hhanded, hbefore, ?_⟩
      by_cases hone : (s0 + (written.length - 1)) % 4294967296 = 0
      · exact .last hpos (hzero'.trans hone.symm) hcalm
      · exact .cleared hpos hfirst hzero' (by omega) hcalm
    · -- The stale record is from before a wrap: the instance takes over its number.
      obtain ⟨hhanded, hcap⟩ := CapInfo.visit_of_olderWrapped (p := p) h.awake hload hnew
        (CapInfo.olderWrapped_iff.mpr (by omega))
      rw [hcap]
      exact ⟨hhanded, ⟨⟨hN, h.size, h.awake, h.window, h.numbered⟩, h.le, h.near, h.current, h.wraps.of_passed,
        h.wraps.passed_of⟩, .stale hround (by omega) (by omega) hr⟩

/-! ### The first visit of a tick -/

/-- A visit of an instance at rest leaves it at rest, or it hands over one of the last `N` records. -/
def Resumes (p : Platform) (N s0 : Nat) (m : Mem) (written : List IdspPrintf) (e : Nat) (c : CapInfo) : Prop :=
  (c.visit p m).handed = none ∧ Rest N s0 m written e (c.visit p m).cap ∧ ¬WrapAt s0 written.length ∨
    ∃ k, k < written.length ∧ written.length ≤ k + N ∧
      (c.visit p m).handed = some (m.read c.dsppfCurrent dsplogEntrySize) ∧
      Running N s0 m written (k + 1) (c.visit p m).cap

/-- The record that comes next passes the tests, unless it is the first one and looks like a cleared slot. -/
theorem Rest.passes (h : Rest N s0 m written e c) {r : IdspPrintf} (hr : r.seqNum.toNat = (s0 + e) % 4294967296) :
    c.Passes r ∨ e = 0 ∧ r.seqNum = 0 ∧ r.formatAddr = 0 := by
  have hN := h.N_lt
  have pass (hold : c.older r.seqNum = false) (hold' : c.olderWrapped r.seqNum = false) (hne : r.seqNum.toNat ≠ 0) :
      c.Passes r := ⟨hold, hold', fun hz => hne (congrArg UInt32.toNat hz.1)⟩
  rcases h.mark with ⟨rfl, hseq, -⟩ | ⟨hpos, hseq, hcalm⟩ | ⟨hpos, -, hseq, -, hcalm⟩ | ⟨hround, hlow, hpos, hseq⟩
  · by_cases hz : r.seqNum = 0 ∧ r.formatAddr = 0
    · exact Or.inr ⟨rfl, hz⟩
    · exact Or.inl ⟨CapInfo.older_eq_false (by omega), CapInfo.olderWrapped_eq_false (by omega),
        fun hz' => hz ⟨hz'.1, hz'.2.2⟩⟩
  all_goals
    unfold WrapAt at *
    exact Or.inl (pass (CapInfo.older_eq_false (by omega)) (CapInfo.olderWrapped_eq_false (by omega)) (by omega))

/-- With records to hand over, a visit hands over the next one, or it is held back by the first one. -/
theorem Rest.resumes_of_lt (h : Rest N s0 m written e c) (he : e < written.length) : Resumes p N s0 m written e c := by
  have hN := h.N_lt
  have hnear := h.near
  obtain ⟨r, -, hload, hr⟩ := h.slot he hnear
  rw [← h.current] at hload
  rcases h.passes hr with hpass | ⟨rfl, hz⟩
  · obtain ⟨hhanded, rb, hcap⟩ := CapInfo.visit_of_passes (p := p) h.awake hload hpass
    refine Or.inr ⟨e, he, hnear, hhanded,
      hcap ▸ h.hand he (by omega) h.current hr (fun i hi hie hzero => ?_) ?_ rb⟩
    · rcases Nat.lt_or_ge i e with hlt | hge
      · exact Or.inl (h.wraps.of_passed i hi hlt hzero)
      · -- The record at rest is not the last one before the wrap.
        rcases h.mark with ⟨rfl, -, -⟩ | ⟨-, -, hcalm⟩ | ⟨-, -, -, -, hcalm⟩ | ⟨-, hlow, -, -⟩ <;>
          unfold WrapAt at * <;> omega
    · rintro (hw | hlast)
      · exact h.wraps.passed_of hw
      · rcases h.mark with ⟨-, hseq, -⟩ | ⟨hpos, hseq, hcalm⟩ | ⟨-, -, hseq, -⟩ | ⟨hround, hlow, -, hseq⟩
        · omega
        · unfold WrapAt at hcalm
          omega
        · omega
        · exact ⟨e - N + 1, Nat.succ_pos _, by omega, by omega⟩
  · have hseq : c.currSeqNum.toNat = 0 ∧ c.seqNumWrapped = false := by
      rcases h.mark with ⟨-, hseq, hunwrapped⟩ | ⟨hpos, -⟩ | ⟨hpos, -⟩ | ⟨hround, -⟩
      · exact ⟨hseq, hunwrapped⟩
      · exact absurd hpos (Nat.lt_irrefl 0)
      · exact absurd hpos (Nat.lt_irrefl 0)
      · have := h.two_le
        omega
    have hzero : r.seqNum.toNat = 0 := congrArg UInt32.toNat hz.1
    obtain ⟨hhanded, hbefore, hzero', hunwrapped'⟩ := h.unwritten (p := p) hload hz hseq.2
      (CapInfo.older_eq_false (by omega)) (by omega)
    refine Or.inl ⟨hhanded, ⟨hbefore, .fresh rfl hzero' hunwrapped'⟩, ?_⟩
    unfold WrapAt
    omega

/-- With all records handed over, a visit runs dry, or it goes round the window once more, from the stale
    record whose number the instance has taken over. -/
theorem Rest.resumes_of_eq (h : Rest N s0 m written written.length c) : Resumes p N s0 m written written.length c := by
  have hN := h.two_le
  have hN' := h.N_lt
  obtain ⟨r, hload, hslot⟩ := h.next_slot
  rw [← h.current] at hload
  rcases h.mark with ⟨hnone, hseq, hunwrapped⟩ | ⟨hpos, hseq, hcalm⟩ | ⟨hpos, hlt, hseq, hhigh, hcalm⟩ |
    ⟨hround, hlow, hpos, hseq⟩
  · rcases hslot with ⟨-, rfl⟩ | ⟨hround, -⟩
    · obtain ⟨hhanded, hbefore, hzero, hunwrapped'⟩ := h.unwritten (p := p) hload ⟨rfl, rfl⟩ hunwrapped
        (CapInfo.older_eq_false (by omega)) (by omega)
      exact Or.inl ⟨hhanded, ⟨hbefore, .fresh hnone hzero hunwrapped'⟩, by unfold WrapAt; omega⟩
    · omega
  · have hrun : Running N s0 m written written.length c := ⟨h.toBefore, hpos, hseq⟩
    obtain ⟨hhanded, hrest⟩ := hrun.finish (p := p) hcalm
    exact Or.inl ⟨hhanded, hrest, hcalm⟩
  · rcases hslot with ⟨-, rfl⟩ | ⟨hround, -⟩
    · obtain ⟨hhanded, hbefore, hzero, -⟩ := h.unwritten (p := p) hload ⟨rfl, rfl⟩
        (h.wraps.unwrapped (by omega) (by omega)) (CapInfo.older_eq_false (by omega)) (by omega)
      exact Or.inl ⟨hhanded, ⟨hbefore, .cleared hpos hlt hzero hhigh hcalm⟩, hcalm⟩
    · omega
  · rcases hslot with ⟨hlt, -⟩ | ⟨-, hr⟩
    · omega
    · have hmod : (written.length - N) % N = written.length % N := (Nat.mod_eq_sub_mod hround).symm
      have hcur := h.current
      rw [← hmod] at hcur
      have hpass : c.Passes r := by
        refine ⟨CapInfo.older_eq_false (by omega), CapInfo.olderWrapped_eq_false (by omega), fun hz => ?_⟩
        have hzero : r.seqNum.toNat = 0 := congrArg UInt32.toNat hz.1
        omega
      obtain ⟨hhanded, rb, hcap⟩ := CapInfo.visit_of_passes (p := p) h.awake hload hpass
      refine Or.inr ⟨written.length - N, by omega, by omega, hhanded,
        hcap ▸ h.hand (by omega) (by omega) hcur hr (fun i hi hie hzero => ?_) ?_ rb⟩
      · exact Or.inl (h.wraps.of_passed i hi (by omega) hzero)
      · rintro (hw | hlast)
        · exact h.wraps.passed_of hw
        · exact ⟨written.length - N + 1, Nat.succ_pos _, by omega, by omega⟩

theorem Rest.resumes (h : Rest N s0 m written e c) : Resumes p N s0 m written e c := by
  rcases Nat.lt_or_ge e written.length with he | he
  · exact h.resumes_of_lt he
  · obtain rfl : e = written.length := Nat.le_antisymm h.le he
    exact h.resumes_of_eq

/-! ### The service of a whole tick -/

theorem Service.visit_of_none {s : Service} (h : (s.cap.visit p m).handed = none) :
    Service.visit p m s = (⟨(s.cap.visit p m).cap, s.handed⟩, true) := by
  simp only [Service.visit, h]

theorem Service.visit_of_some {s : Service} {record : List UInt8} (h : (s.cap.visit p m).handed = some record) :
    Service.visit p m s = (⟨(s.cap.visit p m).cap, s.handed ++ [⟨s.cap.dsppfCurrent, record⟩]⟩, false) := by
  simp only [Service.visit, h]

/-- From record `j` on, the remaining records are handed over one a visit. -/
theorem Running.drain (hcalm : ¬WrapAt s0 written.length) {n : Nat} (h : Running N s0 m written j c)
    (hn : j + n = written.length) (handed : List Handed) : ∃ s, solo (Service.visit p m) (n + 1) ⟨c, handed⟩ = some s ∧
      s.handed.map Handed.record = handed.map Handed.record ++ (written.drop j).map IdspPrintf.bytes ∧
      Rest N s0 m written written.length s.cap := by
  induction n generalizing j c handed with
  | zero =>
    obtain rfl : j = written.length := hn
    obtain ⟨hdry, hrest⟩ := h.finish (p := p) hcalm
    have hvisit := Service.visit_of_none (s := ⟨c, handed⟩) hdry
    refine ⟨_, solo_of_dry (congrArg Prod.snd hvisit), ?_, ?_⟩
    · rw [hvisit]
      simp
    · rw [hvisit]
      exact hrest
  | succ n ih =>
    obtain ⟨r, hr, hread⟩ := h.read_slot (by omega) h.near
    rw [← h.current] at hread
    obtain ⟨hbusy, hrun⟩ := h.visit (p := p) (by omega)
    have hvisit := Service.visit_of_some (s := ⟨c, handed⟩) hbusy
    obtain ⟨s, hs, hrecords, hrest⟩ := ih hrun (by omega) (handed ++ [⟨c.dsppfCurrent, m.read c.dsppfCurrent dsplogEntrySize⟩])
    refine ⟨s, ?_, ?_, hrest⟩
    · rw [solo_of_busy (congrArg Prod.snd hvisit), hvisit]
      exact hs
    · obtain ⟨hj, rfl⟩ := List.getElem?_eq_some_iff.mp hr
      rw [hrecords, List.map_append, List.append_assoc, List.drop_eq_getElem_cons hj, List.map_cons, List.map_cons, ← hread]
      rfl

/-- A tick serves an instance in at most `N + 1` visits and hands over at most `N` records, unless the last
    record is at the wrap. -/
theorem Rest.drain (h : Rest N s0 m written e c) (hcalm : ¬WrapAt s0 written.length) :
    ∃ s, solo (Service.visit p m) (N + 1) ⟨c, []⟩ = some s ∧ s.handed.length ≤ N ∧
      (s.handed = [] ∧ Rest N s0 m written e s.cap ∨ Rest N s0 m written written.length s.cap) := by
  rcases h.resumes (p := p) with ⟨hdry, hrest, -⟩ | ⟨k, hk, hnear, hbusy, hrun⟩
  · have hvisit := Service.visit_of_none (s := ⟨c, []⟩) hdry
    refine ⟨_, solo_of_dry (congrArg Prod.snd hvisit), ?_⟩
    rw [hvisit]
    exact ⟨Nat.zero_le N, Or.inl ⟨rfl, hrest⟩⟩
  · have hvisit := Service.visit_of_some (s := ⟨c, []⟩) hbusy
    obtain ⟨s, hs, hrecords, hrest⟩ := hrun.drain (p := p) hcalm (n := written.length - (k + 1)) (by omega)
      [⟨c.dsppfCurrent, m.read c.dsppfCurrent dsplogEntrySize⟩]
    have hlen := congrArg List.length hrecords
    rw [List.length_append, List.length_map, List.length_map, List.length_map, List.length_singleton,
      List.length_drop] at hlen
    refine ⟨s, ?_, by omega, Or.inr hrest⟩
    rw [solo_of_busy (congrArg Prod.snd hvisit), hvisit]
    exact solo_mono (by omega) hs

/-! ### The endless tick -/

def slotNumber (m : Mem) (base i : Nat) : Nat := (IdspPrintf.load m (base + dsplogEntrySize * i)).seqNum.toNat

/-- The instance goes round a window in which every slot follows the one before it, or comes behind a slot
    numbered `0xFFFFFFFF` or zero. -/
structure Circling (N : Nat) (m : Mem) (c : CapInfo) : Prop where
  two_le : 2 ≤ N
  size : c.dsplogBufSize.toNat = dsplogEntrySize * N
  awake : c.dspSuspended = false
  chain : ∀ i, i < N → slotNumber m c.dsppfBase ((i + 1) % N) = slotNumber m c.dsppfBase i + 1 ∨
    slotNumber m c.dsppfBase i = 4294967295 ∨ slotNumber m c.dsppfBase i = 0
  behind : ∃ i, i < N ∧ c.dsppfCurrent = c.dsppfBase + dsplogEntrySize * ((i + 1) % N) ∧
    c.currSeqNum.toNat = slotNumber m c.dsppfBase i ∧ (c.seqNumWrapped = true ∨ c.currSeqNum.toNat = 4294967295)

theorem Circling.visit (h : Circling N m c) :
    (c.visit p m).handed = some (m.read c.dsppfCurrent dsplogEntrySize) ∧ Circling N m (c.visit p m).cap := by
  have hN := h.two_le
  obtain ⟨i, hi, hcur, hseq, hwrapped⟩ := h.behind
  have hchain := h.chain i hi
  obtain ⟨r, hload⟩ : ∃ r, IdspPrintf.load m c.dsppfCurrent = r := ⟨_, rfl⟩
  have hr : r.seqNum.toNat = slotNumber m c.dsppfBase ((i + 1) % N) := by
    rw [← hload, hcur]
    rfl
  rw [← hr, ← hseq] at hchain
  have hwrapped' := (CapInfo.follow_wrapped c r.seqNum).mpr hwrapped
  have hpass : c.Passes r := by
    have hlt := r.seqNum.toNat_lt
    refine ⟨CapInfo.older_eq_false (by omega), CapInfo.olderWrapped_eq_false (by omega), fun hz => ?_⟩
    rw [hwrapped'] at hz
    cases hz.2.1
  obtain ⟨hhanded, rb, hcap⟩ := CapInfo.visit_of_passes (p := p) h.awake hload hpass
  refine ⟨hhanded, hcap ▸ ⟨hN, h.size, h.awake, h.chain, (i + 1) % N, Nat.mod_lt _ (by omega), ?_, hr, Or.inl hwrapped'⟩⟩
  have hadvance := CapInfo.advance_current (c := { c.follow r.seqNum with ringbuf := rb }) (by omega) h.size hcur
  rw [Nat.mod_add_mod]
  exact hadvance

theorem Running.circling (h : Running N s0 m written written.length c) (hwrap : WrapAt s0 written.length) :
    Circling N m c := by
  have hN := h.two_le
  have hpos := h.pos
  have number {k : Nat} (hk : k < written.length) (hnear : written.length ≤ k + N) :
      slotNumber m c.dsppfBase (k % N) = (s0 + k) % 4294967296 := by
    obtain ⟨r, -, hload, hr⟩ := h.slot hk hnear
    rw [slotNumber, hload, hr]
  refine ⟨hN, h.size, h.awake, fun i hi => ?_, (written.length - 1) % N, Nat.mod_lt _ (by omega), ?_, ?_, ?_⟩
  · rcases lastIn_cases written hi with ⟨-, hblank⟩ | ⟨k, -, hk, rfl, hnear⟩
    · right; right
      rw [slotNumber, h.window.load hi, hblank]
      rfl
    · rw [Nat.mod_add_mod, number hk hnear]
      unfold WrapAt at hwrap
      rcases Nat.lt_or_ge (k + 1) written.length with hlt | hge
      · rw [number hlt (by omega)]
        omega
      · obtain rfl : k = written.length - 1 := by omega
        omega
  · rw [Nat.mod_add_mod, Nat.sub_add_cancel hpos]
    exact h.current
  · rw [number (by omega) (by omega)]
    exact h.seq
  · rcases hwrap with ⟨-, hlast | ⟨hzero, htwo⟩⟩
    · exact Or.inr (h.seq.trans hlast)
    · exact Or.inl (h.wraps.of_passed (written.length - 1) (by omega) (by omega) hzero)

/-- A tick never ends when the last record is at the wrap. -/
theorem Rest.endless (h : Rest N s0 m written e c) (hwrap : WrapAt s0 written.length) (n : Nat) :
    solo (Service.visit p m) n ⟨c, []⟩ = none := by
  cases n with
  | zero => rfl
  | succ n =>
    rcases h.resumes (p := p) with ⟨-, -, hcalm⟩ | ⟨k, -, -, hbusy, hrun⟩
    · exact absurd hwrap hcalm
    · have hvisit := Service.visit_of_some (s := ⟨c, []⟩) hbusy
      rw [solo_of_busy (congrArg Prod.snd hvisit), hvisit]
      refine solo_eq_none (P := fun s => (∃ j, Running N s0 m written j s.cap) ∨ Circling N m s.cap) (fun s hs => ?_)
        (Or.inl ⟨k + 1, hrun⟩) n
      have circle (hcirc : Circling N m s.cap) : (Service.visit p m s).2 = false ∧
          ((∃ j, Running N s0 m written j (Service.visit p m s).1.cap) ∨ Circling N m (Service.visit p m s).1.cap) := by
        obtain ⟨hbusy, hcirc⟩ := hcirc.visit (p := p)
        rw [Service.visit_of_some hbusy]
        exact ⟨rfl, Or.inr hcirc⟩
      rcases hs with ⟨j, hrun⟩ | hcirc
      · rcases Nat.lt_or_ge j written.length with hlt | hge
        · obtain ⟨hbusy, hrun⟩ := hrun.visit (p := p) hlt
          rw [Service.visit_of_some hbusy]
          exact ⟨rfl, Or.inl ⟨j + 1, hrun⟩⟩
        · obtain rfl : j = written.length := Nat.le_antisymm hrun.le hge
          exact circle (hrun.circling hwrap)
      · exact circle hcirc

end Dsplog
