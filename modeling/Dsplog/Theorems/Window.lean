import Dsplog.Lib.Cyclic
import Dsplog.Timer

/-! The log window of a core as the DSP fills it, and what a visit of the timer's loop does there. The DSP
    writes whole records in turn into the slots of the window; the timer follows with `dsppf_current`. -/

namespace Dsplog
open Bytes Cyclic

/-! ### Records in memory -/

namespace IdspPrintf

/-- What an unwritten slot of a cleared window reads as. -/
def blank : IdspPrintf := ⟨0, 0, 0, 0, 0, 0, 0, 0⟩

/-- The record in memory is the one whose bytes are there. -/
theorem load_of_read {m : Mem} {a : Nat} {r : IdspPrintf} (h : m.read a dsplogEntrySize = r.bytes) : load m a = r := by
  have hwords : m.read a (4 + (4 + (4 + (4 + (4 + (4 + (4 + (4 + 0)))))))) =
      ofWord r.seqNum ++ (ofWord r.dspCore ++ (ofWord r.formatAddr ++ (ofWord r.arg1 ++ (ofWord r.arg2 ++
        (ofWord r.arg3 ++ (ofWord r.arg4 ++ (ofWord r.arg5 ++ []))))))) := h
  obtain ⟨hseqNum, hwords⟩ := word_of_read hwords
  obtain ⟨hdspCore, hwords⟩ := word_of_read hwords
  obtain ⟨hformatAddr, hwords⟩ := word_of_read hwords
  obtain ⟨harg1, hwords⟩ := word_of_read hwords
  obtain ⟨harg2, hwords⟩ := word_of_read hwords
  obtain ⟨harg3, hwords⟩ := word_of_read hwords
  obtain ⟨harg4, hwords⟩ := word_of_read hwords
  obtain ⟨harg5, -⟩ := word_of_read hwords
  simp only [Nat.add_assoc, Nat.reduceAdd] at *
  simp only [load, hseqNum, hdspCore, hformatAddr, harg1, harg2, harg3, harg4, harg5]

/-- Whatever is in memory, the bytes of a slot are those of the record that it reads as. -/
theorem bytes_load (m : Mem) (a : Nat) : (load m a).bytes = m.read a dsplogEntrySize := by
  simp only [bytes, load, ofWord_word, ← Mem.read_append, Nat.reduceAdd]
  rfl

theorem bytes_injective {r r' : IdspPrintf} (h : r.bytes = r'.bytes) : r = r' := by
  have hr : (Mem.write (fun _ => 0) 0 r.bytes).read 0 dsplogEntrySize = r.bytes := Mem.read_write_self
  exact (load_of_read hr).symm.trans (load_of_read (hr.trans h))

end IdspPrintf

/-! ### The window -/

/-- The record that is last in slot `i` of `N`, when `written` went into the slots in turn. -/
def lastIn (N : Nat) (written : List IdspPrintf) (i : Nat) : IdspPrintf :=
  ((latest N written.length i).bind (written[·]?)).getD .blank

/-- The `N` slots from `base` on hold what the DSP has written into a cleared window. -/
def Window (m : Mem) (base N : Nat) (written : List IdspPrintf) : Prop :=
  ∀ i, i < N → m.read (base + dsplogEntrySize * i) dsplogEntrySize = (lastIn N written i).bytes

section Window
variable {m : Mem} {base N i : Nat} {written : List IdspPrintf} {r : IdspPrintf}

theorem lastIn_cases (written : List IdspPrintf) (hi : i < N) : written.length ≤ i ∧ lastIn N written i = .blank ∨
    ∃ j, written[j]? = some (lastIn N written i) ∧ j < written.length ∧ j % N = i ∧ written.length ≤ j + N := by
  unfold lastIn
  cases hl : latest N written.length i with
  | none => exact Or.inl ⟨(latest_eq_none hi).mp hl, rfl⟩
  | some j =>
    obtain ⟨hj, hmod, hle⟩ := (latest_eq_some hi).mp hl
    refine Or.inr ⟨j, ?_, hj, hmod, hle⟩
    simp [hj]

/-- What holds of every record and its place holds with one more record. -/
theorem forall_getElem?_concat {P : Nat → IdspPrintf → Prop} (h : ∀ j r, written[j]? = some r → P j r)
    (hr : P written.length r) : ∀ j r', (written ++ [r])[j]? = some r' → P j r' := by
  intro j r' hj
  rcases Nat.lt_or_ge j written.length with hlt | hge
  · rw [List.getElem?_append_left hlt] at hj
    exact h j r' hj
  · have hj' : j < (written ++ [r]).length := (List.getElem?_eq_some_iff.mp hj).1
    rw [List.length_append, List.length_singleton] at hj'
    obtain rfl : j = written.length := by omega
    rw [List.getElem?_concat_length] at hj
    cases hj
    exact hr

theorem lastIn_append : lastIn N (written ++ [r]) i = if written.length % N = i then r else lastIn N written i := by
  unfold lastIn
  rw [List.length_append, List.length_singleton]
  split
  · rename_i hi
    subst hi
    rw [latest_succ_self]
    simp
  · rename_i hi
    rw [latest_succ_of_ne hi]
    cases hl : latest N written.length i with
    | none => rfl
    | some j => simp [List.getElem?_append_left (latest_lt hl)]

theorem window_nil (h : ∀ x, base ≤ x → x < base + dsplogEntrySize * N → m x = 0) : Window m base N [] := by
  intro i hi
  have hzero : m.read (base + dsplogEntrySize * i) dsplogEntrySize = Mem.read (fun _ => 0) 0 dsplogEntrySize := by
    refine List.map_congr_left fun k hk => h _ (by omega) ?_
    have hk := List.mem_range.mp hk
    have : dsplogEntrySize * (i + 1) ≤ dsplogEntrySize * N := Nat.mul_le_mul_left _ hi
    rw [Nat.mul_succ] at this
    omega
  rw [hzero, lastIn, List.length_nil, latest]
  rfl

namespace Window

theorem write (h : Window m base N written) (r : IdspPrintf) :
    Window (m.write (base + dsplogEntrySize * (written.length % N)) r.bytes) base N (written ++ [r]) := by
  intro i hi
  rw [lastIn_append]
  split
  · rename_i heq
    subst heq
    exact Mem.read_write_self
  · rename_i hne
    rw [← h i hi]
    refine Mem.read_write_of_disjoint ?_
    simp only [IdspPrintf.bytes_length, dsplogEntrySize]
    omega

theorem frame (h : Window m base N written) {a : Nat} {bs : List UInt8}
    (hd : a + bs.length ≤ base ∨ base + dsplogEntrySize * N ≤ a) : Window (m.write a bs) base N written := by
  intro i hi
  rw [← h i hi]
  refine Mem.read_write_of_disjoint ?_
  simp only [dsplogEntrySize] at *
  omega

theorem load (h : Window m base N written) (hi : i < N) :
    IdspPrintf.load m (base + dsplogEntrySize * i) = lastIn N written i := IdspPrintf.load_of_read (h i hi)

/-- What the slot of record `e` holds: nothing yet, a record of the round before, or one from `e` on. -/
theorem next_slot (h : Window m base N written) (hN : 0 < N) {e : Nat} (he : e ≤ written.length) :
    ∃ r, IdspPrintf.load m (base + dsplogEntrySize * (e % N)) = r ∧
      m.read (base + dsplogEntrySize * (e % N)) dsplogEntrySize = r.bytes ∧
      (r = .blank ∧ e < N ∧ e = written.length ∨
        ∃ j, written[j]? = some r ∧ j % N = e % N ∧ written.length ≤ j + N ∧
          (e = j + N ∧ e = written.length ∨ e ≤ j)) := by
  have hi : e % N < N := Nat.mod_lt e hN
  refine ⟨_, h.load hi, h _ hi, ?_⟩
  rcases lastIn_cases written hi with ⟨hlen, hblank⟩ | ⟨j, hj, hlt, hmod, hround⟩
  · have hmod := Nat.mod_le e N
    exact Or.inl ⟨hblank, by omega, by omega⟩
  · refine Or.inr ⟨j, hj, hmod, hround, ?_⟩
    rcases Nat.lt_or_ge j e with hje | hje
    · have hstep := add_le_of_mod_eq hje hmod
      exact Or.inl ⟨by omega, by omega⟩
    · exact Or.inr hje

end Window
end Window

/-! ### A visit -/

namespace CapInfo
variable {p : Platform} {m : Mem} {c : CapInfo} {seq : UInt32}

theorem older_iff : c.older seq = true ↔ seq.toNat < c.currSeqNum.toNat ∧ c.currSeqNum.toNat ≠ 0xFFFFFFFF ∧
    c.currSeqNum.toNat - seq.toNat < 0xF0000000 := by
  simp only [older, Bool.and_eq_true, decide_eq_true_eq, bne_iff_ne, UInt32.lt_iff_toNat_lt, and_assoc, ne_eq,
    ← UInt32.toNat_inj]
  refine and_congr_right fun hlt => and_congr_right fun _ => ?_
  rw [UInt32.toNat_sub_of_le _ _ (UInt32.le_iff_toNat_le.mpr (Nat.le_of_lt hlt))]
  rfl

theorem olderWrapped_iff : c.olderWrapped seq = true ↔ 0 < c.currSeqNum.toNat ∧ c.currSeqNum.toNat < seq.toNat ∧
    0xF000000 < seq.toNat - c.currSeqNum.toNat := by
  simp only [olderWrapped, Bool.and_eq_true, decide_eq_true_eq, UInt32.lt_iff_toNat_lt, and_assoc]
  refine and_congr_right fun _ => and_congr_right fun hlt => ?_
  rw [UInt32.toNat_sub_of_le _ _ (UInt32.le_iff_toNat_le.mpr (Nat.le_of_lt hlt))]
  rfl

theorem older_eq_false (h : ¬(seq.toNat < c.currSeqNum.toNat ∧ c.currSeqNum.toNat ≠ 0xFFFFFFFF ∧
    c.currSeqNum.toNat - seq.toNat < 0xF0000000)) : c.older seq = false :=
  eq_false_of_ne_true (older_iff.not.mpr h)

theorem olderWrapped_eq_false (h : ¬(0 < c.currSeqNum.toNat ∧ c.currSeqNum.toNat < seq.toNat ∧
    0xF000000 < seq.toNat - c.currSeqNum.toNat)) : c.olderWrapped seq = false :=
  eq_false_of_ne_true (olderWrapped_iff.not.mpr h)

theorem follow_wrapped (c : CapInfo) (seq : UInt32) :
    (c.follow seq).seqNumWrapped = true ↔ c.seqNumWrapped = true ∨ c.currSeqNum.toNat = 0xFFFFFFFF := by
  have heq : c.currSeqNum = 0xFFFFFFFF ↔ c.currSeqNum.toNat = 0xFFFFFFFF := UInt32.toNat_inj.symm
  rw [← heq]
  simp [follow]

theorem follow_unwrapped (h : c.seqNumWrapped = false) (hne : c.currSeqNum.toNat ≠ 0xFFFFFFFF) (seq : UInt32) :
    (c.follow seq).seqNumWrapped = false := by
  rw [← Bool.not_eq_true, follow_wrapped, h]
  simpa only [Bool.false_eq_true, false_or] using hne

/-- The cursor moves to the next slot of the window. -/
theorem advance_current {N j : Nat} (hN : 0 < N) (hsize : c.dsplogBufSize.toNat = dsplogEntrySize * N)
    (hcur : c.dsppfCurrent = c.dsppfBase + dsplogEntrySize * (j % N)) :
    c.advance.dsppfCurrent = c.dsppfBase + dsplogEntrySize * ((j + 1) % N) := by
  have hj := Nat.mod_lt j hN
  have hnext := next_eq_mod hj
  rw [Nat.mod_add_mod] at hnext
  rw [← hnext]
  simp only [advance, next, hcur, hsize, dsplogEntrySize]
  split <;> split <;> omega

/-- What a visit of an instance does: the next record is judged stale, or stale from before a wrap, or an
    unwritten slot, or it is handed over. -/
theorem visit_cases (c : CapInfo) (p : Platform) (m : Mem) (hawake : c.dspSuspended = false) {r : IdspPrintf}
    (hr : IdspPrintf.load m c.dsppfCurrent = r) :
    c.older r.seqNum = true ∧ (c.visit p m).handed = none ∧ (c.visit p m).cap = c ∨
    c.older r.seqNum = false ∧ c.olderWrapped r.seqNum = true ∧ (c.visit p m).handed = none ∧
      (c.visit p m).cap = { c with currSeqNum := r.seqNum } ∨
    c.older r.seqNum = false ∧ c.olderWrapped r.seqNum = false ∧
      (r.seqNum = 0 ∧ (c.follow r.seqNum).seqNumWrapped = false ∧ r.formatAddr = 0) ∧
      (c.visit p m).handed = none ∧ (c.visit p m).cap = c.follow r.seqNum ∨
    c.older r.seqNum = false ∧ c.olderWrapped r.seqNum = false ∧
      ¬(r.seqNum = 0 ∧ (c.follow r.seqNum).seqNumWrapped = false ∧ r.formatAddr = 0) ∧
      (c.visit p m).handed = some (m.read c.dsppfCurrent dsplogEntrySize) ∧
      ∃ rb, (c.visit p m).cap = ({ c.follow r.seqNum with ringbuf := rb } : CapInfo).advance := by
  subst hr
  simp only [visit, hawake, Bool.false_eq_true, if_false]
  split
  · rename_i h
    exact Or.inl ⟨h, rfl, rfl⟩
  · rename_i h
    have h := eq_false_of_ne_true h
    right
    split
    · rename_i h'
      exact Or.inl ⟨h, h', rfl, rfl⟩
    · rename_i h'
      have h' := eq_false_of_ne_true h'
      right
      split
      · rename_i h''
        exact Or.inl ⟨h, h', h'', rfl, rfl⟩
      · rename_i h''
        exact Or.inr ⟨h, h', h'', rfl, _, rfl⟩

/-- The number of a visited slot neither tells of a stale record nor of an unwritten slot. -/
structure Passes (c : CapInfo) (r : IdspPrintf) : Prop where
  older : c.older r.seqNum = false
  olderWrapped : c.olderWrapped r.seqNum = false
  written : ¬(r.seqNum = 0 ∧ (c.follow r.seqNum).seqNumWrapped = false ∧ r.formatAddr = 0)

variable {r : IdspPrintf}

theorem visit_of_passes (hawake : c.dspSuspended = false) (hr : IdspPrintf.load m c.dsppfCurrent = r)
    (h : c.Passes r) : (c.visit p m).handed = some (m.read c.dsppfCurrent dsplogEntrySize) ∧
      ∃ rb, (c.visit p m).cap = ({ c.follow r.seqNum with ringbuf := rb } : CapInfo).advance := by
  rcases c.visit_cases p m hawake hr with ⟨ho, -⟩ | ⟨-, ho, -⟩ | ⟨-, -, hz, -⟩ | ⟨-, -, -, hd⟩
  · exact absurd (ho.symm.trans h.older) (by simp)
  · exact absurd (ho.symm.trans h.olderWrapped) (by simp)
  · exact absurd hz h.written
  · exact hd

theorem visit_of_older (hawake : c.dspSuspended = false) (hr : IdspPrintf.load m c.dsppfCurrent = r)
    (h : c.older r.seqNum = true) : (c.visit p m).handed = none ∧ (c.visit p m).cap = c := by
  rcases c.visit_cases p m hawake hr with ⟨-, hd⟩ | ⟨ho, -⟩ | ⟨ho, -⟩ | ⟨ho, -⟩
  · exact hd
  all_goals exact absurd (ho.symm.trans h) (by simp)

theorem visit_of_olderWrapped (hawake : c.dspSuspended = false) (hr : IdspPrintf.load m c.dsppfCurrent = r)
    (h : c.older r.seqNum = false) (h' : c.olderWrapped r.seqNum = true) :
    (c.visit p m).handed = none ∧ (c.visit p m).cap = { c with currSeqNum := r.seqNum } := by
  rcases c.visit_cases p m hawake hr with ⟨ho, -⟩ | ⟨-, -, hd⟩ | ⟨-, ho, -⟩ | ⟨-, ho, -⟩
  · exact absurd (ho.symm.trans h) (by simp)
  · exact hd
  all_goals exact absurd (ho.symm.trans h') (by simp)

theorem visit_of_unwritten (hawake : c.dspSuspended = false) (hr : IdspPrintf.load m c.dsppfCurrent = r)
    (h : c.older r.seqNum = false) (h' : c.olderWrapped r.seqNum = false)
    (hz : r.seqNum = 0 ∧ (c.follow r.seqNum).seqNumWrapped = false ∧ r.formatAddr = 0) :
    (c.visit p m).handed = none ∧ (c.visit p m).cap = c.follow r.seqNum := by
  rcases c.visit_cases p m hawake hr with ⟨ho, -⟩ | ⟨-, ho, -⟩ | ⟨-, -, -, hd⟩ | ⟨-, -, hnz, -⟩
  · exact absurd (ho.symm.trans h) (by simp)
  · exact absurd (ho.symm.trans h') (by simp)
  · exact hd
  · exact absurd hz hnz

end CapInfo
end Dsplog
