import Dsplog.Lib.Run
import Dsplog.Theorems.Settled
import Mathlib.Data.List.Chain

/-! The report that the DSP overwrote its log buffer. It compares the number of the next record with
    `curr_seq_num`, so it tells of the lost records as long as `curr_seq_num` is the number of the last record
    captured, and as long as this number is not the zero that also means that nothing is captured yet. -/

namespace Dsplog
open Bytes Machines

/-- A record that the timer has captured: its number, and whether the report was issued for it. -/
structure Captured where
  seqNum : UInt32
  reported : Bool
  deriving DecidableEq, Repr

/-- A capture with the records that the timer has captured in it, and whether a visit has issued the report
    without capturing a record. -/
structure Overrun where
  cap : CapInfo
  mem : Mem
  written : Nat
  captured : List Captured
  astray : Bool

inductive OverrunEvent where
  | dspWrite (r : IdspPrintf)
  | visit
  deriving DecidableEq, Repr

namespace CapInfo

/-- A visit finds an unwritten slot. -/
def FindsEmpty (c : CapInfo) (m : Mem) : Prop :=
  c.dspSuspended = false ∧ c.older (c.nextRecord m).seqNum = false ∧ c.olderWrapped (c.nextRecord m).seqNum = false ∧
    (c.nextRecord m).seqNum = 0 ∧ (c.follow (c.nextRecord m).seqNum).seqNumWrapped = false ∧
      (c.nextRecord m).formatAddr = 0

instance (c : CapInfo) (m : Mem) : Decidable (c.FindsEmpty m) := inferInstanceAs (Decidable (_ ∧ _))

/-- With `a` the number of the last captured record, the comparison of `seq` with `curr_seq_num` tells whether
    there are records between them. -/
def Tells (c : CapInfo) (a seq : UInt32) : Prop :=
  seq ≠ c.currSeqNum ∧ if c.currSeqNum = a then a = 0 → seq = 1 else seq ≠ c.currSeqNum + 1 ∧ seq ≠ a + 1

instance (c : CapInfo) (a seq : UInt32) : Decidable (c.Tells a seq) := inferInstanceAs (Decidable (_ ∧ ite _ _ _))

end CapInfo

namespace Overrun

/-- The DSP writes its next record, numbered from `s0` on, into the next slot, from slot `q` on. -/
def step (p : Platform) (N q : Nat) (s0 : UInt32) (s : Overrun) : OverrunEvent → Option Overrun
  | .dspWrite r =>
    if r.seqNum = s0 + UInt32.ofNat s.written then
      some { s with
        mem := s.mem.write (s.cap.dsppfBase + dsplogEntrySize * ((q + s.written) % N)) r.bytes
        written := s.written + 1 }
    else none
  | .visit => some { s with
      cap := (s.cap.visit p s.mem).cap
      captured := s.captured ++
        (s.cap.visit p s.mem).handed.toList.map fun _ => ⟨(s.cap.nextRecord s.mem).seqNum, (s.cap.visit p s.mem).reported⟩
      astray := s.astray || (s.cap.visit p s.mem).handed.isNone && (s.cap.visit p s.mem).reported }

/-- What START leaves of an instance that checks the numbers, in front of any window. -/
structure Initial (N : Nat) (s : Overrun) : Prop where
  size : s.cap.dsplogBufSize.toNat = dsplogEntrySize * N
  seq : s.cap.currSeqNum = 0
  enabled : s.cap.seqNumCheckEnable = true
  written : s.written = 0
  captured : s.captured = []
  astray : s.astray = false

/-- The report is issued for a record exactly when its number does not follow that of the record captured before,
    and for nothing else. -/
structure Told (s : Overrun) : Prop where
  gaps : s.captured.IsChain fun a b => b.reported = true ↔ b.seqNum ≠ a.seqNum + 1
  quiet : s.astray = false

/-- A visit that captures a record can tell what is lost before it, and one that finds an unwritten slot has no
    number to compare with. -/
def Telling (s : Overrun) : OverrunEvent → Prop
  | .dspWrite _ => True
  | .visit => ∀ a ∈ s.captured.getLast?,
    (s.cap.Takes s.mem → s.cap.Tells a.seqNum (s.cap.nextRecord s.mem).seqNum) ∧
      (s.cap.FindsEmpty s.mem → s.cap.currSeqNum = 0)

instance : ∀ (s : Overrun) (e : OverrunEvent), Decidable (Telling s e)
  | _, .dspWrite _ => inferInstanceAs (Decidable True)
  | s, .visit => inferInstanceAs (Decidable (∀ a ∈ s.captured.getLast?,
      (s.cap.Takes s.mem → s.cap.Tells a.seqNum (s.cap.nextRecord s.mem).seqNum) ∧
        (s.cap.FindsEmpty s.mem → s.cap.currSeqNum = 0)))

end Overrun

def overrun (p : Platform) (N q : Nat) (s0 : UInt32) : Machine Overrun OverrunEvent where
  Init := Overrun.Initial N
  step := Overrun.step p N q s0

/-! ### The report of a visit -/

namespace CapInfo
variable {p : Platform} {m : Mem} {c : CapInfo} {a seq : UInt32}

theorem one_lt_sub_iff : 1 < seq - a ↔ seq ≠ a ∧ seq ≠ a + 1 := by
  simp only [UInt32.lt_iff_toNat_lt, ne_eq, ← UInt32.toNat_inj, UInt32.toNat_sub, UInt32.toNat_add]
  have := a.toNat_lt
  have := seq.toNat_lt
  have h1 : (1 : UInt32).toNat = 1 := rfl
  omega

theorem overwritten_iff (hone : p.seqNumberThreadHold = 1) (henabled : c.seqNumCheckEnable = true) :
    c.overwritten p c.currSeqNum seq = true ↔ c.currSeqNum ≠ 0 ∧ seq ≠ c.currSeqNum ∧ seq ≠ c.currSeqNum + 1 := by
  simp only [overwritten, henabled, hone, Bool.true_and, Bool.and_eq_true, bne_iff_ne, decide_eq_true_eq, one_lt_sub_iff]

/-- The cases of a visit with its report: a record is captured, an unwritten slot is found, or the visit reports
    nothing and at most takes over the number of a record from before a wrap. -/
theorem visit_report (c : CapInfo) (p : Platform) (m : Mem) :
    (c.Takes m ∧ (∃ record, (c.visit p m).handed = some record) ∧
      (c.visit p m).reported = c.overwritten p c.currSeqNum (c.nextRecord m).seqNum ∧
      (c.visit p m).cap.currSeqNum = (c.nextRecord m).seqNum) ∨
    (c.FindsEmpty m ∧ (c.visit p m).handed = none ∧
      (c.visit p m).reported = c.overwritten p c.currSeqNum 0 ∧ (c.visit p m).cap.currSeqNum = 0) ∨
    (¬c.Takes m ∧ ¬c.FindsEmpty m ∧ (c.visit p m).handed = none ∧ (c.visit p m).reported = false ∧
      ((c.visit p m).cap.currSeqNum = c.currSeqNum ∨ 0 < c.currSeqNum.toNat ∧
        c.currSeqNum.toNat + 0xF000000 < (c.visit p m).cap.currSeqNum.toNat)) := by
  cases hawake : c.dspSuspended with
  | true =>
    refine Or.inr (Or.inr ⟨fun h => ?_, fun h => ?_, ?_⟩)
    · exact absurd (h.1.symm.trans hawake) Bool.false_ne_true
    · exact absurd (h.1.symm.trans hawake) Bool.false_ne_true
    · simp [visit, hawake]
  | false =>
    cases hold : c.older (c.nextRecord m).seqNum with
    | true =>
      refine Or.inr (Or.inr ⟨fun h => ?_, fun h => ?_, ?_⟩)
      · exact absurd (h.2.older.symm.trans hold) Bool.false_ne_true
      · exact absurd (h.2.1.symm.trans hold) Bool.false_ne_true
      · rw [nextRecord] at hold
        simp [visit, hawake, hold]
    | false =>
      cases hold' : c.olderWrapped (c.nextRecord m).seqNum with
      | true =>
        have hfar := olderWrapped_iff.mp hold'
        refine Or.inr (Or.inr ⟨fun h => ?_, fun h => ?_, ?_⟩)
        · exact absurd (h.2.olderWrapped.symm.trans hold') Bool.false_ne_true
        · exact absurd (h.2.2.1.symm.trans hold') Bool.false_ne_true
        · rw [nextRecord] at hold hold' hfar
          simp only [visit, hawake, hold, hold', Bool.false_eq_true, if_false, if_true, true_and]
          exact Or.inr ⟨hfar.1, by omega⟩
      | false =>
        by_cases hzero : (c.nextRecord m).seqNum = 0 ∧ (c.follow (c.nextRecord m).seqNum).seqNumWrapped = false ∧
            (c.nextRecord m).formatAddr = 0
        · refine Or.inr (Or.inl ⟨⟨hawake, hold, hold', hzero⟩, ?_⟩)
          rw [nextRecord] at hold hold' hzero
          have hcurr : (c.follow (IdspPrintf.load m c.dsppfCurrent).seqNum).currSeqNum = 0 := hzero.1
          simp only [visit, hawake, hold, hold', hcurr, hzero.2, Bool.false_eq_true, if_false, if_true, true_and, and_self]
          rw [hzero.1]
          exact ⟨rfl, trivial⟩
        · refine Or.inl ⟨⟨hawake, hold, hold', hzero⟩, ?_⟩
          rw [nextRecord] at hold hold' hzero ⊢
          have hpass : ¬((c.follow (IdspPrintf.load m c.dsppfCurrent).seqNum).currSeqNum = 0 ∧
            (c.follow (IdspPrintf.load m c.dsppfCurrent).seqNum).seqNumWrapped = false ∧
              (IdspPrintf.load m c.dsppfCurrent).formatAddr = 0) := hzero
          simp only [visit, hawake, hold, hold', if_neg hpass, Bool.false_eq_true, if_false]
          exact ⟨⟨_, rfl⟩, trivial, rfl⟩

theorem visit_enabled (c : CapInfo) (p : Platform) (m : Mem) :
    (c.visit p m).cap.seqNumCheckEnable = c.seqNumCheckEnable := by
  cases hawake : c.dspSuspended with
  | true => rw [(visit_of_suspended hawake).2]
  | false =>
    rcases c.visit_cases p m hawake rfl with ⟨-, -, h⟩ | ⟨-, -, -, h⟩ | ⟨-, -, -, -, h⟩ | ⟨-, -, -, -, rb, h⟩ <;>
      rw [h] <;> rfl

/-- `curr_seq_num` is the number of the last captured record, or one taken over from far ahead of it. -/
def Near (c : CapInfo) (a : UInt32) : Prop := c.currSeqNum = a ∨ a.toNat + 0xF000000 < c.currSeqNum.toNat

/-- The report is right exactly when the numbers tell what is lost. -/
theorem report_right_iff (hone : p.seqNumberThreadHold = 1) (henabled : c.seqNumCheckEnable = true) (hnear : c.Near a) :
    (c.overwritten p c.currSeqNum seq = true ↔ seq ≠ a + 1) ↔ c.Tells a seq := by
  have hself (x : UInt32) : x ≠ x + 1 := by
    intro h
    have h := congrArg UInt32.toNat h
    rw [UInt32.toNat_add] at h
    have h1 : (1 : UInt32).toNat = 1 := rfl
    omega
  rw [overwritten_iff hone henabled, Tells]
  by_cases heq : c.currSeqNum = a
  · rw [if_pos heq, heq]
    by_cases hzero : a = 0
    · subst hzero
      have hnext := hself 0
      have h1 : (0 : UInt32) + 1 = 1 := rfl
      grind
    · have hnext := hself a
      grind
  · have hfar := hnear.resolve_left heq
    have hcurr : c.currSeqNum ≠ 0 ∧ c.currSeqNum ≠ a + 1 := by
      simp only [ne_eq, ← UInt32.toNat_inj, UInt32.toNat_add]
      have hlt := c.currSeqNum.toNat_lt
      have h0 : (0 : UInt32).toNat = 0 := rfl
      have h1 : (1 : UInt32).toNat = 1 := rfl
      omega
    have hinj : seq = c.currSeqNum + 1 → seq = a + 1 → c.currSeqNum = a := by
      intro h h'
      exact (UInt32.add_left_inj 1).mp (h.symm.trans h')
    rw [if_neg heq]
    grind

end CapInfo

namespace Overrun
variable {p : Platform} {N q : Nat} {s0 : UInt32} {s t : Overrun} {e : OverrunEvent}

/-- Without a captured record `curr_seq_num` is zero, else it is near the number of the last one. -/
structure Follows (s : Overrun) : Prop where
  enabled : s.cap.seqNumCheckEnable = true
  told : Told s
  first : s.captured = [] → s.cap.currSeqNum = 0
  last : ∀ a ∈ s.captured.getLast?, s.cap.Near a.seqNum

theorem Initial.follows (h : Initial N s) : Follows s :=
  ⟨h.enabled, ⟨h.captured ▸ List.IsChain.nil, h.astray⟩, fun _ => h.seq, by simp [h.captured]⟩

/-- What a visit adds to the records captured before. -/
theorem visit_captured {r : Captured} (h : Follows s) : (s.captured ++ [r]).IsChain
    (fun a b => b.reported = true ↔ b.seqNum ≠ a.seqNum + 1) ↔
      ∀ a ∈ s.captured.getLast?, (r.reported = true ↔ r.seqNum ≠ a.seqNum + 1) := by
  rw [List.isChain_append]
  constructor
  · rintro ⟨-, -, hlink⟩ a ha
    exact hlink a ha r rfl
  · intro hlink
    refine ⟨h.told.gaps, .singleton _, fun a ha b hb => ?_⟩
    cases hb
    exact hlink a ha

/-- A visit keeps the invariant when its number tells what is lost, and else its report is wrong. -/
theorem Follows.visit (hone : p.seqNumberThreadHold = 1) (h : Follows s) (hs : step p N q s0 s .visit = some t) :
    (Telling s .visit → Follows t) ∧ (¬Telling s .visit → ¬Told t) := by
  have henabled := (s.cap.visit_enabled p s.mem).trans h.enabled
  simp only [step, Option.some.injEq] at hs
  subst hs
  rcases s.cap.visit_report p s.mem with ⟨htakes, ⟨record, hhanded⟩, hreported, hcurr⟩ |
    ⟨hempty, hhanded, hreported, hcurr⟩ | ⟨htakes, hempty, hhanded, hreported, hcurr⟩
  · -- A record is captured: the report is for it.
    have hfull : ¬s.cap.FindsEmpty s.mem := fun hempty => htakes.2.written hempty.2.2.2
    have hright : Telling s .visit ↔ ∀ a ∈ s.captured.getLast?,
        ((s.cap.visit p s.mem).reported = true ↔ (s.cap.nextRecord s.mem).seqNum ≠ a.seqNum + 1) := by
      refine forall₂_congr fun a ha => ?_
      rw [hreported, CapInfo.report_right_iff hone h.enabled (h.last a ha)]
      simp [htakes, hfull]
    simp only [hhanded, Option.toList_some, List.map_cons, List.map_nil, Option.isNone_some, Bool.false_and, Bool.or_false]
    constructor
    · intro htelling
      refine ⟨henabled, ⟨(visit_captured h).mpr (hright.mp htelling), h.told.quiet⟩, by simp, fun a ha => ?_⟩
      rw [List.getLast?_concat] at ha
      cases ha
      exact Or.inl hcurr
    · intro hsilent htold
      exact hsilent (hright.mpr ((visit_captured h).mp htold.gaps))
  · -- An unwritten slot: there is no record that the report could be for.
    have htakes : ¬s.cap.Takes s.mem := fun htakes => htakes.2.written hempty.2.2.2
    have hzero : (s.cap.visit p s.mem).reported = true ↔ s.cap.currSeqNum ≠ 0 := by
      rw [hreported, CapInfo.overwritten_iff hone h.enabled]
      have hlast := (s.cap.follow_wrapped (s.cap.nextRecord s.mem).seqNum).not.mp (by simp [hempty.2.2.2.2.1])
      have hnext : s.cap.currSeqNum ≠ 0 → (0 : UInt32) ≠ s.cap.currSeqNum ∧ 0 ≠ s.cap.currSeqNum + 1 := by
        simp only [ne_eq, ← UInt32.toNat_inj, UInt32.toNat_add]
        have hlt := s.cap.currSeqNum.toNat_lt
        have h0 : (0 : UInt32).toNat = 0 := rfl
        have h1 : (1 : UInt32).toNat = 1 := rfl
        omega
      exact ⟨And.left, fun hne => ⟨hne, hnext hne⟩⟩
    simp only [hhanded, Option.toList_none, List.map_nil, List.append_nil, Option.isNone_none, Bool.true_and]
    by_cases hcurr0 : s.cap.currSeqNum = 0
    · have hsilent : (s.cap.visit p s.mem).reported = false := by
        rw [← Bool.not_eq_true, hzero]
        exact not_not_intro hcurr0
      rw [hsilent, Bool.or_false]
      have hkeep := hcurr.trans hcurr0.symm
      refine ⟨fun _ => ⟨henabled, ⟨h.told.gaps, h.told.quiet⟩, fun _ => hcurr, fun a ha => ?_⟩, fun hnot => ?_⟩
      · have hlast := h.last a ha
        rw [CapInfo.Near, ← hkeep] at hlast
        exact hlast
      · exact absurd (fun a ha => ⟨fun h => absurd h htakes, fun _ => hcurr0⟩) hnot
    · refine ⟨fun htelling => ?_, fun _ htold => ?_⟩
      · obtain ⟨a, ha⟩ := Option.ne_none_iff_exists'.mp (mt List.getLast?_eq_none_iff.mp (mt h.first hcurr0))
        exact absurd ((htelling a ha).2 hempty) hcurr0
      · have hquiet := htold.quiet
        rw [hzero.mpr hcurr0, Bool.or_true] at hquiet
        cases hquiet
  · simp only [hhanded, hreported, Option.toList_none, List.map_nil, List.append_nil, Option.isNone_none, Bool.and_false,
      Bool.or_false]
    constructor
    · intro _
      refine ⟨henabled, ⟨h.told.gaps, h.told.quiet⟩, fun hnone => ?_, fun a ha => ?_⟩
      · have hfirst := h.first hnone
        rcases hcurr with hcurr | ⟨hpos, -⟩
        · exact hcurr.trans hfirst
        · rw [hfirst] at hpos
          exact absurd hpos (Nat.lt_irrefl 0)
      · rcases h.last a ha with hlast | hlast <;> rcases hcurr with hcurr | ⟨hpos, hfar⟩
        · exact Or.inl (hcurr.trans hlast)
        · exact Or.inr (hlast ▸ hfar)
        · exact Or.inr (hcurr ▸ hlast)
        · exact Or.inr (Nat.lt_trans hlast (Nat.lt_of_le_of_lt (Nat.le_add_right _ _) hfar))
    · intro hsilent
      exact absurd (fun a ha => ⟨fun h => absurd h htakes, fun h => absurd h hempty⟩) hsilent

theorem Follows.step (hone : p.seqNumberThreadHold = 1) (h : Follows s) (hs : Overrun.step p N q s0 s e = some t) :
    (Telling s e → Follows t) ∧ (¬Telling s e → ¬Told t) := by
  cases e with
  | dspWrite r =>
    simp only [Overrun.step, Option.ite_none_right_eq_some, Option.some.injEq] at hs
    obtain ⟨-, rfl⟩ := hs
    exact ⟨fun _ => ⟨h.enabled, ⟨h.told.gaps, h.told.quiet⟩, h.first, h.last⟩, fun hnot => absurd trivial hnot⟩
  | visit => exact h.visit hone hs

/-- In a capture the report tells of every loss, and of nothing else, exactly when each visit behind the first
    captured record can tell. -/
theorem told_iff (hone : p.seqNumberThreadHold = 1) {events : List OverrunEvent} (h : (overrun p N q s0).Init s)
    (he : (overrun p N q s0).exec s events = some t) :
    (∀ x ∈ (overrun p N q s0).visited s events, Told x) ↔
      ∀ x ∈ (overrun p N q s0).trace s events, Telling x.1 x.2 :=
  Machine.forall_iff_guarded (I := Follows) (fun _ _ _ hI hG hs => (hI.step hone hs).1 hG) (fun _ hI => hI.told)
    (fun _ _ _ hI hG hs => (hI.step hone hs).2 hG) h.follows he

/-! ### Zero as a number -/

def tinyOverrun : Overrun where
  cap := (CapInfo.new (Platform.tiny 1 Nat.one_pos) 0 0 0 0).start
  mem := fun _ => 0
  written := 0
  captured := []
  astray := false

theorem tinyOverrun_initial : Initial 2 tinyOverrun := by
  constructor <;> rfl

def numbered (n : UInt32) : IdspPrintf := ⟨n, 0, 9, 0, 0, 0, 0, 0⟩

/-- The DSP overwrites record 1 behind the captured record 0. -/
def lostBehindZero : List OverrunEvent :=
  [.dspWrite (numbered 0), .visit, .dspWrite (numbered 1), .dspWrite (numbered 2), .dspWrite (numbered 3), .visit]

/-- Record 3 is captured behind record 0, and the loss of the two between them is not reported. -/
theorem loss_behind_zero : ¬∀ s, (overrun (Platform.tiny 1 (by decide)) 2 0 0).Reachable s → Told s := by
  intro h
  have htold := h _ (Machine.Reachable.exec (M := overrun (Platform.tiny 1 (by decide)) 2 0 0) (.init tinyOverrun_initial)
    (rfl : Machine.exec _ tinyOverrun lostBehindZero = some _))
  have hlink := List.isChain_pair.mp (show [Captured.mk 0 false, ⟨3, false⟩].IsChain _ from htold.gaps)
  exact absurd (hlink.mpr (by decide)) (by decide)

theorem told_iff_lost : ∃ t, (overrun (Platform.tiny 1 (by decide)) 2 0 0).exec tinyOverrun lostBehindZero = some t ∧
    ((∀ x ∈ (overrun (Platform.tiny 1 (by decide)) 2 0 0).visited tinyOverrun lostBehindZero, Told x) ↔
      ∀ x ∈ (overrun (Platform.tiny 1 (by decide)) 2 0 0).trace tinyOverrun lostBehindZero, Telling x.1 x.2) :=
  ⟨_, rfl, told_iff rfl tinyOverrun_initial rfl⟩

end Overrun
end Dsplog
