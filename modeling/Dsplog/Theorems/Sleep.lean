import Dsplog.Theorems.Session

/-! A reader asleep on available data. The ring is tested for its reader only when a further record is
    pushed, and only a count of exactly one reader is turned into a token. -/

namespace Dsplog
open Bytes Machines

def Entered.waiting : Entered → Bool
  | .wait => true
  | _ => false

namespace Session
variable {p : Platform} {s t : Session} {e : SessionEvent}

/-- While the reader of a started instance waits without a token, the ring is not full and holds at most
    `DSP_PRINTK_BUF_DUMP_THRESHOLD_SIZE` unread bytes. -/
def SleepsRightly (p : Platform) (s : Session) : Prop :=
  s.cap.dsplogState = true → s.reader = .blocked → s.cap.ringbuf.fillCompl = 0 →
    s.cap.ringbuf.full = false ∧ (s.cap.ringbuf.queued p).flatten.length ≤ p.dumpThresholdSize

/-- A read that waits finds a token, or no reader counted and too little data; START does not come to a reader
    who waits without a token. -/
def Attentive (p : Platform) (s : Session) : SessionEvent → Prop
  | .read maxSize _ => (s.cap.readRing p maxSize).2.waiting = true → 0 < s.cap.ringbuf.fillCompl ∨
      s.cap.ringbuf.numReader = 0 ∧ s.cap.ringbuf.full = false ∧
        (s.cap.ringbuf.queued p).flatten.length ≤ p.dumpThresholdSize
  | .start => s.reader = .blocked → 0 < s.cap.ringbuf.fillCompl
  | _ => True

instance (p : Platform) : ∀ (s : Session) (e : SessionEvent), Decidable (Attentive p s e)
  | s, .read maxSize _ => inferInstanceAs (Decidable ((s.cap.readRing p maxSize).2.waiting = true →
      0 < s.cap.ringbuf.fillCompl ∨ s.cap.ringbuf.numReader = 0 ∧ s.cap.ringbuf.full = false ∧
        (s.cap.ringbuf.queued p).flatten.length ≤ p.dumpThresholdSize))
  | s, .start => inferInstanceAs (Decidable (s.reader = .blocked → 0 < s.cap.ringbuf.fillCompl))
  | _, .stop | _, .push _ | _, .wake | _, .interrupt | _, .finish _ => inferInstanceAs (Decidable True)

theorem not_due_iff {rb : RingBuf} (h : rb.Layout p) :
    rb.due p = false ↔ rb.full = false ∧ (rb.queued p).flatten.length ≤ p.dumpThresholdSize := by
  rw [RingBuf.flatten_queued_length, ← Bool.not_eq_true, h.due_iff, not_or, Bool.not_eq_true, Nat.not_lt]

/-- The reader of a started instance who waits without a token is the only one counted, and nothing is due. -/
structure Asleep (p : Platform) (s : Session) : Prop where
  sound : s.cap.Sound p
  counted : s.cap.dsplogState = true → s.reader = .blocked → s.cap.ringbuf.fillCompl = 0 →
    s.cap.ringbuf.numReader = 1 ∧ s.cap.ringbuf.due p = false

namespace Asleep

theorem sleepsRightly (h : Asleep p s) : SleepsRightly p s := fun hstate hblocked htok =>
  (not_due_iff h.sound.wf.toLayout).mp (h.counted hstate hblocked htok).2

/-- A push of a record that makes the ring due gives the reader a token. -/
theorem push (h : Asleep p s) (r : IdspPrintf) : Asleep p { s with cap := s.cap.push p r } := by
  refine ⟨h.sound.push r, fun hstate hblocked htok => ?_⟩
  have htok : (s.cap.push p r).ringbuf.fillCompl = 0 := htok
  rcases s.cap.push_cases p r with ⟨hnone, hnum, hsame⟩ | ⟨-, -, hgiven⟩
  · obtain ⟨hone, -⟩ := h.counted hstate hblocked (hsame.symm.trans htok)
    refine ⟨hnum.trans hone, hnone.resolve_left ?_⟩
    rw [hone]
    decide
  · exfalso
    rw [hgiven] at htok
    split at htok
    · cases htok
    · rename_i hmore
      obtain ⟨hone, -⟩ := h.counted hstate hblocked htok
      rw [hone] at hmore
      exact hmore (by decide)

theorem step (h : Asleep p s) (hG : Attentive p s e) (hs : s.step p e = some t) : Asleep p t := by
  have hsound := sound_step h.sound hs
  refine ⟨hsound, ?_⟩
  cases e with
  | start =>
    cases hs
    intro _ hblocked htok
    have hpos := hG hblocked
    exact absurd htok (Nat.ne_of_gt hpos)
  | stop =>
    cases hs
    intro hstate
    cases hstate
  | push r =>
    cases hs
    exact (h.push r).counted
  | read maxSize copy =>
    simp only [Session.step] at hs
    split at hs
    · rename_i hidle
      rcases s.cap.readRing_cases p maxSize with ⟨result, hr⟩ | ⟨-, hr⟩ | ⟨-, -, hr⟩ | ⟨-, -, hr⟩
      · rw [hr] at hs
        cases hs
        exact h.counted
      · rw [hr] at hs
        cases hs
        intro _ hblocked
        exact absurd (hidle.symm.trans hblocked) (by simp)
      · rw [hr] at hs
        cases hs
        intro _ hblocked
        exact absurd (hidle.symm.trans hblocked) (by simp)
      · have hG : 0 < s.cap.ringbuf.fillCompl ∨ _ := hG (by rw [hr]; rfl)
        rw [hr] at hs
        cases hs
        intro _ _ htok
        rcases hG with hpos | ⟨hzero, hfull, hle⟩
        · exact absurd htok (Nat.ne_of_gt hpos)
        · refine ⟨?_, (not_due_iff hsound.wf.toLayout).mpr ⟨hfull, hle⟩⟩
          show s.cap.ringbuf.numReader + 1 = 1
          rw [hzero]
          rfl
    · cases hs
  | wake =>
    simp only [Session.step] at hs
    split at hs <;> cases hs
    intro _ hblocked
    cases hblocked
  | interrupt =>
    simp only [Session.step] at hs
    split at hs <;> cases hs
    intro _ hblocked
    cases hblocked
  | finish copy =>
    simp only [Session.step] at hs
    split at hs <;> cases hs
    intro _ hblocked
    cases hblocked

end Asleep

/-- A reader without a token who is not the only one counted is still asleep when the ring is due. -/
theorem oversleeps (h : s.cap.Sound p) (hstate : s.cap.dsplogState = true) (hblocked : s.reader = .blocked)
    (htok : s.cap.ringbuf.fillCompl = 0) (hlost : s.cap.ringbuf.numReader ≠ 1 ∨ s.cap.ringbuf.due p = true) :
    ∃ es u, (session p).exec s es = some u ∧ ¬SleepsRightly p u := by
  obtain ⟨n, hn⟩ : ∃ n, p.printkBufEntries - 1 - s.cap.ringbuf.count p = n := ⟨_, rfl⟩
  induction n generalizing s with
  | zero =>
    have hfull : s.cap.ringbuf.full = true := h.wf.full_iff.mpr (by have := h.wf.count_lt; omega)
    refine ⟨[], s, rfl, fun hright => ?_⟩
    have hnot := (hright hstate hblocked htok).1
    rw [hfull] at hnot
    cases hnot
  | succ n ih =>
    cases hdue : s.cap.ringbuf.due p with
    | true =>
      refine ⟨[], s, rfl, fun hright => ?_⟩
      have hnot := (not_due_iff h.wf.toLayout).mpr (hright hstate hblocked htok)
      rw [hdue] at hnot
      cases hnot
    | false =>
      have hnum : s.cap.ringbuf.numReader ≠ 1 := hlost.resolve_right (by simp [hdue])
      have hfull : s.cap.ringbuf.full = false := ((not_due_iff h.wf.toLayout).mp hdue).1
      let r : IdspPrintf := ⟨1, 0, 0, 0, 0, 0, 0, 0⟩
      have hcount := h.push_count r
      rw [hfull, if_neg (by simp)] at hcount
      have htok' : (s.cap.push p r).ringbuf.fillCompl = 0 := by
        rcases s.cap.push_cases p r with ⟨-, -, hsame⟩ | ⟨-, -, hgiven⟩
        · exact hsame.trans htok
        · rw [if_neg fun h0 => hnum (by grind)] at hgiven
          exact hgiven.trans htok
      have hlost' : (s.cap.push p r).ringbuf.numReader ≠ 1 ∨ (s.cap.push p r).ringbuf.due p = true := by
        rcases s.cap.push_cases p r with ⟨-, hsame, -⟩ | ⟨hdue', -⟩
        · exact Or.inl (hsame ▸ hnum)
        · exact Or.inr hdue'
      obtain ⟨es, u, hexec, hnot⟩ :=
        ih (s := { s with cap := s.cap.push p r }) (h.push r) hstate hblocked htok' hlost' (by rw [hcount]; omega)
      exact ⟨.push r :: es, u, hexec, hnot⟩

theorem Asleep.breaks (h : Asleep p s) (hG : ¬Attentive p s e) (hs : s.step p e = some t) :
    ∃ es u, (session p).exec t es = some u ∧ ¬SleepsRightly p u := by
  have hsound := sound_step h.sound hs
  cases e with
  | start =>
    have hG : ¬(s.reader = .blocked → 0 < s.cap.ringbuf.fillCompl) := hG
    rw [Classical.not_imp, Nat.not_lt, Nat.le_zero_eq] at hG
    cases hs
    exact oversleeps hsound rfl hG.1 hG.2 (Or.inl (by show (0 : Int32) ≠ 1; decide))
  | read maxSize copy =>
    simp only [Attentive, Classical.not_imp, not_or, Nat.not_lt, Nat.le_zero_eq] at hG
    obtain ⟨hwait, htok, hlost⟩ := hG
    simp only [Session.step] at hs
    split at hs
    · rcases s.cap.readRing_cases p maxSize with ⟨result, hr⟩ | ⟨-, hr⟩ | ⟨-, -, hr⟩ | ⟨hstate, -, hr⟩ <;>
        rw [hr] at hwait hs <;> cases hwait
      cases hs
      refine oversleeps hsound hstate rfl htok ?_
      by_cases hzero : s.cap.ringbuf.numReader = 0
      · right
        have hdue : s.cap.ringbuf.due p = true := by
          by_contra hnot
          exact hlost ⟨hzero, (not_due_iff h.sound.wf.toLayout).mp (eq_false_of_ne_true hnot)⟩
        exact hdue
      · left
        show s.cap.ringbuf.numReader + 1 ≠ 1
        intro hone
        exact hzero (by grind)
    · cases hs
  | stop | push r | wake | interrupt | finish copy => exact absurd trivial hG

/-- In a run of attentive steps the reader does not sleep on available data; and after any other step it
    may do so. -/
theorem sleepsRightly_exact (h : ((session p).guard (Attentive p)).Reachable s) : SleepsRightly p s ∧
    ∀ e t, ¬Attentive p s e → (session p).step s e = some t →
      ∃ es u, (session p).exec t es = some u ∧ ¬SleepsRightly p u := by
  refine Machine.guard_exact (I := Asleep p) ?_ (fun _ _ _ hI hG hs => hI.step hG hs) (fun _ hI => hI.sleepsRightly)
    (fun _ _ _ hI hG hs => hI.breaks hG hs) h
  rintro s ⟨filp, pid, dspId, ring, rfl⟩
  exact ⟨CapInfo.Sound.new, fun hstate => by cases hstate⟩

/-! ### Records that come before the read -/

/-- A push without a counted reader gives no token. -/
theorem push_uncounted {c : CapInfo} (hnone : c.ringbuf.numReader = 0) (r : IdspPrintf) :
    (c.push p r).ringbuf.numReader = 0 ∧ (c.push p r).ringbuf.fillCompl = c.ringbuf.fillCompl := by
  have hring : (c.push p r).ringbuf = (c.ringbuf.store r.bytes).signal p := rfl
  obtain ⟨hnum, htok⟩ := c.ringbuf.store_waits r.bytes
  have hzero := hnum.trans hnone
  rw [hring, RingBuf.signal, if_pos hzero]
  exact ⟨hzero, htok⟩

/-- As many records as there is room for are stored, and nobody is told. -/
theorem exec_pushes {n : Nat} (r : IdspPrintf) (h : s.cap.Sound p) (hnone : s.cap.ringbuf.numReader = 0)
    (hroom : s.cap.ringbuf.count p + n < p.printkBufEntries) :
    ∃ c : CapInfo, (session p).exec s (List.replicate n (.push r)) = some { s with cap := c } ∧ c.Sound p ∧
      c.ringbuf.count p = s.cap.ringbuf.count p + n ∧ c.ringbuf.numReader = 0 ∧
      c.ringbuf.fillCompl = s.cap.ringbuf.fillCompl ∧ c.dsplogState = s.cap.dsplogState := by
  induction n generalizing s with
  | zero => exact ⟨s.cap, rfl, h, rfl, hnone, rfl, rfl⟩
  | succ n ih =>
    obtain ⟨hnum, htok⟩ := push_uncounted (p := p) hnone r
    have hfull : s.cap.ringbuf.full = false := by
      rw [← Bool.not_eq_true, h.wf.full_iff]
      omega
    have hcount := h.push_count r
    rw [if_neg (by simp [hfull])] at hcount
    obtain ⟨c, hexec, hsound, hcount', hnum', htok', hstate⟩ :=
      ih (s := { s with cap := s.cap.push p r }) (h.push r) hnum (by simp only [hcount]; omega)
    refine ⟨c, hexec, hsound, ?_, hnum', htok'.trans htok, hstate⟩
    rw [hcount']
    simp only [hcount]
    omega

/-- One record more than the threshold comes before the read, and the reader goes to sleep. -/
theorem sleeps_past_threshold : ¬∀ s, (session .oneCore).Reachable s → SleepsRightly Platform.oneCore s := by
  intro h
  have hfresh : freshSession.cap.start.Sound Platform.oneCore := CapInfo.Sound.new.start
  obtain ⟨c, hexec, hsound, hcount, hnum, htok, hstate⟩ := exec_pushes (n := 16385)
    (s := { freshSession with cap := freshSession.cap.start }) ⟨1, 0, 9, 0, 0, 0, 0, 0⟩ hfresh rfl (by decide +kernel)
  have hread := readRing_started (p := Platform.oneCore) hstate (hsound.unfinished hstate)
  have hone : c.enlist.ringbuf.numReader ≠ 0 := by
    show c.ringbuf.numReader + 1 ≠ 0
    rw [hnum]
    decide
  rw [if_neg hone, show Platform.oneCore.printkBufSize = 2097152 from rfl] at hread
  have hstep : (session .oneCore).step { freshSession with cap := c } (.read 2097152 ⟨true, true⟩) =
      some { freshSession with cap := c.enlist, reader := .blocked } := by
    simp only [session, step, hread]
    rfl
  have hright := h _ (.step _ (.exec (.step .start (.init ⟨0, 0, 0, 0, rfl⟩) rfl) hexec) hstep)
  have hle := (hright hstate rfl htok).2
  have hunread : (c.enlist.ringbuf.queued Platform.oneCore).flatten.length =
      dsplogEntrySize * c.ringbuf.count Platform.oneCore := RingBuf.flatten_queued_length
  rw [hunread, hcount] at hle
  exact absurd hle (by decide +kernel)

/-- One record is in the ring when the reader comes. -/
def waitsForMore : List SessionEvent := [.start, .push ⟨1, 0, 9, 0, 0, 0, 0, 0⟩, .read 2097152 ⟨true, true⟩]

theorem sleepsRightly_waiting : ∃ s,
    ((session .oneCore).guard (Attentive Platform.oneCore)).exec freshSession waitsForMore = some s ∧ s.cap.dsplogState = true ∧ s.reader = .blocked ∧ s.cap.ringbuf.fillCompl = 0 ∧
    (s.cap.ringbuf.queued Platform.oneCore).flatten.length = 32 ∧ SleepsRightly Platform.oneCore s :=
  ⟨_, rfl, rfl, rfl, rfl, by decide +kernel, (sleepsRightly_exact (Machine.Reachable.exec
    (M := (session .oneCore).guard (Attentive Platform.oneCore)) (.init ⟨0, 0, 0, 0, rfl⟩)
    (rfl : Machine.exec _ freshSession waitsForMore = some _))).1⟩

end Session
end Dsplog
