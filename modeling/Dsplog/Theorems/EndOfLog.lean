import Dsplog.Theorems.Session

/-! The end of the log, as user space sees it: a read that has waited and returns little or nothing while the
    capture runs. A token left over from an earlier capture, or from a wait that a signal ended, lets the
    next wait through. -/

namespace Dsplog
open Bytes Machines

def Entered.proceeding : Entered → Bool
  | .proceed => true
  | _ => false

namespace Session
variable {p : Platform} {s t : Session} {e : SessionEvent}

/-- A read that has waited without interruption and returns from a started instance returns more than
    `DSP_PRINTK_BUF_DUMP_THRESHOLD_SIZE` bytes. -/
def FullReads (p : Platform) (s : Session) : Prop := ∀ o ∈ s.ends, o.interrupted = false → o.started = true →
  ∀ bs, o.result = .ok bs → p.dumpThresholdSize < bs.length

def takes (c : CapInfo) (copy : Copy) : Bool := c.dsplogState && (c.readOut copy).2.toBool

theorem takes_enlist {c : CapInfo} {copy : Copy} : takes c.enlist copy = takes c copy := by
  have hcopy : c.enlist.ringbuf.copyOut c.enlist.ringbuf.writePtr c.enlist.ringbuf.readPtr copy =
      c.ringbuf.copyOut c.ringbuf.writePtr c.ringbuf.readPtr copy := rfl
  simp only [takes, CapInfo.readOut, hcopy]
  cases c.ringbuf.copyOut c.ringbuf.writePtr c.ringbuf.readPtr copy <;> rfl

/-- START finds no token and no reader on its way back from a wait that a token ended, and a read that takes the
    records of a started instance leaves no token behind. -/
def NoStaleToken (p : Platform) (s : Session) : SessionEvent → Prop
  | .start => s.cap.ringbuf.fillCompl = 0 ∧ s.reader ≠ .woken false
  | .read maxSize copy => (s.cap.readRing p maxSize).2.proceeding = true → takes s.cap copy = true →
      s.cap.ringbuf.fillCompl = 0
  | .finish copy => takes s.cap copy = true → s.cap.ringbuf.fillCompl = 0
  | _ => True

instance (p : Platform) : ∀ (s : Session) (e : SessionEvent), Decidable (NoStaleToken p s e)
  | s, .start => inferInstanceAs (Decidable (s.cap.ringbuf.fillCompl = 0 ∧ s.reader ≠ .woken false))
  | s, .read maxSize copy => inferInstanceAs (Decidable ((s.cap.readRing p maxSize).2.proceeding = true →
      takes s.cap copy = true → s.cap.ringbuf.fillCompl = 0))
  | s, .finish copy => inferInstanceAs (Decidable (takes s.cap copy = true → s.cap.ringbuf.fillCompl = 0))
  | _, .stop | _, .push _ | _, .wake | _, .interrupt => inferInstanceAs (Decidable True)

/-- Each token of a started instance, and the token that has just woken the reader, is backed by more data
    than the threshold. -/
structure Backed (p : Platform) (s : Session) : Prop where
  sound : s.cap.Sound p
  backed : s.cap.dsplogState = true → 0 < s.cap.ringbuf.fillCompl ∨ s.reader = .woken false →
    p.dumpThresholdSize < dsplogEntrySize * s.cap.ringbuf.count p
  full : FullReads p s

namespace Backed

/-- A push gives a token only with a ring that is full or beyond the threshold. -/
theorem push (hp : p.dumpThresholdSize < dsplogEntrySize * (p.printkBufEntries - 1)) (h : Backed p s)
    (r : IdspPrintf) : Backed p { s with cap := s.cap.push p r } := by
  have hsound := h.sound.push r
  refine ⟨hsound, fun hstate htok => ?_, h.full⟩
  show p.dumpThresholdSize < dsplogEntrySize * (s.cap.push p r).ringbuf.count p
  rcases s.cap.push_cases p r with ⟨-, -, hsame⟩ | ⟨hdue, -⟩
  · have hback := h.backed hstate (htok.imp_left fun hpos => hsame ▸ hpos)
    have hle : s.cap.ringbuf.count p ≤ (s.cap.push p r).ringbuf.count p := by
      rw [h.sound.push_count r]
      split <;> omega
    exact Nat.lt_of_lt_of_le hback (Nat.mul_le_mul_left _ hle)
  · rcases hsound.wf.toLayout.due_iff.mp hdue with hfull | hmore
    · rwa [hsound.wf.full_iff.mp hfull]
    · exact hmore

theorem readOut {c : CapInfo} (hc : c.Sound p) (copy : Copy) (htakes : takes c copy = true → c.ringbuf.fillCompl = 0)
    (hback : c.dsplogState = true → 0 < c.ringbuf.fillCompl →
      p.dumpThresholdSize < dsplogEntrySize * c.ringbuf.count p)
    (hstate : (c.readOut copy).1.dsplogState = true) (htok : 0 < (c.readOut copy).1.ringbuf.fillCompl) :
    p.dumpThresholdSize < dsplogEntrySize * (c.readOut copy).1.ringbuf.count p := by
  rcases CapInfo.readOut_cases hc.wf.toLayout copy with hr | hr
  · exfalso
    rw [hr] at hstate htok
    have hstate : c.dsplogState = true := hstate
    have hzero := htakes (by rw [takes, hr, hstate]; rfl)
    exact absurd hzero (Nat.ne_of_gt htok)
  · rw [hr] at hstate htok ⊢
    exact hback hstate htok

theorem finish (h : Backed p s) {interrupted : Bool} (hreader : s.reader = .woken interrupted) {copy : Copy}
    (hG : takes s.cap copy = true → s.cap.ringbuf.fillCompl = 0) : Backed p {
      cap := (s.cap.readOut copy).1
      reader := .idle
      ends := s.ends ++ [⟨interrupted, s.cap.dsplogState, (s.cap.readOut copy).2⟩] } := by
  refine ⟨h.sound.readOut copy, fun hstate htok => ?_, fun o ho hquiet hstarted bs hbs => ?_⟩
  · have htok := htok.resolve_right (by simp)
    exact readOut h.sound copy hG (fun hstate htok => h.backed hstate (Or.inl htok)) hstate htok
  · rcases List.mem_append.mp ho with ho | ho
    · exact h.full o ho hquiet hstarted bs hbs
    · rw [List.mem_singleton.mp ho] at hquiet hstarted hbs
      have hquiet : interrupted = false := hquiet
      have hbs : (s.cap.readOut copy).2 = .ok bs := hbs
      have hback := h.backed hstarted (Or.inr (hquiet ▸ hreader))
      rcases CapInfo.readOut_cases h.sound.wf.toLayout copy with hr | hr <;> rw [hr] at hbs <;> cases hbs
      rwa [RingBuf.flatten_queued_length]

theorem step (hp : p.dumpThresholdSize < dsplogEntrySize * (p.printkBufEntries - 1)) (h : Backed p s)
    (hG : NoStaleToken p s e) (hs : s.step p e = some t) : Backed p t := by
  have hsound := sound_step h.sound hs
  cases e with
  | start =>
    cases hs
    refine ⟨hsound, fun _ htok => ?_, h.full⟩
    rcases htok with htok | hwoken
    · exact absurd hG.1 (Nat.ne_of_gt htok)
    · exact absurd hwoken hG.2
  | stop =>
    cases hs
    exact ⟨hsound, fun hstate => absurd hstate Bool.false_ne_true, h.full⟩
  | push r =>
    cases hs
    exact h.push hp r
  | read maxSize copy =>
    have hG : (s.cap.readRing p maxSize).2.proceeding = true → takes s.cap copy = true →
      s.cap.ringbuf.fillCompl = 0 := hG
    simp only [Session.step] at hs
    split at hs
    · rename_i hidle
      have hnot : s.reader ≠ .woken false := by simp [hidle]
      rcases s.cap.readRing_cases p maxSize with ⟨result, hr⟩ | ⟨hstate, hr⟩ | ⟨-, -, hr⟩ | ⟨-, -, hr⟩ <;>
        rw [hr] at hs hG <;> cases hs
      · exact h
      · refine ⟨hsound, fun hstate' htok => ?_, h.full⟩
        have htok := htok.resolve_right hnot
        exact readOut h.sound copy (hG rfl) (fun hstate htok => h.backed hstate (Or.inl htok)) hstate' htok
      · refine ⟨hsound, fun hstate' htok => ?_, h.full⟩
        have htok := htok.resolve_right hnot
        exact readOut h.sound.enlist copy (fun ht => hG rfl (takes_enlist.symm.trans ht)) (fun hstate htok => h.backed hstate (Or.inl htok)) hstate' htok
      · refine ⟨hsound, fun hstate htok => ?_, h.full⟩
        exact h.backed hstate (Or.inl (htok.resolve_right (by simp)))
    · cases hs
  | wake =>
    simp only [Session.step] at hs
    split at hs <;> cases hs
    rename_i hcan
    exact ⟨hsound, fun hstate _ => h.backed hstate (Or.inl hcan.2), h.full⟩
  | interrupt =>
    simp only [Session.step] at hs
    split at hs <;> cases hs
    exact ⟨hsound, fun hstate htok => h.backed hstate (Or.inl (htok.resolve_right (by simp))), h.full⟩
  | finish copy =>
    simp only [Session.step] at hs
    split at hs <;> cases hs
    rename_i interrupted hreader
    exact h.finish hreader hG

end Backed

/-! ### Reads that return nothing -/

/-- A started instance without unread records that holds a token. -/
structure Stale (p : Platform) (c : CapInfo) : Prop where
  sound : c.Sound p
  started : c.dsplogState = true
  empty : c.ringbuf.readPtr = c.ringbuf.writePtr

theorem Stale.emptied {c : CapInfo} (h : c.Sound p) (hstate : c.dsplogState = true) : Stale p c.emptied := by
  refine ⟨?_, hstate, rfl⟩
  have hsound := h.readOut ⟨true, true⟩
  rwa [CapInfo.readOut_all h.wf.toLayout] at hsound

theorem Stale.finish (h : Stale p s.cap) (hreader : s.reader = .woken false) :
    ∃ es u, (session p).exec s es = some u ∧ ¬FullReads p u := by
  have hread := CapInfo.readOut_all h.sound.wf.toLayout
  rw [RingBuf.queued_of_eq h.empty, List.flatten_nil] at hread
  have hexec : (session p).exec s [.finish ⟨true, true⟩] = some {
      cap := (s.cap.readOut ⟨true, true⟩).1
      reader := .idle
      ends := s.ends ++ [⟨false, s.cap.dsplogState, (s.cap.readOut ⟨true, true⟩).2⟩] } := by
    simp only [Machine.exec, session, step, hreader, Option.bind_some]
  refine ⟨_, _, hexec, fun hfull => ?_⟩
  have hlt := hfull ⟨false, s.cap.dsplogState, (s.cap.readOut ⟨true, true⟩).2⟩ (by simp) rfl h.started [] (by rw [hread])
  exact absurd hlt (Nat.not_lt_zero _)

theorem Stale.wake (h : Stale p s.cap) (htok : 0 < s.cap.ringbuf.fillCompl) (hreader : s.reader = .blocked) :
    ∃ es u, (session p).exec s es = some u ∧ ¬FullReads p u := by
  obtain ⟨es, u, hexec, hnot⟩ := Stale.finish (p := p) (s := { s with cap := s.cap.takeToken, reader := .woken false })
    ⟨h.sound.takeToken, h.started, h.empty⟩ rfl
  refine ⟨.wake :: es, u, ?_, hnot⟩
  simpa only [Machine.exec, session, step, hreader, htok, and_self, if_true, Option.bind_some] using hexec

/-- A read that is counted in waits, takes the token, and returns no bytes. -/
theorem Stale.read (h : Stale p s.cap) (htok : 0 < s.cap.ringbuf.fillCompl) (hreader : s.reader = .idle)
    (hcount : s.cap.enlist.ringbuf.numReader ≠ 0) : ∃ es u, (session p).exec s es = some u ∧ ¬FullReads p u := by
  obtain ⟨es, u, hexec, hnot⟩ := Stale.wake (p := p) (s := { s with cap := s.cap.enlist, reader := .blocked })
    ⟨h.sound.enlist, h.started, h.empty⟩ htok rfl
  refine ⟨.read p.printkBufSize ⟨true, true⟩ :: es, u, ?_, hnot⟩
  have hring := readRing_started (p := p) h.started (h.sound.unfinished h.started)
  rw [if_neg hcount] at hring
  simpa only [Machine.exec, session, step, hreader, hring, if_true, Option.bind_some] using hexec

/-- The next read returns no bytes, or the one after it, when the count of readers comes to zero first. -/
theorem Stale.idle (h : Stale p s.cap) (htok : 0 < s.cap.ringbuf.fillCompl) (hreader : s.reader = .idle) :
    ∃ es u, (session p).exec s es = some u ∧ ¬FullReads p u := by
  by_cases hcount : s.cap.enlist.ringbuf.numReader = 0
  · obtain ⟨es, u, hexec, hnot⟩ := Stale.read (p := p) (s := { s with cap := s.cap.enlist.emptied })
      (Stale.emptied h.sound.enlist h.started) htok hreader (by
        show s.cap.enlist.ringbuf.numReader + 1 ≠ 0
        rw [hcount]
        decide)
    refine ⟨.read p.printkBufSize ⟨true, true⟩ :: es, u, ?_, hnot⟩
    have hring := readRing_started (p := p) h.started (h.sound.unfinished h.started)
    rw [if_pos hcount] at hring
    simpa only [Machine.exec, session, step, hreader, hring, CapInfo.readOut_all h.sound.enlist.wf.toLayout, if_true,
      Option.bind_some] using hexec
  · exact h.read htok hreader hcount

/-- A reader whom a signal has woken returns first. -/
theorem Stale.any (h : Stale p s.cap) (htok : 0 < s.cap.ringbuf.fillCompl ∨ s.reader = .woken false) :
    ∃ es u, (session p).exec s es = some u ∧ ¬FullReads p u := by
  cases hreader : s.reader with
  | idle => exact h.idle (htok.resolve_right (by simp [hreader])) hreader
  | blocked => exact h.wake (htok.resolve_right (by simp [hreader])) hreader
  | woken interrupted =>
    cases interrupted with
    | false => exact h.finish hreader
    | true =>
      have htok := htok.resolve_right (by simp [hreader])
      obtain ⟨es, u, hexec, hnot⟩ := Stale.idle (p := p) (s := {
          cap := s.cap.emptied
          reader := .idle
          ends := s.ends ++ [⟨true, s.cap.dsplogState, (s.cap.readOut ⟨true, true⟩).2⟩] })
        (Stale.emptied h.sound h.started) htok rfl
      refine ⟨.finish ⟨true, true⟩ :: es, u, ?_, hnot⟩
      simpa only [Machine.exec, session, step, hreader, CapInfo.readOut_all h.sound.wf.toLayout, Option.bind_some]
        using hexec

theorem takes_emptied {c : CapInfo} (h : c.Sound p) {copy : Copy} (ht : takes c copy = true) :
    c.dsplogState = true ∧ (c.readOut copy).1 = c.emptied := by
  rw [takes, Bool.and_eq_true] at ht
  refine ⟨ht.1, ?_⟩
  rcases CapInfo.readOut_cases h.wf.toLayout copy with hr | hr
  · rw [hr]
  · rw [hr] at ht
    exact absurd ht.2 Bool.false_ne_true

theorem Backed.breaks (h : Backed p s) (hG : ¬NoStaleToken p s e) (hs : s.step p e = some t) :
    ∃ es u, (session p).exec t es = some u ∧ ¬FullReads p u := by
  cases e with
  | start =>
    cases hs
    have hG : ¬(s.cap.ringbuf.fillCompl = 0 ∧ s.reader ≠ .woken false) := hG
    have htok : 0 < s.cap.ringbuf.fillCompl ∨ s.reader = .woken false := by
      by_contra hnone
      rw [not_or, Nat.not_lt, Nat.le_zero_eq] at hnone
      exact hG hnone
    exact Stale.any (s := { s with cap := s.cap.start }) ⟨h.sound.start, rfl, rfl⟩ htok
  | read maxSize copy =>
    simp only [NoStaleToken, Classical.not_imp] at hG
    obtain ⟨hproceed, ht, htok⟩ := hG
    have htok := Nat.pos_of_ne_zero htok
    simp only [Session.step] at hs
    split at hs
    · rename_i hidle
      rcases s.cap.readRing_cases p maxSize with ⟨result, hr⟩ | ⟨hstate, hr⟩ | ⟨-, -, hr⟩ | ⟨-, -, hr⟩ <;>
        rw [hr] at hs hproceed <;> cases hproceed
      · obtain ⟨hstate', -⟩ := takes_emptied h.sound ht
        rw [hstate] at hstate'
        cases hstate'
      · obtain ⟨hstate, hempty⟩ := takes_emptied h.sound.enlist (takes_enlist.trans ht)
        cases hs
        rw [hempty]
        exact Stale.any (s := { s with cap := s.cap.enlist.emptied }) (Stale.emptied h.sound.enlist hstate) (Or.inl htok)
    · cases hs
  | finish copy =>
    simp only [NoStaleToken, Classical.not_imp] at hG
    obtain ⟨ht, htok⟩ := hG
    have htok := Nat.pos_of_ne_zero htok
    obtain ⟨hstate, hempty⟩ := takes_emptied h.sound ht
    simp only [Session.step] at hs
    split at hs <;> cases hs
    refine Stale.any ?_ (Or.inl ?_)
    · rw [hempty]
      exact Stale.emptied h.sound hstate
    · rw [hempty]
      exact htok
  | stop | push r | wake | interrupt => exact absurd trivial hG

/-- In a run that leaves no stale token every read that has waited returns more than the threshold, and never
    the end of the log; and after a step that leaves one a read may return nothing. The threshold is below
    the size of a full ring, as the driver's own sizes are. -/
theorem fullReads_exact (hp : p.dumpThresholdSize < dsplogEntrySize * (p.printkBufEntries - 1))
    (h : ((session p).guard (NoStaleToken p)).Reachable s) : FullReads p s ∧
    ∀ e t, ¬NoStaleToken p s e → (session p).step s e = some t →
      ∃ es u, (session p).exec t es = some u ∧ ¬FullReads p u := by
  refine Machine.guard_exact (I := Backed p) ?_ (fun _ _ _ hI hG hs => hI.step hp hG hs) (fun _ hI => hI.full)
    (fun _ _ _ hI hG hs => hI.breaks hG hs) h
  rintro s ⟨filp, pid, dspId, ring, rfl⟩
  exact ⟨CapInfo.Sound.new, fun hstate => absurd hstate Bool.false_ne_true, by simp [FullReads]⟩

/-- STOP posts a token though nobody waits; after the next START a read takes it and returns nothing. -/
theorem false_end_after_restart : ¬∀ s, (session .oneCore).Reachable s → FullReads Platform.oneCore s := by
  intro h
  have hfull := h _ (Machine.Reachable.exec (.init ⟨0, 0, 0, 0, rfl⟩) (show (session .oneCore).exec freshSession
    [.start, .stop, .start, .read 2097152 ⟨true, true⟩, .wake, .finish ⟨true, true⟩] = some _ from rfl))
  exact absurd (hfull _ (List.mem_singleton_self _) rfl rfl [] rfl) (by decide)

/-- A read waits for the first record and returns it. -/
def readFirst : List SessionEvent :=
  [.start, .read 64 ⟨true, true⟩, .push ⟨1, 0, 9, 0, 0, 0, 0, 0⟩, .wake, .finish ⟨true, true⟩]

theorem fullReads_first : ∃ s, ((session (Platform.tiny 1 (by decide))).guard
      (NoStaleToken (Platform.tiny 1 (by decide)))).exec tinySession readFirst = some s ∧
    s.ends.map (fun o => (o.interrupted, o.started, o.result.toBool)) = [(false, true, true)] ∧
    FullReads (Platform.tiny 1 (by decide)) s :=
  ⟨_, rfl, by decide +kernel, (fullReads_exact (p := Platform.tiny 1 Nat.one_pos) (by decide) (Machine.Reachable.exec
    (M := (session (Platform.tiny 1 (by decide))).guard (NoStaleToken (Platform.tiny 1 (by decide))))
    (.init ⟨0, 0, 0, 0, rfl⟩) (rfl : Machine.exec _ tinySession readFirst = some _))).1⟩

end Session
end Dsplog
