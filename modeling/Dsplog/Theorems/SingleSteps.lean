import Dsplog.Theorems.Interleaving

/-! The timer protocol cannot be seen. The driver under its mutex and the kernel's timer, with `del_timer_sync`, the stores
    to the fields of `G_timer_control`, `add_timer` and `mod_timer` as steps of their own, does what the driver does that
    stops the timer, works and starts the timer at once. The work of an operation and a tick are single steps in both. -/

namespace Dsplog
open Machines

namespace Interleaving
variable {p : Platform} {s t : Interleaving} {e : InterleavingEvent} {op : Op} {r : Reply} {d : Driver} {fuel : Nat}

/-- A timer that was stopped for an operation still to be done, or that is being started by one done already. -/
def promised (s : Interleaving) : Bool :=
  match s.holder with
  | some (_, .working was) => was
  | some (_, .installing _) | some (_, .adding _) | some (_, .added _) => true
  | _ => false

/-- The driver as its single steps see it. -/
def whole (s : Interleaving) : Driver := s.driver.withTimer (s.driver.timerInitialized || s.promised)

theorem whole_of_not_promised (h : s.promised = false) : s.whole = s.driver := by
  rw [whole, h, Bool.or_false, Driver.withTimer_self]

/-- The operation that a step does, with its reply. -/
def performed (p : Platform) (s : Interleaving) : InterleavingEvent → Option (Op × Reply)
  | .lock _ => none
  | .hold =>
    match s.holder with
    | some (op, .working _) => (s.driver.step p op).map fun x => (op, x.2)
    | _ => none
  | .handle fuel => if s.handler = .loaded true then some (.tick fuel, .done) else none
  | .free op => (s.driver.step p op).map fun x => (op, x.2)

theorem whole_handle (h : s.Inv p) (hs : s.handle p fuel = some t) :
    (s.performed p (.handle fuel)).elim (t.whole = s.whole) fun a => s.whole.step p a.1 = some (t.whole, a.2) := by
  obtain ⟨halive, -, hholder, -, hdriver⟩ := handle_frame h.rearmed hs
  have hpromised : t.promised = s.promised := by rw [promised, promised, hholder]
  simp only [performed]
  rcases hdriver with ⟨hne, hsame⟩ | ⟨hloaded, services, htimer, hd⟩
  · rw [if_neg hne, Option.elim_none, whole, whole, hsame, hpromised]
  · have hon : (s.driver.timerInitialized || s.promised) = true := by
      rcases (h.linked.alive halive).2 with hflag | ⟨op, r, hh⟩
      · rw [hflag, Bool.true_or]
      · rw [promised, hh, Bool.or_true]
    rw [if_pos hloaded, Option.elim_some]
    simp only [whole, Driver.step, Driver.withTimer_timerInitialized, Driver.withTimer_mem, Driver.withTimer_queue, hon,
      if_true, htimer, Option.map_some, hd, hpromised]
    rfl

theorem whole_free (hfree : s.isFree op = true) (hs : s.driver.step p op = some (d, r)) :
    s.whole.step p op = some (({ s with driver := d } : Interleaving).whole, r) := by
  obtain ⟨htick, hioctl⟩ := isFree_cases hfree
  have hflag := free_timer hfree hs
  rw [whole, Driver.step_withTimer_of_blind htick hioctl, hs, Option.map_some, whole, hflag]
  rfl

/-- The work is the operation's single step. -/
theorem whole_work (h : s.Inv p) {was : Bool} (hh : s.holder = some (op, .working was)) (hs : s.work p op = some t) :
    ∃ d r, s.driver.step p op = some (d, r) ∧ s.whole.step p op = some (t.whole, r) := by
  obtain ⟨d, r, hstep, ht⟩ := work_cases hs
  have hwhole : t.whole = d := by
    rcases ht with ⟨-, rfl⟩ | ⟨-, -, hon, rfl⟩ | ⟨-, -, rfl⟩
    · exact whole_of_not_promised rfl
    · exact Driver.withTimer_of_eq hon
    · exact whole_of_not_promised rfl
  have hwas : was = true → s.driver.deinitsTimer p op = true := by
    have hlinked := h.linked
    rw [Linked, hh] at hlinked
    rintro rfl
    rcases hlinked with ⟨-, hwas, -⟩ | ⟨hdeinits, -⟩ | ⟨-, -, hwas, -⟩
    · cases hwas
    · exact hdeinits
    · cases hwas
  have hpromised : s.promised = was := by rw [promised, hh]
  obtain ⟨inits, hflag, hall⟩ := timer_after_work (h.ready op _ hh rfl).1 hstep
  refine ⟨d, r, hstep, ?_⟩
  rw [whole, hpromised, hall, hwhole, Driver.withTimer_of_eq]
  rw [hflag]
  cases was with
  | false => rw [Bool.or_false]
  | true => rw [hwas rfl, Bool.not_true, Bool.and_false, Bool.and_false]

/-- The other steps of the holder cannot be seen. -/
theorem whole_hold (h : s.Inv p) (hs : s.hold p = some t) :
    (s.performed p .hold).elim (t.whole = s.whole) fun a => s.whole.step p a.1 = some (t.whole, a.2) := by
  obtain ⟨⟨op, stage⟩, hh, hs⟩ := Option.bind_eq_some_iff.mp hs
  have hlinked := h.linked
  rw [Linked, hh] at hlinked
  simp only [performed, hh]
  cases stage with
  | entered =>
    rw [Option.elim_none, whole_of_not_promised (s := s) (by rw [promised, hh])]
    simp only at hs
    split at hs <;> cases hs <;> exact whole_of_not_promised rfl
  | deleting =>
    rw [Option.elim_none, whole_of_not_promised (s := s) (by rw [promised, hh])]
    simp only at hs
    split at hs <;> cases hs
    refine whole_of_not_promised ?_
    rw [promised]
    split_ifs <;> rfl
  | deleted =>
    rw [Option.elim_none, whole_of_not_promised (s := s) (by rw [promised, hh])]
    cases hs
    exact whole_of_not_promised rfl
  | uncalled =>
    rw [Option.elim_none, whole_of_not_promised (s := s) (by rw [promised, hh])]
    cases hs
    exact Driver.withTimer_of_eq hlinked.2.2.1
  | working was =>
    obtain ⟨d, r, hstep, hwhole⟩ := whole_work h hh hs
    simp only [hstep]
    exact hwhole
  | installing r | adding r =>
    cases hs
    rw [Option.elim_none, whole, whole, promised, promised, hh]
  | added r =>
    cases hs
    rw [Option.elim_none, whole, whole, promised, promised, hh, Bool.or_true]
    rfl
  | restarting r | leaving r =>
    rw [Option.elim_none, whole_of_not_promised (s := s) (by rw [promised, hh])]
    cases hs
    exact whole_of_not_promised rfl

theorem whole_step (h : s.Inv p) (hs : Interleaving.step p s e = some t) :
    (s.performed p e).elim (t.whole = s.whole) fun a => s.whole.step p a.1 = some (t.whole, a.2) := by
  cases e with
  | lock op =>
    simp only [Interleaving.step, Option.ite_none_right_eq_some, Option.some.injEq] at hs
    obtain ⟨⟨hnone, -, -⟩, rfl⟩ := hs
    show Interleaving.whole _ = _
    rw [whole_of_not_promised rfl, whole_of_not_promised (by rw [promised, hnone])]
  | hold => exact whole_hold h hs
  | handle fuel => exact whole_handle h hs
  | free op =>
    simp only [Interleaving.step, Option.ite_none_right_eq_some] at hs
    obtain ⟨hfree, hs⟩ := hs
    obtain ⟨⟨d, r⟩, hstep, rfl⟩ := Option.map_eq_some_iff.mp hs
    simp only [performed, hstep, Option.map_some, Option.elim_some]
    exact whole_free hfree hstep

end Interleaving

/-- The driver with single steps, which answers as the event says. -/
def answering (p : Platform) : Machine Driver (Op × Reply) where
  Init := Driver.Initial
  step d a := (d.step p a.1).bind fun (d', r) => if r = a.2 then some d' else none

namespace Interleaving
variable {p : Platform} {s t : Interleaving} {es : List InterleavingEvent}

/-- Whatever comes between the steps of the mutex's holder and of the timer's handler, the work of the operations and the
    ticks have the same effects and the same replies, in the order in which they were done, as if each operation had
    stopped and started the timer together with its work. -/
theorem runs_in_single_steps (hs : s.Initial) (h : (interleaving p).exec s es = some t) :
    (answering p).exec s.driver (((interleaving p).trace s es).filterMap fun x => x.1.performed p x.2) =
      some t.whole := by
  have hwhole : s.whole = s.driver := whole_of_not_promised (by rw [promised, hs.holder])
  rw [← hwhole]
  refine Machine.exec_simulated (I := Inv p) (performed p) (fun s e t hI hst => ⟨hI.step hst, ?_⟩) (Inv.init hs) h
  have hstep := whole_step hI hst
  cases hlabel : s.performed p e with
  | none =>
    rw [hlabel] at hstep
    exact hstep
  | some a =>
    rw [hlabel] at hstep
    have hstep : s.whole.step p a.1 = some (t.whole, a.2) := hstep
    simp [answering, hstep]

theorem runs_in_single_steps_stopWorks : ∃ t : Interleaving, t.holder = none ∧
    (((interleaving (Platform.tiny 1 (by decide))).trace emptyInterleaving (stopWorks ++ [.hold, .hold])).filterMap fun x =>
      x.1.performed (Platform.tiny 1 (by decide)) x.2).map Prod.fst =
        [.openFile 0 true, .ioctl 0 (.startCapture 10 ⟨true, some 64⟩),
          .dspWrite 4096 (IdspPrintf.bytes ⟨1, 0, 9, 0, 0, 0, 0, 0⟩), .tick 4, .ioctl 0 .stopCapture] ∧
    (answering (Platform.tiny 1 (by decide))).exec emptyInterleaving.driver
      (((interleaving (Platform.tiny 1 (by decide))).trace emptyInterleaving (stopWorks ++ [.hold, .hold])).filterMap fun x =>
        x.1.performed (Platform.tiny 1 (by decide)) x.2) = some t.whole := by
  obtain ⟨t, hexec, hnone⟩ := Option.map_eq_some_iff.mp
    (show ((interleaving (Platform.tiny 1 (by decide))).exec emptyInterleaving (stopWorks ++ [.hold, .hold])).map holder =
      some none by decide +kernel)
  exact ⟨t, hnone, by decide +kernel, runs_in_single_steps emptyInterleaving_initial hexec⟩

end Interleaving
end Dsplog
