import Dsplog.Theorems.Interleaving

/-! The mutex is released again, unless its holder waits in `del_timer_sync` for a tick that never ends. -/

namespace Dsplog
open Machines

/-- A step of the mutex's holder or of the timer's handler. -/
def InterleavingEvent.IsOwn : InterleavingEvent → Prop
  | .hold | .handle _ => True
  | .lock _ | .free _ => False

namespace Interleaving
variable {p : Platform} {s t : Interleaving}

/-- The holder comes to release the mutex, with no one's help but the handler's. -/
def Unlocks (p : Platform) (s : Interleaving) : Prop :=
  ∃ es t, (∀ e ∈ es, e.IsOwn) ∧ (interleaving p).exec s es = some t ∧ t.holder = none

/-- The holder waits, or is about to wait, for a handler that still has its tick to do. -/
def AwaitsTick (p : Platform) (s : Interleaving) : Prop :=
  (s.handler = .entered ∨ s.handler = .loaded true) ∧ ∃ op, s.holder = some (op, .deleting) ∨
    s.holder = some (op, .entered) ∧ (s.driver.deinitsTimer p op = true ∨ op = .resetCap) ∧
      s.driver.timerInitialized = true

theorem Unlocks.of_step {e : InterleavingEvent} (he : e.IsOwn) (hs : Interleaving.step p s e = some t)
    (h : t.Unlocks p) : s.Unlocks p := by
  obtain ⟨es, u, hes, hexec, hu⟩ := h
  refine ⟨e :: es, u, ?_, ?_, hu⟩
  · rintro e' (_ | ⟨_, hmem⟩)
    · exact he
    · exact hes e' hmem
  · exact Option.bind_eq_some_iff.mpr ⟨t, hs, hexec⟩

theorem Unlocks.of_hold (hs : s.hold p = some t) (h : t.Unlocks p) : s.Unlocks p := h.of_step (e := .hold) trivial hs

theorem Unlocks.of_handle {fuel : Nat} (hs : s.handle p fuel = some t) (h : t.Unlocks p) : s.Unlocks p :=
  h.of_step (e := .handle fuel) trivial hs

theorem unlocks_leaving {op : Op} {r : Reply} (hh : s.holder = some (op, .leaving r)) : s.Unlocks p :=
  ⟨[.hold], { s with holder := none }, by simp [InterleavingEvent.IsOwn], by
    simp [Machine.exec, interleaving, Interleaving.step, hold, hh], rfl⟩

/-- After its work the holder waits for nothing. -/
theorem unlocks_worked {op : Op} {stage : Stage} (hh : s.holder = some (op, stage)) (hstage : stage.isBefore = false) :
    s.Unlocks p := by
  have hadded : ∀ {s : Interleaving} {r}, s.holder = some (op, .added r) → s.Unlocks p := fun {s r} hh =>
    .of_hold (by rw [hold, hh]; rfl) (unlocks_leaving (r := r) rfl)
  have hadding : ∀ {s : Interleaving} {r}, s.holder = some (op, .adding r) → s.Unlocks p := fun {s r} hh =>
    .of_hold (by rw [hold, hh]; rfl) (hadded (r := r) rfl)
  cases stage with
  | installing r => exact .of_hold (by rw [hold, hh]; rfl) (hadding (r := r) rfl)
  | adding r => exact hadding hh
  | added r => exact hadded hh
  | restarting r => exact .of_hold (by rw [hold, hh]; rfl) (unlocks_leaving (r := r) rfl)
  | leaving r => exact unlocks_leaving hh
  | entered | deleting | deleted | uncalled | working => cases hstage

theorem unlocks_working (h : s.Inv p) {op : Op} {was : Bool} (hh : s.holder = some (op, .working was)) : s.Unlocks p := by
  obtain ⟨hmutex, hready⟩ := h.ready op _ hh rfl
  obtain ⟨⟨d, r⟩, hstep⟩ := Option.isSome_iff_exists.mp ((Driver.ready_iff hmutex).mpr hready)
  obtain ⟨t, hwork⟩ : ∃ t, s.work p op = some t := ⟨_, by rw [Interleaving.work, hstep]; rfl⟩
  have hhold : s.hold p = some t := by
    rw [hold, hh]
    exact hwork
  obtain ⟨_, _, -, ⟨-, rfl⟩ | ⟨-, -, -, rfl⟩ | ⟨-, -, rfl⟩⟩ := work_cases hwork
  all_goals exact .of_hold hhold (unlocks_worked rfl rfl)

theorem unlocks_deleted (h : s.Inv p) {op : Op} (hh : s.holder = some (op, .deleted)) : s.Unlocks p := by
  obtain ⟨t, ht, hholder⟩ : ∃ t, s.hold p = some t ∧ t.holder = some (op, .uncalled) :=
    ⟨_, by rw [hold, hh]; rfl, rfl⟩
  obtain ⟨u, hu, hholder'⟩ : ∃ u, t.hold p = some u ∧ u.holder = some (op, .working true) :=
    ⟨_, by rw [hold, hholder]; rfl, rfl⟩
  exact .of_hold ht (.of_hold hu (unlocks_working ((h.hold ht).hold hu) hholder'))

theorem unlocks_uncalled (h : s.Inv p) {op : Op} (hh : s.holder = some (op, .uncalled)) : s.Unlocks p := by
  obtain ⟨t, ht, hholder⟩ : ∃ t, s.hold p = some t ∧ t.holder = some (op, .working true) :=
    ⟨_, by rw [hold, hh]; rfl, rfl⟩
  exact .of_hold ht (unlocks_working (h.hold ht) hholder)

/-- `del_timer_sync` returns once the handler is not running. -/
theorem unlocks_deleting (h : s.Inv p) {op : Op} (hh : s.holder = some (op, .deleting)) (hidle : s.handler = .idle) :
    s.Unlocks p := by
  have hs : s.hold p = some { s with
      pending := false
      holder := some (op, if op = .resetCap then .working false else .deleted) } := by
    rw [hold, hh, Option.bind_some]
    exact if_pos hidle
  refine .of_hold hs ?_
  by_cases hreset : op = .resetCap
  · have hworking : some (op, if op = .resetCap then Stage.working false else .deleted) = some (op, .working false) := by
      rw [if_pos hreset]
    exact unlocks_working (h.hold hs) hworking
  · have hdeleted : some (op, if op = .resetCap then Stage.working false else .deleted) = some (op, .deleted) := by
      rw [if_neg hreset]
    exact unlocks_deleted (h.hold hs) hdeleted

/-- The handler comes to its end when its tick does. -/
theorem unlocks_waiting (h : s.Inv p) {op : Op} (hh : s.holder = some (op, .deleting))
    (hends : s.AwaitsTick p → ∃ fuel, (dspPrintkTimer p s.driver.mem fuel s.driver.queue).isSome = true) :
    s.Unlocks p := by
  have hrearmed : ∀ {s : Interleaving}, s.Inv p → s.holder = some (op, .deleting) → s.handler = .rearmed → s.Unlocks p := by
    intro s h hh hhandler
    have hs : s.handle p 0 = some { s with handler := .idle } := by rw [handle, hhandler]
    exact .of_handle hs (unlocks_deleting (h.handle hs) hh rfl)
  have hserved : ∀ {s : Interleaving}, s.Inv p → s.holder = some (op, .deleting) → s.handler = .served → s.Unlocks p := by
    intro s h hh hhandler
    have hs : s.handle p 0 = some { s with pending := true, handler := .rearmed } := by rw [handle, hhandler]
    exact .of_handle hs (hrearmed (h.handle hs) hh rfl)
  have hloaded : ∀ {s : Interleaving}, s.Inv p → s.holder = some (op, .deleting) → s.handler = .loaded true →
      (∃ fuel, (dspPrintkTimer p s.driver.mem fuel s.driver.queue).isSome = true) → s.Unlocks p := by
    rintro s h hh hhandler ⟨fuel, hsome⟩
    obtain ⟨services, htimer⟩ := Option.isSome_iff_exists.mp hsome
    have hs : s.handle p fuel = some { s with
        driver := { s.driver with queue := services.map Service.cap }
        handler := .served } := by
      rw [handle, hhandler]
      simp only [htimer, Option.map_some]
    exact .of_handle hs (hserved (h.handle hs) hh rfl)
  cases hhandler : s.handler with
  | idle => exact unlocks_deleting h hh hhandler
  | entered =>
    have halive : s.Alive := Or.inr (by simp [hhandler])
    have hs : s.handle p 0 = some { s with handler := .loaded true } := by
      rw [handle, hhandler]
      simp only [(h.linked.alive halive).1]
    exact .of_handle hs (hloaded (h.handle hs) hh rfl (hends ⟨Or.inl hhandler, op, Or.inl hh⟩))
  | loaded callback =>
    obtain rfl := h.loaded callback hhandler
    exact hloaded h hh hhandler (hends ⟨Or.inr hhandler, op, Or.inl hh⟩)
  | served => exact hserved h hh hhandler
  | rearmed => exact hrearmed h hh hhandler

theorem unlocks_entered (h : s.Inv p) {op : Op} (hh : s.holder = some (op, .entered))
    (hends : s.AwaitsTick p → ∃ fuel, (dspPrintkTimer p s.driver.mem fuel s.driver.queue).isSome = true) :
    s.Unlocks p := by
  by_cases hstop : (s.driver.deinitsTimer p op = true ∨ op = .resetCap) ∧ s.driver.timerInitialized = true
  · have hs : s.hold p = some { s with holder := some (op, .deleting) } := by
      rw [hold, hh]
      simp [hstop]
    refine .of_hold hs (unlocks_waiting (h.hold hs) rfl fun hawaits => hends ⟨hawaits.1, op, Or.inr ⟨hh, hstop⟩⟩)
  · have hs : s.hold p = some { s with holder := some (op, .working false) } := by
      rw [hold, hh]
      simp [hstop]
    exact .of_hold hs (unlocks_working (h.hold hs) rfl)

/-- A holder that waits for an endless tick stays where it is. -/
theorem stuck_step (h : s.Inv p) (hawaits : s.AwaitsTick p)
    (hendless : ∀ fuel, dspPrintkTimer p s.driver.mem fuel s.driver.queue = none) {e : InterleavingEvent} (he : e.IsOwn)
    (hs : Interleaving.step p s e = some t) : t.AwaitsTick p ∧ t.driver = s.driver := by
  obtain ⟨hhandler, op, hh⟩ := hawaits
  cases e with
  | lock op' | free op' => exact he.elim
  | hold =>
    have hbusy : s.handler ≠ .idle := by rcases hhandler with hhandler | hhandler <;> simp [hhandler]
    rcases hh with hh | ⟨hh, hstop⟩
    · have hnone : s.hold p = none := by
        rw [hold, hh, Option.bind_some]
        exact if_neg hbusy
      cases hnone.symm.trans hs
    · have hdeleting : s.hold p = some { s with holder := some (op, .deleting) } := by
        rw [hold, hh]
        simp [hstop]
      cases hdeleting.symm.trans hs
      exact ⟨⟨hhandler, op, Or.inl rfl⟩, rfl⟩
  | handle fuel =>
    rcases hhandler with hhandler | hhandler
    · have halive : s.Alive := Or.inr (by simp [hhandler])
      have hloaded : s.handle p fuel = some { s with handler := .loaded true } := by
        rw [handle, hhandler]
        simp only [(h.linked.alive halive).1]
      cases hloaded.symm.trans hs
      exact ⟨⟨Or.inr rfl, op, hh⟩, rfl⟩
    · have hnone : s.handle p fuel = none := by
        rw [handle, hhandler]
        simp only [hendless, Option.map_none]
      cases hnone.symm.trans hs

theorem stuck {es : List InterleavingEvent} (h : s.Inv p) (hawaits : s.AwaitsTick p)
    (hendless : ∀ fuel, dspPrintkTimer p s.driver.mem fuel s.driver.queue = none) (hes : ∀ e ∈ es, e.IsOwn)
    (hexec : (interleaving p).exec s es = some t) : t.AwaitsTick p := by
  induction es generalizing s with
  | nil =>
    cases hexec
    exact hawaits
  | cons e es ih =>
    obtain ⟨u, hu, hrest⟩ := Option.bind_eq_some_iff.mp hexec
    obtain ⟨hawaits', hdriver⟩ := stuck_step h hawaits hendless (hes e List.mem_cons_self) hu
    exact ih (h.step hu) hawaits' (hdriver ▸ hendless) (fun e' he' => hes e' (List.mem_cons_of_mem _ he')) hrest

/-- The mutex is released again, with no one's help but the handler's, unless its holder waits for a tick that does not
    end on the records that are in the log. -/
theorem unlocks_iff (h : (interleaving p).Reachable s) : s.Unlocks p ↔
    (s.AwaitsTick p → ∃ fuel, (dspPrintkTimer p s.driver.mem fuel s.driver.queue).isSome = true) := by
  have hinv := inv h
  constructor
  · rintro ⟨es, t, hes, hexec, hnone⟩ hawaits
    by_contra hendless
    simp only [not_exists, Bool.not_eq_true, Option.isSome_eq_false_iff, Option.isNone_iff_eq_none] at hendless
    obtain ⟨-, op, hh | ⟨hh, -⟩⟩ := stuck hinv hawaits hendless hes hexec <;> rw [hnone] at hh <;> cases hh
  · intro hends
    cases hholder : s.holder with
    | none => exact ⟨[], s, by simp, rfl, hholder⟩
    | some x =>
      obtain ⟨op, stage⟩ := x
      cases stage with
      | entered => exact unlocks_entered hinv hholder hends
      | deleting => exact unlocks_waiting hinv hholder hends
      | deleted => exact unlocks_deleted hinv hholder
      | uncalled => exact unlocks_uncalled hinv hholder
      | working was => exact unlocks_working hinv hholder
      | installing | adding | added | restarting | leaving => exact unlocks_worked hholder rfl

theorem unlocks_iff_stopDuringTick : ∃ s : Interleaving, s.AwaitsTick (Platform.tiny 1 (by decide)) ∧
    (s.Unlocks (Platform.tiny 1 (by decide)) ↔ (s.AwaitsTick (Platform.tiny 1 (by decide)) → ∃ fuel,
      (dspPrintkTimer (Platform.tiny 1 (by decide)) s.driver.mem fuel s.driver.queue).isSome = true)) := by
  obtain ⟨s, hexec, hholder, hhandler⟩ := exec_stopDuringTick
  exact ⟨s, ⟨Or.inr hhandler, _, Or.inl hholder⟩, unlocks_iff (.exec (.init emptyInterleaving_initial) hexec)⟩

end Interleaving
end Dsplog
