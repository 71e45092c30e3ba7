import Mathlib.Tactic.Common

/-! Labelled machines and their runs. A machine has initial states and a partial step function; a run
    executes a list of events. An invariant is proved once per step (`Reachable.invariant`), and the steps
    of a run may be required to meet a guard (`Machine.guard`, `forall_iff_guarded`). -/

namespace Machines

/-- A machine over states `σ` and events `ε`; `step s e = none` when `e` is not enabled in `s`. -/
structure Machine (σ ε : Type) where
  Init : σ → Prop
  step : σ → ε → Option σ

namespace Machine
variable {σ ε : Type}

/-- The states that some run of the machine reaches. -/
inductive Reachable (M : Machine σ ε) : σ → Prop
  | init {s : σ} : M.Init s → Reachable M s
  | step {s t : σ} (e : ε) : Reachable M s → M.step s e = some t → Reachable M t

/-- Executes a list of events; `none` when one of them is not enabled. -/
def exec (M : Machine σ ε) : σ → List ε → Option σ
  | s, [] => some s
  | s, e :: es => (M.step s e).bind fun t => exec M t es

/-- The steps of an execution: the state before each and its event. -/
def trace (M : Machine σ ε) : σ → List ε → List (σ × ε)
  | _, [] => []
  | s, e :: es => (s, e) :: (M.step s e).elim [] fun t => trace M t es

/-- The states that an execution visits, the first and the last included. -/
def visited (M : Machine σ ε) : σ → List ε → List σ
  | s, [] => [s]
  | s, e :: es => s :: (M.step s e).elim [] fun t => visited M t es

/-- The machine that takes only those steps that meet `G`. -/
def guard (M : Machine σ ε) (G : σ → ε → Prop) [∀ s e, Decidable (G s e)] : Machine σ ε where
  Init := M.Init
  step s e := if G s e then M.step s e else none

variable {M : Machine σ ε} {G : σ → ε → Prop} {I P : σ → Prop} {s t : σ} {es : List ε}

theorem Reachable.exec (h : M.Reachable s) (he : M.exec s es = some t) : M.Reachable t := by
  induction es generalizing s with
  | nil =>
    cases he
    exact h
  | cons e es ih =>
    obtain ⟨u, hu, ht⟩ := Option.bind_eq_some_iff.mp he
    exact ih (.step e h hu) ht

/-- An invariant that holds initially and that every step keeps holds in every reachable state. -/
theorem Reachable.invariant (init : ∀ s, M.Init s → I s) (step : ∀ s e t, I s → M.step s e = some t → I t)
    (h : M.Reachable s) : I s := by
  induction h with
  | init h => exact init _ h
  | step e _ hs ih => exact step _ e _ ih hs

theorem guard_step [∀ s e, Decidable (G s e)] {e : ε} :
    (M.guard G).step s e = some t ↔ G s e ∧ M.step s e = some t := by
  simp only [guard]
  split <;> simp_all

theorem Reachable.guarded [∀ s e, Decidable (G s e)] (init : ∀ s, M.Init s → I s)
    (step : ∀ s e t, I s → G s e → M.step s e = some t → I t) (h : (M.guard G).Reachable s) : I s :=
  Reachable.invariant (M := M.guard G) init (fun s e t hI hst =>
    step s e t hI (guard_step.mp hst).1 (guard_step.mp hst).2) h

/-- When the guarded steps keep an invariant that gives `P`, and an unguarded step from it opens a way to a
    state without `P`, the guard is exact: every state of a guarded run shows `P`, and no step that the guard
    excludes there is harmless. -/
theorem guard_exact [∀ s e, Decidable (G s e)] (init : ∀ s, M.Init s → I s)
    (step : ∀ s e t, I s → G s e → M.step s e = some t → I t) (good : ∀ s, I s → P s)
    (breaks : ∀ s e t, I s → ¬G s e → M.step s e = some t → ∃ es u, M.exec t es = some u ∧ ¬P u)
    (h : (M.guard G).Reachable s) :
    P s ∧ ∀ e t, ¬G s e → M.step s e = some t → ∃ es u, M.exec t es = some u ∧ ¬P u :=
  ⟨good s (h.guarded init step), fun e t hG hs => breaks s e t (h.guarded init step) hG hs⟩

theorem mem_visited_self (M : Machine σ ε) (s : σ) (es : List ε) : s ∈ M.visited s es := by
  cases es <;> simp [visited]

/-- When the guarded steps keep an invariant that gives `P`, and an unguarded step from it breaks `P` at
    once, an execution shows `P` in every state it visits exactly when all its steps meet the guard. -/
theorem forall_iff_guarded (step : ∀ s e t, I s → G s e → M.step s e = some t → I t) (good : ∀ s, I s → P s)
    (breaks : ∀ s e t, I s → ¬G s e → M.step s e = some t → ¬P t) (hs : I s) (h : M.exec s es = some t) :
    (∀ x ∈ M.visited s es, P x) ↔ ∀ x ∈ M.trace s es, G x.1 x.2 := by
  induction es generalizing s with
  | nil => simp [visited, trace, good s hs]
  | cons e es ih =>
    obtain ⟨u, hu, ht⟩ := Option.bind_eq_some_iff.mp h
    simp only [visited, trace, hu, Option.elim_some, List.mem_cons, forall_eq_or_imp]
    constructor
    · rintro ⟨-, hP⟩
      have hG : G s e := by
        by_contra hne
        exact breaks s e u hs hne hu (hP u (mem_visited_self M u es))
      exact ⟨hG, (ih (step s e u hs hG hu) ht).mp hP⟩
    · rintro ⟨hG, htr⟩
      exact ⟨good s hs, (ih (step s e u hs hG hu) ht).mpr htr⟩

/-- Simulation with stuttering: when a step with a label is the labelled step of `N`, seen through `view`, and a step
    without one cannot be seen, then an execution is an execution of `N` with its labels. -/
theorem exec_simulated {τ δ : Type} {N : Machine τ δ} {view : σ → τ} (label : σ → ε → Option δ)
    (step : ∀ s e t, I s → M.step s e = some t → I t ∧
      (label s e).elim (view t = view s) fun d => N.step (view s) d = some (view t))
    (hs : I s) (h : M.exec s es = some t) :
    N.exec (view s) ((M.trace s es).filterMap fun x => label x.1 x.2) = some (view t) := by
  induction es generalizing s with
  | nil =>
    cases h
    rfl
  | cons e es ih =>
    obtain ⟨u, hu, ht⟩ := Option.bind_eq_some_iff.mp h
    obtain ⟨hI, hview⟩ := step s e u hs hu
    have ih := ih hI ht
    simp only [trace, hu, Option.elim_some, List.filterMap_cons]
    cases hlabel : label s e with
    | none =>
      rw [hlabel] at hview
      exact (show view u = view s from hview) ▸ ih
    | some d =>
      rw [hlabel] at hview
      simp only [exec, show N.step (view s) d = some (view u) from hview, Option.bind_some]
      exact ih

end Machine
end Machines
