import Mathlib.Tactic.Common
import Mathlib.Logic.Function.Basic
import Mathlib.Data.List.Nodup
import Mathlib.Algebra.Order.BigOperators.Group.List
import Mathlib.Algebra.Order.Ring.Nat

/-! Serving several independent processes in turn. A pass visits the processes of a working array in
    order and breaks off at the first one that has nothing to do, which is then removed by shifting the
    entries behind it; passes are repeated until the array is empty. The balanced service ends exactly
    when every process served alone ends, and it leaves each process in the state of its solo service. -/

namespace RoundRobin

variable {ι σ : Type} [DecidableEq ι]

/-- Visits one process until it has nothing to do: `none` when the fuel is used up before. -/
def solo (visit : σ → σ × Bool) : Nat → σ → Option σ
  | 0, _ => none
  | fuel + 1, s => if (visit s).2 then some (visit s).1 else solo visit fuel (visit s).1

/-- `k` more entries of the working array, from entry `i` on: the states after the visits, and the entry
    at which the pass broke off. A visit through a null entry is not defined. -/
def pass (visit : σ → σ × Bool) (arr : Nat → Option ι) : Nat → Nat → (ι → σ) → Option ((ι → σ) × Option Nat)
  | 0, _, ss => some (ss, none)
  | k + 1, i, ss =>
    match arr i with
    | none => none
    | some j =>
      if (visit (ss j)).2 then some (Function.update ss j (visit (ss j)).1, some i)
      else pass visit arr k (i + 1) (Function.update ss j (visit (ss j)).1)

/-- Moves `k` entries, from entry `i` on, down by one. -/
def shift : (Nat → Option ι) → Nat → Nat → Nat → Option ι
  | arr, 0, _ => arr
  | arr, k + 1, i => shift (Function.update arr (i - 1) (arr i)) k (i + 1)

/-- Repeats passes over the first `num` entries until none is left. -/
def loop (visit : σ → σ × Bool) : Nat → (Nat → Option ι) → Nat → (ι → σ) → Option (ι → σ)
  | _, _, 0, ss => some ss
  | 0, _, _ + 1, _ => none
  | fuel + 1, arr, num + 1, ss =>
    match pass visit arr (num + 1) 0 ss with
    | none => none
    | some (ss', none) => loop visit fuel arr (num + 1) ss'
    | some (ss', some i) => loop visit fuel (shift arr (num - i) (i + 1)) num ss'

/-- The first `l.length` entries of the array are those of `l`. -/
def Holds (arr : Nat → Option ι) (l : List ι) : Prop := ∀ i, i < l.length → arr i = l[i]?

variable {visit : σ → σ × Bool} {arr : Nat → Option ι} {l : List ι} {ss ss' : ι → σ} {s s' : σ}

/-! ### Solo service -/

theorem solo_succ {n : Nat} (h : solo visit n s = some s') : solo visit (n + 1) s = some s' := by
  induction n generalizing s with
  | zero => simp [solo] at h
  | succ n ih =>
    unfold solo at h ⊢
    split at h
    · simp_all
    · simp_all

theorem solo_mono {n k : Nat} (hk : n ≤ k) (h : solo visit n s = some s') : solo visit k s = some s' := by
  induction hk with
  | refl => exact h
  | step _ ih => exact solo_succ ih

theorem solo_unique {n k : Nat} {t : σ} (h : solo visit n s = some s') (h' : solo visit k s = some t) : s' = t := by
  have h₁ := solo_mono (Nat.le_max_left n k) h
  rw [solo_mono (Nat.le_max_right n k) h'] at h₁
  exact (Option.some.inj h₁).symm

theorem solo_of_dry {n : Nat} (h : (visit s).2 = true) : solo visit (n + 1) s = some (visit s).1 := by
  simp [solo, h]

theorem solo_of_busy {n : Nat} (h : (visit s).2 = false) : solo visit (n + 1) s = solo visit n (visit s).1 := by
  simp [solo, h]

/-- The service ends with a visit that finds nothing to do, in a state that the visits before it lead to. -/
theorem solo_last {P : σ → Prop} (step : ∀ s, P s → P (visit s).1) (hs : P s) {n : Nat}
    (h : solo visit n s = some s') : ∃ t, P t ∧ (visit t).2 = true ∧ (visit t).1 = s' := by
  induction n generalizing s with
  | zero => cases h
  | succ n ih =>
    unfold solo at h
    split at h
    · rename_i hdry
      exact ⟨s, hs, hdry, Option.some.inj h⟩
    · exact ih (step s hs) h

theorem solo_invariant {P : σ → Prop} (step : ∀ s, P s → P (visit s).1) (hs : P s) {n : Nat}
    (h : solo visit n s = some s') : P s' := by
  obtain ⟨t, ht, -, rfl⟩ := solo_last step hs h
  exact step t ht

/-- A property that busy visits keep rules out that the solo service ends, if it rules out running dry. -/
theorem solo_eq_none {P : σ → Prop} (busy : ∀ s, P s → (visit s).2 = false ∧ P (visit s).1) (hs : P s) (n : Nat) :
    solo visit n s = none := by
  induction n generalizing s with
  | zero => rfl
  | succ n ih =>
    rw [solo_of_busy (busy s hs).1]
    exact ih (busy s hs).2

/-- The state after `n` visits, whatever they find to do. -/
def after (visit : σ → σ × Bool) (n : Nat) (s : σ) : σ := (fun s => (visit s).1)^[n] s

theorem after_succ {n : Nat} : after visit (n + 1) s = (visit (after visit n s)).1 := Function.iterate_succ_apply' _ n s

theorem solo_of_after {n : Nat} (hbusy : ∀ i, i < n → (visit (after visit i s)).2 = false)
    (hdry : (visit (after visit n s)).2 = true) : solo visit (n + 1) s = some (visit (after visit n s)).1 := by
  induction n generalizing s with
  | zero => exact solo_of_dry hdry
  | succ n ih =>
    have hfirst : (visit s).2 = false := hbusy 0 (Nat.succ_pos n)
    rw [solo_of_busy hfirst]
    exact ih (fun i hi => hbusy (i + 1) (Nat.succ_lt_succ hi)) hdry

/-- A solo service ends with the first visit that has nothing to do. -/
theorem solo_iff_after : (∃ fuel, solo visit fuel s = some s') ↔ ∃ n, (∀ i, i < n → (visit (after visit i s)).2 = false) ∧
    (visit (after visit n s)).2 = true ∧ (visit (after visit n s)).1 = s' := by
  constructor
  · rintro ⟨fuel, h⟩
    induction fuel generalizing s with
    | zero => cases h
    | succ fuel ih =>
      unfold solo at h
      split at h
      · rename_i hdry
        cases h
        exact ⟨0, fun i hi => absurd hi (Nat.not_lt_zero i), hdry, rfl⟩
      · rename_i hbusy
        obtain ⟨n, hbefore, hdry, hend⟩ := ih h
        refine ⟨n + 1, fun i hi => ?_, hdry, hend⟩
        cases i with
        | zero => exact eq_false_of_ne_true hbusy
        | succ i => exact hbefore i (Nat.lt_of_succ_lt_succ hi)
  · rintro ⟨n, hbefore, hdry, rfl⟩
    exact ⟨n + 1, solo_of_after hbefore hdry⟩

/-! ### Compaction -/

omit [DecidableEq ι] in
theorem shift_of_lt {k i x : Nat} (h : x + 1 < i) : shift arr k i x = arr x := by
  induction k generalizing arr i with
  | zero => rfl
  | succ k ih =>
    rw [shift, ih (by omega), Function.update_of_ne (by omega)]

theorem shift_of_mem {k i x : Nat} (hi : i ≤ x + 1) (hx : x + 1 < i + k) (h0 : 0 < i) :
    shift arr k i x = arr (x + 1) := by
  induction k generalizing arr i with
  | zero => omega
  | succ k ih =>
    rw [shift]
    rcases Nat.lt_or_ge x i with h | h
    · rw [shift_of_lt (by omega), show x = i - 1 by omega, Function.update_self, Nat.sub_add_cancel h0]
    · rw [ih (by omega) (by omega) (by omega), Function.update_of_ne (by omega)]

/-- Shifting removes the entry at which the pass broke off. -/
theorem Holds.shift {i : Nat} (h : Holds arr l) (hi : i < l.length) :
    Holds (shift arr (l.length - 1 - i) (i + 1)) (l.eraseIdx i) := by
  intro x hx
  rw [List.length_eraseIdx_of_lt hi] at hx
  rw [List.getElem?_eraseIdx]
  split
  · rw [shift_of_lt (by omega), h x (by omega)]
  · rw [shift_of_mem (by omega) (by omega) (by omega), h (x + 1) (by omega)]

/-! ### One pass -/

/-- What a pass over the entries of `l` does: it visits their processes in order up to the first that has
    nothing to do. The states after it, and the processes that stay in the array. -/
def passList (visit : σ → σ × Bool) : List ι → (ι → σ) → (ι → σ) × List ι
  | [], ss => (ss, [])
  | j :: l, ss =>
    if (visit (ss j)).2 then (Function.update ss j (visit (ss j)).1, l)
    else ((passList visit l (Function.update ss j (visit (ss j)).1)).1,
      j :: (passList visit l (Function.update ss j (visit (ss j)).1)).2)

theorem pass_eq (visit : σ → σ × Bool) (ss : ι → σ) {k : Nat} (h : ∀ x, x < l.length → arr (k + x) = l[x]?) :
    ∃ r, pass visit arr l.length k ss = some ((passList visit l ss).1, r) ∧
      (r = none ∧ (passList visit l ss).2 = l ∨
        ∃ i, i < l.length ∧ r = some (k + i) ∧ (passList visit l ss).2 = l.eraseIdx i) := by
  induction l generalizing k ss with
  | nil => exact ⟨none, rfl, Or.inl ⟨rfl, rfl⟩⟩
  | cons j l ih =>
    have h0 : arr k = some j := h 0 (by simp)
    simp only [List.length_cons, pass, passList, h0]
    split
    · exact ⟨some k, rfl, Or.inr ⟨0, by simp, rfl, rfl⟩⟩
    · obtain ⟨r, hr, hcase⟩ := ih (Function.update ss j (visit (ss j)).1) (k := k + 1) fun x hx => by
        have := h (x + 1) (by simpa using hx)
        rwa [List.getElem?_cons_succ, ← Nat.add_assoc, Nat.add_right_comm] at this
      refine ⟨r, hr, ?_⟩
      rcases hcase with ⟨rfl, hl⟩ | ⟨i, hi, rfl, hl⟩
      · exact Or.inl ⟨rfl, by rw [hl]⟩
      · refine Or.inr ⟨i + 1, by simpa using hi, ?_, by rw [hl, List.eraseIdx_cons_succ]⟩
        rw [Nat.add_assoc, Nat.add_comm 1]

theorem passList_sublist : (passList visit l ss).2.Sublist l := by
  induction l generalizing ss with
  | nil => exact List.Sublist.refl _
  | cons a l ih =>
    simp only [passList]
    split
    · exact List.sublist_cons_self a l
    · exact ih.cons_cons a

theorem passList_of_not_mem {j : ι} (hj : j ∉ l) : (passList visit l ss).1 j = ss j := by
  induction l generalizing ss with
  | nil => rfl
  | cons a l ih =>
    simp only [List.mem_cons, not_or] at hj
    simp only [passList]
    split
    · exact Function.update_of_ne hj.1 _ _
    · rw [ih hj.2, Function.update_of_ne hj.1]

/-- What a pass does to one process: it runs dry and is removed, it is visited and stays, or the pass
    breaks off before it. -/
theorem passList_visit (visit : σ → σ × Bool) (ss : ι → σ) (hl : l.Nodup) {j : ι} (hj : j ∈ l) :
    j ∉ (passList visit l ss).2 ∧ (visit (ss j)).2 = true ∧ (passList visit l ss).1 j = (visit (ss j)).1 ∨
      j ∈ (passList visit l ss).2 ∧ (visit (ss j)).2 = false ∧ (passList visit l ss).1 j = (visit (ss j)).1 ∨
      j ∈ (passList visit l ss).2 ∧ (passList visit l ss).1 j = ss j := by
  induction l generalizing ss with
  | nil => cases hj
  | cons a l ih =>
    obtain ⟨ha, hl⟩ := List.nodup_cons.mp hl
    simp only [passList]
    split
    · rename_i hdry
      rcases List.mem_cons.mp hj with rfl | hj
      · exact Or.inl ⟨ha, hdry, by simp⟩
      · have hne : j ≠ a := fun h => ha (h ▸ hj)
        exact Or.inr (Or.inr ⟨hj, by simp [hne]⟩)
    · rename_i hbusy
      rcases List.mem_cons.mp hj with rfl | hj
      · exact Or.inr (Or.inl ⟨by simp, by simpa using hbusy, by simp [passList_of_not_mem ha]⟩)
      · have hne : j ≠ a := fun h => ha (h ▸ hj)
        have ih := ih (Function.update ss a (visit (ss a)).1) hl hj
        simpa only [Function.update_of_ne hne, List.mem_cons, hne, false_or] using ih

/-- The first process of the array is always visited. -/
theorem passList_head (visit : σ → σ × Bool) (ss : ι → σ) {a : ι} (ha : a ∉ l) :
    a ∉ (passList visit (a :: l) ss).2 ∧ (visit (ss a)).2 = true ∨
      (visit (ss a)).2 = false ∧ (passList visit (a :: l) ss).1 a = (visit (ss a)).1 := by
  simp only [passList]
  split
  · rename_i hdry
    exact Or.inl ⟨ha, hdry⟩
  · rename_i hbusy
    exact Or.inr ⟨by simpa using hbusy, by simp [passList_of_not_mem ha]⟩

/-! ### The whole service -/

theorem loop_round (visit : σ → σ × Bool) (ss : ι → σ) (h : Holds arr l) (hne : l ≠ []) : ∃ arr', Holds arr' (passList visit l ss).2 ∧
    ∀ fuel, loop visit (fuel + 1) arr l.length ss =
      loop visit fuel arr' (passList visit l ss).2.length (passList visit l ss).1 := by
  obtain ⟨num, hnum⟩ : ∃ num, l.length = num + 1 :=
    ⟨l.length - 1, by have := List.length_pos_iff.mpr hne; omega⟩
  obtain ⟨r, hr, hcase⟩ := pass_eq visit ss (k := 0) (l := l) fun x hx =>
    (congrArg arr (Nat.zero_add x)).trans (h x hx)
  rw [hnum] at hr
  rcases hcase with ⟨rfl, hl⟩ | ⟨i, hi, rfl, hl⟩
  · refine ⟨arr, hl.symm ▸ h, fun fuel => ?_⟩
    rw [hl, hnum]
    simp only [loop, hr]
  · refine ⟨_, hl.symm ▸ h.shift hi, fun fuel => ?_⟩
    rw [hl, List.length_eraseIdx_of_lt hi, hnum]
    simp only [loop, hr, Nat.zero_add, Nat.add_sub_cancel]

/-- When the service ends, each process is left in the state of its solo service, and no other process
    is touched. -/
theorem loop_solo {fuel : Nat} (hl : l.Nodup) (h : Holds arr l) (hloop : loop visit fuel arr l.length ss = some ss') :
    (∀ j ∈ l, ∃ n, solo visit n (ss j) = some (ss' j)) ∧ ∀ j, j ∉ l → ss' j = ss j := by
  induction fuel generalizing arr l ss with
  | zero =>
    cases l with
    | nil =>
      cases hloop
      exact ⟨by simp, fun _ _ => rfl⟩
    | cons a l => simp [loop] at hloop
  | succ fuel ih =>
    by_cases hne : l = []
    · subst hne
      cases hloop
      exact ⟨by simp, fun _ _ => rfl⟩
    obtain ⟨arr', h', hround⟩ := loop_round visit ss h hne
    rw [hround] at hloop
    obtain ⟨hmem, hother⟩ := ih (hl.sublist passList_sublist) h' hloop
    refine ⟨fun j hj => ?_, fun j hj => ?_⟩
    · rcases passList_visit visit ss hl hj with ⟨h1, h2, h3⟩ | ⟨h1, h2, h3⟩ | ⟨h1, h3⟩
      · exact ⟨1, by rw [solo_of_dry h2, hother j h1, h3]⟩
      · obtain ⟨n, hn⟩ := hmem j h1
        exact ⟨n + 1, by rw [solo_of_busy h2, ← h3, hn]⟩
      · obtain ⟨n, hn⟩ := hmem j h1
        exact ⟨n, by rw [← h3, hn]⟩
    · rw [hother j fun hmem' => hj (passList_sublist.subset hmem'), passList_of_not_mem hj]

/-- The visits that the solo services of the processes of `l` take bound the rounds of the loop. -/
theorem loop_ends {fuel : Nat} (visits : ι → Nat) (hl : l.Nodup) (h : Holds arr l)
    (hsolo : ∀ j ∈ l, (solo visit (visits j) (ss j)).isSome) (hfuel : (l.map visits).sum ≤ fuel) :
    (loop visit fuel arr l.length ss).isSome := by
  induction fuel generalizing arr l ss visits with
  | zero =>
    cases l with
    | nil => rfl
    | cons a l =>
      -- A solo service takes at least one visit.
      have h0 : visits a = 0 := by
        simp only [List.map_cons, List.sum_cons] at hfuel
        omega
      have := hsolo a (by simp)
      rw [h0] at this
      simp [solo] at this
  | succ fuel ih =>
    cases l with
    | nil => rfl
    | cons a l =>
      obtain ⟨arr', h', hround⟩ := loop_round visit ss h (List.cons_ne_nil a l)
      rw [hround]
      have hpos : ∀ j ∈ a :: l, ∃ n, visits j = n + 1 := fun j hj =>
        Nat.exists_eq_succ_of_ne_zero fun h0 => by
          have := hsolo j hj
          rw [h0] at this
          simp [solo] at this
      -- A process that stays has one visit less to come when the pass visited it.
      have hleft : ∀ j ∈ a :: l, ∃ n, n ≤ visits j ∧ (j = a → n < visits j) ∧
          (j ∈ (passList visit (a :: l) ss).2 → (solo visit n ((passList visit (a :: l) ss).1 j)).isSome) := by
        intro j hj
        obtain ⟨n, hn⟩ := hpos j hj
        have hs := hsolo j hj
        rw [hn] at hs ⊢
        rcases passList_visit visit ss hl hj with ⟨h1, h2, h3⟩ | ⟨h1, h2, h3⟩ | ⟨h1, h3⟩
        · exact ⟨n, by omega, fun _ => by omega, fun h => absurd h h1⟩
        · rw [solo_of_busy h2, ← h3] at hs
          exact ⟨n, by omega, fun _ => by omega, fun _ => hs⟩
        · by_cases hja : j = a
          · subst hja
            rcases passList_head visit ss (List.nodup_cons.mp hl).1 with ⟨h4, -⟩ | ⟨h4, h5⟩
            · exact absurd h1 h4
            · rw [solo_of_busy h4, ← h5] at hs
              exact ⟨n, by omega, fun _ => by omega, fun _ => hs⟩
          · rw [← h3] at hs
            exact ⟨n + 1, Nat.le_refl _, fun h => absurd h hja, fun _ => hs⟩
      choose! left hle hlt hsome using hleft
      refine ih left (hl.sublist passList_sublist) h'
        (fun j hj => hsome j (passList_sublist.subset hj) hj) ?_
      have hsum : ((passList visit (a :: l) ss).2.map left).sum ≤ ((a :: l).map left).sum :=
        (passList_sublist.map left).sum_le_sum fun _ _ => Nat.zero_le _
      have htail : (l.map left).sum ≤ (l.map visits).sum :=
        List.sum_le_sum fun j hj => hle j (List.mem_cons_of_mem a hj)
      have ha := hlt a (by simp) rfl
      simp only [List.map_cons, List.sum_cons] at hsum hfuel
      omega

end RoundRobin
