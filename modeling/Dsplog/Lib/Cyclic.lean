import Mathlib.Tactic.Common

/-! Positions on a cycle of `R` slots: the slot after a position, the distance from one position to
    another, the slots of a stretch in order, and the last item that a cyclic writer left in a slot. -/

namespace Cyclic

/-- The slot after slot `i`. -/
def next (R i : Nat) : Nat := if i + 1 < R then i + 1 else 0

/-- How many steps lead from slot `r` to slot `w`. -/
def distance (R r w : Nat) : Nat := if r ≤ w then w - r else w + R - r

/-- What the `n` slots from slot `r` on hold, in order. -/
def slice {α : Type} (f : Nat → α) (R r n : Nat) : List α := (List.range n).map fun k => f ((r + k) % R)

/-- The last of the items `0, …, m - 1` that a writer put into slot `i`, item `j` going to slot `j % N`. -/
def latest (N : Nat) : Nat → Nat → Option Nat
  | 0, _ => none
  | m + 1, i => if m % N = i then some m else latest N m i

/-- What holds again one round later, from step `lead` on, holds always when it holds up to the end of the first round. -/
theorem forall_of_recurs {P : Nat → Prop} {lead R : Nat} (hR : 0 < R) (first : ∀ n, n ≤ lead + R → P n)
    (again : ∀ n, lead < n → P n → P (n + R)) (n : Nat) : P n := by
  induction n using Nat.strongRecOn with
  | ind n ih =>
    rcases Nat.lt_or_ge (lead + R) n with hlt | hle
    · have hbefore := again (n - R) (by omega) (ih (n - R) (by omega))
      rwa [show n - R + R = n by omega] at hbefore
    · exact first n hle

/-! ### Distance -/

section Dist
variable {R r w i n : Nat}

theorem next_lt (h : 0 < R) : next R i < R := by
  unfold next
  split <;> omega

theorem next_eq_mod (h : i < R) : next R i = (i + 1) % R := by
  unfold next
  split
  · rename_i hi
    exact (Nat.mod_eq_of_lt hi).symm
  · have : i + 1 = R := by omega
    simp [this]

@[simp] theorem distance_self : distance R r r = 0 := by simp [distance]

theorem distance_lt (hr : r < R) (hw : w < R) : distance R r w < R := by
  unfold distance
  split <;> omega

theorem add_distance_mod (hr : r < R) (hw : w < R) : (r + distance R r w) % R = w := by
  unfold distance
  split
  · rw [show r + (w - r) = w by omega, Nat.mod_eq_of_lt hw]
  · rw [show r + (w + R - r) = w + R by omega, Nat.add_mod_right, Nat.mod_eq_of_lt hw]

theorem distance_add_mod (hr : r < R) (hn : n < R) : distance R r ((r + n) % R) = n := by
  unfold distance
  rcases Nat.lt_or_ge (r + n) R with h | h
  · rw [Nat.mod_eq_of_lt h]
    split <;> omega
  · have hlt : r + n - R < R := by omega
    rw [Nat.mod_eq_sub_mod h, Nat.mod_eq_of_lt hlt]
    split <;> omega

/-- The writer's next slot is the reader's exactly when all slots but one lie between them. -/
theorem next_eq_iff (hr : r < R) (hw : w < R) : next R w = r ↔ distance R r w = R - 1 := by
  unfold next distance
  split <;> split <;> omega

theorem distance_next (hr : r < R) (hw : w < R) (h : distance R r w < R - 1) : distance R r (next R w) = distance R r w + 1 := by
  unfold distance next at *
  split at h <;> split <;> split <;> omega

/-- Along the way from `r` to `w`, a position between them splits the distance. -/
theorem distance_split (hr : r < R) (hw : w < R) (hn : n ≤ distance R r w) : distance R ((r + n) % R) w = distance R r w - n := by
  rcases Nat.lt_or_ge (r + n) R with h | h
  · rw [Nat.mod_eq_of_lt h]
    unfold distance at *
    split at hn <;> split <;> omega
  · have := distance_lt hr hw
    rw [Nat.mod_eq_sub_mod h, Nat.mod_eq_of_lt (by omega)]
    unfold distance at *
    split at hn <;> split <;> omega

end Dist

/-! ### Slices -/

section Slice
variable {α : Type} {f g : Nat → α} {R r n k : Nat}

@[simp] theorem slice_zero : slice f R r 0 = [] := rfl

@[simp] theorem slice_length : (slice f R r n).length = n := by simp [slice]

theorem slice_succ : slice f R r (n + 1) = slice f R r n ++ [f ((r + n) % R)] := by
  simp [slice, List.range_succ]

theorem slice_add : slice f R r (n + k) = slice f R r n ++ slice f R ((r + n) % R) k := by
  simp only [slice, List.range_add, List.map_append, List.map_map]
  congr 1
  refine List.map_congr_left fun i _ => ?_
  simp only [Function.comp_apply, Nat.mod_add_mod, Nat.add_assoc]

theorem slice_congr (h : ∀ i, i < n → f ((r + i) % R) = g ((r + i) % R)) : slice f R r n = slice g R r n :=
  List.map_congr_left fun i hi => h i (List.mem_range.mp hi)

theorem slice_of_le (h : r + n ≤ R) : slice f R r n = (List.range n).map fun k => f (r + k) :=
  List.map_congr_left fun k hk => by
    have := List.mem_range.mp hk
    rw [Nat.mod_eq_of_lt (by omega)]

theorem slice_of_ge (hr : r < R) (h : R ≤ r + n) :
    slice f R r n = slice f R r (R - r) ++ slice f R 0 (n - (R - r)) := by
  have hsum : n = (R - r) + (n - (R - r)) := by omega
  have hmod : (r + (R - r)) % R = 0 := by
    rw [show r + (R - r) = R by omega, Nat.mod_self]
  rw [hsum, slice_add, hmod, ← hsum]

end Slice

/-! ### The last item of a slot -/

section Latest
variable {N m i j : Nat}

theorem latest_lt (h : latest N m i = some j) : j < m := by
  induction m with
  | zero => cases h
  | succ m ih =>
    unfold latest at h
    split at h
    · cases h
      exact Nat.lt_succ_self _
    · exact Nat.lt_succ_of_lt (ih h)

/-- Two items of one slot are a whole round apart. -/
theorem add_le_of_mod_eq {a b : Nat} (hab : a < b) (h : a % N = b % N) : a + N ≤ b := by
  have ha := Nat.div_add_mod a N
  have hb := Nat.div_add_mod b N
  have hdiv : a / N < b / N := by
    by_contra hle
    have : N * (b / N) ≤ N * (a / N) := Nat.mul_le_mul_left N (by omega)
    omega
  have hround : N * (a / N + 1) ≤ N * (b / N) := Nat.mul_le_mul_left N hdiv
  rw [Nat.mul_add] at hround
  omega

theorem latest_eq_some (hi : i < N) :
    latest N m i = some j ↔ j < m ∧ j % N = i ∧ m ≤ j + N := by
  induction m with
  | zero => simp [latest]
  | succ m ih =>
    unfold latest
    split
    · rename_i hm
      constructor
      · intro h
        cases h
        exact ⟨by omega, hm, by omega⟩
      · rintro ⟨hlt, hj, hle⟩
        rcases Nat.lt_or_ge j m with h | h
        · have := add_le_of_mod_eq h (hj.trans hm.symm)
          omega
        · rw [show m = j by omega]
    · rename_i hm
      rw [ih]
      constructor
      · rintro ⟨hlt, hj, hle⟩
        refine ⟨by omega, hj, ?_⟩
        by_contra hgt
        have : m = j + N := by omega
        rw [this, Nat.add_mod_right] at hm
        exact hm hj
      · rintro ⟨hlt, hj, hle⟩
        refine ⟨?_, hj, by omega⟩
        by_contra hge
        rw [show m = j by omega] at hm
        exact hm hj

theorem latest_eq_none (hi : i < N) : latest N m i = none ↔ m ≤ i := by
  induction m with
  | zero => simp [latest]
  | succ m ih =>
    unfold latest
    split
    · rename_i hm
      simp only [reduceCtorEq, false_iff]
      have := Nat.mod_le m N
      omega
    · rename_i hm
      rw [ih]
      constructor
      · intro h
        rcases Nat.lt_or_ge m i with h' | h'
        · omega
        · rw [show m = i by omega, Nat.mod_eq_of_lt hi] at hm
          exact absurd rfl hm
      · omega

theorem latest_succ_self : latest N (m + 1) (m % N) = some m := by simp [latest]

theorem latest_succ_of_ne (h : m % N ≠ i) : latest N (m + 1) i = latest N m i := by simp [latest, h]

end Latest
end Cyclic
