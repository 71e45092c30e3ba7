import Mathlib.Tactic.Common

/-! A ledger of things that are taken and given back. A thing may need others: it is taken after them and given back
    before them. Whatever breaks this, and giving back what is not held or taking what is held, is a fault. -/

namespace Ledger

inductive Entry (α : Type) where
  | take (x : α)
  | give (x : α)
  deriving DecidableEq, Repr

variable {α : Type}

/-- The list holds just the things of a set, each once. -/
structure Exactly (held : List α) (S : α → Prop) : Prop where
  nodup : held.Nodup
  mem : ∀ x, x ∈ held ↔ S x

variable {S T : α → Prop} {held held' : List α} {x : α}

theorem Exactly.congr (h : Exactly held S) (hST : ∀ x, S x ↔ T x) : Exactly held T :=
  ⟨h.nodup, fun x => (h.mem x).trans (hST x)⟩

theorem Exactly.nil (h : ∀ x, ¬S x) : Exactly [] S := ⟨List.nodup_nil, fun x => by simp [h x]⟩

variable [DecidableEq α]

/-- What is held after an entry, or `none` when it is a fault. -/
def enter (needs : α → List α) (held : List α) : Entry α → Option (List α)
  | .take x => if x ∉ held ∧ ∀ y ∈ needs x, y ∈ held then some (x :: held) else none
  | .give x => if x ∈ held ∧ ∀ y ∈ held, x ∉ needs y then some (held.erase x) else none

/-- What is held after a list of entries, or `none` when there was a fault. -/
def book (needs : α → List α) : List α → List (Entry α) → Option (List α)
  | held, [] => some held
  | held, e :: es => (enter needs held e).bind fun held => book needs held es

variable {needs : α → List α} {e : Entry α} {es es' : List (Entry α)}

theorem book_append : book needs held (es ++ es') = (book needs held es).bind fun held => book needs held es' := by
  induction es generalizing held with
  | nil => rfl
  | cons e es ih =>
    rw [List.cons_append, book, book, Option.bind_assoc]
    congr 1
    funext held
    exact ih

/-- From what is just `S`, the entries lead without a fault to what is just `T`. -/
def Books (needs : α → List α) (S : α → Prop) (es : List (Entry α)) (T : α → Prop) : Prop :=
  ∀ held, Exactly held S → ∃ held', book needs held es = some held' ∧ Exactly held' T

namespace Books
variable {U : α → Prop}

theorem nil (hST : ∀ x, S x ↔ T x) : Books needs S [] T := fun held h => ⟨held, rfl, h.congr hST⟩

theorem take (hx : ¬S x) (hneeds : ∀ y ∈ needs x, S y) (h : Books needs (fun y => y = x ∨ S y) es T) :
    Books needs S (.take x :: es) T := by
  intro held hS
  have hx : x ∉ held := fun hmem => hx ((hS.mem x).mp hmem)
  have henter : enter needs held (.take x) = some (x :: held) :=
    if_pos ⟨hx, fun y hy => (hS.mem y).mpr (hneeds y hy)⟩
  rw [book, henter, Option.bind_some]
  refine h _ ⟨List.nodup_cons.mpr ⟨hx, hS.nodup⟩, fun y => ?_⟩
  rw [List.mem_cons, hS.mem]

theorem give (hx : S x) (hneeds : ∀ y, S y → x ∉ needs y) (h : Books needs (fun y => y ≠ x ∧ S y) es T) :
    Books needs S (.give x :: es) T := by
  intro held hS
  have henter : enter needs held (.give x) = some (held.erase x) :=
    if_pos ⟨(hS.mem x).mpr hx, fun y hy => hneeds y ((hS.mem y).mp hy)⟩
  rw [book, henter, Option.bind_some]
  refine h _ ⟨hS.nodup.erase x, fun y => ?_⟩
  rw [hS.nodup.mem_erase_iff, hS.mem]

theorem append (h : Books needs S es T) (h' : Books needs T es' U) : Books needs S (es ++ es') U := by
  intro held hS
  obtain ⟨held₁, hbook, hT⟩ := h held hS
  rw [book_append, hbook, Option.bind_some]
  exact h' held₁ hT

theorem congr (h : Books needs S es T) (hTU : ∀ x, T x ↔ U x) : Books needs S es U := by
  intro held hS
  obtain ⟨held', hbook, hT⟩ := h held hS
  exact ⟨held', hbook, hT.congr hTU⟩

/-- What is done and undone between a thing's taking and its giving back leaves all as it was. -/
theorem unwind (hx : ¬S x) (hneeds : ∀ y ∈ needs x, S y) (hself : x ∉ needs x) (hother : ∀ y, S y → x ∉ needs y)
    (h : Books needs (fun y => y = x ∨ S y) es fun y => y = x ∨ S y) :
    Books needs S (.take x :: (es ++ [.give x])) S := by
  refine .take hx hneeds (h.append (.give (Or.inl rfl) ?_ (.nil fun y => ?_)))
  · rintro y (rfl | hy)
    · exact hself
    · exact hother y hy
  · constructor
    · rintro ⟨hne, heq | hy⟩
      · exact absurd heq hne
      · exact hy
    · exact fun hy => ⟨fun heq => hx (heq ▸ hy), Or.inr hy⟩

end Books

/-- What is not given back stays held. -/
theorem mem_of_book (h : book needs held es = some held') (hx : x ∈ held) (hes : Entry.give x ∉ es) : x ∈ held' := by
  induction es generalizing held with
  | nil =>
    cases h
    exact hx
  | cons e es ih =>
    obtain ⟨held₁, henter, hbook⟩ := Option.bind_eq_some_iff.mp h
    obtain ⟨hne, hes⟩ := not_or.mp (mt List.mem_cons.mpr hes)
    refine ih hbook ?_ hes
    cases e with
    | take y =>
      simp only [enter, Option.ite_none_right_eq_some, Option.some.injEq] at henter
      obtain ⟨-, rfl⟩ := henter
      exact List.mem_cons_of_mem _ hx
    | give y =>
      simp only [enter, Option.ite_none_right_eq_some, Option.some.injEq] at henter
      obtain ⟨-, rfl⟩ := henter
      have hxy : x ≠ y := fun heq => hne (heq ▸ rfl)
      exact (List.mem_erase_of_ne hxy).mpr hx

/-- A thing that a held one needs cannot be given back. -/
theorem give_needed {y : α} (hy : y ∈ held) (hneeds : x ∈ needs y) : enter needs held (.give x) = none :=
  if_neg fun h => h.2 y hy hneeds

end Ledger
