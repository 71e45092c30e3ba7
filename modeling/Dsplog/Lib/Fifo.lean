import Mathlib.Tactic.Common

/-! A bounded first-in first-out queue. An item that finds no room is dropped. Over a history of arrivals,
    takes and clearings every item that found room is accounted for exactly once (`books`): it has left in one of the
    batches that the takes and the clearings made (`departures`), or it is still there. -/

namespace Fifo

/-- A queue of at most `cap` items, oldest first. -/
structure Queue (α : Type) (cap : Nat) where
  items : List α
  le : items.length ≤ cap

namespace Queue
variable {α : Type} {cap : Nat} {q : Queue α cap} {x : α}

def empty : Queue α cap := ⟨[], Nat.zero_le _⟩

def add (q : Queue α cap) (x : α) : Queue α cap :=
  if h : q.items.length < cap then ⟨q.items ++ [x], by rw [List.length_append]; exact h⟩ else q

@[simp] theorem empty_items : (empty : Queue α cap).items = [] := rfl

theorem add_items : (q.add x).items = if q.items.length < cap then q.items ++ [x] else q.items := by
  unfold add
  split <;> rfl

theorem add_forall {P : α → Prop} (hq : ∀ y ∈ q.items, P y) (hx : P x) : ∀ y ∈ (q.add x).items, P y := by
  intro y hy
  rw [add_items] at hy
  split at hy
  · rcases List.mem_append.mp hy with hy | hy
    · exact hq y hy
    · rw [List.mem_singleton.mp hy]
      exact hx
  · exact hq y hy

end Queue

/-! ### Histories -/

/-- What happens to a queue: an item is offered, all items are taken, or all are thrown away. -/
inductive Event (α : Type) where
  | offer (x : α)
  | take
  | discard
  deriving DecidableEq, Repr

namespace Queue
variable {α : Type} {cap : Nat} {q : Queue α cap} {xs : List α} {es es' : List (Event α)}

def event (q : Queue α cap) : Event α → Queue α cap
  | .offer x => q.add x
  | .take | .discard => empty

def run (q : Queue α cap) (es : List (Event α)) : Queue α cap := es.foldl event q

/-- The items of a history that were offered. -/
def offers : List (Event α) → List α
  | [] => []
  | .offer x :: es => x :: offers es
  | .take :: es | .discard :: es => offers es

/-- The items of a history that found room. -/
def stored (q : Queue α cap) : List (Event α) → List α
  | [] => []
  | .offer x :: es => (if q.items.length < cap then [x] else []) ++ (q.add x).stored es
  | .take :: es | .discard :: es => (empty : Queue α cap).stored es

/-- The items of a history that were taken, in the order of the takes. -/
def taken (q : Queue α cap) : List (Event α) → List α
  | [] => []
  | .offer x :: es => (q.add x).taken es
  | .take :: es => q.items ++ (empty : Queue α cap).taken es
  | .discard :: es => (empty : Queue α cap).taken es

/-- The batches in which the items of a history have left, one for each event that emptied the queue, with whether it took
    them. -/
def departures (q : Queue α cap) : List (Event α) → List (Bool × List α)
  | [] => []
  | .offer x :: es => (q.add x).departures es
  | .take :: es => (true, q.items) :: (empty : Queue α cap).departures es
  | .discard :: es => (false, q.items) :: (empty : Queue α cap).departures es

@[simp] theorem run_nil : q.run [] = q := rfl

@[simp] theorem run_cons {e : Event α} : q.run (e :: es) = (q.event e).run es := rfl

theorem run_append : q.run (es ++ es') = (q.run es).run es' := List.foldl_append

theorem taken_append : q.taken (es ++ es') = q.taken es ++ (q.run es).taken es' := by
  induction es generalizing q with
  | nil => rfl
  | cons e es ih => cases e <;> simp [taken, event, ih]

theorem stored_sublist : (q.stored es).Sublist (offers es) := by
  induction es generalizing q with
  | nil => exact List.Sublist.refl _
  | cons e es ih =>
    cases e with
    | offer x =>
      simp only [stored, offers]
      split
      · exact ih.cons_cons x
      · exact ih.cons x
    | take | discard => exact ih

/-- Of a batch of items those in front are stored, as far as there is room, and the rest is dropped. -/
theorem run_offers : (q.run (xs.map .offer)).items = q.items ++ xs.take (cap - q.items.length) := by
  induction xs generalizing q with
  | nil => simp
  | cons x xs ih =>
    have hadd : (q.event (.offer x)).items = _ := add_items
    rw [List.map_cons, run_cons, ih, hadd]
    split
    · rename_i h
      rw [List.length_append, List.length_singleton, show cap - q.items.length = cap - (q.items.length + 1) + 1 by omega,
        List.take_succ_cons, List.append_assoc]
      rfl
    · rename_i h
      rw [show cap - q.items.length = 0 by omega, List.take_zero, List.take_zero]

theorem taken_offers : q.taken (xs.map .offer) = [] := by
  induction xs generalizing q with
  | nil => rfl
  | cons x xs ih => exact ih

/-- The books of a queue balance: what was there and what found room later has left in one of the batches or is still
    there, each item once and in order. -/
theorem books (q : Queue α cap) (es : List (Event α)) :
    q.items ++ q.stored es = (q.departures es).flatMap Prod.snd ++ (q.run es).items := by
  induction es generalizing q with
  | nil => simp [stored, departures]
  | cons e es ih =>
    cases e with
    | offer x =>
      rw [run_cons, departures]
      show q.items ++ ((if q.items.length < cap then [x] else []) ++ (q.add x).stored es) = _ ++ ((q.add x).run es).items
      rw [← ih, add_items]
      split <;> simp
    | take | discard =>
      rw [departures, List.flatMap_cons, List.append_assoc]
      exact congrArg (q.items ++ ·) (ih empty)

/-- What was taken are the batches of the takes. -/
theorem taken_departures : q.taken es = ((q.departures es).filter Prod.fst).flatMap Prod.snd := by
  induction es generalizing q with
  | nil => rfl
  | cons e es ih =>
    cases e with
    | offer x => exact ih
    | take =>
      rw [departures, List.filter_cons_of_pos rfl, List.flatMap_cons, ← ih]
      rfl
    | discard =>
      rw [departures, List.filter_cons_of_neg Bool.false_ne_true, ← ih]
      rfl

theorem departures_append : q.departures (es ++ es') = q.departures es ++ (q.run es).departures es' := by
  induction es generalizing q with
  | nil => rfl
  | cons e es ih =>
    cases e with
    | offer x => exact ih
    | take => exact congrArg ((true, q.items) :: ·) ih
    | discard => exact congrArg ((false, q.items) :: ·) ih

theorem departures_offers : q.departures (xs.map .offer) = [] := by
  induction xs generalizing q with
  | nil => rfl
  | cons x xs ih => exact ih

end Queue
end Fifo
