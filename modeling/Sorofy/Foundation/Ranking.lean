import Mathlib.Order.Basic
import Mathlib.Order.Lattice

/-!
# The best of a list

A left fold that keeps what it has unless the next element ranks strictly higher: the first of
the elements of greatest rank.

* `best_mem`: the result is one of the elements;
* `le_rank_best`: none ranks higher.
-/

namespace Foundation

universe u v

variable {α : Type u} {β : Type v} [LinearOrder β]

/-- Keep the first unless the second ranks strictly higher. -/
def better (rank : α → β) (a b : α) : α :=
  if rank a < rank b then b else a

/-- The first element of greatest rank among `a` and the elements of `l`. -/
def best (rank : α → β) (a : α) (l : List α) : α :=
  l.foldl (better rank) a

variable {rank : α → β} {a b : α} {l m : List α}

@[simp] theorem best_nil : best rank a [] = a := rfl

@[simp] theorem best_cons : best rank a (b :: l) = best rank (better rank a b) l := rfl

theorem better_eq (rank : α → β) (a b : α) : better rank a b = a ∨ better rank a b = b := by
  unfold better
  split
  · exact Or.inr rfl
  · exact Or.inl rfl

theorem le_rank_better_left : rank a ≤ rank (better rank a b) := by
  unfold better
  split
  · exact le_of_lt ‹_›
  · exact le_rfl

theorem le_rank_better_right : rank b ≤ rank (better rank a b) := by
  unfold better
  split
  · exact le_rfl
  · exact not_lt.1 ‹_›

theorem best_mem : best rank a l ∈ a :: l := by
  induction l generalizing a with
  | nil => exact List.mem_cons_self
  | cons b l ih =>
    rw [best_cons]
    rcases List.mem_cons.1 (ih (a := better rank a b)) with hfirst | hrest
    · rw [hfirst]
      rcases better_eq rank a b with h | h <;> simp [h]
    · exact List.mem_cons_of_mem a (List.mem_cons_of_mem b hrest)

theorem le_rank_best_head : rank a ≤ rank (best rank a l) := by
  induction l generalizing a with
  | nil => exact le_rfl
  | cons b l ih => exact le_rank_better_left.trans ih

/-- Nothing ranks higher than the best. -/
theorem le_rank_best (hb : b ∈ a :: l) : rank b ≤ rank (best rank a l) := by
  induction l generalizing a with
  | nil =>
    rw [List.mem_singleton.1 hb]
    exact le_rfl
  | cons c l ih =>
    rw [best_cons]
    rcases List.mem_cons.1 hb with rfl | hb
    · exact le_rank_better_left.trans le_rank_best_head
    · rcases List.mem_cons.1 hb with rfl | hb
      · exact le_rank_better_right.trans le_rank_best_head
      · exact ih (List.mem_cons_of_mem _ hb)

end Foundation
