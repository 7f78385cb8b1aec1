import Mathlib.Data.Finset.Lattice.Fold
import Mathlib.Data.List.Count
import Mathlib.Data.List.FinRange
import Mathlib.Data.Finset.Dedup
import Mathlib.Order.Lattice.Nat

/-!
# Counting votes

The values of a list, counted: how often the most common one occurs (`largest`), how many
different ones there are (`different`), and which one, if any, holds a strict majority.

* `length_lt_two_mul_largest_iff`: the largest count exceeds half of the list exactly when some
  value holds a strict majority;
* `majority_unique`: at most one value does;
* `different_eq_one_iff`: one different value means a nonempty unanimous list;
* `largest_take_succ`, `different_take_succ`: both counts, one position further, which is what
  an invariant of a scanning loop needs;
* `foldl_finRange_invariant`: the induction rule for a loop over the positions `0, …, n - 1`.
-/

namespace Foundation
namespace Plurality

variable {α : Type*} [DecidableEq α]

/-- How often the most common value of the list occurs. -/
def largest (l : List α) : ℕ := l.toFinset.sup l.count

/-- How many different values the list has. -/
def different (l : List α) : ℕ := l.toFinset.card

@[simp] theorem largest_nil : largest ([] : List α) = 0 := rfl

@[simp] theorem different_nil : different ([] : List α) = 0 := rfl

theorem count_le_largest (l : List α) (a : α) : l.count a ≤ largest l := by
  by_cases ha : a ∈ l
  · exact Finset.le_sup (f := l.count) (List.mem_toFinset.mpr ha)
  · rw [List.count_eq_zero_of_not_mem ha]
    exact Nat.zero_le _

/-- In a nonempty list some member occurs the largest number of times. -/
theorem exists_count_eq_largest {l : List α} (hl : l ≠ []) : ∃ a ∈ l, l.count a = largest l := by
  have hne : l.toFinset.Nonempty := by
    rwa [List.toFinset_nonempty_iff]
  obtain ⟨a, ha, hsup⟩ := Finset.exists_mem_eq_sup l.toFinset hne l.count
  exact ⟨a, List.mem_toFinset.mp ha, hsup.symm⟩

/-! ## Majorities -/

/-- Two different values share the list. -/
theorem count_add_count_le_length {l : List α} {a b : α} (hab : a ≠ b) :
    l.count a + l.count b ≤ l.length := by
  induction l with
  | nil => simp
  | cons c l ih =>
    rw [List.count_cons, List.count_cons, List.length_cons]
    by_cases hca : c = a
    · have hcb : c ≠ b := fun h => hab (hca.symm.trans h)
      simp only [hca, beq_self_eq_true, if_true]
      rw [if_neg (by simpa using fun h => hcb (hca.trans h))]
      omega
    · rw [if_neg (by simpa using hca)]
      split <;> omega

/-- At most one value holds a strict majority. -/
theorem majority_unique {l : List α} {a b : α} (ha : l.length < 2 * l.count a)
    (hb : l.length < 2 * l.count b) : a = b := by
  by_contra hab
  have hsum := count_add_count_le_length (l := l) hab
  omega

/-- The largest count exceeds half of the list exactly when some value holds a strict
majority. -/
theorem length_lt_two_mul_largest_iff {l : List α} :
    l.length < 2 * largest l ↔ ∃ a, l.length < 2 * l.count a := by
  constructor
  · intro h
    have hl : l ≠ [] := by
      rintro rfl
      simp at h
    obtain ⟨a, -, ha⟩ := exists_count_eq_largest hl
    exact ⟨a, by rwa [ha]⟩
  · rintro ⟨a, ha⟩
    have hle := count_le_largest l a
    omega

/-! ## Unanimity -/

/-- One different value: the list is nonempty and unanimous. -/
theorem different_eq_one_iff {l : List α} :
    different l = 1 ↔ ∃ a, l ≠ [] ∧ ∀ b ∈ l, b = a := by
  rw [different, Finset.card_eq_one]
  refine exists_congr fun a => ?_
  constructor
  · intro h
    have hmem : ∀ b, b ∈ l ↔ b = a := fun b => by
      rw [← List.mem_toFinset, h, Finset.mem_singleton]
    exact ⟨List.ne_nil_of_mem ((hmem a).mpr rfl), fun b hb => (hmem b).mp hb⟩
  · rintro ⟨hne, hall⟩
    obtain ⟨c, hc⟩ := List.exists_mem_of_ne_nil l hne
    ext b
    rw [List.mem_toFinset, Finset.mem_singleton]
    constructor
    · exact hall b
    · rintro rfl
      rwa [← hall c hc]

/-! ## One position further -/

theorem toFinset_take_succ {l : List α} {k : ℕ} (hk : k < l.length) :
    (l.take (k + 1)).toFinset = insert l[k] (l.take k).toFinset := by
  ext a
  rw [List.mem_toFinset, Finset.mem_insert, List.mem_toFinset,
    List.take_succ_eq_append_getElem hk, List.mem_append, List.mem_singleton, or_comm]

theorem different_take_succ {l : List α} {k : ℕ} (hk : k < l.length) :
    different (l.take (k + 1)) =
      if l[k] ∈ l.take k then different (l.take k) else different (l.take k) + 1 := by
  rw [different, different, toFinset_take_succ hk]
  split_ifs with hmem
  · rw [Finset.insert_eq_of_mem (List.mem_toFinset.mpr hmem)]
  · rw [Finset.card_insert_of_notMem (by rwa [List.mem_toFinset])]

/-- The largest count, in the whole list, among the values of the first `k` positions. -/
def largestAmong (l : List α) (k : ℕ) : ℕ := (l.take k).toFinset.sup l.count

@[simp] theorem largestAmong_zero (l : List α) : largestAmong l 0 = 0 := by
  simp [largestAmong]

theorem largestAmong_of_length_le {l : List α} {k : ℕ} (hk : l.length ≤ k) :
    largestAmong l k = largest l := by
  rw [largestAmong, List.take_of_length_le hk, largest]

theorem largestAmong_succ {l : List α} {k : ℕ} (hk : k < l.length) :
    largestAmong l (k + 1) = max (largestAmong l k) (l.count l[k]) := by
  rw [largestAmong, toFinset_take_succ hk, Finset.sup_insert, sup_comm]
  rfl

/-! ## Loops over the positions of a list -/

/-- **The loop rule.**  `P k` is what holds after the positions below `k`. -/
theorem foldl_finRange_invariant {β : Type*} {n : ℕ} {f : β → Fin n → β} {b : β}
    {P : ℕ → β → Prop} (hzero : P 0 b) (hstep : ∀ (i : Fin n) b, P i b → P (i + 1) (f b i)) :
    P n ((List.finRange n).foldl f b) := by
  suffices h : ∀ k ≤ n, P k (((List.finRange n).take k).foldl f b) by
    have hn := h n le_rfl
    rwa [List.take_of_length_le (by rw [List.length_finRange])] at hn
  intro k
  induction k with
  | zero =>
    intro _
    exact hzero
  | succ k ih =>
    intro hk
    have hlt : k < (List.finRange n).length := by
      rw [List.length_finRange]
      omega
    rw [List.take_succ_eq_append_getElem hlt, List.foldl_append, List.foldl_cons, List.foldl_nil,
      List.getElem_finRange]
    exact hstep ⟨k, hk⟩ _ (ih (by omega))

end Plurality
end Foundation
