import Mathlib.Data.List.Basic
import Mathlib.Data.List.Nodup
import Mathlib.Data.Nat.Find
import Mathlib.Order.Basic

/-!
# Pages of a list that grows at its front

A list is read page by page, `k` elements at a time, while elements are put in front of it between
the reads.  The offset of a page is `k` times the number of pages before it, so whatever is put in
front moves the elements not read yet to a later page, never to an earlier one:

* `exists_mem_page`: by the time a page is empty, every element that was there at first has been
  on one;
* `changed_of_mem_page`: an element that is on two pages has been moved in between;
* `flatten_pages`: when nothing moves, the pages are the list;
* `exists_first_empty`: a list that stops growing is read to its end.
-/

namespace Foundation
namespace Paging

universe u

variable {α : Type u} {k n i j : ℕ} {log fresh : ℕ → List α} {x : α}

/-- The page read `i`-th, of the list as it is then. -/
def page (k : ℕ) (log : ℕ → List α) (i : ℕ) : List α := ((log i).drop (i * k)).take k

/-- A page is empty when the list has come to its end. -/
theorem page_eq_nil_iff (hk : 0 < k) : page k log i = [] ↔ (log i).length ≤ i * k := by
  rw [page, List.take_eq_nil_iff, List.drop_eq_nil_iff]
  exact or_iff_right hk.ne'

theorem page_map {β : Type*} (f : α → β) (k : ℕ) (log : ℕ → List α) (i : ℕ) :
    page k (fun i => (log i).map f) i = (page k log i).map f := by
  rw [page, page, List.map_take, List.map_drop]

/-- What a page holds, by position. -/
theorem mem_page_of_getElem? {p : ℕ} (hx : (log i)[p]? = some x) (hle : i * k ≤ p)
    (hlt : p < (i + 1) * k) : x ∈ page k log i := by
  refine List.mem_of_getElem? (i := p - i * k) ?_
  rw [Nat.add_mul, Nat.one_mul] at hlt
  rw [page, List.getElem?_take_of_lt (by omega), List.getElem?_drop, Nat.add_sub_cancel' hle, hx]

theorem exists_getElem?_of_mem_page (h : x ∈ page k log i) :
    ∃ p, (log i)[p]? = some x ∧ i * k ≤ p ∧ p < (i + 1) * k := by
  obtain ⟨q, hq⟩ := List.getElem?_of_mem h
  have hlt : q < k := by
    by_contra hlt'
    rw [page, List.getElem?_take, if_neg hlt'] at hq
    cases hq
  rw [page, List.getElem?_take_of_lt hlt, List.getElem?_drop] at hq
  exact ⟨i * k + q, hq, Nat.le_add_right .., by rw [Nat.add_mul, Nat.one_mul]; omega⟩

/-! ## Growth -/

/-- Where an element of the first list stands in the `i`-th. -/
def place (fresh : ℕ → List α) (p : ℕ) : ℕ → ℕ
  | 0 => p
  | i + 1 => (fresh i).length + place fresh p i

theorem getElem?_place (hgrow : ∀ i, log (i + 1) = fresh i ++ log i) (p i : ℕ) :
    (log i)[place fresh p i]? = (log 0)[p]? := by
  induction i with
  | zero => rfl
  | succ i ih => rw [hgrow, place, List.getElem?_append_right (by omega), Nat.add_sub_cancel_left, ih]

theorem place_le (fresh : ℕ → List α) (p : ℕ) (i : ℕ) :
    place fresh p i ≤ place fresh p (i + 1) := Nat.le_add_left ..

/-- **Nothing is skipped.**  When the `n`-th page is empty, every element of the first list has
been on a page before. -/
theorem exists_mem_page (hgrow : ∀ i, log (i + 1) = fresh i ++ log i) (hk : 0 < k)
    (hend : page k log n = []) (hx : x ∈ log 0) : ∃ i < n, x ∈ page k log i := by
  obtain ⟨p, hp⟩ := List.getElem?_of_mem hx
  have hplace : ∀ i, (log i)[place fresh p i]? = some x :=
    fun i => (getElem?_place hgrow p i).trans hp
  have hlast : place fresh p n < n * k := by
    have hlt := (List.getElem?_eq_some_iff.mp (hplace n)).1
    exact hlt.trans_le ((page_eq_nil_iff hk).mp hend)
  -- the first page that ends behind the element
  have hexists : ∃ i, place fresh p i < (i + 1) * k :=
    ⟨n, hlast.trans_le (Nat.mul_le_mul_right k n.le_succ)⟩
  classical
  have hfound := Nat.find_spec hexists
  have hfirst : Nat.find hexists * k ≤ place fresh p (Nat.find hexists) := by
    cases hi : Nat.find hexists with
    | zero => rw [Nat.zero_mul]; exact Nat.zero_le _
    | succ i =>
      have hnot := Nat.find_min hexists (show i < Nat.find hexists by omega)
      exact (Nat.not_lt.mp hnot).trans (place_le fresh p i)
  refine ⟨Nat.find hexists, ?_, mem_page_of_getElem? (hplace _) hfirst hfound⟩
  -- the page before the empty one ends behind the element
  cases n with
  | zero => rw [Nat.zero_mul] at hlast; exact absurd hlast (Nat.not_lt_zero _)
  | succ n =>
    exact Nat.lt_succ_of_le (Nat.find_min' hexists ((place_le fresh p n).trans_lt hlast))

/-- **What is seen twice has moved.** -/
theorem changed_of_mem_page (hnodup : (log j).Nodup) (hij : i < j) (hi : x ∈ page k log i)
    (hj : x ∈ page k log j) : ∃ m, i ≤ m ∧ m < j ∧ log (m + 1) ≠ log m := by
  by_contra hnone
  have hsame : ∀ d, i + d ≤ j → log (i + d) = log i := by
    intro d
    induction d with
    | zero => intro _; rfl
    | succ d ih =>
      intro hle
      have hstep : log (i + d + 1) = log (i + d) := by
        by_contra hne
        exact hnone ⟨i + d, by omega, by omega, hne⟩
      exact hstep.trans (ih (by omega))
  have heq := hsame (j - i) (by omega)
  rw [Nat.add_sub_cancel' hij.le] at heq
  obtain ⟨p, hp, -, hlt⟩ := exists_getElem?_of_mem_page hi
  obtain ⟨q, hq, hle, -⟩ := exists_getElem?_of_mem_page hj
  rw [← heq] at hp
  have hpq : p = q :=
    (List.getElem?_inj (List.getElem?_eq_some_iff.mp hp).1 hnodup).mp (hp.trans hq.symm)
  have hmul : (i + 1) * k ≤ j * k := Nat.mul_le_mul_right k hij
  omega

/-- The first pages of a list that stays as it is. -/
theorem flatten_take_pages (hsame : ∀ i < n, log i = log 0) :
    ((List.range n).map (page k log)).flatten = (log 0).take (n * k) := by
  induction n with
  | zero => simp
  | succ n ih =>
    rw [List.range_succ, List.map_append, List.flatten_append, ih fun i hi => hsame i (by omega),
      List.map_singleton, List.flatten_singleton, page, hsame n (by omega), Nat.add_mul, Nat.one_mul,
      List.take_add]

/-- **Without growth** the pages are the list. -/
theorem flatten_pages (hk : 0 < k) (hsame : ∀ i ≤ n, log i = log 0) (hend : page k log n = []) :
    ((List.range n).map (page k log)).flatten = log 0 := by
  have hlen := (page_eq_nil_iff hk).mp hend
  rw [hsame n le_rfl] at hlen
  rw [flatten_take_pages fun i hi => hsame i hi.le, List.take_of_length_le hlen]

/-- **The end is reached**, if the list does not outgrow some bound: at the first empty page, whose
offset is less than a page past the bound. -/
theorem exists_first_empty (hk : 0 < k) {bound : ℕ} (hbound : ∀ i, (log i).length ≤ bound) :
    ∃ n, page k log n = [] ∧ (∀ i < n, page k log i ≠ []) ∧ (n = 0 ∨ n * k < bound + k) := by
  have hexists : ∃ n, page k log n = [] :=
    ⟨bound, (page_eq_nil_iff hk).mpr ((hbound bound).trans (Nat.le_mul_of_pos_right _ hk))⟩
  classical
  refine ⟨Nat.find hexists, Nat.find_spec hexists, fun i hi => Nat.find_min hexists hi, ?_⟩
  cases hn : Nat.find hexists with
  | zero => exact Or.inl rfl
  | succ n =>
    have hnot := Nat.find_min hexists (show n < Nat.find hexists by omega)
    rw [page_eq_nil_iff hk] at hnot
    have hle := hbound n
    rw [Nat.add_mul, Nat.one_mul]
    exact Or.inr (by omega)

end Paging
end Foundation
