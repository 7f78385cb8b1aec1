import Mathlib.Data.List.Basic
import Mathlib.Data.List.Induction
import Mathlib.Tactic.SplitIfs

/-!
# Tables

A table whose rows are numbered from one on, in the order they were inserted, and never deleted.
The number of a row is its place, so that no two rows share one.

* `get?_insert`, `get?_modify`, `get?_modifyWhere`: what each write does to the row of a number.
* `Grows`: the rows of one table are those of another, each as what it has become.
* `first?_eq_some`: the row of the lowest number that meets a condition.
* `last?_insert`, `last?_congr`: the newest row that meets one.
-/

namespace Foundation

/-- A table, as its rows in the order of their numbers. -/
structure Table (α : Type) where
  rows : List α

namespace Table

variable {α β : Type} {t : Table α} {i j : ℕ} {a b : α}

/-- The table without rows. -/
def empty : Table α := ⟨[]⟩

/-- How many rows there are. -/
def count (t : Table α) : ℕ := t.rows.length

/-- The number of the next row. -/
def nextId (t : Table α) : ℕ := t.count + 1

/-- The row of a number. -/
def get? (t : Table α) : ℕ → Option α
  | 0 => none
  | i + 1 => t.rows[i]?

/-- Add a row. -/
def insert (t : Table α) (a : α) : Table α := ⟨t.rows ++ [a]⟩

/-- Change the row of a number, if there is one. -/
def modify (t : Table α) (i : ℕ) (f : α → α) : Table α :=
  match i with
  | 0 => t
  | i + 1 => ⟨t.rows.modify i f⟩

/-- Change every row that meets a condition. -/
def modifyWhere (t : Table α) (p : α → Bool) (f : α → α) : Table α :=
  ⟨t.rows.map fun a => if p a = true then f a else a⟩

/-- A table with something else in its rows. -/
def map (f : α → β) (t : Table α) : Table β := ⟨t.rows.map f⟩

/-- The rows with their numbers. -/
def numbered (t : Table α) : List (ℕ × α) :=
  (t.rows.zipIdx 1).map Prod.swap

/-- The row of the lowest number that meets a condition, with its number. -/
def first? (t : Table α) (p : α → Bool) : Option (ℕ × α) := do
  let i ← t.rows.findIdx? p
  let a ← t.rows[i]?
  pure (i + 1, a)

/-- The newest row that meets a condition, with its number. -/
def last? (t : Table α) (p : α → Bool) : Option (ℕ × α) :=
  t.numbered.reverse.find? fun row => p row.2

/-! ## The row of a number -/

@[simp] theorem get?_empty : (empty : Table α).get? i = none := by
  cases i <;> rfl

theorem get?_eq_some_bounds (h : t.get? i = some a) : 0 < i ∧ i ≤ t.count := by
  cases i with
  | zero => cases h
  | succ i => exact ⟨Nat.succ_pos i, (List.getElem?_eq_some_iff.1 h).1⟩

theorem get?_nextId : t.get? t.nextId = none :=
  List.getElem?_eq_none (Nat.le_refl _)

@[simp] theorem count_insert : (t.insert a).count = t.count + 1 := by
  simp [insert, count]

@[simp] theorem count_modify (f : α → α) : (t.modify i f).count = t.count := by
  cases i <;> simp [modify, count]

@[simp] theorem count_modifyWhere (p : α → Bool) (f : α → α) :
    (t.modifyWhere p f).count = t.count := by
  simp [modifyWhere, count]

theorem get?_insert : (t.insert a).get? i = if i = t.nextId then some a else t.get? i := by
  cases i with
  | zero => rfl
  | succ i =>
    show (t.rows ++ [a])[i]? = if i + 1 = t.rows.length + 1 then some a else t.rows[i]?
    rcases Nat.lt_trichotomy i t.rows.length with hlt | rfl | hgt
    · rw [List.getElem?_append_left hlt, if_neg (by omega)]
    · simp
    · rw [if_neg (by omega), List.getElem?_eq_none (by simp; omega),
        List.getElem?_eq_none (by omega)]

/-- A row that is there stays when another is added. -/
theorem get?_insert_of_some (h : t.get? i = some b) : (t.insert a).get? i = some b := by
  have hle := (get?_eq_some_bounds h).2
  rw [get?_insert, if_neg (by unfold nextId; omega), h]

theorem get?_modify (f : α → α) :
    (t.modify j f).get? i = if i = j then (t.get? i).map f else t.get? i := by
  cases j with
  | zero =>
    cases i with
    | zero => rfl
    | succ i => rfl
  | succ j =>
    cases i with
    | zero => rfl
    | succ i =>
      show (t.rows.modify j f)[i]? = if i + 1 = j + 1 then t.rows[i]?.map f else t.rows[i]?
      rw [List.getElem?_modify]
      by_cases h : j = i
      · rw [if_pos (by omega)]
        simp [h]
      · rw [if_neg (by omega)]
        simp [h]

theorem get?_modifyWhere (p : α → Bool) (f : α → α) :
    (t.modifyWhere p f).get? i = (t.get? i).map fun a => if p a = true then f a else a := by
  cases i with
  | zero => rfl
  | succ i => exact List.getElem?_map

theorem get?_map (f : α → β) : (t.map f).get? i = (t.get? i).map f := by
  cases i with
  | zero => rfl
  | succ i => exact List.getElem?_map

theorem exists_get?_of_mem (h : a ∈ t.rows) : ∃ i, t.get? i = some a := by
  obtain ⟨i, hi, rfl⟩ := List.getElem_of_mem h
  exact ⟨i + 1, List.getElem?_eq_getElem hi⟩

theorem mem_rows_of_get? (h : t.get? i = some a) : a ∈ t.rows := by
  cases i with
  | zero => cases h
  | succ i => exact List.mem_of_getElem? h

/-- Where no two rows agree on something, it tells the number. -/
theorem get?_inj {f : α → β} (hnodup : (t.rows.map f).Nodup) (hi : t.get? i = some a)
    (hj : t.get? j = some b) (hf : f a = f b) : i = j := by
  cases i with
  | zero => cases hi
  | succ i =>
    cases j with
    | zero => cases hj
    | succ j =>
      have hi' : t.rows[i]? = some a := hi
      have hj' : t.rows[j]? = some b := hj
      have hsame : (t.rows.map f)[i]? = (t.rows.map f)[j]? := by
        rw [List.getElem?_map, List.getElem?_map, hi', hj', Option.map_some, Option.map_some, hf]
      have hlt : i < (t.rows.map f).length := by
        rw [List.length_map]
        exact (List.getElem?_eq_some_iff.1 hi').1
      rw [(List.getElem?_inj hlt hnodup).1 hsame]

/-! ## What is read off the rows -/

@[simp] theorem map_insert (f : α → β) : (t.insert a).map f = (t.map f).insert (f a) := by
  simp [map, insert]

@[simp] theorem nextId_map (f : α → β) : (t.map f).nextId = t.nextId := by
  simp [map, nextId, count]

/-- A write that does not touch what is read off a row leaves it as it is. -/
theorem map_modify {f : α → β} {g : α → α} (h : ∀ a, f (g a) = f a) :
    (t.modify i g).map f = t.map f := by
  cases i with
  | zero => rfl
  | succ i =>
    show Table.mk ((t.rows.modify i g).map f) = Table.mk (t.rows.map f)
    congr 1
    refine List.ext_getElem? fun j => ?_
    rw [List.getElem?_map, List.getElem?_map, List.getElem?_modify]
    cases t.rows[j]? with
    | none => rfl
    | some a =>
      show some (f (if i = j then g a else a)) = some (f a)
      split_ifs
      · rw [h]
      · rfl

theorem map_modifyWhere {f : α → β} {g : α → α} {p : α → Bool} (h : ∀ a, f (g a) = f a) :
    (t.modifyWhere p g).map f = t.map f := by
  show Table.mk ((t.rows.map _).map f) = Table.mk (t.rows.map f)
  rw [List.map_map]
  congr 1
  refine List.map_congr_left fun a _ => ?_
  rw [Function.comp_apply]
  split_ifs
  · exact h a
  · rfl

/-! ## Growth -/

section Growth

variable {R : α → α → Prop} {t' t'' : Table α} {f : α → α}

/-- Every row of the one table is in the other, under its number, and has become what the relation
lets it become. -/
def Grows (R : α → α → Prop) (t t' : Table α) : Prop :=
  ∀ i a, t.get? i = some a → ∃ b, t'.get? i = some b ∧ R a b

theorem Grows.refl (hrefl : ∀ a, R a a) (t : Table α) : t.Grows R t :=
  fun _ a hget => ⟨a, hget, hrefl a⟩

theorem Grows.trans (htrans : ∀ a b c, R a b → R b c → R a c) (h : t.Grows R t')
    (h' : t'.Grows R t'') : t.Grows R t'' := by
  intro i a hget
  obtain ⟨b, hget', hab⟩ := h i a hget
  obtain ⟨c, hget'', hbc⟩ := h' i b hget'
  exact ⟨c, hget'', htrans a b c hab hbc⟩

theorem Grows.insert (hrefl : ∀ a, R a a) (t : Table α) (a : α) : t.Grows R (t.insert a) :=
  fun _ b hget => ⟨b, get?_insert_of_some hget, hrefl b⟩

theorem Grows.modify (hrefl : ∀ a, R a a) (h : ∀ a, t.get? i = some a → R a (f a)) :
    t.Grows R (t.modify i f) := by
  intro j a hget
  rw [get?_modify, hget]
  by_cases hj : j = i
  · rw [if_pos hj]
    exact ⟨f a, rfl, h a (hj ▸ hget)⟩
  · rw [if_neg hj]
    exact ⟨a, rfl, hrefl a⟩

end Growth

/-! ## The first row -/

/-- The row found meets the condition, and none before it does. -/
theorem first?_eq_some {p : α → Bool} : t.first? p = some (i, a) ↔
    t.get? i = some a ∧ p a = true ∧ ∀ j < i, ∀ b, t.get? j = some b → p b = false := by
  simp only [first?, Option.bind_eq_bind, Option.pure_def, Option.bind_eq_some_iff,
    List.findIdx?_eq_some_iff_getElem, Option.some.injEq, Prod.mk.injEq]
  constructor
  · rintro ⟨k, ⟨hk, hp, hbefore⟩, b, hb, rfl, rfl⟩
    have hkb : t.rows[k] = b := by
      rw [List.getElem?_eq_getElem hk] at hb
      exact Option.some.inj hb
    refine ⟨hb, hkb ▸ hp, fun j hj c hc => ?_⟩
    cases j with
    | zero => cases hc
    | succ j =>
      obtain ⟨hlt, rfl⟩ := List.getElem?_eq_some_iff.1 hc
      exact Bool.eq_false_iff.2 (hbefore j (by omega))
  · rintro ⟨hget, hp, hbefore⟩
    cases i with
    | zero => cases hget
    | succ i =>
      obtain ⟨hlt, rfl⟩ := List.getElem?_eq_some_iff.1 hget
      refine ⟨i, ⟨hlt, hp, fun j hj => ?_⟩, _, hget, rfl, rfl⟩
      have hfalse := hbefore (j + 1) (by omega) _ (List.getElem?_eq_getElem (Nat.lt_trans hj hlt))
      exact Bool.eq_false_iff.1 hfalse

/-! ## The newest row -/

section Newest

variable {p q : α → Bool}

theorem numbered_insert : (t.insert a).numbered = t.numbered ++ [(t.nextId, a)] := by
  simp [numbered, insert, List.zipIdx_append, nextId, count, Nat.add_comm]

theorem length_numbered (t : Table α) : t.numbered.length = t.count := by
  simp [numbered, count]

/-- No number is above the count. -/
theorem le_count_of_mem_numbered {row : ℕ × α} (h : row ∈ t.numbered) : row.1 ≤ t.count := by
  rw [numbered, List.mem_map] at h
  obtain ⟨⟨b, j⟩, hmem, rfl⟩ := h
  have hlt := (List.mem_zipIdx hmem).2.1
  show j ≤ t.rows.length
  omega

@[simp] theorem last?_empty : (empty : Table α).last? p = none := rfl

theorem last?_insert :
    (t.insert a).last? p = if p a = true then some (t.nextId, a) else t.last? p := by
  rw [last?, numbered_insert, List.reverse_append, List.reverse_singleton, List.singleton_append,
    List.find?_cons]
  cases hp : p a with
  | true => simp
  | false => simp [last?]

/-- Every table is built row by row. -/
theorem induction_insert {P : Table α → Prop} (hempty : P empty)
    (hinsert : ∀ t a, P t → P (t.insert a)) (t : Table α) : P t := by
  obtain ⟨rows⟩ := t
  induction rows using List.reverseRecOn with
  | nil => exact hempty
  | append_singleton rows a ih => exact hinsert ⟨rows⟩ a ih

/-- The numbers go up. -/
theorem pairwise_numbered (t : Table α) : t.numbered.Pairwise fun row row' => row.1 < row'.1 := by
  induction t using induction_insert with
  | hempty => exact List.Pairwise.nil
  | hinsert t a ih =>
    rw [numbered_insert, List.pairwise_append]
    refine ⟨ih, List.pairwise_singleton _ _, fun row hrow row' hrow' => ?_⟩
    rw [List.mem_singleton.1 hrow']
    exact Nat.lt_succ_of_le (le_count_of_mem_numbered hrow)

/-- The row found is in the table and meets the condition. -/
theorem get?_of_last? (h : t.last? p = some (i, a)) : t.get? i = some a ∧ p a = true := by
  induction t using induction_insert with
  | hempty => cases h
  | hinsert t b ih =>
    rw [last?_insert] at h
    split_ifs at h with hp
    · cases h
      rw [get?_insert, if_pos rfl]
      exact ⟨rfl, hp⟩
    · obtain ⟨hget, hpa⟩ := ih h
      exact ⟨get?_insert_of_some hget, hpa⟩

/-- A row that meets the condition is found, or a newer one. -/
theorem exists_last? (h : a ∈ t.rows) (hp : p a = true) : ∃ i b, t.last? p = some (i, b) := by
  induction t using induction_insert with
  | hempty => exact absurd h List.not_mem_nil
  | hinsert t b ih =>
    rw [last?_insert]
    by_cases hb : p b = true
    · exact ⟨_, _, if_pos hb⟩
    · rw [if_neg hb]
      rcases List.mem_append.1 h with h | h
      · exact ih h
      · rw [List.mem_singleton.1 h] at hp
        exact absurd hp hb

/-- Conditions that agree on the rows find the same row. -/
theorem last?_congr (h : ∀ a ∈ t.rows, p a = q a) : t.last? p = t.last? q := by
  induction t using induction_insert with
  | hempty => rfl
  | hinsert t b ih =>
    have hrest := ih fun a ha => h a (List.mem_append_left _ ha)
    have hb := h b (List.mem_append_right _ (List.mem_singleton_self b))
    rw [last?_insert, last?_insert, hrest, hb]

theorem last?_map (f : α → β) (p : β → Bool) :
    (t.map f).last? p = (t.last? fun a => p (f a)).map fun row => (row.1, f row.2) := by
  induction t using induction_insert with
  | hempty => rfl
  | hinsert t b ih =>
    rw [map_insert, last?_insert, last?_insert, ih, nextId_map]
    split_ifs <;> rfl

end Newest

end Table
end Foundation
