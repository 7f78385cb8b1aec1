import Mathlib.Data.List.AList
import Mathlib.Data.List.Basic
import Mathlib.Data.List.Nodup
import Mathlib.Tactic.SplitIfs

/-!
# Maps

A map that remembers the order its keys came in, as the list of its values; the key is read off
the value.  `addNew` leaves a key that is already there alone, and `put` replaces its value where
it stands.  Which keys there are after a fold of `addNew` is `mem_keys_addAll`, and that each is
there once is `nodup_keys_addAll`.

Where the order does not matter a map is an `AList`, and `retain` drops the values that do not meet
a condition.
-/

namespace Foundation
namespace Keyed

universe u v

variable {α : Type u} {κ : Type v} [DecidableEq κ]

/-- Add a value, unless its key is taken. -/
def addNew (key : α → κ) (l : List α) (a : α) : List α :=
  if key a ∈ l.map key then l else l ++ [a]

/-- Set the value of a key. -/
def put (key : α → κ) (l : List α) (a : α) : List α :=
  if key a ∈ l.map key then l.map fun b => if key b = key a then a else b else l ++ [a]

/-- Add values one after the other. -/
def addAll (key : α → κ) (l as : List α) : List α :=
  as.foldl (addNew key) l

variable {key : α → κ} {l as : List α} {a x : α} {k : κ}

theorem keys_addNew : (addNew key l a).map key =
    if key a ∈ l.map key then l.map key else l.map key ++ [key a] := by
  unfold addNew
  split_ifs <;> simp

theorem mem_keys_addNew : k ∈ (addNew key l a).map key ↔ k ∈ l.map key ∨ k = key a := by
  rw [keys_addNew]
  split_ifs with h
  · constructor
    · exact Or.inl
    · rintro (hk | rfl)
      · exact hk
      · exact h
  · rw [List.mem_append, List.mem_singleton]

theorem nodup_keys_addNew (h : (l.map key).Nodup) : ((addNew key l a).map key).Nodup := by
  rw [keys_addNew]
  split_ifs with hmem
  · exact h
  · rw [← List.concat_eq_append]
    exact h.concat hmem

/-- A key is there afterwards if it was there before or one of the values has it. -/
theorem mem_keys_addAll : k ∈ (addAll key l as).map key ↔ k ∈ l.map key ∨ k ∈ as.map key := by
  induction as generalizing l with
  | nil => simp [addAll]
  | cons a as ih =>
    show k ∈ (addAll key (addNew key l a) as).map key ↔ _
    rw [ih, mem_keys_addNew, List.map_cons, List.mem_cons, or_assoc]

/-- Each key stays there once. -/
theorem nodup_keys_addAll (h : (l.map key).Nodup) : ((addAll key l as).map key).Nodup := by
  induction as generalizing l with
  | nil => exact h
  | cons a as ih => exact ih (nodup_keys_addNew h)

/-! ## Looking up -/

section Lookup

variable [BEq κ] [LawfulBEq κ] {υ : Type u} {fields : List (κ × υ)} {j : κ} {y : υ}

theorem lookup_eq_none_iff : fields.lookup k = none ↔ k ∉ fields.map Prod.fst := by
  induction fields with
  | nil => simp
  | cons field fields ih =>
    rw [List.map_cons, List.mem_cons, not_or, ← ih, List.lookup_cons]
    by_cases hk : k = field.1
    · simp [hk]
    · simp only [beq_false_of_ne hk, hk, not_false_eq_true, true_and]

theorem lookup_append_singleton :
    (fields ++ [(k, y)]).lookup j = (fields.lookup j).or (if j = k then some y else none) := by
  induction fields with
  | nil =>
    by_cases hj : j = k
    · simp [hj]
    · simp [hj]
  | cons field fields ih =>
    rw [List.cons_append, List.lookup_cons, List.lookup_cons, ih]
    split <;> rfl

theorem lookup_replace : (fields.map fun b => if b.1 = k then (k, y) else b).lookup j =
    if j = k then (fields.lookup k).map fun _ => y else fields.lookup j := by
  induction fields with
  | nil => simp
  | cons field fields ih =>
    rw [List.map_cons, List.lookup_cons, List.lookup_cons, List.lookup_cons, ih]
    by_cases hj : j = k
    · subst hj
      by_cases hfield : field.1 = j
      · simp [hfield]
      · simp only [if_neg hfield, beq_false_of_ne (Ne.symm hfield), if_true]
    · by_cases hfield : field.1 = k
      · subst hfield
        simp only [if_true, beq_false_of_ne hj, if_neg hj]
      · simp only [if_neg hfield, if_neg hj]

/-- What is found after a value has been put. -/
theorem lookup_put : (put Prod.fst fields (k, y)).lookup j =
    if j = k then some y else fields.lookup j := by
  unfold put
  split_ifs with hmem hj hj
  · rw [lookup_replace, if_pos hj]
    cases hk : fields.lookup k with
    | none => exact absurd hmem (lookup_eq_none_iff.mp hk)
    | some x => rfl
  · rw [lookup_replace, if_neg hj]
  · subst hj
    rw [lookup_append_singleton, lookup_eq_none_iff.mpr hmem, if_pos rfl, Option.none_or]
  · rw [lookup_append_singleton, if_neg hj, Option.or_none]

theorem put_of_lookup_none (h : fields.lookup k = none) :
    put Prod.fst fields (k, y) = fields ++ [(k, y)] := by
  rw [put, if_neg (lookup_eq_none_iff.mp h)]

/-- Putting a value adds a condition `q` to what holds of all values, if that is what it adds to
what holds of the value under its key. -/
theorem forall_lookup_put {P : υ → Prop} {q : Prop}
    (h : P y ↔ (∀ x, fields.lookup k = some x → P x) ∧ q) :
    (∀ j x, (put Prod.fst fields (k, y)).lookup j = some x → P x) ↔
      (∀ j x, fields.lookup j = some x → P x) ∧ q := by
  have hput : ∀ j, (put Prod.fst fields (k, y)).lookup j =
      if j = k then some y else fields.lookup j := fun j => lookup_put
  constructor
  · intro hall
    have hy : P y := hall k y (by rw [hput, if_pos rfl])
    refine ⟨fun j x hx => ?_, (h.mp hy).2⟩
    by_cases hj : j = k
    · subst hj
      exact (h.mp hy).1 x hx
    · exact hall j x (by rw [hput, if_neg hj, hx])
  · rintro ⟨hall, hq⟩ j x hx
    rw [hput] at hx
    split_ifs at hx with hj
    · cases hx
      exact h.mpr ⟨hall k, hq⟩
    · exact hall j x hx

/-- Mapping the values leaves the keys where they are. -/
theorem put_map {υ' : Type u} (f : υ → υ') :
    put Prod.fst (fields.map fun b => (b.1, f b.2)) (k, f y) =
      (put Prod.fst fields (k, y)).map fun b => (b.1, f b.2) := by
  have hkeys : (fields.map fun b => (b.1, f b.2)).map Prod.fst = fields.map Prod.fst := by
    rw [List.map_map]
    rfl
  unfold put
  rw [hkeys]
  split_ifs
  · rw [List.map_map, List.map_map]
    refine List.map_congr_left fun b _ => ?_
    simp only [Function.comp_apply]
    split_ifs <;> rfl
  · rw [List.map_append, List.map_singleton]

omit [DecidableEq κ] [LawfulBEq κ] in
theorem lookup_map {υ' : Type u} (f : υ → υ') :
    (fields.map fun b => (b.1, f b.2)).lookup k = (fields.lookup k).map f := by
  induction fields with
  | nil => rfl
  | cons field fields ih =>
    rw [List.map_cons, List.lookup_cons, List.lookup_cons, ih]
    split <;> rfl

end Lookup

/-! ## Without an order -/

section Retain

variable {υ : Type u} {p : υ → Bool} {map : AList fun _ : κ => υ}

/-- Keep the values that meet the condition. -/
def retain (p : υ → Bool) (map : AList fun _ : κ => υ) : AList fun _ : κ => υ where
  entries := map.entries.filter fun entry => p entry.2
  nodupKeys := map.nodupKeys.sublist List.filter_sublist

theorem lookup_retain : (retain p map).lookup k = (map.lookup k).filter p := by
  refine Option.ext fun a => ?_
  have hthere : a ∈ (retain p map).lookup k ↔ Sigma.mk k a ∈ map.entries ∧ p a = true := by
    rw [AList.mem_lookup_iff]
    exact List.mem_filter
  rw [← Option.mem_def, hthere, ← AList.mem_lookup_iff, Option.mem_def, Option.filter_eq_some_iff]

end Retain

end Keyed
end Foundation
