import Mathlib.Data.List.Basic

/-!
# Escaping

Some characters of a markup are *marks*: they open and close its tags and attributes.  A text is
escaped by replacing one mark after the other, and what is pieced together from fixed markup and
escaped texts has the marks of the markup alone.

* `inert_escape`: a text that was escaped by rules that cover the marks has none left;
* `marks_append`, `marks_of_inert`: the marks of a concatenation, piece by piece.
-/

namespace Foundation
namespace Escape

universe u

variable {α : Type u} [DecidableEq α]

/-- Replace every occurrence of one character. -/
def replaceAll (c : α) (text : List α) (s : List α) : List α :=
  s.flatMap fun u => if u = c then text else [u]

/-- Replace one character after the other. -/
def escape (rules : List (α × List α)) (s : List α) : List α :=
  rules.foldl (fun s rule => replaceAll rule.1 rule.2 s) s

variable (mark : α → Bool)

/-- The marks of a text, in order. -/
def marks (s : List α) : List α := s.filter mark

/-- A text without marks. -/
def Inert (s : List α) : Prop := ∀ u ∈ s, mark u = false

variable {mark} {s t : List α} {c : α} {rules : List (α × List α)}

instance : Decidable (Inert mark s) := List.decidableBAll _ s

omit [DecidableEq α] in
@[simp] theorem marks_append (s t : List α) : marks mark (s ++ t) = marks mark s ++ marks mark t :=
  List.filter_append s t

omit [DecidableEq α] in
theorem marks_of_inert (h : Inert mark s) : marks mark s = [] := by
  rw [marks, List.filter_eq_nil_iff]
  intro u hu
  rw [h u hu]
  exact Bool.false_ne_true

omit [DecidableEq α] in
theorem Inert.append (hs : Inert mark s) (ht : Inert mark t) : Inert mark (s ++ t) := by
  intro u hu
  rcases List.mem_append.mp hu with hu | hu
  · exact hs u hu
  · exact ht u hu

/-- A replacement without marks leaves no mark but those that were there, and not the one it
replaces. -/
theorem mem_of_mem_replaceAll (ht : Inert mark t) {u : α} (hu : u ∈ replaceAll c t s)
    (hmark : mark u = true) : u ∈ s ∧ u ≠ c := by
  obtain ⟨v, hv, hmem⟩ := List.mem_flatMap.mp hu
  by_cases hvc : v = c
  · rw [if_pos hvc] at hmem
    rw [ht u hmem] at hmark
    exact absurd hmark Bool.false_ne_true
  · rw [if_neg hvc, List.mem_singleton] at hmem
    subst hmem
    exact ⟨hv, hvc⟩

theorem mem_of_mem_escape (ht : ∀ rule ∈ rules, Inert mark rule.2) {u : α}
    (hu : u ∈ escape rules s) (hmark : mark u = true) : u ∈ s ∧ u ∉ rules.map Prod.fst := by
  induction rules generalizing s with
  | nil => exact ⟨hu, List.not_mem_nil⟩
  | cons rule rules ih =>
    obtain ⟨hmem, hrest⟩ := ih (fun r hr => ht r (List.mem_cons_of_mem _ hr)) hu
    obtain ⟨hs, hne⟩ := mem_of_mem_replaceAll (ht rule List.mem_cons_self) hmem hmark
    refine ⟨hs, ?_⟩
    rw [List.map_cons, List.mem_cons, not_or]
    exact ⟨hne, hrest⟩

/-- **What is escaped has no marks**, if every mark is replaced, and by something that has none. -/
theorem inert_escape (hcover : ∀ u, mark u = true → u ∈ rules.map Prod.fst)
    (ht : ∀ rule ∈ rules, Inert mark rule.2) (s : List α) : Inert mark (escape rules s) := by
  intro u hu
  by_contra hmark
  rw [Bool.not_eq_false] at hmark
  exact (mem_of_mem_escape ht hu hmark).2 (hcover u hmark)

end Escape
end Foundation
