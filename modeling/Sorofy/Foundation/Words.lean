import Mathlib.Data.List.Infix
import Mathlib.Data.List.TakeWhile

/-!
# Words

A list is cut into words by its separators: it is a word, or a word, a separator and the rest
(`induction_words`).  `WordByWord` is the property of a function on lists that it replaces the words
and leaves the separators.

Such a function can take something out of a list only where it stands as a word of its own.  For
things that are all of one length and contain no separator this is exact: nothing of the kind is
left if and only if everything of the kind stood between separators (`not_occurs_iff`).
-/

namespace Foundation
namespace Words

universe u

variable {α : Type u} {sep : α → Bool} {P : List α → Prop}

/-- There is no separator in the list. -/
def IsWord (sep : α → Bool) (w : List α) : Prop :=
  ∀ a ∈ w, sep a = false

/-- Something of the kind stands in the list. -/
def Occurs (P : List α → Prop) (text : List α) : Prop :=
  ∃ k, P k ∧ k <:+: text

/-- Wherever something of the kind stands, it stands between separators, or at an end. -/
def Delimited (sep : α → Bool) (P : List α → Prop) (text : List α) : Prop :=
  ∀ before k after, text = before ++ (k ++ after) → P k →
    (∀ a ∈ before.getLast?, sep a = true) ∧ ∀ a ∈ after.head?, sep a = true

/-- The function replaces each word by what `f` makes of it. -/
structure WordByWord (sep : α → Bool) (f r : List α → List α) : Prop where
  word : ∀ w, IsWord sep w → r w = f w
  append_cons : ∀ w s rest, IsWord sep w → sep s = true →
    r (w ++ s :: rest) = f w ++ s :: r rest

/-- **Every list is a word, or a word, a separator and the rest.** -/
theorem induction_words (sep : α → Bool) {motive : List α → Prop} (word : ∀ w, IsWord sep w → motive w)
    (append_cons : ∀ w s rest, IsWord sep w → sep s = true → motive rest →
      motive (w ++ s :: rest)) (text : List α) : motive text := by
  induction h : text.length using Nat.strong_induction_on generalizing text with
  | _ n ih =>
    have hwhole := List.takeWhile_append_dropWhile (p := fun a => !sep a) (l := text)
    have hword : IsWord sep (text.takeWhile fun a => !sep a) := by
      intro a ha
      simpa using List.mem_takeWhile_imp ha
    cases hrest : text.dropWhile fun a => !sep a with
    | nil =>
      rw [hrest, List.append_nil] at hwhole
      rw [← hwhole]
      exact word _ hword
    | cons s rest =>
      have hsep : sep s = true := by
        simpa [hrest] using List.head_dropWhile_not (fun a => !sep a) (l := text) (by simp [hrest])
      have hlength := congrArg List.length hwhole
      rw [hrest, List.length_append, List.length_cons] at hlength
      rw [← hwhole, hrest]
      exact append_cons _ s rest hword hsep (ih rest.length (by omega) rest rfl)

/-! ## Where things stand -/

section Positions

variable {w rest k before after : List α} {s : α}

/-- What does not contain the separator stands on one side of it. -/
theorem append_cons_eq (hs : s ∉ k) (h : w ++ s :: rest = before ++ (k ++ after)) :
    (∃ after', after = after' ++ s :: rest ∧ w = before ++ (k ++ after')) ∨
      ∃ before', before = w ++ s :: before' ∧ rest = before' ++ (k ++ after) := by
  rcases List.append_eq_append_iff.1 h with ⟨as, rfl, hright⟩ | ⟨bs, rfl, hleft⟩
  · cases as with
    | cons a as =>
      obtain ⟨rfl, hrest⟩ := List.cons.inj hright
      exact Or.inr ⟨as, rfl, hrest⟩
    | nil =>
      cases k with
      | nil => exact Or.inl ⟨[], by simpa using hright.symm, by simp⟩
      | cons a k =>
        obtain ⟨rfl, -⟩ := List.cons.inj hright
        exact absurd List.mem_cons_self hs
  · rcases List.append_eq_append_iff.1 hleft with ⟨cs, rfl, rfl⟩ | ⟨cs, rfl, hcs⟩
    · exact Or.inl ⟨cs, rfl, rfl⟩
    · cases cs with
      | nil => exact Or.inl ⟨[], by simpa using hcs.symm, by simp⟩
      | cons c cs =>
        obtain ⟨rfl, -⟩ := List.cons.inj hcs
        exact absurd (List.mem_append_right bs List.mem_cons_self) hs

theorem occurs_append_cons (hs : ∀ k, P k → s ∉ k) :
    Occurs P (w ++ s :: rest) ↔ Occurs P w ∨ Occurs P rest := by
  constructor
  · rintro ⟨k, hk, before, after, h⟩
    rw [List.append_assoc] at h
    rcases append_cons_eq (hs k hk) h.symm with ⟨after', -, hw⟩ | ⟨before', -, hrest⟩
    · exact Or.inl ⟨k, hk, before, after', by rw [hw, List.append_assoc]⟩
    · exact Or.inr ⟨k, hk, before', after, by rw [hrest, List.append_assoc]⟩
  · rintro (⟨k, hk, hinside⟩ | ⟨k, hk, hinside⟩)
    · exact ⟨k, hk, hinside.trans (List.prefix_append w _).isInfix⟩
    · exact ⟨k, hk, hinside.trans ((List.suffix_cons s rest).trans (List.suffix_append w _)).isInfix⟩

theorem delimited_append_cons (hs : ∀ k, P k → s ∉ k) (hsep : sep s = true) :
    Delimited sep P (w ++ s :: rest) ↔ Delimited sep P w ∧ Delimited sep P rest := by
  constructor
  · intro h
    constructor
    · intro before k after hw hk
      obtain ⟨hbefore, hafter⟩ := h before k (after ++ s :: rest) (by simp [hw]) hk
      refine ⟨hbefore, fun a ha => hafter a ?_⟩
      rw [List.head?_append, Option.mem_def.1 ha, Option.some_or]
      rfl
    · intro before k after hrest hk
      obtain ⟨hbefore, hafter⟩ := h (w ++ s :: before) k after (by simp [hrest]) hk
      refine ⟨fun a ha => hbefore a ?_, hafter⟩
      rw [List.getLast?_append, List.getLast?_cons, Option.mem_def.1 ha]
      rfl
  · rintro ⟨hw, hrest⟩ before k after h hk
    rcases append_cons_eq (hs k hk) h with ⟨after', rfl, hleft⟩ | ⟨before', rfl, hright⟩
    · obtain ⟨hbefore, hafter⟩ := hw before k after' hleft hk
      refine ⟨hbefore, fun a ha => ?_⟩
      rw [List.head?_append] at ha
      cases hhead : after'.head? with
      | none =>
        rw [hhead, Option.none_or, List.head?_cons] at ha
        rwa [← Option.some.inj ha]
      | some b =>
        rw [hhead, Option.some_or] at ha
        exact hafter a (hhead.trans ha)
    · obtain ⟨hbefore, hafter⟩ := hrest before' k after hright hk
      refine ⟨fun a ha => ?_, hafter⟩
      rw [List.getLast?_append, List.getLast?_cons] at ha
      cases hlast : before'.getLast? with
      | none =>
        rw [hlast] at ha
        rwa [← Option.some.inj ha]
      | some b =>
        rw [hlast] at ha
        exact hbefore a (hlast.trans ha)

end Positions

/-! ## Taking things out -/

section Replacement

variable {n : ℕ} {mark : List α} {f r : List α → List α}

/-- A word of which only the whole can be taken out. -/
theorem not_occurs_word_iff (hlength : ∀ k, P k → k.length = n) (hmark : ¬ Occurs P mark)
    (hf : ∀ w, P w → f w = mark) (hf' : ∀ w, ¬ P w → f w = w) {w : List α}
    (hw : IsWord sep w) : ¬ Occurs P (f w) ↔ Delimited sep P w := by
  by_cases hP : P w
  · rw [hf w hP]
    refine iff_of_true hmark fun before k after h hk => ?_
    have hsum := congrArg List.length h
    rw [hlength w hP, List.length_append, List.length_append, hlength k hk] at hsum
    rw [List.eq_nil_of_length_eq_zero (by omega : before.length = 0),
      List.eq_nil_of_length_eq_zero (by omega : after.length = 0)]
    exact ⟨fun a ha => (by cases ha), fun a ha => by cases ha⟩
  · rw [hf' w hP]
    constructor
    · intro hnone before k after h hk
      exact absurd ⟨k, hk, before, after, by rw [h, List.append_assoc]⟩ hnone
    · rintro hdelimited ⟨k, hk, before, after, h⟩
      rw [List.append_assoc] at h
      obtain ⟨hbefore, hafter⟩ := hdelimited before k after h.symm hk
      -- in a word no separator can stand next to it, so it would be the word
      have hnil : before = [] := by
        cases hlast : before.getLast? with
        | none => exact List.getLast?_eq_none_iff.1 hlast
        | some a =>
          have hmem : a ∈ w := by
            rw [← h]
            exact List.mem_append_left _ (List.mem_of_getLast? hlast)
          exact absurd ((hbefore a hlast).symm.trans (hw a hmem)) (by simp)
      have hnil' : after = [] := by
        cases hhead : after.head? with
        | none => exact List.head?_eq_none_iff.1 hhead
        | some a =>
          have hmem : a ∈ w := by
            rw [← h]
            exact List.mem_append_right _ (List.mem_append_right _ (List.mem_of_head? hhead))
          exact absurd ((hafter a hhead).symm.trans (hw a hmem)) (by simp)
      subst hnil hnil'
      rw [List.nil_append, List.append_nil] at h
      exact hP (h ▸ hk)

/-- **What is left.**  Things of one length, without separators, are all taken out exactly when each
of them stood between separators. -/
theorem not_occurs_iff (hlength : ∀ k, P k → k.length = n) (hword : ∀ k, P k → IsWord sep k)
    (hmark : ¬ Occurs P mark) (hf : ∀ w, P w → f w = mark) (hf' : ∀ w, ¬ P w → f w = w)
    (hr : WordByWord sep f r) (text : List α) : ¬ Occurs P (r text) ↔ Delimited sep P text := by
  induction text using induction_words sep with
  | word w hw =>
    rw [hr.word w hw]
    exact not_occurs_word_iff hlength hmark hf hf' hw
  | append_cons w s rest hw hs ih =>
    have hnot : ∀ k, P k → s ∉ k := by
      intro k hk hmem
      exact absurd (hs.symm.trans (hword k hk s hmem)) (by simp)
    rw [hr.append_cons w s rest hw hs, occurs_append_cons hnot, not_or,
      delimited_append_cons hnot hs, not_occurs_word_iff hlength hmark hf hf' hw, ih]

end Replacement

end Words
end Foundation
