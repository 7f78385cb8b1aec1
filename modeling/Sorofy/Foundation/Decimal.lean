import Mathlib.Algebra.Group.Int.Defs
import Mathlib.Data.Int.Order.Basic
import Mathlib.Tactic.SplitIfs

/-!
# Decimal numbers

An integer of a given range, read from a string as `str::parse` reads it: a sign if there is one,
and then digits, of which there may be zeros in front.  What is written in decimal is read back
(`parseInt_toString`), and nothing but digits and a sign is read (`char_of_parseInt`).
-/

namespace Foundation
namespace Decimal

/-- The number a string of digits stands for. -/
def value (s : List Char) : ℕ :=
  s.foldl (fun n c => 10 * n + (c.toNat - 48)) 0

/-- The sign of a number, as whether it is negative, and what comes behind it. -/
def sign : List Char → Bool × List Char
  | '-' :: s => (true, s)
  | '+' :: s => (false, s)
  | s => (false, s)

/-- The integer between the bounds that a string stands for. -/
def parseInt (lo hi : ℤ) (s : String) : Option ℤ :=
  let (negative, digits) := sign s.toList
  if digits ≠ [] ∧ digits.all Char.isDigit = true then
    let n : ℤ := if negative = true then -(value digits : ℤ) else value digits
    if lo ≤ n ∧ n ≤ hi then some n else none
  else none

variable {lo hi : ℤ} {n : ℕ} {m : ℤ} {s : String} {c : Char}

theorem value_append_singleton (s : List Char) (c : Char) :
    value (s ++ [c]) = 10 * value s + (c.toNat - 48) := by
  simp [value]

theorem toNat_digitChar (h : n < 10) : (Nat.digitChar n).toNat = 48 + n := by
  have hall : ∀ n < 10, (Nat.digitChar n).toNat = 48 + n := by decide
  exact hall n h

theorem value_toDigits (n : ℕ) : value (Nat.toDigits 10 n) = n := by
  induction n using Nat.strongRecOn with
  | ind n ih =>
    rcases Nat.lt_or_ge n 10 with hlt | hge
    · rw [Nat.toDigits_of_lt_base hlt]
      simp [value, toNat_digitChar hlt]
    · have hmod := Nat.mod_lt n (show 0 < 10 by decide)
      rw [Nat.toDigits_of_base_le (by decide) hge, value_append_singleton,
        ih (n / 10) (by omega), toNat_digitChar hmod]
      omega

/-- A digit is no sign. -/
theorem sign_of_isDigit {s : List Char} (h : ∀ c ∈ s, c.isDigit = true) : sign s = (false, s) := by
  unfold sign
  split
  · exact absurd (h '-' List.mem_cons_self) (by decide)
  · exact absurd (h '+' List.mem_cons_self) (by decide)
  · rfl

/-- What is written is read back. -/
theorem parseInt_toString (hlo : lo ≤ n) (hhi : (n : ℤ) ≤ hi) :
    parseInt lo hi (toString n) = some (n : ℤ) := by
  have hdigit : ∀ c ∈ Nat.toDigits 10 n, c.isDigit = true := fun c hc =>
    Nat.isDigit_of_mem_toDigits (by decide) (by decide) hc
  have hchars : (toString n).toList = Nat.toDigits 10 n := by
    rw [Nat.toString_eq_repr, Nat.repr_eq_ofList_toDigits, String.toList_ofList]
  simp only [parseInt, hchars, sign_of_isDigit hdigit]
  rw [if_pos ⟨Nat.toDigits_ne_nil, List.all_eq_true.2 hdigit⟩]
  simp [value_toDigits, hlo, hhi]

/-- What is read consists of digits and a sign. -/
theorem char_of_parseInt (h : parseInt lo hi s = some m) (hc : c ∈ s.toList) :
    c.isDigit = true ∨ c = '-' ∨ c = '+' := by
  have hdigits : (sign s.toList).2.all Char.isDigit = true := by
    by_contra hnot
    simp only [parseInt, if_neg fun hp => hnot (And.right hp)] at h
    cases h
  unfold sign at hdigits
  split at hdigits
  · rename_i l hl
    rw [hl] at hc
    rcases List.mem_cons.1 hc with rfl | hc
    · exact Or.inr (Or.inl rfl)
    · exact Or.inl (List.all_eq_true.1 hdigits c hc)
  · rename_i l hl
    rw [hl] at hc
    rcases List.mem_cons.1 hc with rfl | hc
    · exact Or.inr (Or.inr rfl)
    · exact Or.inl (List.all_eq_true.1 hdigits c hc)
  · exact Or.inl (List.all_eq_true.1 hdigits c hc)

example : parseInt (-128) 127 "-042" = some (-42) := by decide

end Decimal
end Foundation
