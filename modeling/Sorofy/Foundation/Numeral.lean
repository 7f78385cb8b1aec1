import Mathlib.Data.List.DropRight
import Mathlib.Data.Rat.Cast.Order
import Mathlib.Tactic.FieldSimp
import Mathlib.Tactic.Ring

/-!
# Numerals

Strings of digits over some alphabet, most significant first, and the numbers they stand for.

* `value_write`, `write_value`: what is written is read back, and what is read is written back
  without the zeros in front;
* `leftpad_strip_append`: zeros in front do not move the digits behind them;
* `value_append`, `fixed_eq`: a numeral with a point in it, scaled by a power of the base, is
  the numeral without the point.
-/

namespace Foundation
namespace Numeral

universe u

/-- An alphabet of digits: what a character counts for, and which character counts for a
number. -/
structure Alphabet (α : Type u) where
  base : ℕ
  one_lt : 1 < base
  digit : α → ℕ
  char : ℕ → α
  digit_char : ∀ n < base, digit (char n) = n

variable {α : Type u} (A : Alphabet α)

namespace Alphabet

/-- The character is the digit of some number. -/
def IsDigit (u : α) : Prop := A.digit u < A.base ∧ A.char (A.digit u) = u

/-- The digit that counts for nothing. -/
def zero : α := A.char 0

/-- The number a string stands for. -/
def value (s : List α) : ℕ := s.foldl (fun n u => A.base * n + A.digit u) 0

/-- A number, written down. -/
def write (n : ℕ) : List α :=
  if n < A.base then [A.char n] else write (n / A.base) ++ [A.char (n % A.base)]
termination_by n
decreasing_by
  have hbase := A.one_lt
  exact Nat.div_lt_self (by omega) hbase

variable {A} {s t : List α} {u : α} {n k : ℕ}

theorem base_pos : 0 < A.base := by
  have hbase := A.one_lt
  omega

theorem digit_zero : A.digit A.zero = 0 := A.digit_char 0 base_pos

theorem isDigit_char (h : n < A.base) : A.IsDigit (A.char n) := by
  rw [IsDigit, A.digit_char n h]
  exact ⟨h, rfl⟩

theorem isDigit_zero : A.IsDigit A.zero := isDigit_char base_pos

theorem IsDigit.eq_zero_iff (h : A.IsDigit u) : u = A.zero ↔ A.digit u = 0 := by
  constructor
  · rintro rfl
    exact digit_zero
  · intro h0
    rw [← h.2, h0]
    rfl

/-! ## Values -/

@[simp] theorem value_nil : A.value [] = 0 := rfl

theorem value_concat (s : List α) (u : α) : A.value (s ++ [u]) = A.base * A.value s + A.digit u := by
  rw [value, List.foldl_append]
  rfl

theorem value_singleton (u : α) : A.value [u] = A.digit u := by
  simp [value]

/-- The digits in front count for a power of the base more. -/
theorem value_append (s t : List α) :
    A.value (s ++ t) = A.value s * A.base ^ t.length + A.value t := by
  induction t using List.reverseRecOn with
  | nil => simp
  | append_singleton t u ih =>
    rw [← List.append_assoc, value_concat, value_concat, ih, List.length_append,
      List.length_singleton, Nat.pow_succ]
    ring

theorem value_zeros (k : ℕ) : A.value (List.replicate k A.zero) = 0 := by
  induction k with
  | zero => rfl
  | succ k ih => rw [List.replicate_succ', value_concat, ih, digit_zero, Nat.mul_zero]

theorem value_zeros_append (k : ℕ) (s : List α) :
    A.value (List.replicate k A.zero ++ s) = A.value s := by
  rw [value_append, value_zeros, Nat.zero_mul, Nat.zero_add]

theorem value_append_zeros (s : List α) (k : ℕ) :
    A.value (s ++ List.replicate k A.zero) = A.value s * A.base ^ k := by
  rw [value_append, value_zeros, List.length_replicate, Nat.add_zero]

/-- A numeral whose first digit is not zero stands for a positive number. -/
theorem value_pos (hu : A.digit u ≠ 0) (s : List α) : 0 < A.value (u :: s) := by
  have hsplit := value_append (A := A) [u] s
  rw [List.singleton_append, value_singleton] at hsplit
  rw [hsplit]
  exact Nat.add_pos_left (Nat.mul_pos (Nat.pos_of_ne_zero hu) (Nat.pow_pos base_pos)) _

/-! ## Writing -/

theorem write_of_lt (h : n < A.base) : A.write n = [A.char n] := by
  rw [write, if_pos h]

theorem write_of_le (h : A.base ≤ n) :
    A.write n = A.write (n / A.base) ++ [A.char (n % A.base)] := by
  rw [write, if_neg (Nat.not_lt.mpr h)]

theorem write_ne_nil (n : ℕ) : A.write n ≠ [] := by
  unfold write
  split <;> simp

theorem isDigit_of_mem_write (h : u ∈ A.write n) : A.IsDigit u := by
  induction n using Nat.strongRecOn with
  | ind n ih =>
    rcases Nat.lt_or_ge n A.base with hlt | hge
    · rw [write_of_lt hlt, List.mem_singleton] at h
      rw [h]
      exact isDigit_char hlt
    · rw [write_of_le hge, List.mem_append, List.mem_singleton] at h
      rcases h with h | rfl
      · exact ih (n / A.base) (Nat.div_lt_self (by have := A.one_lt; omega) A.one_lt) h
      · exact isDigit_char (Nat.mod_lt _ base_pos)

/-- What is written is read back. -/
theorem value_write (n : ℕ) : A.value (A.write n) = n := by
  induction n using Nat.strongRecOn with
  | ind n ih =>
    rcases Nat.lt_or_ge n A.base with hlt | hge
    · rw [write_of_lt hlt, value_singleton, A.digit_char n hlt]
    · rw [write_of_le hge, value_concat,
        ih (n / A.base) (Nat.div_lt_self (by have := A.one_lt; omega) A.one_lt),
        A.digit_char _ (Nat.mod_lt _ base_pos), Nat.div_add_mod]

/-! ## Zeros in front -/

variable [DecidableEq α]

variable (A) in
/-- A string without the zeros in front of its last character. -/
def strip : List α → List α
  | u :: v :: s => if u = A.zero then strip (v :: s) else u :: v :: s
  | s => s

theorem strip_cons_cons_zero (v : α) (s : List α) :
    A.strip (A.zero :: v :: s) = A.strip (v :: s) := by
  rw [strip, if_pos rfl]

theorem strip_cons_of_ne (h : u ≠ A.zero) (s : List α) : A.strip (u :: s) = u :: s := by
  cases s with
  | nil => rfl
  | cons v s => rw [strip, if_neg h]

theorem strip_singleton (u : α) : A.strip [u] = [u] := rfl

theorem value_strip (s : List α) : A.value (A.strip s) = A.value s := by
  induction s using strip.induct (A := A) with
  | case1 v s ih =>
    rw [strip_cons_cons_zero, ih]
    exact (value_zeros_append 1 (v :: s)).symm
  | case2 u v s hu => rw [strip_cons_of_ne hu]
  | case3 s h => rw [strip.eq_2 _ _ h]

theorem strip_ne_nil (h : s ≠ []) : A.strip s ≠ [] := by
  induction s using strip.induct (A := A) with
  | case1 v s ih =>
    rw [strip_cons_cons_zero]
    exact ih (by simp)
  | case2 u v s hu => rwa [strip_cons_of_ne hu]
  | case3 s h' => rwa [strip.eq_2 _ _ h']

theorem strip_suffix (s : List α) : A.strip s <:+ s := by
  induction s using strip.induct (A := A) with
  | case1 v s ih =>
    rw [strip_cons_cons_zero]
    exact ih.trans (List.suffix_cons ..)
  | case2 u v s hu =>
    simp only [strip_cons_of_ne hu, List.suffix_rfl]
  | case3 s h =>
    simp only [strip.eq_2 _ _ h, List.suffix_rfl]

omit [DecidableEq α] in
/-- A numeral without a zero in front is what is written for its number. -/
theorem write_value_cons (hdigits : ∀ v ∈ u :: s, A.IsDigit v) (hu : u ≠ A.zero) :
    A.write (A.value (u :: s)) = u :: s := by
  induction s using List.reverseRecOn with
  | nil =>
    have hdigit := hdigits u List.mem_cons_self
    rw [value_singleton, write_of_lt hdigit.1, hdigit.2]
  | append_singleton s v ih =>
    have hdigit := hdigits v (by simp)
    have hfront := ih fun w hw => hdigits w (by
      rw [← List.cons_append]
      exact List.mem_append_left _ hw)
    have hpos : 0 < A.value (u :: s) :=
      value_pos (fun h0 => hu ((hdigits u List.mem_cons_self).eq_zero_iff.mpr h0)) s
    have hle : A.base ≤ A.base * A.value (u :: s) + A.digit v :=
      (Nat.le_mul_of_pos_right _ hpos).trans (Nat.le_add_right ..)
    rw [← List.cons_append, value_concat, write_of_le hle, Nat.mul_add_div base_pos,
      Nat.div_eq_of_lt hdigit.1, Nat.add_zero, hfront, Nat.mul_add_mod, Nat.mod_eq_of_lt hdigit.1,
      hdigit.2]

/-- **What is read is written back**, without the zeros in front. -/
theorem write_value (hne : s ≠ []) (hdigits : ∀ v ∈ s, A.IsDigit v) :
    A.write (A.value s) = A.strip s := by
  induction s using strip.induct (A := A) with
  | case1 v s ih =>
    rw [strip_cons_cons_zero, ← ih (by simp) fun w hw => hdigits w (List.mem_cons_of_mem _ hw)]
    exact congrArg A.write (value_zeros_append 1 (v :: s))
  | case2 u v s hu =>
    rw [strip_cons_of_ne hu]
    exact write_value_cons hdigits hu
  | case3 s h =>
    cases s with
    | nil => exact absurd rfl hne
    | cons u s =>
      cases s with
      | nil =>
        have hdigit := hdigits u List.mem_cons_self
        rw [strip_singleton, value_singleton, write_of_lt hdigit.1, hdigit.2]
      | cons v s => exact absurd rfl (h u v s)

/-- Padding to the old length puts back the zeros that were stripped. -/
theorem leftpad_strip (s : List α) : (A.strip s).leftpad s.length A.zero = s := by
  induction s using strip.induct (A := A) with
  | case1 v s ih =>
    have hlen := (strip_suffix (A := A) (v :: s)).length_le
    rw [strip_cons_cons_zero, List.leftpad, List.length_cons, Nat.succ_sub hlen,
      List.replicate_succ, List.cons_append]
    exact congrArg (A.zero :: ·) ih
  | case2 u v s hu => simp [strip_cons_of_ne hu, List.leftpad]
  | case3 s h => simp [strip.eq_2 _ _ h, List.leftpad]

/-- Stripped of the zeros in front and padded to one digit more than `t` has, a numeral `s ++ t`
keeps the digits of `t` where they are. -/
theorem leftpad_strip_append (hne : s ≠ []) (t : List α) :
    (A.strip (s ++ t)).leftpad (t.length + 1) A.zero = A.strip s ++ t := by
  induction s using strip.induct (A := A) with
  | case1 v s ih =>
    rw [strip_cons_cons_zero, List.cons_append, List.cons_append, strip_cons_cons_zero]
    exact ih (by simp)
  | case2 u v s hu =>
    rw [strip_cons_of_ne hu, List.cons_append, strip_cons_of_ne hu, List.leftpad,
      Nat.sub_eq_zero_of_le (by simp only [List.length_cons, List.length_append]; omega), List.replicate_zero, List.nil_append]
  | case3 s h =>
    cases s with
    | nil => exact absurd rfl hne
    | cons u s =>
      cases s with
      | nil => exact leftpad_strip (u :: t)
      | cons v s => exact absurd rfl (h u v s)

end Alphabet

/-! ## Zeros at the end -/

omit A in
/-- What dropping one character from the end has dropped. -/
theorem rdropWhile_append_replicate [DecidableEq α] (z : α) (s : List α) :
    s.rdropWhile (· = z) ++ List.replicate (s.length - (s.rdropWhile (· = z)).length) z = s := by
  have hsplit := List.rdropWhile_append_rtakeWhile (p := fun u => decide (u = z)) (l := s)
  have hlen := congrArg List.length hsplit
  rw [List.length_append] at hlen
  have hzeros : s.rtakeWhile (fun u => decide (u = z)) =
      List.replicate (s.length - (s.rdropWhile (· = z)).length) z :=
    List.eq_replicate_iff.mpr ⟨by omega, fun u hu => by simpa using List.mem_rtakeWhile_imp hu⟩
  rw [← hzeros]
  exact hsplit

omit A in
/-- Padding with the character puts back what was dropped. -/
theorem rightpad_rdropWhile [DecidableEq α] {z : α} {s : List α} {n : ℕ} (h : s.length ≤ n) :
    (s.rdropWhile (· = z)).rightpad n z = s.rightpad n z := by
  have hsplit := rdropWhile_append_replicate z s
  have hle := (List.rdropWhile_prefix (fun u => decide (u = z)) s).length_le
  generalize s.rdropWhile (· = z) = t at hsplit hle
  rw [List.rightpad, List.rightpad]
  conv_rhs => rw [← hsplit]
  rw [List.append_assoc, List.replicate_append_replicate, List.length_append,
    List.length_replicate]
  congr 2
  omega

omit A in
/-- Padding does not keep the character from being dropped. -/
theorem rdropWhile_rightpad [DecidableEq α] (z : α) (s : List α) (n : ℕ) :
    (s.rightpad n z).rdropWhile (· = z) = s.rdropWhile (· = z) := by
  rw [List.rightpad]
  induction n - s.length with
  | zero => rw [List.replicate_zero, List.append_nil]
  | succ k ih =>
    rw [List.replicate_succ', ← List.append_assoc, List.rdropWhile_concat_pos _ _ _ (by simp), ih]

/-! ## Fractions -/

namespace Alphabet

variable {A}

/-- The number a numeral with a point stands for. -/
def fixed (A : Alphabet α) (whole frac : List α) : ℚ :=
  A.value whole + A.value frac / (A.base : ℚ) ^ frac.length

/-- **Moving the point** behind the fraction and `k` zeros scales by a power of the base. -/
theorem fixed_eq (whole frac : List α) (k : ℕ) :
    (A.value (whole ++ (frac ++ List.replicate k A.zero)) : ℚ) =
      A.fixed whole frac * (A.base : ℚ) ^ (frac.length + k) := by
  have hbase : (A.base : ℚ) ≠ 0 := by
    rw [Nat.cast_ne_zero]
    exact base_pos.ne'
  rw [← List.append_assoc, value_append_zeros, value_append, fixed]
  push_cast
  field_simp
  ring

end Alphabet
end Numeral
end Foundation
