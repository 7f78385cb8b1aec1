import Sorofy.Foundation.Numeral
import Sorofy.Gate.Chain

/-!
# Amounts

`toStroops` and `fromStroops` of `web/gate/lib/protocol.js`: an amount as somebody types it, and
the same amount as an integer of the asset's smallest unit.

An `Amount` is a decimal number as a text: its digits in front of the point, and those behind it.
`toStroops` accepts an amount whose digits fit and which is not zero, and returns the number it
stands for, scaled (`toStroops_eq_ok`).  With one decimal place or more, `fromStroops` takes it
back to the shortest text of that number (`fromStroops_scaled`).

Without decimal places it does not: `slice(-0)` is the whole string and `slice(0, -0)` the empty
one, so all digits end up behind the point (`toStroops_fromStroops_iff`).
-/

namespace Sorofy
namespace Gate

open Foundation
open Numeral

/-! ## The functions -/

/-- Where a relative index of `slice` points. -/
def sliceIndex (s : JsString) (i : ℤ) : ℕ :=
  if i < 0 then (s.length + i).toNat else min i.toNat s.length

/-- `s.slice(start)`. -/
def sliceFrom (s : JsString) (start : ℤ) : JsString :=
  s.drop (sliceIndex s start)

/-- `s.slice(0, stop)`. -/
def sliceTo (s : JsString) (stop : ℤ) : JsString :=
  s.take (sliceIndex s stop)

/-- `/^\d+(\.\d+)?$/.test(text)`. -/
def isAmount (text : JsString) : Bool :=
  !(text.takeWhile isDigit).isEmpty &&
    match text.dropWhile isDigit with
    | [] => true
    | u :: frac => u == 46 && !frac.isEmpty && frac.all isDigit

/-- `s.replace(/^0+(?=\d)/, '')`. -/
def dropZeros : JsString → JsString
  | u :: v :: s => if u = 48 ∧ isDigit v = true then dropZeros (v :: s) else u :: v :: s
  | s => s

/-- `toStroops`, of a string. -/
def toStroops (amount : JsString) (decimals : ℕ) : Except JsString ℤ := do
  let text := trim amount
  ensure (isAmount text = true) (js "not an amount: " ++ text.take 20)
  let parts := text.splitOn 46
  let whole := parts.getD 0 []
  let frac := parts.getD 1 []
  ensure (¬ frac.length > decimals)
    (text ++ js (" has more than " ++ toString decimals ++ " decimal places"))
  let scaled := dropZeros (whole ++ frac.rightpad decimals 48)
  let value : ℤ := parseDigits scaled
  ensure (¬ value ≤ 0) (js "amount must be greater than zero")
  pure value

/-- `fromStroops`. -/
def fromStroops (value : ℤ) (decimals : ℕ) : JsString :=
  let s := (js (toString value)).leftpad (decimals + 1) 48
  let frac := (sliceFrom s (-decimals)).rdropWhile (· = 48)
  if frac ≠ [] then sliceTo s (-decimals) ++ 46 :: frac else sliceTo s (-decimals)

/-! ## Digits -/

/-- The decimal digits, as code units. -/
def ascii : Alphabet UInt16 where
  base := 10
  one_lt := by decide
  digit u := u.toNat - 48
  char n := UInt16.ofNat (48 + n)
  digit_char n h := by
    rw [UInt16.toNat_ofNat']
    omega

theorem isDigit_iff {u : UInt16} : isDigit u = true ↔ ascii.IsDigit u := by
  simp only [isDigit, decide_eq_true_eq, Alphabet.IsDigit, ascii]
  constructor
  · rintro ⟨hlow, hhigh⟩
    refine ⟨by omega, ?_⟩
    rw [← UInt16.toNat_inj, UInt16.toNat_ofNat']
    omega
  · rintro ⟨hlt, hchar⟩
    have htoNat := congrArg UInt16.toNat hchar
    rw [UInt16.toNat_ofNat'] at htoNat
    omega

theorem parseDigits_eq (s : JsString) : parseDigits s = ascii.value s := rfl

/-- A `BigInt` that is not negative is written in digits. -/
theorem js_toString (n : ℕ) : js (toString (n : ℤ)) = ascii.write n := by
  have hchars : js (toString (n : ℤ)) = Utf16.encode (Nat.toDigits 10 n) := by
    show js (toString n) = _
    rw [js, Nat.toString_eq_repr, Nat.repr_eq_ofList_toDigits, String.toList_ofList]
  have hunit : ∀ d < 10, Utf16.encode [Nat.digitChar d] = [ascii.char d] := by decide
  rw [hchars]
  clear hchars
  induction n using Nat.strongRecOn with
  | ind n ih =>
    rcases Nat.lt_or_ge n 10 with hlt | hge
    · rw [Nat.toDigits_of_lt_base hlt, hunit n hlt, Alphabet.write_of_lt (A := ascii) hlt]
    · rw [Nat.toDigits_of_base_le (by decide) hge, Utf16.encode_append, ih (n / 10) (by omega),
        hunit _ (Nat.mod_lt n (by decide)), Alphabet.write_of_le (A := ascii) hge]
      rfl

/-- On digits, dropping zeros leaves the numeral without zeros in front. -/
theorem dropZeros_eq {s : JsString} (h : ∀ u ∈ s, isDigit u = true) :
    dropZeros s = ascii.strip s := by
  induction s using dropZeros.induct with
  | case1 u v s huv ih =>
    obtain ⟨rfl, hv⟩ := huv
    rw [dropZeros, if_pos ⟨rfl, hv⟩, ih fun w hw => h w (List.mem_cons_of_mem _ hw)]
    exact (Alphabet.strip_cons_cons_zero (A := ascii) v s).symm
  | case2 u v s huv =>
    have hu : u ≠ ascii.zero := fun hu => huv ⟨hu, h v (by simp)⟩
    rw [dropZeros, if_neg huv, Alphabet.strip_cons_of_ne hu]
  | case3 s hs =>
    rw [dropZeros.eq_2 _ hs, Alphabet.strip.eq_2 _ _ hs]

/-! ## Decimal numbers as texts -/

/-- A decimal number: the digits in front of the point, of which there is one at least, and the
digits behind it. -/
@[ext] structure Amount where
  whole : JsString
  frac : JsString
  whole_ne : whole ≠ []
  whole_digits : ∀ u ∈ whole, isDigit u = true
  frac_digits : ∀ u ∈ frac, isDigit u = true

namespace Amount

/-- The text of an amount: the point is written only in front of a digit. -/
def text (a : Amount) : JsString :=
  if a.frac = [] then a.whole else a.whole ++ 46 :: a.frac

/-- The number. -/
def value (a : Amount) : ℚ := ascii.fixed a.whole a.frac

/-- The amount without redundant zeros: those in front of the last digit of the whole part, and
those at the end of the fraction. -/
def plain (a : Amount) : Amount where
  whole := ascii.strip a.whole
  frac := a.frac.rdropWhile (· = 48)
  whole_ne := Alphabet.strip_ne_nil a.whole_ne
  whole_digits u hu := a.whole_digits u ((Alphabet.strip_suffix a.whole).subset hu)
  frac_digits u hu := a.frac_digits u ((List.rdropWhile_prefix _ _).subset hu)

/-- The integer of the smallest unit, with this many decimal places. -/
def scaled (a : Amount) (decimals : ℕ) : ℕ :=
  ascii.value (a.whole ++ a.frac.rightpad decimals 48)

variable {a : Amount} {t : JsString} {v : ℤ} {decimals : ℕ}

/-- The scaled number is the number, times a power of ten. -/
theorem scaled_eq (h : a.frac.length ≤ decimals) : (a.scaled decimals : ℚ) = a.value * 10 ^ decimals := by
  have hfixed := ascii.fixed_eq a.whole a.frac (decimals - a.frac.length)
  rw [Nat.add_sub_cancel' h] at hfixed
  exact hfixed

/-! ## What is accepted -/

/-- The texts the pattern accepts are those of amounts. -/
theorem isAmount_iff : isAmount t = true ↔ ∃ a : Amount, t = a.text := by
  constructor
  · intro h
    simp only [isAmount, Bool.and_eq_true, Bool.not_eq_true', List.isEmpty_eq_false_iff] at h
    obtain ⟨hwhole, hrest⟩ := h
    have hdigits : ∀ u ∈ t.takeWhile isDigit, isDigit u = true :=
      fun u hu => List.mem_takeWhile_imp hu
    have hsplit : t.takeWhile isDigit ++ t.dropWhile isDigit = t :=
      List.takeWhile_append_dropWhile
    cases hdrop : t.dropWhile isDigit with
    | nil =>
      rw [hdrop, List.append_nil] at hsplit
      exact ⟨⟨_, [], hwhole, hdigits, by simp⟩, hsplit.symm⟩
    | cons u frac =>
      simp only [hdrop, Bool.and_eq_true, beq_iff_eq, Bool.not_eq_true',
        List.isEmpty_eq_false_iff, List.all_eq_true] at hrest
      obtain ⟨⟨rfl, hfrac⟩, hall⟩ := hrest
      rw [hdrop] at hsplit
      refine ⟨⟨_, frac, hwhole, hdigits, hall⟩, ?_⟩
      rw [text, if_neg hfrac]
      exact hsplit.symm
  · rintro ⟨a, rfl⟩
    have hpoint : isDigit 46 = false := by decide
    by_cases hfrac : a.frac = []
    · rw [text, if_pos hfrac, isAmount, List.takeWhile_eq_self_iff.mpr a.whole_digits,
        List.dropWhile_eq_nil_iff.mpr a.whole_digits]
      simpa using a.whole_ne
    · rw [text, if_neg hfrac, isAmount, List.takeWhile_append_of_pos a.whole_digits,
        List.dropWhile_append_of_pos a.whole_digits]
      simp [hpoint, a.whole_ne, hfrac]
      exact a.frac_digits

theorem splitOn_text (a : Amount) :
    (a.text.splitOn 46).getD 0 [] = a.whole ∧ (a.text.splitOn 46).getD 1 [] = a.frac := by
  have hnot : ∀ {s : JsString}, (∀ u ∈ s, isDigit u = true) → (46 : UInt16) ∉ s :=
    fun h hmem => absurd (h 46 hmem) (by decide)
  by_cases hfrac : a.frac = []
  · rw [text, if_pos hfrac, List.splitOn_eq_singleton (hnot a.whole_digits), hfrac]
    exact ⟨rfl, rfl⟩
  · rw [text, if_neg hfrac, List.splitOn_append_cons_self_of_not_mem (hnot a.whole_digits),
      List.splitOn_eq_singleton (hnot a.frac_digits)]
    exact ⟨rfl, rfl⟩

/-- The text of an amount has no white space. -/
theorem trim_text (a : Amount) : trim a.text = a.text := by
  have hspace : ∀ u, isDigit u = true ∨ u = 46 → isSpace u = false := by
    intro u hu
    rcases hu with hu | rfl
    · simp only [isDigit, decide_eq_true_eq] at hu
      simp only [isSpace, decide_eq_false_iff_not, List.mem_cons, List.not_mem_nil, or_false]
      omega
    · decide
  refine trim_of_not_space fun u hu => hspace u ?_
  unfold text at hu
  split_ifs at hu
  · exact Or.inl (a.whole_digits u hu)
  · rcases List.mem_append.mp hu with hu | hu
    · exact Or.inl (a.whole_digits u hu)
    · rcases List.mem_cons.mp hu with rfl | hu
      · exact Or.inr rfl
      · exact Or.inl (a.frac_digits u hu)

theorem isDigit_of_mem_scaled {u : UInt16} (h : u ∈ a.whole ++ a.frac.rightpad decimals 48) :
    isDigit u = true := by
  rcases List.mem_append.mp h with h | h
  · exact a.whole_digits u h
  rw [List.rightpad] at h
  rcases List.mem_append.mp h with h | h
  · exact a.frac_digits u h
  · rw [List.eq_of_mem_replicate h]
    decide

/-- **What `toStroops` returns**: the scaled number of an amount whose digits fit, unless it is
zero. -/
theorem toStroops_eq_ok : toStroops t decimals = .ok v ↔
    ∃ a : Amount, trim t = a.text ∧ a.frac.length ≤ decimals ∧ 0 < a.scaled decimals ∧
      v = a.scaled decimals := by
  have hscaled : ∀ a : Amount, parseDigits (dropZeros (a.whole ++ a.frac.rightpad decimals 48)) =
      a.scaled decimals := by
    intro a
    rw [parseDigits_eq, dropZeros_eq fun u hu => a.isDigit_of_mem_scaled hu, Alphabet.value_strip]
    rfl
  simp only [toStroops, bind_eq_ok, ensure_eq_ok, pure_eq_ok, exists_const, isAmount_iff, not_le,
    not_lt, gt_iff_lt]
  constructor
  · rintro ⟨⟨a, ha⟩, hrest⟩
    rw [ha, (splitOn_text a).1, (splitOn_text a).2, hscaled] at hrest
    obtain ⟨hfits, hpos, rfl⟩ := hrest
    exact ⟨a, ha, hfits, by exact_mod_cast hpos, rfl⟩
  · rintro ⟨a, ha, hfits, hpos, rfl⟩
    refine ⟨⟨a, ha⟩, ?_⟩
    rw [ha, (splitOn_text a).1, (splitOn_text a).2, hscaled]
    exact ⟨hfits, by exact_mod_cast hpos, rfl⟩

/-! ## And back -/

/-- **What `fromStroops` returns** for a scaled number, with one decimal place or more: the
amount without redundant zeros. -/
theorem fromStroops_scaled (hdec : decimals ≠ 0) (hfits : a.frac.length ≤ decimals) :
    fromStroops (a.scaled decimals) decimals = a.plain.text := by
  have hlen : (a.frac.rightpad decimals 48).length = decimals := by
    rw [List.rightpad, List.length_append, List.length_replicate]
    omega
  have hpadded : (js (toString (a.scaled decimals : ℤ))).leftpad (decimals + 1) 48 =
      ascii.strip a.whole ++ a.frac.rightpad decimals 48 := by
    rw [js_toString, scaled, Alphabet.write_value (by simp [a.whole_ne])
      fun u hu => isDigit_iff.mp (a.isDigit_of_mem_scaled hu)]
    have hpad := Alphabet.leftpad_strip_append (A := ascii) a.whole_ne (a.frac.rightpad decimals 48)
    rw [hlen] at hpad
    exact hpad
  have hindex : sliceIndex (ascii.strip a.whole ++ a.frac.rightpad decimals 48) (-decimals) =
      (ascii.strip a.whole).length := by
    rw [sliceIndex, if_pos (by omega), List.length_append, hlen]
    omega
  simp only [fromStroops, hpadded, sliceFrom, sliceTo, hindex, List.drop_left, List.take_left,
    rdropWhile_rightpad]
  exact ite_not ..

/-- Redundant zeros do not count. -/
theorem plain_scaled (hfits : a.frac.length ≤ decimals) :
    a.plain.scaled decimals = a.scaled decimals := by
  have hpad : a.plain.frac.rightpad decimals 48 = a.frac.rightpad decimals 48 :=
    rightpad_rdropWhile hfits
  rw [scaled, scaled, hpad, Alphabet.value_append, Alphabet.value_append]
  congr 2
  exact Alphabet.value_strip a.whole

/-- Every integer is the scaled number of some amount. -/
theorem exists_scaled (n decimals : ℕ) :
    ∃ a : Amount, a.frac.length ≤ decimals ∧ a.scaled decimals = n := by
  have hdigits : ∀ u ∈ (ascii.write n).leftpad (decimals + 1) 48, isDigit u = true := by
    intro u hu
    rw [List.leftpad, List.mem_append] at hu
    rcases hu with hu | hu
    · rw [List.eq_of_mem_replicate hu]
      decide
    · exact isDigit_iff.mpr (Alphabet.isDigit_of_mem_write hu)
  have hvalue : ascii.value ((ascii.write n).leftpad (decimals + 1) 48) = n := by
    rw [List.leftpad]
    exact (Alphabet.value_zeros_append _ _).trans (Alphabet.value_write n)
  have hlen : decimals + 1 ≤ ((ascii.write n).leftpad (decimals + 1) 48).length := by
    rw [List.length_leftpad]
    exact le_max_left ..
  generalize (ascii.write n).leftpad (decimals + 1) 48 = s at hdigits hvalue hlen
  have hdrop : (s.drop (s.length - decimals)).length = decimals := by
    rw [List.length_drop]
    omega
  refine ⟨⟨s.take (s.length - decimals), s.drop (s.length - decimals), ?_,
    fun u hu => hdigits u (List.mem_of_mem_take hu),
    fun u hu => hdigits u (List.mem_of_mem_drop hu)⟩, hdrop.le, ?_⟩
  · rw [← List.length_pos_iff, List.length_take]
    omega
  · rw [scaled, List.rightpad, hdrop, Nat.sub_self, List.replicate_zero, List.append_nil,
      List.take_append_drop, hvalue]

example : toStroops (js " 007.50 ") 7 = .ok 75000000 := by decide +kernel

example : fromStroops 75000000 7 = js "7.5" := by decide +kernel

end Amount

variable {decimals : ℕ}

/-- An amount that was written is read back. -/
theorem toStroops_fromStroops (hdec : decimals ≠ 0) {n : ℕ} (hpos : 0 < n) :
    toStroops (fromStroops n decimals) decimals = .ok n := by
  obtain ⟨a, hfits, rfl⟩ := Amount.exists_scaled n decimals
  have hplain : a.plain.frac.length ≤ decimals :=
    (List.rdropWhile_prefix _ _).length_le.trans hfits
  rw [Amount.fromStroops_scaled hdec hfits, Amount.toStroops_eq_ok]
  refine ⟨a.plain, a.plain.trim_text, hplain, ?_, ?_⟩
  · rwa [Amount.plain_scaled hfits]
  · rw [Amount.plain_scaled hfits]

/-- What is promised of amounts with this many decimal places: what is written is read back, and
what is accepted is the number typed, scaled, and is written as it was typed but for blanks and
redundant zeros. -/
def Faithful (decimals : ℕ) : Prop :=
  (∀ v : ℤ, 0 < v → toStroops (fromStroops v decimals) decimals = .ok v) ∧
    ∀ (t : JsString) (v : ℤ), toStroops t decimals = .ok v →
      ∃ a : Amount, trim t = a.text ∧ (v : ℚ) = a.value * 10 ^ decimals ∧
        fromStroops v decimals = a.plain.text

/-- Without decimal places, the digits of 5 end up behind the point, and are refused. -/
theorem not_faithful_zero : ¬ Faithful 0 := by
  rintro ⟨hread, -⟩
  have hrefused : toStroops (fromStroops 5 0) 0 = .error (js "not an amount: .5") := by
    decide +kernel
  have hok := hread 5 (by decide)
  rw [hrefused] at hok
  cases hok

/-- **Amounts are faithful** exactly when there is a decimal place. -/
theorem faithful_iff (decimals : ℕ) : Faithful decimals ↔ 1 ≤ decimals := by
  constructor
  · intro h
    by_contra hzero
    obtain rfl : decimals = 0 := by omega
    exact not_faithful_zero h
  · intro hdec
    have hne : decimals ≠ 0 := by omega
    refine ⟨fun v hpos => ?_, fun t v hok => ?_⟩
    · obtain ⟨n, rfl⟩ := Int.eq_ofNat_of_zero_le hpos.le
      exact toStroops_fromStroops hne (by exact_mod_cast hpos)
    · obtain ⟨a, htext, hfits, hpos, rfl⟩ := Amount.toStroops_eq_ok.mp hok
      exact ⟨a, htext, by exact_mod_cast Amount.scaled_eq hfits, Amount.fromStroops_scaled hne hfits⟩

end Gate
end Sorofy
