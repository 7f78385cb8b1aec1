import Sorofy.Foundation.Bytes

/-!
# Hexadecimal

Byte strings written as hexadecimal digits.  A digit is a code point, so that the same facts
serve strings of characters and strings of code units.

`decode` accepts digits of either case.  Whatever it accepts is, but for the case of its
letters, what `encode` writes: `map_lower_of_decode` says so, and everything else about an
accepted string follows from it.
-/

namespace Foundation
namespace Hex

/-- The value of a digit. -/
def digit? (c : ℕ) : Option ℕ :=
  if 48 ≤ c ∧ c ≤ 57 then some (c - 48)
  else if 97 ≤ c ∧ c ≤ 102 then some (c - 87)
  else if 65 ≤ c ∧ c ≤ 70 then some (c - 55)
  else none

/-- The digit of a value, in lower case. -/
def digit (v : ℕ) : ℕ :=
  if v < 10 then 48 + v else 87 + v

/-- The lower case of an ASCII code point. -/
def lower (c : ℕ) : ℕ :=
  if 65 ≤ c ∧ c ≤ 90 then c + 32 else c

/-- The bytes a string of digits stands for. -/
def decode : List ℕ → Option (List UInt8)
  | [] => some []
  | [_] => none
  | c :: d :: s => do
    let hi ← digit? c
    let lo ← digit? d
    let bytes ← decode s
    pure (UInt8.ofNat (16 * hi + lo) :: bytes)

/-- The two digits of a byte. -/
def encodeByte (b : UInt8) : List ℕ :=
  [digit (b.toNat / 16), digit (b.toNat % 16)]

/-- The digits of a byte string, in lower case. -/
def encode (bytes : List UInt8) : List ℕ :=
  bytes.flatMap encodeByte

/-! ## Digits -/

theorem digit?_lt {c v : ℕ} (h : digit? c = some v) : v < 16 := by
  unfold digit? at h
  split_ifs at h <;> cases h <;> omega

theorem lower_of_digit? {c v : ℕ} (h : digit? c = some v) : lower c = digit v := by
  unfold digit? at h
  unfold lower digit
  split_ifs at h <;> cases h <;> split_ifs <;> omega

theorem digit?_digit {v : ℕ} (hv : v < 16) : digit? (digit v) = some v := by
  unfold digit? digit
  split_ifs <;> first | omega | (congr 1; omega)

theorem digit_range {v : ℕ} (hv : v < 16) :
    (48 ≤ digit v ∧ digit v ≤ 57) ∨ (97 ≤ digit v ∧ digit v ≤ 102) := by
  unfold digit
  split_ifs <;> omega

/-! ## Strings of digits -/

theorem encode_cons (b : UInt8) (bytes : List UInt8) :
    encode (b :: bytes) = digit (b.toNat / 16) :: digit (b.toNat % 16) :: encode bytes := rfl

theorem decode_cons_cons_eq_some {c d : ℕ} {s : List ℕ} {bytes : List UInt8} :
    decode (c :: d :: s) = some bytes ↔
      ∃ hi lo tail, digit? c = some hi ∧ digit? d = some lo ∧ decode s = some tail ∧
        UInt8.ofNat (16 * hi + lo) :: tail = bytes := by
  simp [decode, Option.bind_eq_some_iff]

/-- **What is accepted is, in lower case, what is written.** -/
theorem map_lower_of_decode {s : List ℕ} {bytes : List UInt8} (h : decode s = some bytes) :
    s.map lower = encode bytes := by
  induction s using decode.induct generalizing bytes with
  | case1 =>
    cases h
    rfl
  | case2 c => cases h
  | case3 c d s ih =>
    obtain ⟨hi, lo, tail, hc, hd, hs, rfl⟩ := decode_cons_cons_eq_some.1 h
    have hhi := digit?_lt hc
    have hlo := digit?_lt hd
    have hbyte : (UInt8.ofNat (16 * hi + lo)).toNat = 16 * hi + lo :=
      UInt8.toNat_ofNat_of_lt' (show 16 * hi + lo < 256 by omega)
    have hdiv : (16 * hi + lo) / 16 = hi := by omega
    have hmod : (16 * hi + lo) % 16 = lo := by omega
    rw [List.map_cons, List.map_cons, lower_of_digit? hc, lower_of_digit? hd, ih hs, encode_cons,
      hbyte, hdiv, hmod]

/-- Digits in lower case are read back. -/
theorem decode_encode (bytes : List UInt8) : decode (encode bytes) = some bytes := by
  induction bytes with
  | nil => rfl
  | cons b bytes ih =>
    have hb : b.toNat < 256 := b.toNat_lt
    rw [encode_cons, decode_cons_cons_eq_some]
    refine ⟨b.toNat / 16, b.toNat % 16, bytes, digit?_digit (by omega), digit?_digit (by omega),
      ih, ?_⟩
    rw [Nat.div_add_mod, UInt8.ofNat_toNat]

/-- Digits that come in pairs are accepted. -/
theorem exists_decode {n : ℕ} {s : List ℕ} (hlen : s.length = 2 * n)
    (hs : ∀ c ∈ s, ∃ v, digit? c = some v) : ∃ bytes, decode s = some bytes ∧ bytes.length = n := by
  induction n generalizing s with
  | zero =>
    obtain rfl : s = [] := List.length_eq_zero_iff.mp hlen
    exact ⟨[], rfl, rfl⟩
  | succ n ih =>
    match s with
    | c :: d :: s =>
      obtain ⟨hi, hc⟩ := hs c (by simp)
      obtain ⟨lo, hd⟩ := hs d (by simp)
      have hlen' : s.length = 2 * n := by
        simp only [List.length_cons] at hlen
        omega
      obtain ⟨tail, htail, hcount⟩ := ih hlen' fun c hc => hs c (by simp [hc])
      exact ⟨_, decode_cons_cons_eq_some.2 ⟨hi, lo, tail, hc, hd, htail, rfl⟩,
        congrArg Nat.succ hcount⟩

theorem length_encode (bytes : List UInt8) : (encode bytes).length = 2 * bytes.length := by
  induction bytes with
  | nil => rfl
  | cons b bytes ih =>
    rw [encode_cons, List.length_cons, List.length_cons, ih, List.length_cons]
    omega

theorem range_of_mem_encode {bytes : List UInt8} {c : ℕ} (hc : c ∈ encode bytes) :
    (48 ≤ c ∧ c ≤ 57) ∨ (97 ≤ c ∧ c ≤ 102) := by
  obtain ⟨b, -, hc⟩ := List.mem_flatMap.1 hc
  have hb : b.toNat < 256 := b.toNat_lt
  rcases List.mem_pair.1 hc with rfl | rfl
  · exact digit_range (by omega)
  · exact digit_range (by omega)

/-- An accepted string holds digits only. -/
theorem range_of_decode {s : List ℕ} {bytes : List UInt8} (h : decode s = some bytes) {c : ℕ}
    (hc : c ∈ s) : (48 ≤ c ∧ c ≤ 57) ∨ (97 ≤ c ∧ c ≤ 102) ∨ (65 ≤ c ∧ c ≤ 70) := by
  have hmem : lower c ∈ encode bytes := by
    rw [← map_lower_of_decode h]
    exact List.mem_map_of_mem hc
  have hrange := range_of_mem_encode hmem
  unfold lower at hrange
  split_ifs at hrange <;> omega

end Hex
end Foundation
