import Mathlib.Algebra.Group.Nat.Defs
import Mathlib.Data.List.Basic

/-!
# Text

A string is a list of characters to some programs and a list of 16-bit code units to others, and
it is a byte string on the wire.

* `splitOnce` cuts a list at the first occurrence of a pattern.  A pattern's first element cannot
  be found where it does not occur, so a cut is found behind any prefix free of it
  (`splitOnce_append`).
* `utf8` gives the bytes of a string, and `Utf8.lossy` reads bytes back, with the replacement
  character for every piece that is not a character.  A byte string that is UTF-8 still is one
  from any ASCII byte on (`Utf8.valid_of_append`),
  and an ASCII character is read off one byte only (`Utf8.lossy_eq_singleton`).
* `Utf16.encode` gives its code units, and `Utf16.decode` reads code units back, with the
  replacement character for a surrogate that is not one half of a pair.

`Utf16.decode_encode` is the round trip, and `Utf16.splitOnce_encode` says that cutting commutes
with encoding for an ASCII pattern, so that the two kinds of program cut at the same place.
-/

namespace Foundation

/-! ## Cutting a list -/

section Split

variable {α : Type} [DecidableEq α]

/-- What stands before and after the first occurrence of a pattern. -/
def splitOnce (pat : List α) : List α → Option (List α × List α)
  | [] => if pat = [] then some ([], []) else none
  | c :: s =>
    if pat <+: c :: s then some ([], (c :: s).drop pat.length)
    else (splitOnce pat s).map fun p => (c :: p.1, p.2)

theorem eq_append_of_splitOnce {pat s before after : List α}
    (h : splitOnce pat s = some (before, after)) : s = before ++ (pat ++ after) := by
  induction s generalizing before with
  | nil =>
    unfold splitOnce at h
    split_ifs at h with hpat
    cases h
    simp [hpat]
  | cons c s ih =>
    unfold splitOnce at h
    split_ifs at h with hpre
    · cases h
      obtain ⟨t, ht⟩ := hpre
      rw [← ht, List.drop_left, List.nil_append]
    · obtain ⟨⟨b, a⟩, hs, hba⟩ := Option.map_eq_some_iff.1 h
      cases hba
      rw [ih hs, List.cons_append]

theorem splitOnce_head {pat s : List α} (h : pat <+: s) :
    splitOnce pat s = some ([], s.drop pat.length) := by
  cases s with
  | nil =>
    rw [List.prefix_nil.1 h]
    rfl
  | cons c s => rw [splitOnce, if_pos h]

theorem splitOnce_cons {pat s : List α} {c : α} (h : ¬ pat <+: c :: s) :
    splitOnce pat (c :: s) = (splitOnce pat s).map fun p => (c :: p.1, p.2) := by
  rw [splitOnce, if_neg h]

/-- An occurrence does not begin inside a list that does not contain the pattern's first
element. -/
theorem splitOnce_append {p : α} {pat u : List α} (hu : p ∉ u) (s : List α) :
    splitOnce (p :: pat) (u ++ s) = (splitOnce (p :: pat) s).map fun q => (u ++ q.1, q.2) := by
  induction u with
  | nil => simp
  | cons c u ih =>
    have hne : ¬ p :: pat <+: c :: (u ++ s) := by
      intro h
      exact hu (by simp [(List.cons_prefix_cons.1 h).1])
    have hrest := ih fun h => hu (List.mem_cons_of_mem c h)
    rw [List.cons_append, splitOnce_cons hne, hrest, Option.map_map]
    rfl

end Split

/-! ## UTF-8 -/

/-- The bytes of a string. -/
def utf8 (s : String) : List UInt8 :=
  s.toByteArray.data.toList

theorem utf8_injective : Function.Injective utf8 := by
  intro s t h
  have hdata : s.toByteArray.data = t.toByteArray.data := Array.toList_inj.1 h
  exact String.toByteArray_inj.1 (ByteArray.ext hdata)

namespace Utf8

/-- What a first byte announces: how many bytes follow, between which bounds the next of them is,
and the bits it contributes itself. -/
def lead (b : UInt8) : Option (ℕ × UInt8 × UInt8 × ℕ) :=
  if b < 0x80 then some (0, 0x80, 0xBF, b.toNat)
  else if b < 0xC2 then none
  else if b < 0xE0 then some (1, 0x80, 0xBF, b.toNat % 32)
  else if b = 0xE0 then some (2, 0xA0, 0xBF, b.toNat % 16)
  else if b = 0xED then some (2, 0x80, 0x9F, b.toNat % 16)
  else if b < 0xF0 then some (2, 0x80, 0xBF, b.toNat % 16)
  else if b = 0xF0 then some (3, 0x90, 0xBF, b.toNat % 8)
  else if b < 0xF4 then some (3, 0x80, 0xBF, b.toNat % 8)
  else if b = 0xF4 then some (3, 0x80, 0x8F, b.toNat % 8)
  else none

/-- The bytes that follow, as far as they are what was announced. -/
def follow : ℕ → UInt8 → UInt8 → ℕ → List UInt8 → Option Char × List UInt8
  | 0, _, _, value, bytes => (some (Char.ofNat value), bytes)
  | _ + 1, _, _, _, [] => (none, [])
  | n + 1, low, high, value, b :: bytes =>
    if low ≤ b ∧ b ≤ high then follow n 0x80 0xBF (value * 64 + b.toNat % 64) bytes
    else (none, b :: bytes)

/-- The characters of a byte string; a piece of it that is not a character gives none.  Each takes
a byte at least, so that there are no more of them than bytes. -/
def pieces : ℕ → List UInt8 → List (Option Char)
  | 0, _ => []
  | _ + 1, [] => []
  | n + 1, b :: bytes =>
    let (c, rest) :=
      match lead b with
      | some (k, low, high, value) => follow k low high value bytes
      | none => (none, bytes)
    c :: pieces n rest

/-- `str::from_utf8` accepts the bytes. -/
def valid (bytes : List UInt8) : Bool :=
  (pieces bytes.length bytes).all Option.isSome

/-- `String::from_utf8_lossy`. -/
def lossy (bytes : List UInt8) : String :=
  String.ofList ((pieces bytes.length bytes).map fun c => c.getD '\uFFFD')

/-! ### Cutting a byte string -/

/-- What follows a first byte ends before the next ASCII byte. -/
theorem follow_append {s : UInt8} (hs : s < 0x80) (w r : List UInt8) {k : ℕ} {low high : UInt8}
    {value : ℕ} (hlow : 0x80 ≤ low)
    (h : (follow k low high value (w ++ s :: r)).1.isSome = true) :
    ∃ w', w' <:+ w ∧ (follow k low high value (w ++ s :: r)).2 = w' ++ s :: r := by
  induction k generalizing w low high value with
  | zero => exact ⟨w, List.suffix_refl w, rfl⟩
  | succ k ih =>
    cases w with
    | nil =>
      rw [List.nil_append, follow, if_neg] at h
      · cases h
      · intro hbounds
        exact UInt8.lt_irrefl s (UInt8.lt_of_lt_of_le hs (UInt8.le_trans hlow hbounds.1))
    | cons b w =>
      rw [List.cons_append, follow] at h ⊢
      split_ifs at h ⊢ with hb
      · obtain ⟨w', hw', hrest⟩ := ih w (UInt8.le_refl _) h
        exact ⟨w', hw'.trans (List.suffix_cons b w), hrest⟩
      · cases h

/-- A byte that follows is not ASCII. -/
theorem le_of_lead {b low high : UInt8} {k value : ℕ} (h : lead b = some (k, low, high, value)) :
    0x80 ≤ low := by
  unfold lead at h
  split_ifs at h <;> cases h <;> decide

theorem follow_length {k : ℕ} {low high : UInt8} {value : ℕ} (bytes : List UInt8) :
    (follow k low high value bytes).2.length ≤ bytes.length := by
  induction k generalizing low high value bytes with
  | zero => exact Nat.le_refl _
  | succ k ih =>
    cases bytes with
    | nil => exact Nat.le_refl _
    | cons b bytes =>
      rw [follow]
      split_ifs
      · exact Nat.le_succ_of_le (ih bytes)
      · exact Nat.le_refl _

/-- The character that a byte string starts with, if it starts with one, and the bytes behind. -/
def first (b : UInt8) (bytes : List UInt8) : Option Char × List UInt8 :=
  match lead b with
  | some (k, low, high, value) => follow k low high value bytes
  | none => (none, bytes)

theorem pieces_cons (n : ℕ) (b : UInt8) (bytes : List UInt8) :
    pieces (n + 1) (b :: bytes) = (first b bytes).1 :: pieces n (first b bytes).2 :=
  rfl

theorem first_length (b : UInt8) (bytes : List UInt8) :
    (first b bytes).2.length ≤ bytes.length := by
  unfold first
  split
  · exact follow_length bytes
  · exact Nat.le_refl _

theorem first_append {s : UInt8} (hs : s < 0x80) (b : UInt8) (w r : List UInt8)
    (h : (first b (w ++ s :: r)).1.isSome = true) :
    ∃ w', w' <:+ w ∧ (first b (w ++ s :: r)).2 = w' ++ s :: r := by
  unfold first at h ⊢
  cases hlead : lead b with
  | none => simp [hlead] at h
  | some lead =>
    rw [hlead] at h
    exact follow_append hs w r (le_of_lead hlead) h

/-- There are no more characters than bytes. -/
theorem pieces_eq {n m : ℕ} {bytes : List UInt8} (hn : bytes.length ≤ n) (hm : bytes.length ≤ m) :
    pieces n bytes = pieces m bytes := by
  induction n generalizing m bytes with
  | zero =>
    rw [List.eq_nil_of_length_eq_zero (Nat.le_zero.1 hn)]
    cases m <;> rfl
  | succ n ih =>
    cases bytes with
    | nil => cases m <;> rfl
    | cons b bytes =>
      cases m with
      | zero => cases hm
      | succ m =>
        have hfirst := first_length b bytes
        rw [pieces_cons, pieces_cons, ih (Nat.le_trans hfirst (Nat.le_of_succ_le_succ hn))
          (Nat.le_trans hfirst (Nat.le_of_succ_le_succ hm))]

/-- **What begins with an ASCII byte behind others is UTF-8 if the whole is.** -/
theorem valid_of_append {s : UInt8} (hs : s < 0x80) (w r : List UInt8)
    (h : valid (w ++ s :: r) = true) : valid (s :: r) = true := by
  induction hlength : w.length using Nat.strongRecOn generalizing w with
  | _ n ih =>
    cases w with
    | nil => exact h
    | cons b w =>
      rw [valid, List.cons_append, List.length_cons, pieces_cons, List.all_cons,
        Bool.and_eq_true] at h
      obtain ⟨w', hsuffix, hrest⟩ := first_append hs b w r h.1
      have hle := hsuffix.length_le
      rw [List.length_cons] at hlength
      refine ih w'.length (by omega) w' ?_ rfl
      have hbound : (w' ++ s :: r).length ≤ (w ++ s :: r).length := by
        rw [List.length_append, List.length_append]
        exact Nat.add_le_add_right hle _
      rw [valid, pieces_eq (Nat.le_refl _) hbound, ← hrest]
      exact h.2

/-! ### ASCII characters -/

/-- The number of a character of several bytes is not below what its first bytes make of it. -/
theorem follow_value {k : ℕ} {low high : UInt8} {value : ℕ} {bytes : List UInt8} {c : Char}
    (h : (follow k low high value bytes).1 = some c) :
    ∃ n, c = Char.ofNat n ∧ value * 64 ^ k ≤ n := by
  induction k generalizing low high value bytes with
  | zero => exact ⟨value, (Option.some.inj h).symm, by simp⟩
  | succ k ih =>
    cases bytes with
    | nil => cases h
    | cons b bytes =>
      rw [follow] at h
      split_ifs at h
      · obtain ⟨n, hc, hn⟩ := ih h
        refine ⟨n, hc, Nat.le_trans ?_ hn⟩
        rw [Nat.pow_succ, Nat.mul_comm (64 ^ k), ← Nat.mul_assoc]
        exact Nat.mul_le_mul_right _ (Nat.le_add_right _ _)

/-- A character of several bytes is not ASCII. -/
theorem follow_succ_value {k : ℕ} {low high : UInt8} {value : ℕ} {bytes : List UInt8} {c : Char}
    (h : (follow (k + 1) low high value bytes).1 = some c) (hhigh : high ≤ 0xBF) (hlow : 0x80 ≤ low) :
    ∃ n, c = Char.ofNat n ∧ (value * 64 + (low.toNat - 0x80)) * 64 ^ k ≤ n := by
  cases bytes with
  | nil => cases h
  | cons b bytes =>
    rw [follow] at h
    split_ifs at h with hb
    · obtain ⟨n, hc, hn⟩ := follow_value h
      refine ⟨n, hc, Nat.le_trans (Nat.mul_le_mul_right _ ?_) hn⟩
      have hle := UInt8.le_iff_toNat_le.1 hb.1
      have hle' := UInt8.le_iff_toNat_le.1 (UInt8.le_trans hb.2 hhigh)
      have h80 := UInt8.le_iff_toNat_le.1 hlow
      simp only [UInt8.toNat_ofNat] at hle' h80
      omega

/-- A first byte is ASCII, or announces bytes of a character that is not. -/
theorem lead_value {b low high : UInt8} {k value : ℕ} (h : lead b = some (k, low, high, value)) :
    (k = 0 ∧ value = b.toNat) ∨
      ∃ j, k = j + 1 ∧ high ≤ 0xBF ∧ 0x80 ≤ (value * 64 + (low.toNat - 0x80)) * 64 ^ j := by
  unfold lead at h
  simp only [UInt8.lt_iff_toNat_lt, ← UInt8.toNat_inj, UInt8.reduceToNat] at h
  split_ifs at h <;> cases h
  · exact Or.inl ⟨rfl, rfl⟩
  all_goals
    refine Or.inr ⟨_, rfl, by decide, ?_⟩
    simp only [UInt8.reduceToNat]
    omega

theorem ofNat_toNat {n : ℕ} (h : (Char.ofNat n).toNat ≠ 0) : (Char.ofNat n).toNat = n := by
  unfold Char.ofNat at h ⊢
  by_cases hvalid : n.isValidChar
  · rw [dif_pos hvalid]
    rfl
  · rw [dif_neg hvalid] at h
    exact absurd rfl h

/-- **An ASCII character is the byte of its number.** -/
theorem first_eq_ascii {b : UInt8} {bytes : List UInt8} {c : Char}
    (h : (first b bytes).1 = some c) (hnul : c.toNat ≠ 0) (hc : c.toNat < 0x80) :
    b.toNat = c.toNat ∧ (first b bytes).2 = bytes := by
  unfold first at h ⊢
  cases hlead : lead b with
  | none => simp [hlead] at h
  | some lead =>
    obtain ⟨k, low, high, value⟩ := lead
    rw [hlead] at h
    rcases lead_value hlead with ⟨rfl, rfl⟩ | ⟨j, rfl, hhigh, hvalue⟩
    · obtain rfl : Char.ofNat b.toNat = c := Option.some.inj h
      exact ⟨(ofNat_toNat hnul).symm, rfl⟩
    · obtain ⟨n, rfl, hn⟩ := follow_succ_value h hhigh (le_of_lead hlead)
      rw [ofNat_toNat hnul] at hc
      omega

/-- A byte string that reads as one ASCII character is that byte. -/
theorem lossy_eq_singleton {bytes : List UInt8} {c : Char} (hnul : c.toNat ≠ 0)
    (hc : c.toNat < 0x80) (h : lossy bytes = String.ofList [c]) :
    bytes = [UInt8.ofNat c.toNat] := by
  cases bytes with
  | nil => cases String.ofList_injective h
  | cons b bytes =>
    rw [lossy, List.length_cons, pieces_cons, List.map_cons] at h
    obtain ⟨hhead, htail⟩ := List.cons.inj (String.ofList_injective h)
    have hfirst : (first b bytes).1 = some c := by
      cases hpiece : (first b bytes).1 with
      | none =>
        rw [hpiece] at hhead
        rw [← hhead] at hc
        exact absurd hc (by decide)
      | some c' =>
        rw [hpiece] at hhead
        rw [← hhead]
        rfl
    obtain ⟨hb, hrest⟩ := first_eq_ascii hfirst hnul hc
    rw [hrest, List.map_eq_nil_iff] at htail
    cases bytes with
    | nil => rw [← hb, UInt8.ofNat_toNat]
    | cons b' bytes => cases htail

end Utf8

/-! ## UTF-16 -/

namespace Utf16

/-- The code units of a character. -/
def encodeChar (c : Char) : List UInt16 :=
  if c.toNat < 0x10000 then [UInt16.ofNat c.toNat]
  else
    [UInt16.ofNat (0xD800 + (c.toNat - 0x10000) / 0x400),
      UInt16.ofNat (0xDC00 + (c.toNat - 0x10000) % 0x400)]

/-- The code units of a string. -/
def encode (s : List Char) : List UInt16 :=
  s.flatMap encodeChar

/-- A code unit that opens a surrogate pair. -/
def IsHigh (u : UInt16) : Prop := 0xD800 ≤ u.toNat ∧ u.toNat ≤ 0xDBFF

/-- A code unit that closes one. -/
def IsLow (u : UInt16) : Prop := 0xDC00 ≤ u.toNat ∧ u.toNat ≤ 0xDFFF

instance (u : UInt16) : Decidable (IsHigh u) := inferInstanceAs (Decidable (_ ∧ _))

instance (u : UInt16) : Decidable (IsLow u) := inferInstanceAs (Decidable (_ ∧ _))

/-- The character of a code unit that stands alone: the replacement character if it is a
surrogate. -/
def scalar (u : UInt16) : Char :=
  if IsHigh u ∨ IsLow u then '\uFFFD' else Char.ofNat u.toNat

/-- The character of a surrogate pair. -/
def combine (high low : UInt16) : Char :=
  Char.ofNat (0x10000 + (high.toNat - 0xD800) * 0x400 + (low.toNat - 0xDC00))

/-- The characters of a list of code units. -/
def decode : List UInt16 → List Char
  | [] => []
  | [u] => [scalar u]
  | u :: v :: s =>
    if IsHigh u ∧ IsLow v then combine u v :: decode s else scalar u :: decode (v :: s)

theorem decode_cons {u : UInt16} (hu : ¬ IsHigh u) (s : List UInt16) :
    decode (u :: s) = scalar u :: decode s := by
  cases s with
  | nil => rfl
  | cons v s => rw [decode, if_neg fun h => hu h.1]

theorem decode_pair {u v : UInt16} (hu : IsHigh u) (hv : IsLow v) (s : List UInt16) :
    decode (u :: v :: s) = combine u v :: decode s := by
  rw [decode, if_pos ⟨hu, hv⟩]

/-- No character is a surrogate. -/
theorem toNat_range (c : Char) : c.toNat < 0xD800 ∨ 0xDFFF < c.toNat ∧ c.toNat < 0x110000 :=
  c.valid

/-- A code unit that is no surrogate is its character. -/
theorem decode_unit {n : ℕ} (hn : n < 0xD800 ∨ 0xDFFF < n ∧ n < 0x10000) (s : List UInt16) :
    decode (UInt16.ofNat n :: s) = Char.ofNat n :: decode s := by
  have hu : (UInt16.ofNat n).toNat = n := UInt16.toNat_ofNat_of_lt' (show n < 65536 by omega)
  have hhigh : ¬ IsHigh (UInt16.ofNat n) := by
    unfold IsHigh
    omega
  have hlow : ¬ IsLow (UInt16.ofNat n) := by
    unfold IsLow
    omega
  rw [decode_cons hhigh, scalar, if_neg (not_or.2 ⟨hhigh, hlow⟩), hu]

/-- A surrogate pair is the character whose offset it halves. -/
theorem decode_surrogates {n : ℕ} (hn : n < 0x100000) (s : List UInt16) :
    decode (UInt16.ofNat (0xD800 + n / 0x400) :: UInt16.ofNat (0xDC00 + n % 0x400) :: s) =
      Char.ofNat (0x10000 + n) :: decode s := by
  have hu : (UInt16.ofNat (0xD800 + n / 0x400)).toNat = 0xD800 + n / 0x400 :=
    UInt16.toNat_ofNat_of_lt' (show _ < 65536 by omega)
  have hv : (UInt16.ofNat (0xDC00 + n % 0x400)).toNat = 0xDC00 + n % 0x400 :=
    UInt16.toNat_ofNat_of_lt' (show _ < 65536 by omega)
  have hhigh : IsHigh (UInt16.ofNat (0xD800 + n / 0x400)) := by
    unfold IsHigh
    omega
  have hlow : IsLow (UInt16.ofNat (0xDC00 + n % 0x400)) := by
    unfold IsLow
    omega
  have hcode : 0x10000 + (0xD800 + n / 0x400 - 0xD800) * 0x400 + (0xDC00 + n % 0x400 - 0xDC00) =
      0x10000 + n := by
    omega
  rw [decode_pair hhigh hlow, combine, hu, hv, hcode]

theorem decode_encodeChar (c : Char) (s : List UInt16) :
    decode (encodeChar c ++ s) = c :: decode s := by
  have hc := toNat_range c
  unfold encodeChar
  split_ifs with hsmall
  · rw [List.singleton_append, decode_unit (by omega), Char.ofNat_toNat]
  · have hback : 0x10000 + (c.toNat - 0x10000) = c.toNat := by omega
    rw [List.cons_append, List.singleton_append, decode_surrogates (by omega), hback,
      Char.ofNat_toNat]

/-- **Code units of a string are read back as the string.** -/
theorem decode_encode (s : List Char) : decode (encode s) = s := by
  induction s with
  | nil => rfl
  | cons c s ih =>
    calc
      decode (encode (c :: s)) = decode (encodeChar c ++ encode s) := rfl
      _ = c :: decode (encode s) := decode_encodeChar c (encode s)
      _ = c :: s := by rw [ih]

theorem encodeChar_of_ascii {c : Char} (hc : c.toNat < 128) :
    encodeChar c = [UInt16.ofNat c.toNat] :=
  if_pos (by omega)

/-- An ASCII code unit occurs in the code of no character but its own. -/
theorem mem_encodeChar {c d : Char} (hd : d.toNat < 128)
    (h : UInt16.ofNat d.toNat ∈ encodeChar c) : c = d := by
  have hdu : (UInt16.ofNat d.toNat).toNat = d.toNat :=
    UInt16.toNat_ofNat_of_lt' (show d.toNat < 65536 by omega)
  have hc := toNat_range c
  unfold encodeChar at h
  split_ifs at h with hsmall
  · have heq := congrArg UInt16.toNat (List.mem_singleton.1 h)
    rw [hdu, UInt16.toNat_ofNat_of_lt' hsmall] at heq
    exact Char.toNat_inj.1 heq.symm
  · -- a surrogate is not ASCII
    rcases List.mem_pair.1 h with hunit | hunit
    · have heq := congrArg UInt16.toNat hunit
      rw [hdu, UInt16.toNat_ofNat'] at heq
      omega
    · have heq := congrArg UInt16.toNat hunit
      rw [hdu, UInt16.toNat_ofNat'] at heq
      omega

theorem encode_append (s t : List Char) : encode (s ++ t) = encode s ++ encode t :=
  List.flatMap_append

theorem encode_cons (c : Char) (s : List Char) : encode (c :: s) = encodeChar c ++ encode s := rfl

theorem encode_cons_ascii {c : Char} (hc : c.toNat < 128) (s : List Char) :
    encode (c :: s) = UInt16.ofNat c.toNat :: encode s := by
  rw [encode_cons, encodeChar_of_ascii hc, List.singleton_append]

theorem encode_of_ascii {s : List Char} (hs : ∀ c ∈ s, c.toNat < 128) :
    encode s = s.map fun c => UInt16.ofNat c.toNat := by
  induction s with
  | nil => rfl
  | cons c s ih =>
    rw [encode_cons_ascii (hs c List.mem_cons_self),
      ih fun d hd => hs d (List.mem_cons_of_mem c hd), List.map_cons]

/-- An ASCII string stands at the front of a string if its code units do. -/
theorem prefix_of_encode {pat s : List Char} (hpat : ∀ c ∈ pat, c.toNat < 128)
    (h : encode pat <+: encode s) : pat <+: s := by
  induction pat generalizing s with
  | nil => exact List.nil_prefix
  | cons p pat ih =>
    have hp : p.toNat < 128 := hpat p List.mem_cons_self
    rw [encode_cons_ascii hp] at h
    cases s with
    | nil => exact absurd (List.prefix_nil.1 h) (by simp)
    | cons c s =>
      have hne : encodeChar c ≠ [] := by
        unfold encodeChar
        split_ifs <;> simp
      obtain ⟨u, us, hu⟩ := List.exists_cons_of_ne_nil hne
      have hcp : c = p := by
        rw [encode_cons, hu, List.cons_append] at h
        refine mem_encodeChar hp ?_
        rw [hu, (List.cons_prefix_cons.1 h).1]
        exact List.mem_cons_self
      subst hcp
      rw [encode_cons_ascii hp] at h
      have hrest : pat <+: s :=
        ih (fun d hd => hpat d (List.mem_cons_of_mem c hd)) (List.cons_prefix_cons.1 h).2
      exact List.cons_prefix_cons.2 ⟨rfl, hrest⟩

/-- **Cutting at an ASCII pattern commutes with encoding.** -/
theorem splitOnce_encode {pat : List Char} (hne : pat ≠ []) (hpat : ∀ c ∈ pat, c.toNat < 128)
    (s : List Char) :
    splitOnce (encode pat) (encode s) =
      (splitOnce pat s).map fun q => (encode q.1, encode q.2) := by
  obtain ⟨p, pat, rfl⟩ := List.exists_cons_of_ne_nil hne
  have hp : p.toNat < 128 := hpat p List.mem_cons_self
  have hcode : encode (p :: pat) = UInt16.ofNat p.toNat :: encode pat := encode_cons_ascii hp pat
  induction s with
  | nil =>
    rw [hcode]
    rfl
  | cons c s ih =>
    by_cases hpre : p :: pat <+: c :: s
    · obtain ⟨t, ht⟩ := hpre
      have hunits : encode (p :: pat) <+: encode (c :: s) := by
        rw [← ht, encode_append]
        exact List.prefix_append _ _
      rw [splitOnce_head hunits, splitOnce_head ⟨t, ht⟩, ← ht, encode_append,
        List.drop_left, Option.map_some, List.drop_left]
      rfl
    · rw [splitOnce_cons hpre, Option.map_map]
      by_cases hcp : c = p
      · -- The pattern's first character, but not the pattern: the scan moves one unit on.
        subst hcp
        have hnot : ¬ encode (c :: pat) <+: UInt16.ofNat c.toNat :: encode s := by
          rw [← encode_cons_ascii hp]
          exact fun h => hpre (prefix_of_encode hpat h)
        rw [encode_cons_ascii hp s, splitOnce_cons hnot, ih, Option.map_map]
        congr 1
        funext q
        simp [encode_cons_ascii hp]
      · -- Another character: none of its units begins the pattern.
        have hnot : UInt16.ofNat p.toNat ∉ encodeChar c := fun h => hcp (mem_encodeChar hp h)
        rw [hcode, encode_cons, splitOnce_append hnot, ← hcode, ih, Option.map_map]
        rfl

end Utf16
end Foundation
