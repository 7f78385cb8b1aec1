import Mathlib.Data.List.Basic
import Mathlib.Tactic.SplitIfs

/-!
# Base64

Byte strings as groups of six bits, written with the standard alphabet and padded to a multiple of
four characters.  A character is a code point.

The decoder is the forgiving one of the web platform: it skips white space, it does without the
padding, and it drops the bits a last incomplete group leaves over.  `decode_encode` says that it
reads back what `encode` writes.
-/

namespace Foundation
namespace Base64

/-- The character of a group. -/
def digit (v : ℕ) : ℕ :=
  if v < 26 then 65 + v
  else if v < 52 then 71 + v
  else if v < 62 then v - 4
  else if v = 62 then 43
  else 47

/-- The group of a character. -/
def digit? (c : ℕ) : Option ℕ :=
  if 65 ≤ c ∧ c ≤ 90 then some (c - 65)
  else if 97 ≤ c ∧ c ≤ 122 then some (c - 71)
  else if 48 ≤ c ∧ c ≤ 57 then some (c + 4)
  else if c = 43 then some 62
  else if c = 47 then some 63
  else none

/-- The groups of a byte string, the last one filled up with zeros. -/
def groups : List UInt8 → List ℕ
  | [] => []
  | [a] => [a.toNat / 4, a.toNat % 4 * 16]
  | [a, b] => [a.toNat / 4, a.toNat % 4 * 16 + b.toNat / 16, b.toNat % 16 * 4]
  | a :: b :: c :: rest =>
    a.toNat / 4 :: (a.toNat % 4 * 16 + b.toNat / 16) :: (b.toNat % 16 * 4 + c.toNat / 64) ::
      c.toNat % 64 :: groups rest

/-- The bytes of a list of groups. -/
def bytes : List ℕ → List UInt8
  | v :: w :: x :: y :: rest =>
    UInt8.ofNat (v * 4 + w / 16) :: UInt8.ofNat (w % 16 * 16 + x / 4) ::
      UInt8.ofNat (x % 4 * 64 + y) :: bytes rest
  | [v, w, x] => [UInt8.ofNat (v * 4 + w / 16), UInt8.ofNat (w % 16 * 16 + x / 4)]
  | [v, w] => [UInt8.ofNat (v * 4 + w / 16)]
  | _ => []

/-- The characters of a byte string. -/
def encode (bs : List UInt8) : List ℕ :=
  (groups bs).map digit ++ List.replicate ((3 - bs.length % 3) % 3) 61

/-- ASCII white space. -/
def isSpace (c : ℕ) : Bool :=
  c ∈ [9, 10, 12, 13, 32]

/-- A string of a multiple of four characters, without its padding. -/
def unpad (s : List ℕ) : List ℕ :=
  if s.length % 4 = 0 then
    match s.reverse with
    | 61 :: 61 :: r => r.reverse
    | 61 :: r => r.reverse
    | _ => s
  else s

/-- The bytes a string stands for. -/
def decode (s : List ℕ) : Option (List UInt8) := do
  let s := unpad (s.filter fun c => !isSpace c)
  if s.length % 4 = 1 then none
  else
    let values ← s.mapM digit?
    pure (bytes values)

/-! ## Groups -/

theorem digit?_digit {v : ℕ} (hv : v < 64) : digit? (digit v) = some v := by
  unfold digit? digit
  split_ifs <;> first | omega | (congr 1; omega)

/-- No character of a group is white space or padding. -/
theorem digit_range {v : ℕ} (hv : v < 64) :
    digit v ≠ 61 ∧ isSpace (digit v) = false := by
  simp only [isSpace, List.mem_cons, List.not_mem_nil, or_false, decide_eq_false_iff_not]
  unfold digit
  split_ifs <;> omega

theorem groups_lt (bs : List UInt8) : ∀ v ∈ groups bs, v < 64 := by
  induction bs using groups.induct with
  | case1 => simp [groups]
  | case2 a =>
    have ha := a.toNat_lt
    simp only [groups, List.mem_cons, List.not_mem_nil, or_false]
    omega
  | case3 a b =>
    have ha := a.toNat_lt
    have hb := b.toNat_lt
    simp only [groups, List.mem_cons, List.not_mem_nil, or_false]
    omega
  | case4 a b c rest ih =>
    have ha := a.toNat_lt
    have hb := b.toNat_lt
    have hc := c.toNat_lt
    intro v hv
    simp only [groups, List.mem_cons] at hv
    rcases hv with hv | hv | hv | hv | hv
    · omega
    · omega
    · omega
    · omega
    · exact ih v hv

/-- The groups of a byte string and its padding fill up groups of four. -/
theorem length_groups (bs : List UInt8) :
    (groups bs).length + (3 - bs.length % 3) % 3 = (bs.length + 2) / 3 * 4 := by
  induction bs using groups.induct with
  | case1 => rfl
  | case2 a => simp [groups]
  | case3 a b => simp [groups]
  | case4 a b c rest ih =>
    simp only [groups, List.length_cons]
    omega

/-- The groups are read back. -/
theorem bytes_groups (bs : List UInt8) : bytes (groups bs) = bs := by
  have hbyte : ∀ (b : UInt8) {n : ℕ}, n = b.toNat → UInt8.ofNat n = b := by
    rintro b _ rfl
    exact UInt8.ofNat_toNat
  induction bs using groups.induct with
  | case1 => rfl
  | case2 a =>
    rw [groups, bytes, hbyte a (by omega)]
  | case3 a b =>
    have hb := b.toNat_lt
    rw [groups, bytes, hbyte a (by omega), hbyte b (by omega)]
  | case4 a b c rest ih =>
    have hb := b.toNat_lt
    have hc := c.toNat_lt
    rw [groups, bytes, ih, hbyte a (by omega), hbyte b (by omega), hbyte c (by omega)]

/-- Every character is ASCII. -/
theorem encode_lt {bs : List UInt8} : ∀ c ∈ encode bs, c < 128 := by
  intro c hc
  rcases List.mem_append.1 hc with hc | hc
  · obtain ⟨v, hv, rfl⟩ := List.mem_map.1 hc
    have hlt := groups_lt bs v hv
    unfold digit
    split_ifs <;> omega
  · rw [List.eq_of_mem_replicate hc]
    decide

/-! ## Padding -/

/-- Padding is removed from characters that are none. -/
theorem unpad_append {s : List ℕ} {k : ℕ} (hs : 61 ∉ s) (hk : k < 3)
    (hlen : (s.length + k) % 4 = 0) : unpad (s ++ List.replicate k 61) = s := by
  have hfour : (s ++ List.replicate k 61).length % 4 = 0 := by
    rwa [List.length_append, List.length_replicate]
  rw [unpad, if_pos hfour, List.reverse_append, List.reverse_replicate]
  obtain rfl | rfl | rfl : k = 0 ∨ k = 1 ∨ k = 2 := by omega
  · -- nothing was added, and the last character is none of the padding
    have hlast : ∀ c r, s.reverse = c :: r → c ≠ 61 := by
      rintro c r hr rfl
      exact hs (List.mem_reverse.1 (hr ▸ List.mem_cons_self))
    cases hr : s.reverse with
    | nil => simp
    | cons c r =>
      have hc := hlast c r hr
      simp [hc]
  · cases hr : s.reverse with
    | nil => simp [List.reverse_eq_nil_iff.1 hr]
    | cons c r =>
      have hc : c ≠ 61 := by
        rintro rfl
        exact hs (List.mem_reverse.1 (hr ▸ List.mem_cons_self))
      have hback : (c :: r).reverse = s := by rw [← hr, List.reverse_reverse]
      simp [hc, ← hback]
  · simp

theorem mapM_digit? {values : List ℕ} (h : ∀ v ∈ values, v < 64) :
    (values.map digit).mapM digit? = some values := by
  induction values with
  | nil => rfl
  | cons v values ih =>
    have hv := digit?_digit (h v List.mem_cons_self)
    have hrest := ih fun w hw => h w (List.mem_cons_of_mem v hw)
    simp [hv, hrest]

/-- **What is written is read back.** -/
theorem decode_encode (bs : List UInt8) : decode (encode bs) = some bs := by
  have hlt := groups_lt bs
  have hlen := length_groups bs
  have hspace : (encode bs).filter (fun c => !isSpace c) = encode bs := by
    rw [List.filter_eq_self]
    intro c hc
    rcases List.mem_append.1 hc with hc | hc
    · obtain ⟨v, hv, rfl⟩ := List.mem_map.1 hc
      rw [(digit_range (hlt v hv)).2, Bool.not_false]
    · rw [List.eq_of_mem_replicate hc]
      rfl
  have hpad : 61 ∉ (groups bs).map digit := by
    intro hmem
    obtain ⟨v, hv, heq⟩ := List.mem_map.1 hmem
    exact (digit_range (hlt v hv)).1 heq
  have hunpad : unpad (encode bs) = (groups bs).map digit := by
    refine unpad_append hpad (Nat.mod_lt _ (by decide)) ?_
    rw [List.length_map]
    omega
  have hone : ¬ ((groups bs).map digit).length % 4 = 1 := by
    rw [List.length_map]
    omega
  simp only [decode, hspace, hunpad, if_neg hone, mapM_digit? hlt]
  exact congrArg some (bytes_groups bs)

end Base64
end Foundation
