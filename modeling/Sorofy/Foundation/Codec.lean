import Sorofy.Foundation.Bytes

/-!
# Prefix codecs

A byte layout that is read back from the front: an encoder, a decoder that returns the value and
the bytes it has not consumed, and the round trip between the two in front of any continuation.
The continuation is what makes layouts compose.  A layout with that round trip is prefix free,
so two of them can be put one after the other with nothing in between and still be told apart.

* `Codec.prefix_free`, `Codec.encode_inj`: what the round trip gives.
* `u32`, `fixed`: a big-endian `u32`, and a byte string of known length.
* `pair`, `tagged`, `exactly`: one layout after the other, a layout announced by a tag computed
  from the value, and a known number of repetitions.
* `frame`, `counted`: a byte string behind its length, and a list behind its count.

A value need not be encodable: `Valid` says which are, for instance those whose length fits the
prefix.
-/

namespace Foundation

variable {α β τ : Type}

/-- `to_be_bytes` of the low 32 bits of `n`: the most significant byte first. -/
def toBeBytes (n : ℕ) : List UInt8 :=
  [UInt8.ofNat (n / 2 ^ 24), UInt8.ofNat (n / 2 ^ 16), UInt8.ofNat (n / 2 ^ 8), UInt8.ofNat n]

/-- A **prefix codec** for the values that are `Valid`. -/
structure Codec (α : Type) where
  encode : α → List UInt8
  decode : List UInt8 → Option (α × List UInt8)
  Valid : α → Prop
  decode_encode : ∀ a, Valid a → ∀ rest, decode (encode a ++ rest) = some (a, rest)

namespace Codec

/-- Two encodings, each with something after it, agree only if the values and what comes after
them do. -/
theorem prefix_free (c : Codec α) {a b : α} {r s : List UInt8} (ha : c.Valid a) (hb : c.Valid b)
    (h : c.encode a ++ r = c.encode b ++ s) : a = b ∧ r = s := by
  have hread : some (a, r) = some (b, s) := by
    rw [← c.decode_encode a ha r, h, c.decode_encode b hb s]
  simpa using hread

/-- An encoder is injective on the valid values. -/
theorem encode_inj (c : Codec α) {a b : α} (ha : c.Valid a) (hb : c.Valid b) :
    c.encode a = c.encode b ↔ a = b := by
  constructor
  · intro h
    have happ : c.encode a ++ [] = c.encode b ++ [] := by rw [h]
    exact (c.prefix_free ha hb happ).1
  · rintro rfl
    rfl

/-! ## Single values -/

/-- A big-endian `u32`. -/
def u32 : Codec ℕ where
  encode := toBeBytes
  decode
    | b₃ :: b₂ :: b₁ :: b₀ :: rest =>
      some (b₃.toNat * 2 ^ 24 + b₂.toNat * 2 ^ 16 + b₁.toNat * 2 ^ 8 + b₀.toNat, rest)
    | _ => none
  Valid n := n < 2 ^ 32
  decode_encode n hn rest := by
    simp only [toBeBytes, List.cons_append, List.nil_append, UInt8.toNat_ofNat']
    congr 2
    omega

/-- The next `n` bytes. -/
def blob (n : ℕ) : Codec (List UInt8) where
  encode bytes := bytes
  decode bytes := if n ≤ bytes.length then some (bytes.take n, bytes.drop n) else none
  Valid bytes := bytes.length = n
  decode_encode bytes hn rest := by
    subst hn
    rw [if_pos (by simp), List.take_left, List.drop_left]

/-- A byte string of known length. -/
def fixed (n : ℕ) : Codec (BytesN n) where
  encode := BytesN.toList
  decode bytes := do
    let (front, rest) ← (blob n).decode bytes
    let value ← BytesN.ofList? n front
    pure (value, rest)
  Valid _ := True
  decode_encode value _ rest := by
    have hread : (blob n).decode (value.toList ++ rest) = some (value.toList, rest) :=
      (blob n).decode_encode value.toList value.length_toList rest
    have hval : BytesN.ofList? n value.toList = some value := BytesN.ofList?_eq_some.2 rfl
    simp [hread, hval]

/-! ## Composition -/

/-- One value after the other. -/
def pair (c : Codec α) (d : Codec β) : Codec (α × β) where
  encode p := c.encode p.1 ++ d.encode p.2
  decode bytes := do
    let (a, rest) ← c.decode bytes
    let (b, rest) ← d.decode rest
    pure ((a, b), rest)
  Valid p := c.Valid p.1 ∧ d.Valid p.2
  decode_encode p hp rest := by
    have hfst := c.decode_encode p.1 hp.1 (d.encode p.2 ++ rest)
    have hsnd := d.decode_encode p.2 hp.2 rest
    simp [hfst, hsnd]

/-- A value behind a tag computed from it, which says how to read the value. -/
def tagged (tag : β → τ) (c : Codec τ) (body : τ → Codec β) : Codec β where
  encode b := c.encode (tag b) ++ (body (tag b)).encode b
  decode bytes := do
    let (t, rest) ← c.decode bytes
    (body t).decode rest
  Valid b := c.Valid (tag b) ∧ (body (tag b)).Valid b
  decode_encode b hb rest := by
    have htag := c.decode_encode (tag b) hb.1 ((body (tag b)).encode b ++ rest)
    have hbody := (body (tag b)).decode_encode b hb.2 rest
    simp [htag, hbody]

/-- Read `n` values. -/
def readMany (c : Codec α) : ℕ → List UInt8 → Option (List α × List UInt8)
  | 0, bytes => some ([], bytes)
  | n + 1, bytes => do
    let (a, rest) ← c.decode bytes
    let (as, rest) ← c.readMany n rest
    pure (a :: as, rest)

theorem readMany_encode (c : Codec α) (as : List α) (has : ∀ a ∈ as, c.Valid a)
    (rest : List UInt8) :
    c.readMany as.length (as.flatMap c.encode ++ rest) = some (as, rest) := by
  induction as with
  | nil => rfl
  | cons a as ih =>
    have hhead := c.decode_encode a (has a List.mem_cons_self) (as.flatMap c.encode ++ rest)
    have htail := ih fun b hb => has b (List.mem_cons_of_mem a hb)
    simp [readMany, hhead, htail]

/-- A known number of values, one after the other. -/
def exactly (c : Codec α) (n : ℕ) : Codec (List α) where
  encode as := as.flatMap c.encode
  decode := c.readMany n
  Valid as := as.length = n ∧ ∀ a ∈ as, c.Valid a
  decode_encode as has rest := by
    obtain ⟨rfl, has⟩ := has
    exact c.readMany_encode as has rest

/-- A byte string behind its length. -/
def frame : Codec (List UInt8) :=
  tagged List.length u32 blob

/-- A list behind its count. -/
def counted (c : Codec α) : Codec (List α) :=
  tagged List.length u32 c.exactly

theorem encode_frame (bytes : List UInt8) :
    frame.encode bytes = toBeBytes bytes.length ++ bytes := rfl

theorem valid_frame {bytes : List UInt8} : frame.Valid bytes ↔ bytes.length < 2 ^ 32 :=
  and_iff_left rfl

theorem encode_counted (c : Codec α) (as : List α) :
    c.counted.encode as = toBeBytes as.length ++ as.flatMap c.encode := rfl

theorem valid_counted {c : Codec α} {as : List α} :
    c.counted.Valid as ↔ as.length < 2 ^ 32 ∧ ∀ a ∈ as, c.Valid a :=
  and_congr_right fun _ => and_iff_right rfl

end Codec
end Foundation
