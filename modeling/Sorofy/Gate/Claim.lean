import Mathlib.Data.List.DropRight
import Sorofy.Foundation.Fallible
import Sorofy.Foundation.Hex
import Sorofy.Foundation.Text
import Sorofy.Registry.ClaimDigest

/-!
# The claim digest, computed in the browser

`web/gate/lib/claim.js`, the third implementation of the layout.  A string of this language is a
list of UTF-16 code units, and a function that throws returns the message in `Except`.

`toLowerCase` consults the Unicode tables for all but ASCII strings, so what it makes of the others
is a parameter.

Hex that has been lowered is `hexString` of the bytes it spells, so the results about `fromHex`
and `toHex` are about that.
-/

namespace Sorofy
namespace Gate

open Foundation

/-! ## Strings -/

/-- A string: its code units. -/
abbrev JsString := List UInt16

/-- The string with these characters. -/
def js (s : String) : JsString :=
  Utf16.encode s.toList

/-- White space and line terminators. -/
def isSpace (u : UInt16) : Bool :=
  9 ≤ u.toNat ∧ u.toNat ≤ 13 ∨ 0x2000 ≤ u.toNat ∧ u.toNat ≤ 0x200A ∨
    u.toNat ∈ [0x20, 0xA0, 0x1680, 0x2028, 0x2029, 0x202F, 0x205F, 0x3000, 0xFEFF]

/-- `s.trim()`. -/
def trim (s : JsString) : JsString :=
  (s.dropWhile isSpace).rdropWhile isSpace

/-- `s.indexOf(pat)`, with `none` for `-1`. -/
def indexOf (s pat : JsString) : Option ℕ :=
  (splitOnce pat s).map fun cut => cut.1.length

/-- `s.toLowerCase()`: `A` to `Z` in an ASCII string, and what the Unicode tables say in another. -/
def toLowerCase (unicode : JsString → JsString) (s : JsString) : JsString :=
  if s.all (fun u => u.toNat < 128) then s.map fun u => UInt16.ofNat (Hex.lower u.toNat)
  else unicode s

/-- `new TextEncoder().encode(s)`: the UTF-8 bytes, with a replacement character for each lone
surrogate. -/
def encode (s : JsString) : List UInt8 :=
  utf8 (String.ofList (Utf16.decode s))

/-- `/[0-9a-f]/`. -/
def isLowerHex (u : UInt16) : Bool :=
  48 ≤ u.toNat ∧ u.toNat ≤ 57 ∨ 97 ≤ u.toNat ∧ u.toNat ≤ 102

/-- `/[0-9a-fA-F]/`. -/
def isHex (u : UInt16) : Bool :=
  isLowerHex u ∨ 65 ≤ u.toNat ∧ u.toNat ≤ 70

/-- `parseInt(s, 16)`, for a string of hex digits. -/
def parseInt16 (s : JsString) : ℕ :=
  s.foldl (fun n u => 16 * n + (Hex.digit? u.toNat).getD 0) 0

/-- `b.toString(16)`. -/
def toString16 (b : UInt8) : JsString :=
  Utf16.encode (Nat.toDigits 16 b.toNat)

/-! ## The module -/

section Module

variable (unicode : JsString → JsString)

/-- `truncate`. -/
def truncate (s : JsString) : JsString :=
  if s.length > 24 then s.take 24 ++ js "…" else s

/-- `fromHex`. -/
def fromHex (hex : JsString) (expectedLen : Option ℕ) : Except JsString (List UInt8) := do
  let s := toLowerCase unicode (trim hex)
  ensure (s.all isLowerHex = true ∧ s.length % 2 = 0) (js "not hex: " ++ truncate s)
  let out := (List.range (s.length / 2)).map fun i =>
    UInt8.ofNat (parseInt16 ((s.drop (i * 2)).take 2))
  ensure (∀ n ∈ expectedLen, out.length = n)
    (js ("expected " ++ toString (expectedLen.getD 0) ++ " bytes, got " ++ toString out.length))
  pure out

/-- `toHex`. -/
def toHex (bytes : List UInt8) : JsString :=
  (bytes.map fun b => (toString16 b).leftpad 2 48).flatten

/-- `u32be`. -/
def u32be (n : ℕ) : List UInt8 :=
  toBeBytes n

/-- `concat`. -/
def concat (chunks : List (List UInt8)) : List UInt8 :=
  chunks.flatten

/-- `DOMAIN`. -/
def domain : List UInt8 :=
  encode (js "sorofy-claim-v1")

/-- The argument of `inputDigest`. -/
structure Descriptor where
  sourceSha256 : JsString
  bldimgDigest : JsString
  bldopt : Option (List JsString)

/-- The chunks `inputDigest` hashes. -/
def parts (source image : List UInt8) (opts : List JsString) : List (List UInt8) :=
  opts.foldl
    (fun parts opt => parts ++ [u32be (encode opt).length, encode opt])
    [domain, source, image, u32be opts.length]

/-- `inputDigest`. -/
def inputDigest (sha256 : Sha256) (descriptor : Descriptor) : Except JsString (List UInt8) := do
  let opts := descriptor.bldopt.getD []
  let source ← fromHex unicode descriptor.sourceSha256 (some 32)
  let image ← fromHex unicode descriptor.bldimgDigest (some 32)
  pure (sha256 (concat (parts source image opts))).toList

/-- `inputDigestHex`. -/
def inputDigestHex (sha256 : Sha256) (descriptor : Descriptor) : Except JsString JsString := do
  let digest ← inputDigest unicode sha256 descriptor
  pure (toHex digest)

/-- `imageDigestHex`. -/
def imageDigestHex (bldimg : JsString) : Except JsString JsString :=
  let s := trim bldimg
  match indexOf s (js "@sha256:") with
  | some i => pure (toLowerCase unicode (s.drop (i + (js "@sha256:").length)))
  | none =>
    if s.all isHex = true ∧ s.length = 64 then pure (toLowerCase unicode s)
    else throw (js "build image is not pinned by digest: " ++ truncate s)

end Module

variable {unicode : JsString → JsString}

theorem toLowerCase_of_ascii {s : JsString} (hs : ∀ u ∈ s, u.toNat < 128) :
    toLowerCase unicode s = s.map fun u => UInt16.ofNat (Hex.lower u.toNat) := by
  have hall : s.all (fun u => u.toNat < 128) = true := by
    rw [List.all_eq_true]
    exact fun u hu => decide_eq_true (hs u hu)
  rw [toLowerCase, if_pos hall]

/-! ## Trimming -/

/-- Trimming removes only white space from the front of a string that ends without any. -/
theorem trim_append {s t : JsString} (ht : ∀ u ∈ t, isSpace u = false) (hne : t ≠ []) :
    trim (s ++ t) = s.dropWhile isSpace ++ t := by
  have hfront : (s ++ t).dropWhile isSpace = s.dropWhile isSpace ++ t := by
    induction s with
    | nil =>
      obtain ⟨u, t, rfl⟩ := List.exists_cons_of_ne_nil hne
      simp [ht u List.mem_cons_self]
    | cons v s ih =>
      by_cases hv : isSpace v = true
      · simp [hv, ih]
      · simp [hv]
  rw [trim, hfront, List.rdropWhile_eq_self_iff]
  intro happ
  have hlast : (s.dropWhile isSpace ++ t).getLast happ ∈ t := by
    rw [List.getLast_append_of_ne_nil happ hne]
    exact List.getLast_mem hne
  simp [ht _ hlast]

/-- Trimming removes nothing from a string without white space. -/
theorem trim_of_not_space {s : JsString} (hs : ∀ u ∈ s, isSpace u = false) : trim s = s := by
  rcases s.eq_nil_or_concat with rfl | ⟨t, u, rfl⟩
  · rfl
  · exact trim_append (s := []) hs (by simp)

/-- Where a string is cut, trimming it first leaves what comes after the cut, if there is no
white space from there on. -/
theorem splitOnce_trim {pat s before after : JsString} (hne : pat ≠ [])
    (h : splitOnce pat s = some (before, after))
    (hspace : ∀ v ∈ pat ++ after, isSpace v = false) :
    ∃ before', splitOnce pat (trim s) = some (before', after) := by
  have hwhole : s = before ++ (pat ++ after) := eq_append_of_splitOnce h
  have htrim : trim s = before.dropWhile isSpace ++ (pat ++ after) := by
    rw [hwhole]
    exact trim_append hspace (by simp [hne])
  have hs : s = before.takeWhile isSpace ++ trim s := by
    rw [htrim, ← List.append_assoc, List.takeWhile_append_dropWhile]
    exact hwhole
  obtain ⟨u, pat, rfl⟩ := List.exists_cons_of_ne_nil hne
  have hu : u ∉ before.takeWhile isSpace := by
    intro hmem
    have hspace_u : isSpace u = true := List.mem_takeWhile_imp hmem
    rw [hspace u List.mem_cons_self] at hspace_u
    cases hspace_u
  rw [hs, splitOnce_append hu] at h
  obtain ⟨⟨before', after'⟩, hcut, heq⟩ := Option.map_eq_some_iff.1 h
  have hafter : after' = after := (Prod.mk.inj heq).2
  rw [hafter] at hcut
  exact ⟨before', hcut⟩

/-! ## Hex -/

/-- The hex of a byte string. -/
def hexString (bytes : List UInt8) : JsString :=
  (Hex.encode bytes).map UInt16.ofNat

theorem hexString_cons (b : UInt8) (bytes : List UInt8) :
    hexString (b :: bytes) =
      UInt16.ofNat (Hex.digit (b.toNat / 16)) :: UInt16.ofNat (Hex.digit (b.toNat % 16)) ::
        hexString bytes := rfl

theorem length_hexString (bytes : List UInt8) : (hexString bytes).length = 2 * bytes.length := by
  rw [hexString, List.length_map, Hex.length_encode]

theorem toNat_of_mem_hexString {bytes : List UInt8} {u : UInt16} (hu : u ∈ hexString bytes) :
    48 ≤ u.toNat ∧ u.toNat ≤ 57 ∨ 97 ≤ u.toNat ∧ u.toNat ≤ 102 := by
  obtain ⟨c, hc, rfl⟩ := List.mem_map.1 hu
  have hrange := Hex.range_of_mem_encode hc
  rw [UInt16.toNat_ofNat']
  omega

theorem not_space_of_mem_hexString {bytes : List UInt8} {u : UInt16} (hu : u ∈ hexString bytes) :
    isSpace u = false := by
  have hrange := toNat_of_mem_hexString hu
  simp only [isSpace, decide_eq_false_iff_not, List.mem_cons, List.not_mem_nil, or_false]
  omega

theorem isLowerHex_hexString (bytes : List UInt8) : (hexString bytes).all isLowerHex = true := by
  rw [List.all_eq_true]
  intro u hu
  simpa [isLowerHex] using toNat_of_mem_hexString hu

/-- The two digits of a byte are read as the byte. -/
theorem parseInt16_byte (b : UInt8) :
    UInt8.ofNat (parseInt16
      [UInt16.ofNat (Hex.digit (b.toNat / 16)), UInt16.ofNat (Hex.digit (b.toNat % 16))]) = b := by
  have hb : b.toNat < 256 := b.toNat_lt
  have hdigit : ∀ v, v < 16 → Hex.digit? (UInt16.ofNat (Hex.digit v)).toNat = some v := by
    intro v hv
    have hrange := Hex.digit_range hv
    have hcode : (UInt16.ofNat (Hex.digit v)).toNat = Hex.digit v :=
      UInt16.toNat_ofNat_of_lt' (show Hex.digit v < 65536 by omega)
    rw [hcode, Hex.digit?_digit hv]
  have hvalue : 16 * (16 * 0 + b.toNat / 16) + b.toNat % 16 = b.toNat := by omega
  have hhi := hdigit (b.toNat / 16) (by omega)
  have hlo := hdigit (b.toNat % 16) (by omega)
  simp only [parseInt16, List.foldl_cons, List.foldl_nil, hhi, hlo, Option.getD_some, hvalue,
    UInt8.ofNat_toNat]

/-- The loop of `fromHex` reads the bytes back. -/
theorem bytes_hexString (bytes : List UInt8) :
    (List.range bytes.length).map
      (fun i => UInt8.ofNat (parseInt16 (((hexString bytes).drop (i * 2)).take 2))) = bytes := by
  induction bytes with
  | nil => rfl
  | cons b bytes ih =>
    rw [List.length_cons, List.range_succ_eq_map, List.map_cons, List.map_map, hexString_cons]
    congr 1
    · exact parseInt16_byte b
    · refine Eq.trans (List.map_congr_left fun i _ => ?_) ih
      show UInt8.ofNat (parseInt16 ((List.drop ((i + 1) * 2) _).take 2)) = _
      rw [show (i + 1) * 2 = i * 2 + 1 + 1 by omega, List.drop_succ_cons, List.drop_succ_cons]

/-- **`toHex` writes the two digits of each byte.** -/
theorem toHex_eq (bytes : List UInt8) : toHex bytes = hexString bytes := by
  have hbyte : ∀ n, n < 256 → (toString16 (UInt8.ofNat n)).leftpad 2 48 =
      (Hex.encodeByte (UInt8.ofNat n)).map UInt16.ofNat := by
    decide +kernel
  induction bytes with
  | nil => rfl
  | cons b bytes ih =>
    have hb := hbyte b.toNat b.toNat_lt
    rw [UInt8.ofNat_toNat] at hb
    calc
      toHex (b :: bytes) = (toString16 b).leftpad 2 48 ++ toHex bytes := rfl
      _ = (Hex.encodeByte b).map UInt16.ofNat ++ hexString bytes := by rw [hb, ih]
      _ = hexString (b :: bytes) := rfl

theorem ascii_of_decode {s : List Char} {bytes : List UInt8}
    (h : Hex.decode (s.map Char.toNat) = some bytes) : ∀ c ∈ s, c.toNat < 128 := by
  intro c hc
  have hrange := Hex.range_of_decode h (List.mem_map_of_mem hc)
  omega

/-- There is no white space in hex. -/
theorem not_space_of_decode {s : List Char} {bytes : List UInt8}
    (h : Hex.decode (s.map Char.toNat) = some bytes) :
    ∀ u ∈ Utf16.encode s, isSpace u = false := by
  intro u hu
  rw [Utf16.encode_of_ascii (ascii_of_decode h)] at hu
  obtain ⟨c, hc, rfl⟩ := List.mem_map.1 hu
  have hrange := Hex.range_of_decode h (List.mem_map_of_mem hc)
  have hcode : (UInt16.ofNat c.toNat).toNat = c.toNat :=
    UInt16.toNat_ofNat_of_lt' (show c.toNat < 65536 by omega)
  simp only [isSpace, decide_eq_false_iff_not, List.mem_cons, List.not_mem_nil, or_false, hcode]
  omega

/-- Hex of either case is, lowered, the hex of the bytes it spells. -/
theorem toLowerCase_of_decode {s : List Char} {bytes : List UInt8}
    (h : Hex.decode (s.map Char.toNat) = some bytes) :
    toLowerCase unicode (Utf16.encode s) = hexString bytes := by
  have hascii := ascii_of_decode h
  have hcode : ∀ c ∈ s, (UInt16.ofNat c.toNat).toNat = c.toNat := by
    intro c hc
    have hlt := hascii c hc
    exact UInt16.toNat_ofNat_of_lt' (show c.toNat < 65536 by omega)
  rw [Utf16.encode_of_ascii hascii, toLowerCase_of_ascii]
  · rw [hexString, ← Hex.map_lower_of_decode h, List.map_map, List.map_map, List.map_map]
    refine List.map_congr_left fun c hc => ?_
    show UInt16.ofNat (Hex.lower (UInt16.ofNat c.toNat).toNat) = UInt16.ofNat (Hex.lower c.toNat)
    rw [hcode c hc]
  · intro u hu
    obtain ⟨c, hc, rfl⟩ := List.mem_map.1 hu
    rw [hcode c hc]
    exact hascii c hc

theorem toLowerCase_hexString (bytes : List UInt8) :
    toLowerCase unicode (hexString bytes) = hexString bytes := by
  rw [toLowerCase_of_ascii]
  · refine Eq.trans (List.map_congr_left fun u hu => ?_) (List.map_id _)
    have hrange := toNat_of_mem_hexString hu
    rw [Hex.lower, if_neg (by omega), UInt16.ofNat_toNat, id]
  · intro u hu
    have hrange := toNat_of_mem_hexString hu
    omega

/-- **`fromHex` reads any spelling of a digest.** -/
theorem fromHex_of_lower {s : JsString} {digest : Registry.Bytes32}
    (hs : toLowerCase unicode (trim s) = hexString digest.toList) :
    fromHex unicode s (some 32) = .ok digest.toList := by
  have hlen : (hexString digest.toList).length = 2 * digest.toList.length :=
    length_hexString digest.toList
  have hhalf : 2 * digest.toList.length / 2 = digest.toList.length := by omega
  simp only [fromHex, hs, bind_eq_ok, ensure_eq_ok, pure_eq_ok, hlen, hhalf, bytes_hexString]
  refine ⟨(), ⟨isLowerHex_hexString digest.toList, by omega⟩, (), ?_, trivial⟩
  intro n hn
  cases hn
  exact digest.length_toList

/-- **What `toHex` writes for a digest, `fromHex` reads back.** -/
theorem fromHex_toHex (digest : Registry.Bytes32) :
    fromHex unicode (toHex digest.toList) (some 32) = .ok digest.toList := by
  have hread : toLowerCase unicode (trim (toHex digest.toList)) = hexString digest.toList := by
    rw [toHex_eq, trim_of_not_space fun u hu => not_space_of_mem_hexString hu,
      toLowerCase_hexString]
  exact fromHex_of_lower hread

/-! ## The chunks -/

/-- `TextEncoder` gives the UTF-8 bytes of a well formed string. -/
theorem encode_js (s : String) : encode (js s) = utf8 s := by
  rw [encode, js, Utf16.decode_encode, String.ofList_toList]

/-- The chunks, one after the other, are the contract's buffer. -/
theorem concat_parts (source image : Registry.Bytes32) (bldopt : List String) :
    concat (parts source.toList image.toList (bldopt.map js)) =
      Registry.claimBuffer source image (bldopt.map utf8) := by
  have hloop : ∀ (opts : List String) (chunks : List (List UInt8)),
      concat ((opts.map js).foldl
        (fun parts opt => parts ++ [u32be (encode opt).length, encode opt]) chunks) =
      (opts.map utf8).foldl (fun buf opt => buf ++ toBeBytes opt.length ++ opt)
        (concat chunks) := by
    intro opts
    induction opts with
    | nil => exact fun chunks => rfl
    | cons opt opts ih =>
      intro chunks
      rw [List.map_cons, List.map_cons, List.foldl_cons, List.foldl_cons, ih, encode_js]
      congr 1
      simp [concat, u32be]
  rw [parts, hloop, Registry.claimBuffer]
  congr 1
  simp [concat, u32be, domain, encode_js, Registry.domain]

end Gate
end Sorofy
