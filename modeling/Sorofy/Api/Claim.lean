import Sorofy.VerifierCore.Reproduce

/-!
# The claim a verifier attests to

`crates/api/src/claim.rs`: the four values of an attestation, formed from a finished report, or
the reason why there are none.

The digests of a report are strings.  `Spells` relates such a string to the bytes it stands for,
and `Pins` relates an image reference to the digest it is pinned by; `hex32_eq_ok` and
`Claim.imageDigest_eq_ok` say that this is what the code reads, and `Claim.fromReport_eq_ok` takes
a claim that was formed apart.

The API writes the question's bytes as the contract does, with the options as UTF-8
(`inputBytes_eq`).  Since no two strings have the same UTF-8 bytes, what the layout gives for byte
strings holds for strings as well (`inputBytes_inj`).
-/

namespace Sorofy
namespace Api

open Foundation VerifierCore
open Registry (Bytes32 Fits Question claimBuffer claimInputDigest)

/-! ## The digest -/

/-- `DOMAIN`. -/
def domain : List UInt8 :=
  utf8 "sorofy-claim-v1"

/-- The bytes `input_digest` feeds the hash, update by update. -/
def inputBytes (sourceSha256 bldimgDigest : Bytes32) (bldopt : List String) : List UInt8 :=
  let h := domain
  let h := h ++ sourceSha256.toList
  let h := h ++ bldimgDigest.toList
  let h := h ++ toBeBytes bldopt.length
  bldopt.foldl (fun h opt => h ++ toBeBytes (utf8 opt).length ++ utf8 opt) h

/-- `input_digest`. -/
def inputDigest (sha256 : Sha256) (sourceSha256 bldimgDigest : Bytes32)
    (bldopt : List String) : Bytes32 :=
  sha256 (inputBytes sourceSha256 bldimgDigest bldopt)

/-- The API writes the contract's layout. -/
theorem inputBytes_eq (source image : Bytes32) (bldopt : List String) :
    inputBytes source image bldopt = claimBuffer source image (bldopt.map utf8) := by
  unfold inputBytes claimBuffer
  rw [List.foldl_map, List.length_map]
  rfl

theorem inputDigest_eq (sha256 : Sha256) (source image : Bytes32) (bldopt : List String) :
    inputDigest sha256 source image bldopt =
      claimInputDigest sha256 source image (bldopt.map utf8) := by
  unfold inputDigest claimInputDigest
  rw [inputBytes_eq]

theorem inputBytes_inj {s i s' i' : Bytes32} {o o' : List String} (ho : Fits (o.map utf8))
    (ho' : Fits (o'.map utf8)) :
    inputBytes s i o = inputBytes s' i' o' ↔ s = s' ∧ i = i' ∧ o = o' := by
  have hopts : o.map utf8 = o'.map utf8 ↔ o = o' := (List.map_injective_iff.2 utf8_injective).eq_iff
  rw [inputBytes_eq, inputBytes_eq, Registry.claimBuffer_inj ho ho', hopts]

/-- Without the length prefixes these two lists would be hashed alike. -/
example (source image : Bytes32) :
    inputBytes source image ["ab", "c"] ≠ inputBytes source image ["a", "bc"] := by
  intro h
  have hsame := (inputBytes_inj (by decide) (by decide)).1 h
  exact absurd hsame.2.2 (by decide)

/-- **A digest names one question.**  The hashed bytes are equal only for equal sources, images
and option lists, in the contract's layout of byte strings and in the API's of strings.  Where
sha256 does not collide on the two, the digests are equal exactly then. -/
theorem digest_names_question (sha256 : Sha256) :
    (∀ q r : Question,
      (q.buffer = r.buffer ↔ q = r) ∧
        (NoCollision sha256 q.buffer r.buffer → (q.digest sha256 = r.digest sha256 ↔ q = r))) ∧
      ∀ (s i s' i' : Bytes32) (o o' : List String), Fits (o.map utf8) → Fits (o'.map utf8) →
        (inputBytes s i o = inputBytes s' i' o' ↔ s = s' ∧ i = i' ∧ o = o') ∧
          (NoCollision sha256 (inputBytes s i o) (inputBytes s' i' o') →
            (inputDigest sha256 s i o = inputDigest sha256 s' i' o' ↔
              s = s' ∧ i = i' ∧ o = o')) := by
  constructor
  · intro q r
    exact ⟨Question.buffer_inj, fun hfree => Question.digest_eq_iff hfree⟩
  · intro s i s' i' o o' ho ho'
    have hbytes : inputBytes s i o = inputBytes s' i' o' ↔ s = s' ∧ i = i' ∧ o = o' :=
      inputBytes_inj ho ho'
    exact ⟨hbytes, fun hfree => hfree.eq_iff.trans hbytes⟩

/-! ## Known answers -/

namespace Sample

/-- A digest, as a number. -/
def digestOf (n : ℕ) : Bytes32 where
  toList := (List.range 32).map fun i => UInt8.ofNat (n / 256 ^ (31 - i))
  length_toList := by simp

/-- The source the deployed VRFY token was built from. -/
def vrfySource : Bytes32 :=
  digestOf 0x47a88a77289c02370d0f04995e6faadcea4f5fb081981ff5ee48762804c0f306

/-- The image it was built in. -/
def vrfyImage : Bytes32 :=
  digestOf 0xcff44167d2ee90f901c768ccdb75eb5c382c95295f44bcd7ee4b543f0adf9588

/-- The reference vectors of the three implementations' tests: sources, images, options and
digests. -/
def vectors : List (Bytes32 × Bytes32 × List String × Bytes32) :=
  [(.fill 32 0x11, .fill 32 0x22, ["--package=vrfy-token", "--optimize"],
      digestOf 0xded0494ae3e75310e4989acb8daacfa79636c7e3c211b1af884fa2376ed38381),
    (.fill 32 0x11, .fill 32 0x22, [],
      digestOf 0x14ee749e3747cf362fffeb845000c5395c9d05055bb8f7e2fb48d41ce7e5064e),
    (.fill 32 0x11, .fill 32 0x22, ["--optimize", "--package=vrfy-token"],
      digestOf 0xc0823d00b2b99e2f425b9f3fa283f652e315cca163ef3ad10e7fa1f408d881fb),
    (vrfySource, vrfyImage, ["--package=vrfy-token"],
      digestOf 0x32f0a6e512a0259f9d4e2f5a5781cfda2af1782cf4246d9a0fa9a1f314d262fb)]

/-- sha256, where the reference vectors say what it is. -/
def sha256 (bytes : List UInt8) : Bytes32 :=
  match vectors.find? fun v => inputBytes v.1 v.2.1 v.2.2.1 = bytes with
  | some v => v.2.2.2
  | none => .fill 32 0

/-- The order of the flags is part of the question: sha256 does not collide on the two orders, so
they have different digests. -/
theorem flag_order_matters :
    inputDigest sha256 (.fill 32 0x11) (.fill 32 0x22) ["--package=vrfy-token", "--optimize"] ≠
      inputDigest sha256 (.fill 32 0x11) (.fill 32 0x22)
        ["--optimize", "--package=vrfy-token"] := by
  have hne : sha256 (inputBytes (.fill 32 0x11) (.fill 32 0x22)
      ["--package=vrfy-token", "--optimize"]) ≠
      sha256 (inputBytes (.fill 32 0x11) (.fill 32 0x22)
        ["--optimize", "--package=vrfy-token"]) := by
    decide +kernel
  have hsame := ((digest_names_question sha256).2 (.fill 32 0x11) (.fill 32 0x22) (.fill 32 0x11)
    (.fill 32 0x22) ["--package=vrfy-token", "--optimize"]
    ["--optimize", "--package=vrfy-token"] (by decide +kernel) (by decide +kernel)).2
    fun hcollision => absurd hcollision hne
  intro h
  exact absurd (hsame.1 h).2.2 (by decide)

end Sample

/-! ## Reading a report -/

/-- Why a finished report yields no claim. -/
inductive NoClaim where
  | noImageDigest
  | malformed (why : String)
  deriving DecidableEq

/-- What one attestation says. -/
structure Claim where
  wasmHash : Bytes32
  inputDigest : Bytes32
  rebuiltHash : Bytes32
  deriving DecidableEq

/-- `hex32`: exactly 32 bytes of hex.  The error is the text of the chain of causes. -/
def hex32 (hex : HexCrate) (s : String) : Except String Bytes32 := do
  let bytes ← (hex.decode s).mapError fun cause => "`" ++ s ++ "` is not hex: " ++ cause
  okOr (BytesN.ofList? 32 bytes) ("expected 32 bytes, got " ++ toString bytes.length)

/-- `image_digest_hex`: the part after `@sha256:`. -/
def imageDigestHex (bldimgDigest : String) : Except NoClaim String := do
  let (_, digits) ← okOr (splitOnce "@sha256:".toList bldimgDigest.toList)
    (.malformed ("bldimg_digest is not a `repo@sha256:…` reference: " ++ bldimgDigest))
  pure (String.ofList digits)

/-- A hex field of the report, under its name. -/
def field (hex : HexCrate) (name s : String) : Except NoClaim Bytes32 :=
  (hex32 hex s).mapError fun e => .malformed (name ++ ": " ++ e)

/-- The image digest of a report. -/
def Claim.imageDigest (hex : HexCrate) (report : ReproductionReport) : Except NoClaim Bytes32 := do
  let bldimg ← okOr report.bldimgDigest .noImageDigest
  let digits ← imageDigestHex bldimg
  field hex "bldimg_digest" digits

/-- `Claim::from_report`. -/
def Claim.fromReport (hex : HexCrate) (sha256 : Sha256) (report : ReproductionReport) :
    Except NoClaim Claim := do
  let bldimgDigest ← Claim.imageDigest hex report
  let wasmHash ← field hex "expected_wasm_sha256" report.expectedWasmSha256
  let sourceSha256 ← field hex "source_sha256" report.sourceSha256
  let rebuiltHash ← field hex "rebuilt_wasm_sha256" report.rebuiltWasmSha256
  pure
    { wasmHash := wasmHash
      inputDigest := Api.inputDigest sha256 sourceSha256 bldimgDigest report.bldopt
      rebuiltHash := rebuiltHash }

/-- The reference is pinned by this digest: the part after the first `@sha256:` spells it. -/
def Pins (reference : String) (digest : Bytes32) : Prop :=
  ∃ repo digits, splitOnce "@sha256:".toList reference.toList = some (repo, digits) ∧
    Spells (String.ofList digits) digest.toList

theorem Pins.contains {reference : String} {digest : Bytes32} (h : Pins reference digest) :
    contains reference "@sha256:" := by
  obtain ⟨repo, digits, hcut, -⟩ := h
  rw [VerifierCore.contains, hcut, Option.isSome_some]

instance (reference : String) (digest : Bytes32) : Decidable (Pins reference digest) :=
  decidable_of_iff
    (∃ cut ∈ splitOnce "@sha256:".toList reference.toList,
      Spells (String.ofList cut.2) digest.toList)
    ⟨fun ⟨cut, hcut, hdigits⟩ => ⟨cut.1, cut.2, hcut, hdigits⟩,
      fun ⟨repo, digits, hcut, hdigits⟩ => ⟨(repo, digits), hcut, hdigits⟩⟩

section Documented

variable {hex : HexCrate} (hhex : hex.Documented)

include hhex

theorem hex32_eq_ok {s : String} {digest : Bytes32} :
    hex32 hex s = .ok digest ↔ Spells s digest.toList := by
  simp only [hex32, bind_eq_ok, mapError_eq_ok, okOr_eq_ok, hhex.decode_eq_ok,
    BytesN.ofList?_eq_some]
  constructor
  · rintro ⟨bytes, hbytes, rfl⟩
    exact hbytes
  · intro hbytes
    exact ⟨digest.toList, hbytes, rfl⟩

/-- What the engine writes for a byte string spells it. -/
theorem spells_encode (bytes : List UInt8) : Spells (hex.encode bytes) bytes := by
  rw [Spells, hhex.encode_toList, Hex.decode_encode]

/-- A reference that is written `repo@sha256:…` is pinned by the digest it was written with. -/
theorem pins_encode {repo : String} (hrepo : '@' ∉ repo.toList) (digest : Bytes32) :
    Pins (repo ++ "@sha256:" ++ hex.encode digest.toList) digest := by
  refine ⟨repo.toList, (hex.encode digest.toList).toList, ?_, ?_⟩
  · have hmark : "@sha256:".toList = '@' :: "sha256:".toList := by decide
    rw [String.toList_append, String.toList_append, List.append_assoc, hmark,
      splitOnce_append hrepo, splitOnce_head (List.prefix_append _ _), List.drop_left]
    simp
  · rw [String.ofList_toList]
    exact spells_encode hhex digest.toList

theorem field_eq_ok {name s : String} {digest : Bytes32} :
    field hex name s = .ok digest ↔ Spells s digest.toList := by
  rw [field, mapError_eq_ok, hex32_eq_ok hhex]

/-- The image of a claim is the digest its report's reference is pinned by. -/
theorem Claim.imageDigest_eq_ok {report : ReproductionReport} {digest : Bytes32} :
    Claim.imageDigest hex report = .ok digest ↔
      ∃ reference, report.bldimgDigest = some reference ∧ Pins reference digest := by
  simp only [Claim.imageDigest, imageDigestHex, bind_eq_ok, okOr_eq_ok, pure_eq_ok,
    field_eq_ok hhex]
  constructor
  · rintro ⟨reference, href, _, ⟨⟨repo, digits⟩, hcut, rfl⟩, hdigits⟩
    exact ⟨reference, href, repo, digits, hcut, hdigits⟩
  · rintro ⟨reference, href, repo, digits, hcut, hdigits⟩
    exact ⟨reference, href, _, ⟨(repo, digits), hcut, rfl⟩, hdigits⟩

/-- **What a claim that was formed says.** -/
theorem Claim.fromReport_eq_ok {sha256 : Sha256} {report : ReproductionReport} {claim : Claim} :
    Claim.fromReport hex sha256 report = .ok claim ↔
      ∃ image source, Claim.imageDigest hex report = .ok image ∧
        Spells report.expectedWasmSha256 claim.wasmHash.toList ∧
        Spells report.sourceSha256 source.toList ∧
        Spells report.rebuiltWasmSha256 claim.rebuiltHash.toList ∧
        claim.inputDigest = Api.inputDigest sha256 source image report.bldopt := by
  simp only [Claim.fromReport, bind_eq_ok, pure_eq_ok, field_eq_ok hhex]
  constructor
  · rintro ⟨image, himage, wasm, hwasm, source, hsource, rebuilt, hrebuilt, rfl⟩
    exact ⟨image, source, himage, hwasm, hsource, hrebuilt, rfl⟩
  · rintro ⟨image, source, himage, hwasm, hsource, hrebuilt, hdigest⟩
    refine ⟨image, himage, claim.wasmHash, hwasm, source, hsource, claim.rebuiltHash, hrebuilt, ?_⟩
    rw [← hdigest]

end Documented

namespace Sample

/-- The `hex` crate. -/
def hexCrate : HexCrate where
  encode bytes := String.ofList ((Hex.encode bytes).map Char.ofNat)
  decode s :=
    match Hex.decode (s.toList.map Char.toNat) with
    | some bytes => .ok bytes
    | none =>
      if (utf8 s).length % 2 = 1 then .error "Odd number of digits"
      else .error "Invalid character"

theorem hexCrate_documented : hexCrate.Documented where
  encode_toList bytes := by
    show (String.ofList ((Hex.encode bytes).map Char.ofNat)).toList.map Char.toNat = _
    rw [String.toList_ofList, List.map_map]
    refine Eq.trans (List.map_congr_left fun c hc => ?_) (List.map_id _)
    have hrange := Hex.range_of_mem_encode hc
    have hascii : ∀ n, n < 128 → (Char.ofNat n).toNat = n := by decide
    exact hascii c (by omega)
  decode_eq_ok s bytes := by
    unfold hexCrate Spells
    cases hread : Hex.decode (s.toList.map Char.toNat) with
    | some read => simp [hread]
    | none =>
      simp only [hread]
      split_ifs <;> simp

end Sample

end Api
end Sorofy
