import Sorofy.Api.Claim
import Sorofy.Gate.Claim

/-!
# The gate names the claim the API files

The registry, the API and the gate each compute the digest of a question, in two languages and
from three forms of the same report: byte strings, hex and references as strings of characters,
and the same strings as code units.

A report on which a claim was formed holds spellings of digests and a pinned reference
(`Claim.fromReport_eq_ok`).  The gate reads either as the same bytes (`fromHex_js`,
`imageDigestHex_js`), whatever the case of the digits, and whatever stands before `@sha256:`,
white space included.  The options it encodes to the same UTF-8 bytes, and the chunks it hashes
are the contract's buffer (`concat_parts`).
-/

namespace Sorofy
namespace Gate

open Foundation VerifierCore
open Api (Pins Claim)
open Registry (Bytes32 claimInputDigest)

/-- The gate's lookup of the claim a report was filed under. -/
def lookup (unicode : JsString → JsString) (sha256 : Sha256) (report : ReproductionReport)
    (reference : String) : Except JsString JsString := do
  let bldimgDigest ← imageDigestHex unicode (js reference)
  inputDigestHex unicode sha256
    { sourceSha256 := js report.sourceSha256
      bldimgDigest := bldimgDigest
      bldopt := some (report.bldopt.map js) }

variable {unicode : JsString → JsString}

/-- The gate reads a digest field as the API does. -/
theorem fromHex_js {s : String} {digest : Bytes32} (h : Spells s digest.toList) :
    fromHex unicode (js s) (some 32) = .ok digest.toList := by
  have htrim : trim (js s) = js s := trim_of_not_space (not_space_of_decode h)
  have hread : toLowerCase unicode (trim (js s)) = hexString digest.toList := by
    rw [htrim]
    exact toLowerCase_of_decode h
  exact fromHex_of_lower hread

/-- The gate cuts a reference where the API does, although it trims it first. -/
theorem splitOnce_reference {reference : String} {repo digits : List Char}
    (hcut : splitOnce "@sha256:".toList reference.toList = some (repo, digits))
    (hdigits : ∀ u ∈ Utf16.encode digits, isSpace u = false) :
    ∃ before, splitOnce (js "@sha256:") (trim (js reference)) =
      some (before, Utf16.encode digits) := by
  have hascii : ∀ c ∈ "@sha256:".toList, c.toNat < 128 := by
    have hall : ("@sha256:".toList.all fun c => c.toNat < 128) = true := by decide
    exact fun c hc => of_decide_eq_true (List.all_eq_true.1 hall c hc)
  have hmark : ∀ u ∈ js "@sha256:", isSpace u = false := by
    have hall : ((js "@sha256:").all fun u => !isSpace u) = true := by decide
    exact fun u hu => by simpa using List.all_eq_true.1 hall u hu
  have hunits : splitOnce (js "@sha256:") (js reference) =
      some (Utf16.encode repo, Utf16.encode digits) := by
    unfold js
    rw [Utf16.splitOnce_encode (by decide) hascii, hcut, Option.map_some]
  have hspace : ∀ u ∈ js "@sha256:" ++ Utf16.encode digits, isSpace u = false := by
    intro u hu
    rcases List.mem_append.1 hu with hu | hu
    · exact hmark u hu
    · exact hdigits u hu
  exact splitOnce_trim (by decide) hunits hspace

/-- The gate reads a pinned reference as the API does. -/
theorem imageDigestHex_js {reference : String} {digest : Bytes32} (h : Pins reference digest) :
    imageDigestHex unicode (js reference) = .ok (hexString digest.toList) := by
  obtain ⟨repo, digits, hcut, hdigits⟩ := h
  rw [Spells, String.toList_ofList] at hdigits
  obtain ⟨before, hbefore⟩ := splitOnce_reference hcut (not_space_of_decode hdigits)
  have hindex : indexOf (trim (js reference)) (js "@sha256:") = some before.length := by
    rw [indexOf, hbefore, Option.map_some]
  have hafter : (trim (js reference)).drop (before.length + (js "@sha256:").length) =
      Utf16.encode digits := by
    rw [eq_append_of_splitOnce hbefore, ← List.append_assoc, ← List.length_append]
    exact List.drop_left
  simp only [imageDigestHex, hindex, hafter, toLowerCase_of_decode hdigits, pure_eq_ok]

theorem inputDigest_js {sha256 : Sha256} {source image : JsString}
    {sourceBytes imageBytes : Bytes32} {bldopt : List String}
    (hsource : fromHex unicode source (some 32) = .ok sourceBytes.toList)
    (himage : fromHex unicode image (some 32) = .ok imageBytes.toList) :
    inputDigest unicode sha256
        { sourceSha256 := source, bldimgDigest := image, bldopt := some (bldopt.map js) } =
      .ok (claimInputDigest sha256 sourceBytes imageBytes (bldopt.map utf8)).toList := by
  have hhash : sha256 (concat (parts sourceBytes.toList imageBytes.toList (bldopt.map js))) =
      claimInputDigest sha256 sourceBytes imageBytes (bldopt.map utf8) := by
    rw [concat_parts, claimInputDigest]
  simp only [inputDigest, Option.getD_some, hsource, himage, bind_eq_ok, pure_eq_ok]
  exact ⟨_, rfl, _, rfl, congrArg BytesN.toList hhash⟩

/-- **The gate names the claim the API files, and the registry's layout gives the same digest.**
On every report a claim was formed on, looking it up does not throw; it returns the hex of the
claim's digest, which the gate itself reads back as those 32 bytes; and the contract computes
that digest from the source and image the report spells and the UTF-8 bytes of the options. -/
theorem lookup_names_claim {hex : HexCrate} (hhex : hex.Documented) {sha256 : Sha256}
    {report : ReproductionReport} {claim : Claim}
    (h : Claim.fromReport hex sha256 report = .ok claim) :
    ∃ reference source image,
      report.bldimgDigest = some reference ∧
      Api.hex32 hex report.sourceSha256 = .ok source ∧
      Claim.imageDigest hex report = .ok image ∧
      lookup unicode sha256 report reference = .ok (toHex claim.inputDigest.toList) ∧
      fromHex unicode (toHex claim.inputDigest.toList) (some 32) =
        .ok claim.inputDigest.toList ∧
      claimInputDigest sha256 source image (report.bldopt.map utf8) = claim.inputDigest := by
  obtain ⟨image, source, himage, -, hsource, -, hdigest⟩ := (Claim.fromReport_eq_ok hhex).1 h
  obtain ⟨reference, href, hpins⟩ := (Claim.imageDigest_eq_ok hhex).1 himage
  have hcontract : claimInputDigest sha256 source image (report.bldopt.map utf8) =
      claim.inputDigest := by
    rw [hdigest, Api.inputDigest_eq]
  have hback : fromHex unicode (toHex claim.inputDigest.toList) (some 32) =
      .ok claim.inputDigest.toList := fromHex_toHex claim.inputDigest
  have hsourceHex : fromHex unicode (js report.sourceSha256) (some 32) = .ok source.toList :=
    fromHex_js hsource
  have himageHex : fromHex unicode (hexString image.toList) (some 32) = .ok image.toList := by
    rw [← toHex_eq]
    exact fromHex_toHex image
  have hdigests : inputDigest unicode sha256
      { sourceSha256 := js report.sourceSha256
        bldimgDigest := hexString image.toList
        bldopt := some (report.bldopt.map js) } = .ok claim.inputDigest.toList := by
    rw [← hcontract]
    exact inputDigest_js hsourceHex himageHex
  have hname : lookup unicode sha256 report reference =
      .ok (toHex claim.inputDigest.toList) := by
    simp only [lookup, imageDigestHex_js hpins, inputDigestHex, bind_eq_ok, pure_eq_ok]
    exact ⟨_, rfl, _, hdigests, rfl⟩
  exact ⟨reference, source, image, href, (Api.hex32_eq_ok hhex).2 hsource, himage, hname, hback,
    hcontract⟩

namespace Sample

open Api.Sample (digestOf vrfySource vrfyImage sha256 hexCrate hexCrate_documented)

/-- The hash of the deployed VRFY token. -/
def vrfyWasm : Bytes32 :=
  digestOf 0x3e23ccf50f1a28a568229e21eddc2f11ea6ee495ebe2c3736e545d054be59028

/-- The image of its build, with white space in front and in upper case. -/
def reference : String :=
  " build-image@sha256:CFF44167D2EE90F901C768CCDB75EB5C382C95295F44BCD7EE4B543F0ADF9588"

/-- The report of its build, with the source hash in upper case. -/
def report : ReproductionReport where
  result := .verified
  expectedWasmSha256 := hexCrate.encode vrfyWasm.toList
  rebuiltWasmSha256 := hexCrate.encode vrfyWasm.toList
  rebuiltWasmSize := 8576
  artifact := "target/wasm32v1-none/release/vrfy_token.wasm"
  bldimg := "ghcr.io/erdemasik001/sorofy-build-image:pinned"
  bldimgDigest := some reference
  bldopt := ["--package=vrfy-token"]
  sourceSha256 := "47A88A77289C02370D0F04995E6FAADCEA4F5FB081981FF5EE48762804C0F306"
  trustLevel := .arbitrary
  buildLog := none

/-- The claim the API files for it. -/
def claim : Claim where
  wasmHash := vrfyWasm
  inputDigest := digestOf 0x32f0a6e512a0259f9d4e2f5a5781cfda2af1782cf4246d9a0fa9a1f314d262fb
  rebuiltHash := vrfyWasm

theorem fromReport_report : Claim.fromReport hexCrate sha256 report = .ok claim := by
  have himage : Claim.imageDigest hexCrate report = .ok vrfyImage :=
    (Claim.imageDigest_eq_ok hexCrate_documented).2 ⟨reference, rfl, by decide +kernel⟩
  have hsource : Spells report.sourceSha256 vrfySource.toList := by decide +kernel
  have hwasm : Spells (hexCrate.encode vrfyWasm.toList) vrfyWasm.toList :=
    Api.spells_encode hexCrate_documented vrfyWasm.toList
  have hdigest : claim.inputDigest = Api.inputDigest sha256 vrfySource vrfyImage report.bldopt := by
    decide +kernel
  exact (Claim.fromReport_eq_ok hexCrate_documented).2
    ⟨vrfyImage, vrfySource, himage, hwasm, hsource, hwasm, hdigest⟩

/-- The gate finds the reference vector of the VRFY token, although the report spells it
otherwise. -/
theorem lookup_vrfy :
    ∃ reference, report.bldimgDigest = some reference ∧
      lookup id sha256 report reference =
        .ok (js "32f0a6e512a0259f9d4e2f5a5781cfda2af1782cf4246d9a0fa9a1f314d262fb") := by
  obtain ⟨reference, source, image, href, -, -, hlookup, -, -⟩ :=
    lookup_names_claim hexCrate_documented fromReport_report
  have hhex : toHex claim.inputDigest.toList =
      js "32f0a6e512a0259f9d4e2f5a5781cfda2af1782cf4246d9a0fa9a1f314d262fb" := by
    decide +kernel
  rw [hhex] at hlookup
  exact ⟨reference, href, hlookup⟩

end Sample

end Gate
end Sorofy
