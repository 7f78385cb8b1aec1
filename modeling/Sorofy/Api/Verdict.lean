import Sorofy.Api.Jobs
import Sorofy.Api.Ledger
import Sorofy.Api.PinnedImage
import Sorofy.VerifierCore.Source

/-!
# One verdict

Whether a build matches is decided three times: by the engine, on strings; by the job, which stores
a status; and by the registry, on the two hashes of an attestation, after they were read from the
report, written to the outbox and read again.

The hash that was rebuilt is written in lower case, so the engine's comparison is one that ignores
case (`verified_iff`).  What spells a hash and is in lower case is what is written for the hash, so
equal hashes are equal strings (`matches_iff`), and writing a hash and lowering it changes nothing
(`toLowercase_encode`).  All three agree on every hash that a request can expect (`verdicts_agree`).
-/

namespace Sorofy
namespace Api

open Foundation VerifierCore
open Registry (Bytes32)

/-- What the Unicode tables say about the lower case of a string that is not ASCII: a character that
is not ASCII has a lower case that is not, but for the Kelvin sign, whose is a `k`. -/
def LowersApart (unicodeLower : String → String) : Prop :=
  ∀ s, (∃ c ∈ s.toList, 128 ≤ c.toNat) →
    ∃ c ∈ (unicodeLower s).toList, 128 ≤ c.toNat ∨ c = 'k'

/-- The registry's verdict on an attestation with these hashes is a match just in case: it is derived
from the hashes, and it is what the registry says of the attestation alone, once its claim is
closed. -/
structure RegistryMatches (wasmHash rebuiltHash : Bytes32) (matched : Prop) : Prop where
  derived : rebuiltHash = wasmHash ↔ matched
  alone : ∀ (Address : Type) (cfg : Registry.Config Address) (verifier : Address) (ledger now : ℕ),
    ledger + cfg.attestWindow ≤ now → cfg.quorum ≤ 1 →
      Registry.verdict cfg now wasmHash [⟨verifier, rebuiltHash, ledger⟩] =
        if rebuiltHash = wasmHash then .verified else .mismatch

/-! ## Lower case -/

section Lower

variable {host : Host} {hex : HexCrate} {s : String} {bytes : List UInt8}

/-- What is written for bytes are digits and small letters. -/
theorem lower_of_mem_encode (hhex : hex.Documented) {c : Char}
    (hc : c ∈ (hex.encode bytes).toList) : c.toNat < 128 ∧ c.toLower = c := by
  have hmem : c.toNat ∈ Hex.encode bytes := by
    rw [← hhex.encode_toList]
    exact List.mem_map_of_mem hc
  have hrange := Hex.range_of_mem_encode hmem
  exact ⟨by omega, toLower_of_not_capital (by omega)⟩

theorem toLowercase_encode (hhex : hex.Documented) :
    toLowercase host (hex.encode bytes) = hex.encode bytes :=
  toLowercase_of_lower fun _ hc => lower_of_mem_encode hhex hc

/-- What spells bytes is ASCII, and no `k` is in it. -/
theorem digits_of_spells (h : Spells s bytes) {c : Char} (hc : c ∈ s.toList) :
    c.toNat < 128 ∧ c ≠ 'k' := by
  have hrange := Hex.range_of_decode h (List.mem_map_of_mem hc)
  refine ⟨by omega, ?_⟩
  rintro rfl
  revert hrange
  decide

theorem toLower_not_capital (c : Char) : c.toLower.toNat < 65 ∨ 90 < c.toLower.toNat := by
  by_cases hcapital : c.toNat < 65 ∨ 90 < c.toNat
  · rwa [toLower_of_not_capital hcapital]
  · have hall : ∀ n < 128, 65 ≤ n → n ≤ 90 →
        90 < (Char.ofNat n).toLower.toNat := by decide
    have hlower := hall c.toNat (by omega) (by omega) (by omega)
    rw [Char.ofNat_toNat] at hlower
    exact Or.inr hlower

/-- What spells bytes without capital letters is what is written for them. -/
theorem eq_encode_of_spells (hhex : hex.Documented)
    (hsmall : ∀ c ∈ s.toList, c.toNat < 65 ∨ 90 < c.toNat) (h : Spells s bytes) :
    s = hex.encode bytes := by
  have hsame : (s.toList.map Char.toNat).map Hex.lower = s.toList.map Char.toNat := by
    rw [List.map_map]
    refine List.map_congr_left fun c hc => ?_
    have hnot := hsmall c hc
    show Hex.lower c.toNat = c.toNat
    rw [Hex.lower, if_neg (by omega)]
  have hnats : s.toList.map Char.toNat = (hex.encode bytes).toList.map Char.toNat := by
    rw [← hsame, Hex.map_lower_of_decode h, hhex.encode_toList]
  refine String.toList_inj.1 (List.map_injective_iff.2 ?_ hnats)
  intro c d hcd
  exact Char.ext (UInt32.toNat_inj.1 hcd)

end Lower

/-! ## Comparing -/

section Compare

variable {host : Host} (hhex : host.hex.Documented) (hlower : LowersApart host.unicodeLower)

include hlower

omit hhex in
/-- The lower case of what is not ASCII spells nothing. -/
theorem not_spells_of_not_ascii {expected : String} {bytes : List UInt8}
    (h : ¬ ∀ c ∈ expected.toList, c.toNat < 128) : ¬ Spells (toLowercase host expected) bytes := by
  push Not at h
  obtain ⟨c, hc, hbig⟩ := h
  intro hspells
  rw [toLowercase, if_neg fun hall => absurd (List.all_eq_true.1 hall c hc)
    (by simpa using hbig)] at hspells
  obtain ⟨d, hd, hout⟩ := hlower expected ⟨c, hc, hbig⟩
  have hdigits := digits_of_spells hspells hd
  rcases hout with hout | rfl
  · omega
  · exact hdigits.2 rfl

include hhex

/-- **The engine compares without regard to case**, whatever is expected. -/
theorem encode_eq_toLowercase_iff (bytes : List UInt8) (expected : String) :
    host.hex.encode bytes = toLowercase host expected ↔
      eqIgnoreAsciiCase (host.hex.encode bytes) expected := by
  have hsame : (host.hex.encode bytes).toList.map Char.toLower = (host.hex.encode bytes).toList := by
    rw [List.map_congr_left fun c hc => (lower_of_mem_encode hhex hc).2, List.map_id']
  rw [eqIgnoreAsciiCase, hsame]
  by_cases hascii : ∀ c ∈ expected.toList, c.toNat < 128
  · rw [toLowercase_of_ascii hascii, ← String.toList_inj, String.toList_ofList]
  · -- neither what is expected nor its lower case is a string of digits
    refine iff_of_false (fun heq => ?_) fun heq => ?_
    · exact not_spells_of_not_ascii hlower hascii (heq ▸ spells_encode hhex bytes)
    · push Not at hascii
      obtain ⟨c, hc, hbig⟩ := hascii
      have hmem : c ∈ (host.hex.encode bytes).toList := by
        rw [heq, ← toLower_of_not_capital (c := c) (by omega)]
        exact List.mem_map_of_mem hc
      have hsmall := (lower_of_mem_encode hhex hmem).1
      omega

/-- **Equal hashes are equal strings**, where the one is written and the other in lower case. -/
theorem hash_eq_iff {bytes : List UInt8} {expected : String} {rebuiltHash wasmHash : Bytes32}
    (hrebuilt : Spells (host.hex.encode bytes) rebuiltHash.toList)
    (hwasm : Spells (toLowercase host expected) wasmHash.toList) :
    rebuiltHash = wasmHash ↔ host.hex.encode bytes = toLowercase host expected := by
  have hbytes : bytes = rebuiltHash.toList := (spells_encode hhex bytes).unique hrebuilt
  constructor
  · rintro rfl
    have hsmall : ∀ c ∈ (toLowercase host expected).toList, c.toNat < 65 ∨ 90 < c.toNat := by
      by_cases hascii : ∀ c ∈ expected.toList, c.toNat < 128
      · intro c hc
        rw [toLowercase_of_ascii hascii, String.toList_ofList] at hc
        obtain ⟨d, -, rfl⟩ := List.mem_map.1 hc
        exact toLower_not_capital d
      · exact absurd hwasm (not_spells_of_not_ascii hlower hascii)
    rw [hbytes, ← eq_encode_of_spells hhex hsmall hwasm]
  · intro heq
    rw [heq] at hrebuilt
    exact BytesN.toList_injective (hrebuilt.unique hwasm)

end Compare

/-! ## The three verdicts -/

section Agree

variable {host : Host} {docker : Docker} {request : ReproductionRequest}
  {report : ReproductionReport}

/-- What the engine has rebuilt and compared. -/
theorem exists_rebuilt (h : reproduce host docker request = .ok report) :
    ∃ container artifact wasm, extractWasm host docker container = .ok (artifact, wasm) ∧
      report.rebuiltWasmSha256 = sha256Hex host wasm ∧
      report.expectedWasmSha256 = toLowercase host request.expectedWasmSha256 ∧
      (report.result = .verified ↔ report.rebuiltWasmSha256 = report.expectedWasmSha256) := by
  obtain ⟨-, -, source, -, -, -, container, run, -, artifact, wasm, hwasm, -, rfl⟩ :=
    reproduce_eq_ok.1 h
  have hdiffer : VerificationResult.verified ≠ .mismatch := by decide
  exact ⟨container, artifact, wasm, hwasm, rfl, rfl, hdiffer.ite_eq_left_iff⟩

/-- The status that is stored is the engine's result. -/
theorem statusAt_verified_iff (db : Db) (now : ℕ) {id : ℕ} (hrow : (db.statusAt id).isSome = true) :
    (db.complete now id (statusOf report) report).statusAt id = some .verified ↔
      report.result = .verified := by
  have hdiffer : JobStatus.verified ≠ .mismatch := by decide
  obtain ⟨status, hstatus⟩ := Option.isSome_iff_exists.1 hrow
  rw [statusAt_complete, if_pos rfl, hstatus, Option.map_some, Option.some_inj, statusOf]
  exact hdiffer.ite_eq_left_iff

theorem registryMatches {wasmHash rebuiltHash : Bytes32} {matched : Prop}
    (h : rebuiltHash = wasmHash ↔ matched) : RegistryMatches wasmHash rebuiltHash matched where
  derived := h
  alone Address cfg verifier ledger now hclosed hquorum := by
    simp only [Registry.verdict, List.length_singleton, List.forall_mem_singleton]
    rw [if_neg (by omega), if_neg (by omega), if_pos trivial]

/-- The row of a claim that is queued. -/
theorem enqueue_row (hhex : host.hex.Documented) {claim : Claim} (now : ℕ) {db : Db} {id : ℕ}
    (hclaim : Claim.fromReport host.hex host.sha256 report = .ok claim) (hid : id ∉ db.queuedIds) :
    ∃ row, (enqueue host now db id report).attestations.get? db.attestations.nextId = some row ∧
      row.verificationId = id ∧ row.wasmHash = host.hex.encode claim.wasmHash.toList ∧
      row.rebuiltHash = host.hex.encode claim.rebuiltHash.toList := by
  have hfree : ¬ ∃ row ∈ db.attestations.rows, row.verificationId = id := by
    rintro ⟨row, hrow, rfl⟩
    exact hid (List.mem_map_of_mem hrow)
  simp only [enqueue, hclaim, Db.enqueueAttestation, if_neg hfree, toLowercase_encode hhex,
    Table.get?_insert, if_true]
  exact ⟨_, rfl, rfl, rfl, rfl⟩

/-- Whoever reads the row of a claim that was queued has the hashes of the claim. -/
theorem queued_matches (hhex : host.hex.Documented) {claim : Claim} {matched : Prop}
    (hclaim : Claim.fromReport host.hex host.sha256 report = .ok claim)
    (hsame : claim.rebuiltHash = claim.wasmHash ↔ matched) (db : Db) (now : ℕ) {id : ℕ}
    (hid : id ∉ db.queuedIds) :
    ∃ row, (enqueue host now db id report).attestations.get? db.attestations.nextId = some row ∧
      row.verificationId = id ∧
      Spells row.wasmHash claim.wasmHash.toList ∧
      Spells row.rebuiltHash claim.rebuiltHash.toList ∧
      ∀ submission : Submission, submission.Spelled row →
        RegistryMatches submission.wasmHash submission.rebuiltHash matched := by
  obtain ⟨row, hget, hrowId, hwasmHash, hrebuiltHash⟩ := enqueue_row hhex now hclaim hid
  have hspellsWasm : Spells row.wasmHash claim.wasmHash.toList := by
    rw [hwasmHash]
    exact spells_encode hhex _
  have hspellsRebuilt : Spells row.rebuiltHash claim.rebuiltHash.toList := by
    rw [hrebuiltHash]
    exact spells_encode hhex _
  refine ⟨row, hget, hrowId, hspellsWasm, hspellsRebuilt, fun submission hspelled => ?_⟩
  rw [BytesN.toList_injective (hspelled.wasmHash.unique hspellsWasm),
    BytesN.toList_injective (hspelled.rebuiltHash.unique hspellsRebuilt)]
  exact registryMatches hsame

/-- **The three verdicts agree**, on every hash that is expected. -/
theorem verdicts_agree (hhex : host.hex.Documented) (hlower : LowersApart host.unicodeLower)
    (h : reproduce host docker request = .ok report) :
    (∃ container artifact wasm, extractWasm host docker container = .ok (artifact, wasm) ∧
      report.rebuiltWasmSha256 = sha256Hex host wasm) ∧
    (report.result = .verified ↔
      eqIgnoreAsciiCase report.rebuiltWasmSha256 request.expectedWasmSha256) ∧
    (∀ (db : Db) (now id : ℕ), (db.statusAt id).isSome = true →
      ((db.complete now id (statusOf report) report).statusAt id = some .verified ↔
        report.result = .verified)) ∧
    ∀ claim, Claim.fromReport host.hex host.sha256 report = .ok claim →
      RegistryMatches claim.wasmHash claim.rebuiltHash (report.result = .verified) ∧
      ∀ (db : Db) (now id : ℕ), id ∉ db.queuedIds →
        ∃ row, (enqueue host now db id report).attestations.get? db.attestations.nextId =
            some row ∧ row.verificationId = id ∧
          Spells row.wasmHash claim.wasmHash.toList ∧
          Spells row.rebuiltHash claim.rebuiltHash.toList ∧
          ∀ submission : Submission, submission.Spelled row →
            RegistryMatches submission.wasmHash submission.rebuiltHash
              (report.result = .verified) := by
  obtain ⟨container, artifact, wasm, hwasm, hrebuilt, hexpected, hresult⟩ := exists_rebuilt h
  refine ⟨⟨container, artifact, wasm, hwasm, hrebuilt⟩, ?_,
    fun db now id hrow => statusAt_verified_iff db now hrow, fun claim hclaim => ?_⟩
  · rw [hresult, hrebuilt, hexpected]
    exact encode_eq_toLowercase_iff hhex hlower _ _
  · obtain ⟨-, -, -, hwasmHash, -, hrebuiltHash, -⟩ := (Claim.fromReport_eq_ok hhex).1 hclaim
    rw [hexpected] at hwasmHash
    rw [hrebuilt] at hrebuiltHash
    have hsame : claim.rebuiltHash = claim.wasmHash ↔ report.result = .verified := by
      rw [hresult, hrebuilt, hexpected]
      exact hash_eq_iff hhex hlower hrebuiltHash hwasmHash
    exact ⟨registryMatches hsame,
      fun db now id hid => queued_matches hhex hclaim hsame db now hid⟩

end Agree

namespace Sample

/-- The run next to a daemon that lists the pinned reference alone is a match for the engine, in the
database and on the ledger. -/
theorem alone_matches :
    alone.report.result = .verified ∧
      ∀ (db : Db) (now id : ℕ), (db.statusAt id).isSome = true →
        (db.complete now id (statusOf alone.report) alone.report).statusAt id = some .verified := by
  have hlower : LowersApart host.unicodeLower :=
    fun s ⟨c, hc, hbig⟩ => ⟨c, hc, Or.inl hbig⟩
  obtain ⟨-, hengine, hstored, hchain⟩ :=
    verdicts_agree hexCrate_documented hlower alone.reproduced
  have hderived := (hchain _ (fromReport_reproduction alone_firstPins)).1.derived
  have hverified : alone.report.result = .verified := hderived.1 rfl
  exact ⟨hverified, fun db now id hrow => (hstored db now id hrow).2 hverified⟩

end Sample

end Api
end Sorofy
