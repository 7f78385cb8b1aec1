import Sorofy.Api.Claim

/-!
# The image a claim is bound to

The digest that binds a claim to its build image passes through four hands: the request names a
reference, the daemon lists every reference it knows the image by, `Docker::image_digest` takes
one of them into the report, and `Claim::from_report` reads the digest it is pinned by.

The report's field is documented as the digest the daemon resolved the request's image to, the
honest pin for the record.  But `image_digest` takes the first reference listed, whatever image
was asked for, so that is what a claim is bound to.  It is the request's own pin exactly when the
first reference listed carries the same digest, and two verifiers of one request file the same
digest exactly when the first references their daemons list carry the same one.

A `Reproduction` is a run of `reproduce` that returned, with what its daemon lists.
-/

namespace Sorofy
namespace Api

open Foundation VerifierCore
open Registry (Bytes32 Fits)

/-- A run of one request that returned a report, on a machine whose daemon lists these references
for the request's image. -/
structure Reproduction (request : ReproductionRequest) where
  host : Host
  docker : Docker
  report : ReproductionReport
  digests : List String
  reproduced : reproduce host docker request = .ok report
  listed : docker.repoDigests request.bldimg = .ok digests

/-- The first reference listed is pinned by this digest. -/
def FirstPins (digests : List String) (digest : Bytes32) : Prop :=
  ∃ first ∈ digests.head?, Pins first digest

instance (digests : List String) (digest : Bytes32) : Decidable (FirstPins digests digest) :=
  inferInstanceAs (Decidable (∃ first ∈ digests.head?, Pins first digest))

/-- A reference is pinned by one digest. -/
theorem Pins.unique {reference : String} {d d' : Bytes32} (h : Pins reference d)
    (h' : Pins reference d') : d = d' := by
  obtain ⟨repo, digits, hcut, hd⟩ := h
  obtain ⟨repo', digits', hcut', hd'⟩ := h'
  have hpair : (repo, digits) = (repo', digits') :=
    Option.some.inj (hcut.symm.trans hcut')
  rw [(Prod.mk.inj hpair).2] at hd
  exact BytesN.toList_injective (hd.unique hd')

theorem FirstPins.unique {digests : List String} {d d' : Bytes32} (h : FirstPins digests d)
    (h' : FirstPins digests d') : d = d' := by
  obtain ⟨first, hfirst, hd⟩ := h
  obtain ⟨first', hfirst', hd'⟩ := h'
  have heq : first = first' := Option.some.inj (hfirst.symm.trans hfirst')
  rw [heq] at hd
  exact hd.unique hd'

section Documented

variable {hex : HexCrate} (hhex : hex.Documented) {request : ReproductionRequest}

include hhex

/-- A claim is bound to the digest of the first reference listed. -/
theorem Reproduction.imageDigest_iff (v : Reproduction request) (digest : Bytes32) :
    Claim.imageDigest hex v.report = .ok digest ↔ FirstPins v.digests digest := by
  rw [Claim.imageDigest_eq_ok hhex, bldimgDigest_of_reproduce v.reproduced v.listed]
  rfl

/-- The question a claim is filed under has the image of the first reference listed. -/
theorem Reproduction.question (v : Reproduction request) {sha256 : Sha256} {claim : Claim}
    (h : Claim.fromReport hex sha256 v.report = .ok claim) :
    ∃ source image, Spells v.report.sourceSha256 source.toList ∧ FirstPins v.digests image ∧
      claim.inputDigest = inputDigest sha256 source image request.bldopt := by
  obtain ⟨image, source, himage, -, hsource, -, hdigest⟩ := (Claim.fromReport_eq_ok hhex).1 h
  rw [bldopt_of_reproduce v.reproduced] at hdigest
  exact ⟨source, image, hsource, (v.imageDigest_iff hhex image).1 himage, hdigest⟩

/-- Two verifiers of one request file one digest exactly when their daemons list first references
pinned by one digest. -/
theorem Reproduction.sameDigest_iff (v w : Reproduction request)
    (hsource : v.report.sourceSha256 = w.report.sourceSha256)
    (hfits : Fits (request.bldopt.map utf8)) {sha256 : Sha256}
    (hfree : ∀ source image image', Spells v.report.sourceSha256 source.toList →
      FirstPins v.digests image → FirstPins w.digests image' →
      NoCollision sha256 (inputBytes source image request.bldopt)
        (inputBytes source image' request.bldopt))
    {claim claim' : Claim} (hv : Claim.fromReport hex sha256 v.report = .ok claim)
    (hw : Claim.fromReport hex sha256 w.report = .ok claim') :
    claim.inputDigest = claim'.inputDigest ↔
      ∃ digest, FirstPins v.digests digest ∧ FirstPins w.digests digest := by
  obtain ⟨source, image, hs, hi, hdigest⟩ := v.question hhex hv
  obtain ⟨source', image', hs', hi', hdigest'⟩ := w.question hhex hw
  rw [← hsource] at hs'
  have hss : source' = source := BytesN.toList_injective (hs'.unique hs)
  subst hss
  rw [hdigest, hdigest']
  constructor
  · intro heq
    have hbytes := hfree source' image image' hs hi hi' heq
    have himages := (inputBytes_inj hfits hfits).1 hbytes
    exact ⟨image, hi, by rw [himages.2.1]; exact hi'⟩
  · rintro ⟨digest, hd, hd'⟩
    rw [hi.unique hd, hi'.unique hd']

/-- **When a claim is bound to the request's pin.**  On every request, machine and list, the
claim's image is a digest exactly when the first reference listed is pinned by it; and of two
verifiers of one request, whose source hashes agree and on whose questions sha256 does not
collide, the claims have the same digest exactly when both first references are pinned by one
digest. -/
theorem image_is_pin_iff (request : ReproductionRequest) :
    (∀ (v : Reproduction request) (pin : Bytes32),
      Claim.imageDigest hex v.report = .ok pin ↔ FirstPins v.digests pin) ∧
    ∀ (v w : Reproduction request) (sha256 : Sha256) (claim claim' : Claim),
      v.report.sourceSha256 = w.report.sourceSha256 → Fits (request.bldopt.map utf8) →
      (∀ source image image', Spells v.report.sourceSha256 source.toList →
        FirstPins v.digests image → FirstPins w.digests image' →
        NoCollision sha256 (inputBytes source image request.bldopt)
          (inputBytes source image' request.bldopt)) →
      Claim.fromReport hex sha256 v.report = .ok claim →
      Claim.fromReport hex sha256 w.report = .ok claim' →
      (claim.inputDigest = claim'.inputDigest ↔
        ∃ pin, FirstPins v.digests pin ∧ FirstPins w.digests pin) := by
  constructor
  · intro v pin
    exact v.imageDigest_iff hhex pin
  · intro v w sha256 claim claim' hsource hfits hfree hv hw
    exact v.sameDigest_iff hhex w hsource hfits hfree hv hw

end Documented

namespace Sample

/-- The digest another registry knows the same image by. -/
def mirrorImage : Bytes32 :=
  .fill 32 0xee

/-- The module that is rebuilt: an empty one. -/
def wasm : List UInt8 :=
  [0x00, 0x61, 0x73, 0x6d, 0x01, 0x00, 0x00, 0x00]

/-- Its hash. -/
def wasmHash : Bytes32 :=
  digestOf 0x93a44bbb96c751218e4c00d479e4c14358122a389acca16205b1e4d0dc5f9476

/-- sha256 of the module and of the two questions. -/
def jobSha256 (bytes : List UInt8) : Bytes32 :=
  if bytes = wasm then wasmHash
  else if bytes = inputBytes vrfySource mirrorImage ["--package=vrfy-token"] then
    digestOf 0x49e359680a93d0120f1cfd531b3b63f9298c17a14b54fa6695ab094175785fda
  else sha256 bytes

/-- A reference to an image. -/
def pinned (repo : String) (digest : Bytes32) : String :=
  repo ++ "@sha256:" ++ hexCrate.encode digest.toList

/-- A pinned request. -/
def request : ReproductionRequest where
  source := .git "https://github.com/erdemasik001/Sorofy" "main"
  bldimg := pinned "ghcr.io/erdemasik001/sorofy-build-image" vrfyImage
  bldopt := ["--package=vrfy-token"]
  expectedWasmSha256 := hexCrate.encode wasmHash.toList
  allowUnpinnedImage := false
  emitWasm := none

/-- The source it is built from. -/
def source : SourceArchive where
  tar := []
  sha256 := hexCrate.encode vrfySource.toList

/-- A machine on which the source and the build are what they should be. -/
def host : Host where
  hex := hexCrate
  sha256 := jobSha256
  unicodeLower := id
  verifyFetchNetwork := none
  uniqueToken := "1-0"
  fetch _ := .ok source
  tarEntries _ := .ok [.ok ⟨true, .ok "release/vrfy_token.wasm", .ok wasm⟩]
  writeFile _ _ := .ok ()

/-- Its daemon, which knows the image by these references. -/
def docker (digests : List String) : Docker where
  preflight := .ok ()
  createVolume _ := .ok ()
  create spec := .ok (spec.entrypoint.getD "stellar")
  putArchive _ _ _ := .ok ()
  runToCompletion _ := .ok ⟨0, ""⟩
  getArchive _ _ := .ok []
  repoDigests _ := .ok digests

theorem pins_pinned {repo : String} (hrepo : '@' ∉ repo.toList) (digest : Bytes32) :
    Pins (pinned repo digest) digest :=
  pins_encode hexCrate_documented hrepo digest

theorem request_pinned : Pins request.bldimg vrfyImage :=
  pins_pinned (by decide) vrfyImage

theorem selectWasm_host : selectWasmFromTar host [] = .ok ("release/vrfy_token.wasm", wasm) := by
  decide +kernel

/-- The run of the request next to such a daemon. -/
def reproduction (digests : List String) : Reproduction request where
  host := host
  docker := docker digests
  report := finish host (docker digests) request source ⟨0, ""⟩ "release/vrfy_token.wasm" wasm
  digests := digests
  reproduced :=
    reproduce_eq_ok.2 ⟨Or.inr request_pinned.contains, rfl, source, rfl, rfl, rfl, "stellar",
      ⟨0, ""⟩, rfl, "release/vrfy_token.wasm", wasm, selectWasm_host, rfl, rfl⟩
  listed := rfl

/-- The claim filed under an image. -/
def claimOn (image : Bytes32) : Claim where
  wasmHash := wasmHash
  inputDigest := inputDigest jobSha256 vrfySource image ["--package=vrfy-token"]
  rebuiltHash := wasmHash

/-- A claim is filed under the image of the first reference listed. -/
theorem fromReport_reproduction {digest : Bytes32} {digests : List String}
    (h : FirstPins digests digest) :
    Claim.fromReport hexCrate jobSha256 (reproduction digests).report = .ok (claimOn digest) := by
  have himage : Claim.imageDigest hexCrate (reproduction digests).report = .ok digest :=
    ((reproduction digests).imageDigest_iff hexCrate_documented digest).2 h
  have hexpected : Spells (toLowercase host (hexCrate.encode wasmHash.toList)) wasmHash.toList := by
    decide +kernel
  have hsource : Spells source.sha256 vrfySource.toList :=
    spells_encode hexCrate_documented vrfySource.toList
  have hrebuilt : Spells (sha256Hex host wasm) wasmHash.toList :=
    spells_encode hexCrate_documented wasmHash.toList
  exact (Claim.fromReport_eq_ok hexCrate_documented).2
    ⟨digest, vrfySource, himage, hexpected, hsource, hrebuilt, rfl⟩

/-- A daemon that lists the pinned reference alone. -/
def alone : Reproduction request :=
  reproduction [request.bldimg]

/-- A daemon that first lists a mirror, which stores the image under this digest. -/
def mirrored (digest : Bytes32) : Reproduction request :=
  reproduction [pinned "localhost:5000/mirror" digest, request.bldimg]

theorem alone_firstPins : FirstPins alone.digests vrfyImage :=
  ⟨_, rfl, request_pinned⟩

theorem mirrored_firstPins (digest : Bytes32) : FirstPins (mirrored digest).digests digest :=
  ⟨_, rfl, pins_pinned (by decide) digest⟩

/-- Where the first reference listed carries the pin, whatever repository it names, the claim is
bound to the pin, and filed with the claim of a verifier whose daemon lists the pinned reference
alone. -/
theorem mirror_with_the_pin :
    Claim.imageDigest hexCrate (mirrored vrfyImage).report = .ok vrfyImage ∧
      ∃ claim claim',
        Claim.fromReport hexCrate jobSha256 (mirrored vrfyImage).report = .ok claim ∧
        Claim.fromReport hexCrate jobSha256 alone.report = .ok claim' ∧
        claim.inputDigest = claim'.inputDigest := by
  have hmirror := mirrored_firstPins vrfyImage
  have halone := alone_firstPins
  obtain ⟨himage, hdigest⟩ := image_is_pin_iff hexCrate_documented request
  have hclaim := fromReport_reproduction hmirror
  have hclaim' := fromReport_reproduction halone
  refine ⟨(himage (mirrored vrfyImage) vrfyImage).2 hmirror, _, _, hclaim, hclaim', ?_⟩
  refine (hdigest (mirrored vrfyImage) alone jobSha256 _ _ rfl (by decide) ?_ hclaim hclaim').2
    ⟨vrfyImage, hmirror, halone⟩
  intro source image image' _ hi hi' _
  rw [hi.unique hmirror, hi'.unique halone]

/-- Where another reference is listed first, the claim is bound to another image, and filed under
another digest than the claim of a verifier whose daemon lists the pinned reference alone. -/
theorem mirror_listed_first :
    Pins request.bldimg vrfyImage ∧ request.bldimg ∈ (mirrored mirrorImage).digests ∧
      Claim.imageDigest hexCrate (mirrored mirrorImage).report = .ok mirrorImage ∧
      mirrorImage ≠ vrfyImage ∧
      ∃ claim claim',
        Claim.fromReport hexCrate jobSha256 (mirrored mirrorImage).report = .ok claim ∧
        Claim.fromReport hexCrate jobSha256 alone.report = .ok claim' ∧
        claim.inputDigest ≠ claim'.inputDigest := by
  have hlisted : request.bldimg ∈ (mirrored mirrorImage).digests :=
    List.mem_cons_of_mem _ List.mem_cons_self
  have himage := ((mirrored mirrorImage).imageDigest_iff hexCrate_documented mirrorImage).2
    (mirrored_firstPins mirrorImage)
  have hdigests : (claimOn mirrorImage).inputDigest ≠ (claimOn vrfyImage).inputDigest := by
    decide +kernel
  exact ⟨request_pinned, hlisted, himage, by decide +kernel, _, _,
    fromReport_reproduction (mirrored_firstPins mirrorImage),
    fromReport_reproduction alone_firstPins, hdigests⟩

end Sample

end Api
end Sorofy
