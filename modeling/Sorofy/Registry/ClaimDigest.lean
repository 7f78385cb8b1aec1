import Sorofy.Foundation.Codec
import Sorofy.Foundation.Text
import Sorofy.Registry.Types

/-!
# The claim digest

`contracts/registry/src/claim.rs`: the bytes that name the question an attestation answers.  The
registry stores and compares a digest of them and never computes one itself; the function is
there so that the layout is written down once, in code.

`Question` is what the layout is for, a source, an image and the build options in their order,
with the bounds under which their count and lengths fit the prefixes.  The host's vectors and
byte strings are no longer than that.  The layout is a prefix codec, so no two questions are
written alike (`Question.buffer_inj`), and two questions whose bytes sha256 tells apart have
different digests (`Question.digest_eq_iff`).  No sha256 tells all byte strings apart; what is
assumed is only that it tells apart the two at hand.
-/

namespace Sorofy

/-- An implementation of sha256. -/
abbrev Sha256 := List UInt8 → Registry.Bytes32

/-- These two byte strings are not a collision. -/
def NoCollision (sha256 : Sha256) (a b : List UInt8) : Prop :=
  sha256 a = sha256 b → a = b

theorem NoCollision.eq_iff {sha256 : Sha256} {a b : List UInt8} (h : NoCollision sha256 a b) :
    sha256 a = sha256 b ↔ a = b :=
  ⟨h, congrArg sha256⟩

namespace Registry

open Foundation

/-- `DOMAIN`. -/
def domain : List UInt8 :=
  utf8 "sorofy-claim-v1"

/-- The buffer `claim_input_digest` fills. -/
def claimBuffer (sourceSha256 bldimgDigest : Bytes32) (bldopt : List (List UInt8)) :
    List UInt8 :=
  let buf := domain
  let buf := buf ++ sourceSha256.toList
  let buf := buf ++ bldimgDigest.toList
  let buf := buf ++ toBeBytes bldopt.length
  bldopt.foldl (fun buf opt => buf ++ toBeBytes opt.length ++ opt) buf

/-- `claim_input_digest`. -/
def claimInputDigest (sha256 : Sha256) (sourceSha256 bldimgDigest : Bytes32)
    (bldopt : List (List UInt8)) : Bytes32 :=
  sha256 (claimBuffer sourceSha256 bldimgDigest bldopt)

/-! ## The layout -/

/-- The count and the lengths of the build options fit their prefixes. -/
def Fits (bldopt : List (List UInt8)) : Prop :=
  bldopt.length < 2 ^ 32 ∧ ∀ opt ∈ bldopt, opt.length < 2 ^ 32

instance (bldopt : List (List UInt8)) : Decidable (Fits bldopt) :=
  inferInstanceAs (Decidable (_ ∧ _))

/-- The layout behind the domain: source, image, and the counted options, each behind its
length. -/
def layout : Codec (Bytes32 × Bytes32 × List (List UInt8)) :=
  (Codec.fixed 32).pair ((Codec.fixed 32).pair Codec.frame.counted)

theorem valid_layout {source image : Bytes32} {bldopt : List (List UInt8)} :
    layout.Valid (source, image, bldopt) ↔ Fits bldopt := by
  have hframes : Codec.frame.counted.Valid bldopt ↔ Fits bldopt := by
    simp only [Codec.valid_counted, Codec.valid_frame, Fits]
  rw [← hframes]
  exact ⟨fun h => h.2.2, fun h => ⟨trivial, trivial, h⟩⟩

/-- The loop appends one frame for each option. -/
theorem foldl_options (bldopt : List (List UInt8)) (buf : List UInt8) :
    bldopt.foldl (fun buf opt => buf ++ toBeBytes opt.length ++ opt) buf =
      buf ++ bldopt.flatMap Codec.frame.encode := by
  induction bldopt generalizing buf with
  | nil => simp
  | cons opt bldopt ih =>
    rw [List.foldl_cons, ih, List.flatMap_cons, Codec.encode_frame]
    simp only [List.append_assoc]

theorem claimBuffer_eq (source image : Bytes32) (bldopt : List (List UInt8)) :
    claimBuffer source image bldopt = domain ++ layout.encode (source, image, bldopt) := by
  unfold claimBuffer
  rw [foldl_options]
  show _ = domain ++ (source.toList ++ (image.toList ++ Codec.frame.counted.encode bldopt))
  rw [Codec.encode_counted]
  simp only [List.append_assoc]

theorem claimBuffer_inj {s i s' i' : Bytes32} {o o' : List (List UInt8)} (ho : Fits o)
    (ho' : Fits o') :
    claimBuffer s i o = claimBuffer s' i' o' ↔ s = s' ∧ i = i' ∧ o = o' := by
  rw [claimBuffer_eq, claimBuffer_eq, List.append_cancel_left_eq,
    layout.encode_inj (valid_layout.2 ho) (valid_layout.2 ho'), Prod.mk.injEq, Prod.mk.injEq]

/-! ## Questions -/

/-- The **question** an attestation answers. -/
@[ext] structure Question where
  source : Bytes32
  image : Bytes32
  bldopt : List (List UInt8)
  fits : Fits bldopt

namespace Question

/-- The bytes that name the question. -/
def buffer (q : Question) : List UInt8 :=
  claimBuffer q.source q.image q.bldopt

/-- The digest attestations on the question are filed under. -/
def digest (sha256 : Sha256) (q : Question) : Bytes32 :=
  claimInputDigest sha256 q.source q.image q.bldopt

/-- **No two questions are written alike.** -/
theorem buffer_inj {q r : Question} : q.buffer = r.buffer ↔ q = r := by
  rw [Question.ext_iff]
  exact claimBuffer_inj q.fits r.fits

/-- **Questions share a digest only if they are the same**, unless sha256 collides on them. -/
theorem digest_eq_iff {sha256 : Sha256} {q r : Question}
    (h : NoCollision sha256 q.buffer r.buffer) : q.digest sha256 = r.digest sha256 ↔ q = r :=
  h.eq_iff.trans buffer_inj

end Question
end Registry
end Sorofy
