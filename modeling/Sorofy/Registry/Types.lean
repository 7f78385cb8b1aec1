import Mathlib.Data.Int.Notation
import Mathlib.Logic.Function.Basic
import Sorofy.Foundation.Bytes

/-!
# The registry's data

The contract types of `contracts/registry/src/lib.rs`: the errors, the configuration, the
records kept in storage with the key each is kept under, and the published events.

An address is whatever the host says it is, so it is a type variable.  A `u32` is a natural
number and an `i128` an integer; where the contract computes with them, the computation is
checked against `u32Max` and `i128Max` (`Registry.Host`).
-/

namespace Sorofy
namespace Registry

open Foundation

/-- A sha256 digest, or anything else `BytesN<32>` holds. -/
abbrev Bytes32 := BytesN 32

/-- `u32::MAX`. -/
def u32Max : ℕ := 4294967295

/-- `i128::MAX`. -/
def i128Max : ℤ := 170141183460469231731687303715884105727

/-- `i128::MIN`. -/
def i128Min : ℤ := -170141183460469231731687303715884105728

/-- `BPS_DENOMINATOR`. -/
def bpsDenominator : ℤ := 10000

/-- `MIN_QUORUM`: fewer than three attesters cannot form a strict majority that is also a
quorum. -/
def minQuorum : ℕ := 3

/-- The contract's errors. -/
inductive Error where
  | invalidAmount
  | notActive
  | windowClosed
  | alreadyAttested
  | insufficientStake
  | nothingToWithdraw
  | stillUnbonding
  | claimNotDecided
  | notAttested
  | notDissenter
  | alreadySlashed
  | nothingToSlash
  | invalidConfig
  deriving DecidableEq, Repr

/-- Parameters, fixed at construction. -/
structure Config (Address : Type) where
  token : Address
  minStake : ℤ
  quorum : ℕ
  attestWindow : ℕ
  unbondPeriod : ℕ
  slashBps : ℕ
  deriving DecidableEq

/-- A verifier's stake: the active part, the part that waits out the unbonding period, and the
ledger from which the waiting part can be withdrawn. -/
structure StakeInfo where
  staked : ℤ
  unbonding : ℤ
  releaseLedger : ℕ
  deriving DecidableEq, Repr

/-- One attestation on a claim. -/
structure Attestation (Address : Type) where
  verifier : Address
  rebuiltHash : Bytes32
  ledger : ℕ
  deriving DecidableEq

/-- Counts around a claim's attestations; `topCount` is how many hold the most common hash. -/
structure Tally where
  total : ℕ
  topCount : ℕ
  distinct : ℕ
  deriving DecidableEq, Repr

/-- What a consumer should believe about a claim.  Only `verified` is green. -/
inductive Consensus where
  | noClaim
  | open (tally : Tally)
  | insufficient (tally : Tally)
  | verified
  | mismatch
  | disputed (tally : Tally)
  deriving DecidableEq, Repr

/-- The keys records are stored under. -/
inductive DataKey (Address : Type) where
  | config
  | stake (verifier : Address)
  | opened (wasmHash inputDigest : Bytes32)
  | attesters (wasmHash inputDigest : Bytes32)
  | att (wasmHash inputDigest : Bytes32) (verifier : Address)
  | slashed (wasmHash inputDigest : Bytes32) (verifier : Address)
  deriving DecidableEq

/-- What is stored under a key. -/
@[reducible] def DataKey.Value {Address : Type} : DataKey Address → Type
  | .config => Config Address
  | .stake _ => StakeInfo
  | .opened _ _ => ℕ
  | .attesters _ _ => List Address
  | .att _ _ _ => Attestation Address
  | .slashed _ _ _ => Bool

/-- A storage area: at most one record under each key. -/
def Storage (Address : Type) : Type := (k : DataKey Address) → Option k.Value

namespace Storage

variable {Address : Type}

/-- The storage area of a fresh contract. -/
def empty : Storage Address := fun _ => none

/-- The record under a key. -/
def get (st : Storage Address) (k : DataKey Address) : Option k.Value := st k

variable [DecidableEq Address]

/-- Set the record under a key. -/
def set (st : Storage Address) (k : DataKey Address) (v : k.Value) : Storage Address :=
  Function.update st k (some v)

@[simp] theorem get_set_self (st : Storage Address) (k : DataKey Address) (v : k.Value) :
    (st.set k v).get k = some v :=
  Function.update_self _ _ _

/-- Setting one record leaves the others. -/
@[simp] theorem get_set_of_ne (st : Storage Address) {k k' : DataKey Address} (v : k.Value)
    (h : k' ≠ k) : (st.set k v).get k' = st.get k' :=
  Function.update_of_ne h _ _

omit [DecidableEq Address] in
@[simp] theorem get_empty (k : DataKey Address) : (empty : Storage Address).get k = none := rfl

end Storage

/-- The contract's events. -/
inductive Event (Address : Type) where
  | staked (verifier : Address) (amount : ℤ)
  | unstakeRequested (verifier : Address) (amount : ℤ) (releaseLedger : ℕ)
  | withdrawn (verifier : Address) (amount : ℤ)
  | attested (verifier : Address) (wasmHash inputDigest rebuiltHash : Bytes32)
  | slashed (verifier : Address) (wasmHash inputDigest : Bytes32) (amount : ℤ)
  deriving DecidableEq

end Registry
end Sorofy
