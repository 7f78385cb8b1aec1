import Sorofy.Registry.Host
import Sorofy.Registry.Tally

/-!
# The registry contract

The entry points of `contracts/registry/src/lib.rs`, statement by statement: what each one
checks, in which order, and what it writes.
-/

namespace Sorofy
namespace Registry

open Foundation

variable {Address : Type} [DecidableEq Address] {T : Token Address}

/-! ## Reading the records -/

omit [DecidableEq Address] in
/-- `read_config`. -/
def readConfig : Entry T (Config Address) := do
  let config ← Tx.read fun w => w.instanceStorage.get .config
  Tx.someOrTrap config (.panicked .invalidConfig)

/-- `read_stake`: a verifier without a record has nothing staked. -/
def readStake (st : Storage Address) (verifier : Address) : StakeInfo :=
  (st.get (.stake verifier)).getD ⟨0, 0, 0⟩

/-- `read_attestations`: the attestations of the claim's attesters, in order. -/
def readAttestations (st : Storage Address) (wasmHash inputDigest : Bytes32) :
    List (Attestation Address) :=
  let attesters := (st.get (.attesters wasmHash inputDigest)).getD []
  attesters.filterMap fun verifier => st.get (.att wasmHash inputDigest verifier)

/-! ## The constructor -/

/-- `__constructor`. -/
def construct (token : Address) (minStake : ℤ) (quorum attestWindow unbondPeriod slashBps : ℕ) :
    Entry T Unit := do
  Tx.demand
    (¬ (minStake ≤ 0 ∨ quorum < minQuorum ∨ attestWindow = 0 ∨ unbondPeriod < attestWindow ∨
      slashBps = 0 ∨ (slashBps : ℤ) > bpsDenominator))
    (.panicked .invalidConfig)
  Tx.update fun w => { w with
    instanceStorage := w.instanceStorage.set .config
      { token, minStake, quorum, attestWindow, unbondPeriod, slashBps } }

/-! ## Staking -/

/-- `stake`: lock `amount`. -/
def stake (env : Env Address) (verifier : Address) (amount : ℤ) : Entry T Unit := do
  requireAuth env verifier
  Tx.refuseIf (amount ≤ 0) .invalidAmount
  let _ ← readConfig
  transfer verifier env.currentContractAddress amount
  let info ← Tx.read fun w => readStake w.persistent verifier
  let staked ← checkedI128 (info.staked + amount)
  put (.stake verifier) { info with staked }
  publish (.staked verifier amount)

/-- `request_unstake`: start withdrawing `amount`. -/
def requestUnstake (env : Env Address) (verifier : Address) (amount : ℤ) : Entry T Unit := do
  requireAuth env verifier
  Tx.refuseIf (amount ≤ 0) .invalidAmount
  let cfg ← readConfig
  let info ← Tx.read fun w => readStake w.persistent verifier
  Tx.refuseIf (amount > info.staked) .insufficientStake
  let staked ← checkedI128 (info.staked - amount)
  let unbonding ← checkedI128 (info.unbonding + amount)
  let releaseLedger ← checkedU32 (env.sequence + cfg.unbondPeriod)
  put (.stake verifier) { staked, unbonding, releaseLedger }
  publish (.unstakeRequested verifier amount releaseLedger)

/-- `withdraw`: return everything that has finished unbonding. -/
def withdraw (env : Env Address) (verifier : Address) : Entry T ℤ := do
  requireAuth env verifier
  let _ ← readConfig
  let info ← Tx.read fun w => readStake w.persistent verifier
  Tx.refuseIf (info.unbonding ≤ 0) .nothingToWithdraw
  Tx.refuseIf (env.sequence < info.releaseLedger) .stillUnbonding
  let amount := info.unbonding
  put (.stake verifier) { info with unbonding := 0 }
  transfer env.currentContractAddress verifier amount
  publish (.withdrawn verifier amount)
  pure amount

/-! ## Attesting -/

/-- The window of a claim, as `attest` treats it: the first attestation opens it, and a later
one must still find it open. -/
def enterWindow (env : Env Address) (cfg : Config Address) (wasmHash inputDigest : Bytes32) :
    Entry T Unit := do
  match ← get (.opened wasmHash inputDigest) with
  | some opened => do
    let close ← checkedU32 (opened + cfg.attestWindow)
    Tx.refuseIf (env.sequence ≥ close) .windowClosed
  | none => put (.opened wasmHash inputDigest) env.sequence

/-- `attest`: record the hash `verifier` rebuilt for the claim. -/
def attest (env : Env Address) (verifier : Address) (wasmHash inputDigest rebuiltHash : Bytes32) :
    Entry T Unit := do
  requireAuth env verifier
  let cfg ← readConfig
  let info ← Tx.read fun w => readStake w.persistent verifier
  Tx.refuseIf (info.staked < cfg.minStake) .notActive
  enterWindow env cfg wasmHash inputDigest
  let existing ← get (.att wasmHash inputDigest verifier)
  Tx.refuseIf (existing.isSome = true) .alreadyAttested
  put (.att wasmHash inputDigest verifier) { verifier, rebuiltHash, ledger := env.sequence }
  let attesters ← get (.attesters wasmHash inputDigest)
  put (.attesters wasmHash inputDigest) (attesters.getD [] ++ [verifier])
  publish (.attested verifier wasmHash inputDigest rebuiltHash)

/-! ## Reading a claim -/

/-- `attestations`: every attestation on the claim, in the order it arrived. -/
def attestations (wasmHash inputDigest : Bytes32) : Entry T (List (Attestation Address)) :=
  Tx.read fun w => readAttestations w.persistent wasmHash inputDigest

/-- `consensus`: what a consumer should believe about the claim. -/
def consensus (env : Env Address) (wasmHash inputDigest : Bytes32) : Entry T Consensus := do
  let cfg ← readConfig
  match ← get (.opened wasmHash inputDigest) with
  | none => pure .noClaim
  | some opened => do
    let atts ← attestations wasmHash inputDigest
    let (topHash, tally) := tallyOf atts
    let close ← checkedU32 (opened + cfg.attestWindow)
    pure <|
      if env.sequence < close then .open tally
      else if tally.total < cfg.quorum then .insufficient tally
      else if tally.distinct = 1 then
        if topHash = wasmHash then .verified else .mismatch
      else .disputed tally

/-! ## Slashing -/

/-- `slash`: burn `slash_bps` of the stake of a verifier that a strict majority disagreed
with.  Returns the amount burned. -/
def slash (env : Env Address) (wasmHash inputDigest : Bytes32) (verifier : Address) :
    Entry T ℤ := do
  let cfg ← readConfig
  let opened? ← get (.opened wasmHash inputDigest)
  let opened ← Tx.someOrRefuse opened? .claimNotDecided
  let close ← checkedU32 (opened + cfg.attestWindow)
  Tx.refuseIf (env.sequence < close) .claimNotDecided
  let atts ← attestations wasmHash inputDigest
  let (topHash, tally) := tallyOf atts
  -- `||` evaluates the product only when the quorum is reached
  Tx.refuseIf (tally.total < cfg.quorum) .claimNotDecided
  let doubled ← checkedU32 (2 * tally.topCount)
  Tx.refuseIf (doubled ≤ tally.total) .claimNotDecided
  let att? ← get (.att wasmHash inputDigest verifier)
  let att ← Tx.someOrRefuse att? .notAttested
  Tx.refuseIf (att.rebuiltHash = topHash) .notDissenter
  let marked ← get (.slashed wasmHash inputDigest verifier)
  Tx.refuseIf (marked.isSome = true) .alreadySlashed
  let info ← Tx.read fun w => readStake w.persistent verifier
  let held ← checkedI128 (info.staked + info.unbonding)
  let product ← checkedI128 (held * cfg.slashBps)
  let amount := product.tdiv bpsDenominator
  Tx.refuseIf (amount ≤ 0) .nothingToSlash
  -- the active stake first, the unbonding queue for the remainder
  let fromStaked := min amount info.staked
  let staked ← checkedI128 (info.staked - fromStaked)
  let fromUnbonding ← checkedI128 (amount - fromStaked)
  let unbonding ← checkedI128 (info.unbonding - fromUnbonding)
  put (.stake verifier) { info with staked, unbonding }
  put (.slashed wasmHash inputDigest verifier) true
  burn env.currentContractAddress amount
  publish (.slashed verifier wasmHash inputDigest amount)
  pure amount

end Registry
end Sorofy
