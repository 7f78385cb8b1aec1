import Sorofy.Registry.Slashing

/-!
# Checked arithmetic

The crate is compiled with overflow checks, so an addition or a product that does not fit traps
the call.  Two kinds of bounds keep that from happening.

What the contract computes from amounts is bounded by the token: an account is at most the
registry's balance, which is an `i128`.  So the sums and differences of `stake`, `request_unstake`
and `slash` always fit, and only the product with `slash_bps` can go beyond.

What it computes from ledgers is bounded by nothing.  The constructor accepts any window and any
unbonding period, up to `u32::MAX`, and a claim whose close is beyond the last ledger makes
`attest`, `consensus` and `slash` trap, just as a release beyond it makes `request_unstake` trap.
-/

namespace Sorofy
namespace Registry

open Foundation
open History
open Plurality

variable {Address : Type} [DecidableEq Address] {T : Token Address}
variable {registry : Address} {env : Env Address} {cfg : Config Address} {w : World T}

/-! ## Where each entry point computes -/

theorem stake_eq_overflow (hcfg : w.instanceStorage.get .config = some cfg) {v : Address}
    {amount : ℤ} : stake env v amount w = .trap .overflow ↔
      Authorized env v ∧ 0 < amount ∧
      ∃ t, T.transfer w.token v env.currentContractAddress amount = some t ∧
        ¬ InI128 ((readStake w.persistent v).staked + amount) := by
  simp [stake, requireAuth, transfer, checkedI128, put, publish, readConfig, hcfg, InI128,
    Authorized, and_assoc]

theorem requestUnstake_eq_overflow (hcfg : w.instanceStorage.get .config = some cfg)
    {v : Address} {amount : ℤ} : requestUnstake env v amount w = .trap .overflow ↔
      Authorized env v ∧ 0 < amount ∧ amount ≤ (readStake w.persistent v).staked ∧
      (¬ InI128 ((readStake w.persistent v).staked - amount) ∨
        InI128 ((readStake w.persistent v).staked - amount) ∧
        (¬ InI128 ((readStake w.persistent v).unbonding + amount) ∨
          InI128 ((readStake w.persistent v).unbonding + amount) ∧
          u32Max < env.sequence + cfg.unbondPeriod)) := by
  simp [requestUnstake, requireAuth, checkedI128, checkedU32, put, publish, readConfig, hcfg,
    InI128, Authorized, and_assoc]

/-- `withdraw` computes nothing. -/
theorem withdraw_ne_overflow {v : Address} : withdraw env v w ≠ .trap .overflow := by
  simp [withdraw, requireAuth, transfer, put, publish, readConfig]

theorem enterWindow_eq_overflow {wasmHash inputDigest : Bytes32} :
    enterWindow env cfg wasmHash inputDigest w = .trap .overflow ↔
      ∃ opened, w.persistent.get (.opened wasmHash inputDigest) = some opened ∧
        u32Max < opened + cfg.attestWindow := by
  cases h : w.persistent.get (.opened wasmHash inputDigest) with
  | none => simp [enterWindow, get, put, h]
  | some opened => simp [enterWindow, get, h, checkedU32]

theorem attest_overflow (hcfg : w.instanceStorage.get .config = some cfg) {v : Address}
    {wasmHash inputDigest rebuiltHash : Bytes32}
    (h : attest env v wasmHash inputDigest rebuiltHash w = .trap .overflow) :
    ∃ opened, w.persistent.get (.opened wasmHash inputDigest) = some opened ∧
      u32Max < opened + cfg.attestWindow := by
  have hwindow : enterWindow env cfg wasmHash inputDigest w = .trap .overflow := by
    simp [attest, requireAuth, get, put, publish, readConfig, hcfg] at h
    exact h.2.2
  exact enterWindow_eq_overflow.mp hwindow

/-! ## In a reachable state -/

section Runs

variable {s₀ s : Chain T} {h : List (Transition (Chain T) (Input Address))}

/-- An account is an `i128`. -/
theorem Run.total_le (hT : T.Exact) (hfits : T.FitsI128) (hrun : Run registry cfg s₀ h s)
    (v : Address) : (readStake s.world.persistent v).total ≤ i128Max :=
  (hrun.account_le_balance hT (hfits _ _).1 v).trans (hfits _ _).2

/-- What the token transferred can be added to the stake. -/
theorem Run.stake_ne_overflow (hT : T.Exact) (hfits : T.FitsI128) (hrun : Run registry cfg s₀ h s)
    (henv : env.currentContractAddress = registry) (v : Address) (amount : ℤ) :
    stake env v amount s.world ≠ .trap .overflow := by
  intro htrap
  obtain ⟨hsound, -⟩ := hrun.refines
  obtain ⟨⟨hself, -⟩, hpos, t, ht, hnot⟩ := (stake_eq_overflow hsound.coherent.config_eq).mp htrap
  have hbalance := hT.balance_transfer ht registry
  rw [henv] at hself
  rw [if_neg (Ne.symm hself), henv, if_pos rfl] at hbalance
  have hheld := hrun.account_le_balance hT (hfits _ _).1 v
  have hlimit := (hfits t registry).2
  have hstaked := (hsound.nonneg v).staked
  have hunbonding := (hsound.nonneg v).unbonding
  simp only [StakeInfo.total] at hheld
  exact hnot (inI128_of_nonneg (by omega) (by omega))

/-- What is staked can be moved to what waits. -/
theorem Run.requestUnstake_overflow (hT : T.Exact) (hfits : T.FitsI128)
    (hrun : Run registry cfg s₀ h s) {v : Address} {amount : ℤ}
    (htrap : requestUnstake env v amount s.world = .trap .overflow) :
    u32Max < env.sequence + cfg.unbondPeriod := by
  obtain ⟨hsound, -⟩ := hrun.refines
  obtain ⟨-, hpos, hle, hcases⟩ := (requestUnstake_eq_overflow hsound.coherent.config_eq).mp htrap
  have hlimit := hrun.total_le hT hfits v
  have hstaked := (hsound.nonneg v).staked
  have hunbonding := (hsound.nonneg v).unbonding
  simp only [StakeInfo.total] at hlimit
  rcases hcases with hnot | ⟨-, hnot | ⟨-, hover⟩⟩
  · exact absurd (inI128_of_nonneg (by omega) (by omega)) hnot
  · exact absurd (inI128_of_nonneg (by omega) (by omega)) hnot
  · exact hover

/-- **Where the arithmetic can overflow**, in every reachable state over an `i128` token: in no
computation with stakes except the product with `slash_bps`, and otherwise in the release ledger,
in a claim's close, and in doubling a count. -/
theorem Run.overflows_only (hT : T.Exact) (hfits : T.FitsI128) (hrun : Run registry cfg s₀ h s)
    (henv : env.currentContractAddress = registry) (hseq : env.sequence = s.sequence) :
    (∀ v amount, stake env v amount s.world ≠ .trap .overflow) ∧
    (∀ v, withdraw env v s.world ≠ .trap .overflow) ∧
    (∀ v amount, requestUnstake env v amount s.world = .trap .overflow →
      u32Max < s.sequence + cfg.unbondPeriod) ∧
    (∀ (claim : Claim) v rebuiltHash,
      attest env v claim.1 claim.2 rebuiltHash s.world = .trap .overflow →
      ∃ opened, s.world.persistent.get (.opened claim.1 claim.2) = some opened ∧
        u32Max < opened + cfg.attestWindow) ∧
    (∀ claim : Claim, consensus env claim.1 claim.2 s.world = .trap .overflow →
      ∃ opened, s.world.persistent.get (.opened claim.1 claim.2) = some opened ∧
        u32Max < opened + cfg.attestWindow) ∧
    (∀ (claim : Claim) v, slash env claim.1 claim.2 v s.world = .trap .overflow →
      (∃ opened, s.world.persistent.get (.opened claim.1 claim.2) = some opened ∧
        u32Max < opened + cfg.attestWindow) ∨
      u32Max < 2 * largest (hashes (filed claim h)) ∨
      i128Max < ((readStake s.world.persistent v).staked +
        (readStake s.world.persistent v).unbonding) * cfg.slashBps) := by
  obtain ⟨hsound, -⟩ := hrun.refines
  obtain ⟨haccepted, -, -⟩ := hrun.deployed.sound
  have hcfg := hsound.coherent.config_eq
  refine ⟨hrun.stake_ne_overflow hT hfits henv, fun _ => withdraw_ne_overflow, ?_,
    fun _ _ _ => attest_overflow hcfg, ?_, ?_⟩
  · intro v amount htrap
    rw [← hseq]
    exact hrun.requestUnstake_overflow hT hfits htrap
  · intro claim htrap
    obtain ⟨-, first, hfirst, hover⟩ := (consensus_eq_trap hsound.coherent).mp htrap
    have hopened := (hsound.coherent.represents claim).opened
    exact ⟨first.ledger, hopened.trans (Option.map_eq_some_iff.mpr ⟨first, hfirst, rfl⟩), hover⟩
  · intro claim v htrap
    rcases (slash_eq_overflow hcfg).mp htrap with hclose | ⟨opened, -, -, -, -, hcount⟩ | ⟨-, hnot⟩
    · exact Or.inl hclose
    · rw [hrun.ballot_eq_filed] at hcount
      exact Or.inr (Or.inl hcount)
    · rw [computable_iff haccepted (hsound.nonneg v) (hrun.total_le hT hfits v)] at hnot
      exact Or.inr (Or.inr (not_le.mp hnot))

theorem Sample.dispute_overflows_only :
    stake ⟨6, 0, fun _ => true⟩ 1 i128Max (played 0 (Sample.chain 60 120) Sample.dispute).world ≠
      .trap .overflow ∧
    (requestUnstake ⟨6, 0, fun _ => true⟩ 1 1000
        (played 0 (Sample.chain 60 120) Sample.dispute).world = .trap .overflow →
      u32Max < 6 + 120) := by
  have hseq : (Env.mk 6 0 fun _ => true).sequence =
      (played 0 (Sample.chain 60 120) Sample.dispute).sequence := rfl
  obtain ⟨hstake, -, hrequest, -⟩ := (Sample.run 60 120 Sample.dispute (by decide) (by decide)
    (by decide +kernel)).overflows_only Vrfy.token_exact Vrfy.token_fitsI128 rfl hseq
  exact ⟨hstake 1 i128Max, hrequest 1 1000⟩

/-- **A window up to the last ledger.**  The constructor accepts it, a verifier stakes and attests
at ledger 1, and from then on the claim can be neither decided nor slashed on, and the stake
cannot be asked back. -/
theorem Sample.undecidable_claim :
    (Sample.config u32Max u32Max).Accepted ∧
    Run 0 (Sample.config u32Max u32Max) (Sample.chain u32Max u32Max)
      (play 0 (Sample.chain u32Max u32Max) [.call (.stake 1 1000),
        .call (.attest 1 Sample.onChain Sample.digest Sample.onChain)])
      (played 0 (Sample.chain u32Max u32Max) [.call (.stake 1 1000),
        .call (.attest 1 Sample.onChain Sample.digest Sample.onChain)]) ∧
    consensus ⟨1, 0, fun _ => true⟩ Sample.onChain Sample.digest
      (played 0 (Sample.chain u32Max u32Max) [.call (.stake 1 1000),
        .call (.attest 1 Sample.onChain Sample.digest Sample.onChain)]).world = .trap .overflow ∧
    slash ⟨1, 0, fun _ => true⟩ Sample.onChain Sample.digest 1
      (played 0 (Sample.chain u32Max u32Max) [.call (.stake 1 1000),
        .call (.attest 1 Sample.onChain Sample.digest Sample.onChain)]).world = .trap .overflow ∧
    requestUnstake ⟨1, 0, fun _ => true⟩ 1 1000
      (played 0 (Sample.chain u32Max u32Max) [.call (.stake 1 1000),
        .call (.attest 1 Sample.onChain Sample.digest Sample.onChain)]).world =
      .trap .overflow := by
  have hrun := Sample.run u32Max u32Max [.call (.stake 1 1000),
    .call (.attest 1 Sample.onChain Sample.digest Sample.onChain)] (by decide) le_rfl
    (by decide +kernel)
  refine ⟨hrun.deployed.sound.1, hrun, ?_, ?_, ?_⟩ <;>
    · rw [← Outcome.fault?_eq_some]
      decide +kernel

end Runs
end Registry
end Sorofy
