import Sorofy.Registry.Book

/-!
# When the entry points return, and what they wrote

One equivalence for each entry point: it returns exactly when the conditions it checks hold,
and then the world it leaves is this one.  Every later proof about the contract goes through
these, so none of them unfolds an entry point again.
-/

namespace Sorofy
namespace Registry

open Foundation
open Plurality

variable {Address : Type} [DecidableEq Address] {T : Token Address}
variable {env : Env Address} {cfg : Config Address} {w w' : World T}

/-- The value is an `i128`. -/
def InI128 (z : ℤ) : Prop := i128Min ≤ z ∧ z ≤ i128Max

/-- The registry may act for this verifier. -/
def Authorized (env : Env Address) (v : Address) : Prop :=
  v ≠ env.currentContractAddress ∧ env.authorized v = true

omit [DecidableEq Address] in
@[simp] theorem readConfig_eq_ok {c : Config Address} :
    readConfig w = .ok c w' ↔ w.instanceStorage.get .config = some c ∧ w = w' := by
  simp [readConfig]

theorem construct_eq_ok {token : Address} {minStake : ℤ}
    {quorum attestWindow unbondPeriod slashBps : ℕ} {u : Unit} :
    construct token minStake quorum attestWindow unbondPeriod slashBps w = .ok u w' ↔
      (Config.mk token minStake quorum attestWindow unbondPeriod slashBps).Accepted ∧
      w' = { w with
        instanceStorage := w.instanceStorage.set .config
          (.mk token minStake quorum attestWindow unbondPeriod slashBps) } := by
  simp only [construct, Tx.bind_eq_ok, Tx.demand_eq_ok, Tx.update_eq_ok, existsAndEq, exists_const,
    true_and, and_assoc, not_or, not_le, not_lt, gt_iff_lt, eq_comm (a := w')]
  constructor
  · rintro ⟨h1, h2, h3, h4, h5, h6, hw⟩
    exact ⟨⟨h1, h2, Nat.pos_of_ne_zero h3, h4, Nat.pos_of_ne_zero h5, h6⟩, hw⟩
  · rintro ⟨⟨h1, h2, h3, h4, h5, h6⟩, hw⟩
    exact ⟨h1, h2, h3.ne', h4, h5.ne', h6, hw⟩

theorem stake_eq_ok (hcfg : w.instanceStorage.get .config = some cfg) {v : Address} {amount : ℤ}
    {u : Unit} : stake env v amount w = .ok u w' ↔
      Authorized env v ∧ 0 < amount ∧
      ∃ t, T.transfer w.token v env.currentContractAddress amount = some t ∧
        InI128 ((readStake w.persistent v).staked + amount) ∧
        w' = ⟨w.instanceStorage, w.persistent.set (.stake v)
          { readStake w.persistent v with staked := (readStake w.persistent v).staked + amount },
          t, w.events ++ [.staked v amount]⟩ := by
  simp [stake, requireAuth, transfer, checkedI128, put, publish, hcfg, InI128, Authorized,
    and_assoc, eq_comm (a := w')]

theorem requestUnstake_eq_ok (hcfg : w.instanceStorage.get .config = some cfg) {v : Address}
    {amount : ℤ} {u : Unit} : requestUnstake env v amount w = .ok u w' ↔
      Authorized env v ∧ 0 < amount ∧ amount ≤ (readStake w.persistent v).staked ∧
      InI128 ((readStake w.persistent v).staked - amount) ∧
      InI128 ((readStake w.persistent v).unbonding + amount) ∧
      env.sequence + cfg.unbondPeriod ≤ u32Max ∧
      w' = ⟨w.instanceStorage, w.persistent.set (.stake v)
          ⟨(readStake w.persistent v).staked - amount,
            (readStake w.persistent v).unbonding + amount, env.sequence + cfg.unbondPeriod⟩,
          w.token,
          w.events ++ [.unstakeRequested v amount (env.sequence + cfg.unbondPeriod)]⟩ := by
  simp [requestUnstake, requireAuth, checkedI128, checkedU32, put, publish, hcfg, InI128,
    Authorized, and_assoc, eq_comm (a := w')]

theorem withdraw_eq_ok (hcfg : w.instanceStorage.get .config = some cfg) {v : Address}
    {amount : ℤ} : withdraw env v w = .ok amount w' ↔
      Authorized env v ∧ 0 < (readStake w.persistent v).unbonding ∧
      (readStake w.persistent v).releaseLedger ≤ env.sequence ∧
      ∃ t, T.transfer w.token env.currentContractAddress v
          (readStake w.persistent v).unbonding = some t ∧
        amount = (readStake w.persistent v).unbonding ∧
        w' = ⟨w.instanceStorage, w.persistent.set (.stake v)
          { readStake w.persistent v with unbonding := 0 }, t,
          w.events ++ [.withdrawn v (readStake w.persistent v).unbonding]⟩ := by
  simp [withdraw, requireAuth, transfer, put, publish, hcfg, Authorized, and_assoc,
    eq_comm (a := w'), eq_comm (a := amount)]

theorem enterWindow_eq_ok {wasmHash inputDigest : Bytes32} {u : Unit} :
    enterWindow env cfg wasmHash inputDigest w = .ok u w' ↔
      (w.persistent.get (.opened wasmHash inputDigest) = none ∧
        w' = { w with
          persistent := w.persistent.set (.opened wasmHash inputDigest) env.sequence }) ∨
      ∃ opened, w.persistent.get (.opened wasmHash inputDigest) = some opened ∧
        opened + cfg.attestWindow ≤ u32Max ∧ env.sequence < opened + cfg.attestWindow ∧
        w' = w := by
  cases h : w.persistent.get (.opened wasmHash inputDigest) with
  | none => simp [enterWindow, get, put, h, eq_comm (a := w')]
  | some opened =>
    simp only [enterWindow, get, h, checkedU32, Tx.bind_eq_ok, Tx.read_eq_ok, Tx.fit_eq_ok,
      Tx.refuseIf_eq_ok, existsAndEq, true_and, and_assoc, not_le, ge_iff_le, Option.some.injEq,
      reduceCtorEq, false_and, false_or, eq_comm (a := w')]

theorem attest_eq_ok (hcfg : w.instanceStorage.get .config = some cfg) {v : Address}
    {wasmHash inputDigest rebuiltHash : Bytes32} {u : Unit} :
    attest env v wasmHash inputDigest rebuiltHash w = .ok u w' ↔
      Authorized env v ∧ cfg.minStake ≤ (readStake w.persistent v).staked ∧
      ∃ u₁ w₁, enterWindow env cfg wasmHash inputDigest w = .ok u₁ w₁ ∧
        w₁.persistent.get (.att wasmHash inputDigest v) = none ∧
        w' = ⟨w₁.instanceStorage,
          (w₁.persistent.set (.att wasmHash inputDigest v) ⟨v, rebuiltHash, env.sequence⟩).set
            (.attesters wasmHash inputDigest)
            ((w₁.persistent.get (.attesters wasmHash inputDigest)).getD [] ++ [v]),
          w₁.token, w₁.events ++ [.attested v wasmHash inputDigest rebuiltHash]⟩ := by
  simp [attest, requireAuth, get, put, publish, hcfg, Authorized, and_assoc, eq_comm (a := w')]

/-- What `slash` requires before it looks at the verifier's stake. -/
structure Punishable (env : Env Address) (cfg : Config Address) (st : Storage Address)
    (wasmHash inputDigest : Bytes32) (v : Address) : Prop where
  closed : ∃ opened, st.get (.opened wasmHash inputDigest) = some opened ∧
    opened + cfg.attestWindow ≤ u32Max ∧ opened + cfg.attestWindow ≤ env.sequence
  quorate : cfg.quorum ≤ (readAttestations st wasmHash inputDigest).length
  countable : 2 * largest (hashes (readAttestations st wasmHash inputDigest)) ≤ u32Max
  majority : (readAttestations st wasmHash inputDigest).length <
    2 * largest (hashes (readAttestations st wasmHash inputDigest))
  dissents : ∃ att, st.get (.att wasmHash inputDigest v) = some att ∧
    att.rebuiltHash ≠ (tallyOf (readAttestations st wasmHash inputDigest)).1
  unmarked : st.get (.slashed wasmHash inputDigest v) = none

/-- The `i128` computations of `slash`, and the amount they yield. -/
structure Computes (cfg : Config Address) (info : StakeInfo) (amount : ℤ) : Prop where
  total_fits : InI128 info.total
  product_fits : InI128 (info.total * cfg.slashBps)
  amount_eq : amount = (info.total * cfg.slashBps).tdiv bpsDenominator
  pos : 0 < amount
  staked_fits : InI128 (info.staked - min amount info.staked)
  remainder_fits : InI128 (amount - min amount info.staked)
  unbonding_fits : InI128 (info.unbonding - (amount - min amount info.staked))

theorem slash_eq_ok (hcfg : w.instanceStorage.get .config = some cfg)
    {wasmHash inputDigest : Bytes32} {v : Address} {amount : ℤ} :
    slash env wasmHash inputDigest v w = .ok amount w' ↔
      Punishable env cfg w.persistent wasmHash inputDigest v ∧
      Computes cfg (readStake w.persistent v) amount ∧
      ∃ t, T.burn w.token env.currentContractAddress amount = some t ∧
        w' = ⟨w.instanceStorage,
          (w.persistent.set (.stake v) ((readStake w.persistent v).burn amount)).set
            (.slashed wasmHash inputDigest v) true,
          t, w.events ++ [.slashed v wasmHash inputDigest amount]⟩ := by
  simp only [slash, attestations, get, put, publish, burn, checkedU32, checkedI128,
    readConfig_eq_ok, hcfg, tallyOf_snd, Tx.bind_eq_ok, Tx.read_eq_ok, Tx.someOrRefuse_eq_ok,
    Tx.fit_eq_ok, Tx.refuseIf_eq_ok, Tx.update_eq_ok, Tx.pure_eq_ok, tokenCall_eq_ok, existsAndEq,
    exists_const, exists_and_left, true_and, and_assoc, Option.some.injEq]
  constructor
  · rintro ⟨opened, hopened, hfit, hclosed, hquorum, hcountable, hmajority, att, hatt, hdissent,
      hunmarked, ht1, ht2, hp1, hp2, hpos, hs1, hs2, hr1, hr2, hu1, hu2, t, ht, rfl, rfl⟩
    refine ⟨⟨⟨opened, hopened, hfit, not_lt.mp hclosed⟩, not_lt.mp hquorum, hcountable,
      not_le.mp hmajority, ⟨att, hatt, hdissent⟩, by simpa using hunmarked⟩,
      ⟨⟨ht1, ht2⟩, ⟨hp1, hp2⟩, rfl, not_le.mp hpos, ⟨hs1, hs2⟩, ⟨hr1, hr2⟩, ⟨hu1, hu2⟩⟩,
      t, ht, rfl⟩
  · rintro ⟨⟨⟨opened, hopened, hfit, hclosed⟩, hquorum, hcountable, hmajority,
      ⟨att, hatt, hdissent⟩, hunmarked⟩,
      ⟨⟨ht1, ht2⟩, ⟨hp1, hp2⟩, rfl, hpos, ⟨hs1, hs2⟩, ⟨hr1, hr2⟩, ⟨hu1, hu2⟩⟩, t, ht, rfl⟩
    exact ⟨opened, hopened, hfit, not_lt.mpr hclosed, not_lt.mpr hquorum, hcountable,
      not_le.mpr hmajority, att, hatt, hdissent, by simp [hunmarked], ht1, ht2, hp1, hp2,
      not_le.mpr hpos, hs1, hs2, hr1, hr2, hu1, hu2, t, ht, rfl, rfl⟩

/-- The `i128` computations of `slash` all fit; the last three are made only when there is
something to slash. -/
structure Computable (cfg : Config Address) (info : StakeInfo) : Prop where
  total_fits : InI128 info.total
  product_fits : InI128 (info.total * cfg.slashBps)
  parts_fit : 0 < (info.total * cfg.slashBps).tdiv bpsDenominator →
    InI128 (info.staked - min ((info.total * cfg.slashBps).tdiv bpsDenominator) info.staked) ∧
    InI128 ((info.total * cfg.slashBps).tdiv bpsDenominator -
      min ((info.total * cfg.slashBps).tdiv bpsDenominator) info.staked) ∧
    InI128 (info.unbonding - ((info.total * cfg.slashBps).tdiv bpsDenominator -
      min ((info.total * cfg.slashBps).tdiv bpsDenominator) info.staked))

omit [DecidableEq Address] in
theorem Computable.computes {info : StakeInfo} {amount : ℤ} (h : Computable cfg info)
    (hamount : amount = (info.total * cfg.slashBps).tdiv bpsDenominator) (hpos : 0 < amount) :
    Computes cfg info amount := by
  subst hamount
  obtain ⟨hstaked, hremainder, hunbonding⟩ := h.parts_fit hpos
  exact ⟨h.total_fits, h.product_fits, rfl, hpos, hstaked, hremainder, hunbonding⟩

/-- `slash` overflows in computing the close, in doubling the count, or in `i128`. -/
theorem slash_eq_overflow (hcfg : w.instanceStorage.get .config = some cfg)
    {wasmHash inputDigest : Bytes32} {v : Address} :
    slash env wasmHash inputDigest v w = .trap .overflow ↔
      (∃ opened, w.persistent.get (.opened wasmHash inputDigest) = some opened ∧
        u32Max < opened + cfg.attestWindow) ∨
      (∃ opened, w.persistent.get (.opened wasmHash inputDigest) = some opened ∧
        opened + cfg.attestWindow ≤ u32Max ∧ opened + cfg.attestWindow ≤ env.sequence ∧
        cfg.quorum ≤ (readAttestations w.persistent wasmHash inputDigest).length ∧
        u32Max < 2 * largest (hashes (readAttestations w.persistent wasmHash inputDigest))) ∨
      (Punishable env cfg w.persistent wasmHash inputDigest v ∧
        ¬ Computable cfg (readStake w.persistent v)) := by
  simp only [slash, attestations, get, put, publish, burn, checkedU32, checkedI128, readConfig,
    hcfg, tallyOf_snd, Tx.bind_eq_trap, Tx.bind_eq_ok, Tx.read_eq_ok, Tx.read_ne_trap,
    Tx.someOrTrap_eq_ok, Tx.someOrTrap_eq_trap, Tx.someOrRefuse_eq_ok, Tx.someOrRefuse_ne_trap,
    Tx.fit_eq_ok, Tx.fit_eq_trap, Tx.refuseIf_eq_ok, Tx.refuseIf_ne_trap, Tx.update_eq_ok,
    Tx.update_ne_trap, Tx.pure_ne_trap, tokenCall_eq_trap, reduceCtorEq, existsAndEq,
    exists_const, exists_and_left, exists_false, true_and, and_true, and_false, false_or, or_false, and_assoc,
    Option.some.injEq]
  constructor
  · rintro ⟨opened, hopened, hover | ⟨hfit, hclosed, hquorum, hcount | ⟨hcount, hmajority, att,
      hatt, hdissent, hunmarked, hrest⟩⟩⟩
    · exact Or.inl ⟨opened, hopened, not_le.mp hover⟩
    · exact Or.inr (Or.inl ⟨opened, hopened, hfit, not_lt.mp hclosed, not_lt.mp hquorum,
        not_le.mp hcount⟩)
    · refine Or.inr (Or.inr ⟨⟨⟨opened, hopened, hfit, not_lt.mp hclosed⟩, not_lt.mp hquorum, hcount,
        not_le.mp hmajority, ⟨att, hatt, hdissent⟩, by simpa using hunmarked⟩, ?_⟩)
      rintro ⟨htotal, hproduct, hparts⟩
      simp only [InI128, StakeInfo.total] at htotal hproduct hparts
      grind
  · rintro (⟨opened, hopened, hover⟩ | ⟨opened, hopened, hfit, hclosed, hquorum, hcount⟩ |
      ⟨⟨⟨opened, hopened, hfit, hclosed⟩, hquorum, hcount, hmajority, ⟨att, hatt, hdissent⟩,
        hunmarked⟩, hnot⟩)
    · exact ⟨opened, hopened, Or.inl (not_le.mpr hover)⟩
    · exact ⟨opened, hopened, Or.inr ⟨hfit, not_lt.mpr hclosed, not_lt.mpr hquorum,
        Or.inl (not_le.mpr hcount)⟩⟩
    · refine ⟨opened, hopened, Or.inr ⟨hfit, not_lt.mpr hclosed, not_lt.mpr hquorum, Or.inr ⟨hcount,
        not_le.mpr hmajority, att, hatt, hdissent, by simp [hunmarked], ?_⟩⟩⟩
      by_contra hrest
      refine hnot ⟨?_, ?_, ?_⟩ <;> simp only [InI128, StakeInfo.total] <;> grind

/-! ## Calls -/

/-- A returning call: its entry point returned, and the receipt shows the value. -/
def Call.Returns (env : Env Address) (w w' : World T) (value : Value) : Call Address → Prop
  | .stake v amount => Registry.stake env v amount w = .ok () w' ∧ value = .unit
  | .requestUnstake v amount => Registry.requestUnstake env v amount w = .ok () w' ∧ value = .unit
  | .withdraw v => ∃ amount, Registry.withdraw env v w = .ok amount w' ∧ value = .amount amount
  | .attest v wasmHash inputDigest rebuiltHash =>
    Registry.attest env v wasmHash inputDigest rebuiltHash w = .ok () w' ∧ value = .unit
  | .slash wasmHash inputDigest v =>
    ∃ amount, Registry.slash env wasmHash inputDigest v w = .ok amount w' ∧ value = .amount amount

theorem Call.run_eq_ok {c : Call Address} {value : Value} :
    c.run env w = .ok value w' ↔ c.Returns env w w' value := by
  have hunit : ∀ p : Unit → Prop, (∃ u, p u) ↔ p () :=
    fun p => ⟨fun ⟨_, hp⟩ => hp, fun hp => ⟨(), hp⟩⟩
  cases c <;>
    simp only [Call.run, Call.Returns, Tx.bind_eq_ok, Tx.pure_eq_ok, existsAndEq, and_true,
      hunit, eq_comm (a := value)]

end Registry
end Sorofy
