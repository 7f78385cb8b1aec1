import Mathlib.Algebra.BigOperators.Group.Finset.Piecewise
import Mathlib.Algebra.Order.BigOperators.Group.Finset
import Mathlib.Algebra.Order.Group.Int
import Sorofy.Registry.Ballots

/-!
# Solvency

Where the money is.  Two potentials are conserved along every run: what a verifier has in the
registry, which moves by what it stakes, is paid and loses (`Run.account_conserved`), and what the
registry holds in the token, which moves by the same amounts and by what arrives from outside
(`Run.balance_conserved`).  Summed over the verifiers of a run, the first is the second, less what
came from outside.

Only finitely many verifiers have ever staked, so the sum over all of them is a sum over any finite
set that contains those.
-/

namespace Sorofy
namespace Registry

open Foundation
open History

variable {Address : Type} [DecidableEq Address] {T : Token Address}
variable {registry : Address} {cfg : Config Address}

/-! ## One verifier -/

/-- A step moves an account by what the verifier stakes, is paid and loses in it. -/
theorem Book.Step.total_eq {b b' : Book Address} {i : Input Address} (h : Book.Step cfg b i b')
    (v : Address) : (b'.account v).total = (b.account v).total + netOf v i := by
  have hset : ∀ (v' : Address) (info : StakeInfo) (d : ℤ),
      info.total = (b.account v').total + d → ((b.setAccount v' info).account v).total =
        (b.account v).total + if v' = v then d else 0 := by
    intro v' info d hd
    rw [Book.setAccount_account]
    by_cases hv : v = v'
    · subst hv
      rw [if_pos rfl, if_pos rfl, hd]
    · rw [if_neg hv, if_neg (Ne.symm hv), add_zero]
  cases h with
  | idle env c r hr =>
    cases c <;> cases r <;>
      first
        | exact absurd rfl (hr _)
        | simp [netOf, stakedBy, paidOutTo, burnedFrom]
  | stake env v' amount hpos =>
    rw [hset v' _ amount (by simp only [StakeInfo.total]; omega)]
    simp [netOf, stakedBy, paidOutTo, burnedFrom]
  | requestUnstake env v' amount hpos hle =>
    rw [hset v' _ 0 (by simp only [StakeInfo.total]; omega)]
    simp [netOf, stakedBy, paidOutTo, burnedFrom]
  | withdraw env v' hpos hrelease =>
    rw [hset v' _ (-(b.account v').unbonding) (by simp only [StakeInfo.total]; omega)]
    by_cases hv : v' = v <;> simp [netOf, stakedBy, paidOutTo, burnedFrom, hv]
  | slash env wasmHash inputDigest v' hslash hpos =>
    rw [Book.mark_account, hset v' _ (-slashAmount cfg (b.account v'))
      (by rw [StakeInfo.total_burn]; rfl)]
    by_cases hv : v' = v <;> simp [netOf, stakedBy, paidOutTo, burnedFrom, hv]
  | attest | advance | receive => simp [netOf, stakedBy, paidOutTo, burnedFrom]

/-- A payout or a burn takes at most what the verifier has. -/
theorem Book.Step.outflow_le {b b' : Book Address} {i : Input Address} (hcfg : cfg.Accepted)
    (h : Book.Step cfg b i b') (hb : ∀ v, (b.account v).Nonneg) (v : Address) :
    paidOutTo v i + burnedFrom v i ≤ (b.account v).total := by
  have hnonneg := (hb v).total
  cases h with
  | idle env c r hr =>
    cases c <;> cases r <;>
      first
        | exact absurd rfl (hr _)
        | simpa [paidOutTo, burnedFrom] using hnonneg
  | withdraw env v' hpos hrelease =>
    by_cases hv : v' = v
    · subst hv
      have hstaked := (hb v').staked
      simp only [paidOutTo, burnedFrom, if_true, StakeInfo.total]
      omega
    · simpa [paidOutTo, burnedFrom, hv] using hnonneg
  | slash env wasmHash inputDigest v' hslash hpos =>
    by_cases hv : v' = v
    · subst hv
      simpa [paidOutTo, burnedFrom] using slashAmount_le hcfg (hb v')
    · simpa [paidOutTo, burnedFrom, hv] using hnonneg
  | stake | requestUnstake | attest | advance | receive =>
    simpa [paidOutTo, burnedFrom] using hnonneg

/-! ## What the registry holds -/

/-- A step moves the registry's balance by the amount its call returned, and by nothing else. -/
theorem Step.balance_eq {s s' : Chain T} {i : Input Address} (hT : T.Exact) (hs : Sound cfg s)
    (h : Step registry s i s') :
    T.balance s'.world.token registry = T.balance s.world.token registry + inward i := by
  cases h with
  | call authorized c =>
    have hcfg := hs.coherent.config_eq
    cases hrun : c.run ⟨s.sequence, registry, authorized⟩ s.world with
    | ok value w' =>
      rw [Outcome.commit_ok, receipt]
      have hreturns := Call.run_eq_ok.mp hrun
      cases c with
      | stake v amount =>
        obtain ⟨hstake, rfl⟩ := hreturns
        obtain ⟨⟨hself, -⟩, -, t, ht, -, rfl⟩ := (stake_eq_ok hcfg).mp hstake
        have hbalance := hT.balance_transfer ht registry
        rw [if_neg (Ne.symm hself), if_pos rfl, sub_zero] at hbalance
        exact hbalance
      | requestUnstake v amount =>
        obtain ⟨hrequest, rfl⟩ := hreturns
        obtain ⟨-, -, -, -, -, -, rfl⟩ := (requestUnstake_eq_ok hcfg).mp hrequest
        simp [inward]
      | withdraw v =>
        obtain ⟨amount, hwithdraw, rfl⟩ := hreturns
        obtain ⟨⟨hself, -⟩, -, -, t, ht, rfl, rfl⟩ := (withdraw_eq_ok hcfg).mp hwithdraw
        have hbalance := hT.balance_transfer ht registry
        rw [if_pos rfl, if_neg (Ne.symm hself), add_zero] at hbalance
        exact hbalance
      | attest v wasmHash inputDigest rebuiltHash =>
        obtain ⟨hattest, rfl⟩ := hreturns
        obtain ⟨-, -, u, w₁, henter, -, rfl⟩ := (attest_eq_ok hcfg).mp hattest
        obtain ⟨-, -, -, -, htoken⟩ :=
          enterWindow_refines (hs.coherent.represents (wasmHash, inputDigest)) henter
        simp [inward, htoken]
      | slash wasmHash inputDigest v =>
        obtain ⟨amount, hslash, rfl⟩ := hreturns
        obtain ⟨-, -, t, ht, rfl⟩ := (slash_eq_ok hcfg).mp hslash
        have hbalance := hT.balance_burn ht registry
        rw [if_pos rfl] at hbalance
        exact hbalance
    | err error w' =>
      rw [Outcome.commit_err, receipt]
      cases c <;> simp [inward]
    | trap fault =>
      rw [Outcome.commit_trap, receipt]
      cases c <;> simp [inward]
  | advance n hle hfit => simp [inward]
  | receive token amount h0 hbalance => exact hbalance

theorem Step.receivedBy_nonneg {s s' : Chain T} {i : Input Address}
    (h : Step registry s i s') : 0 ≤ receivedBy i := by
  cases h with
  | receive token amount h0 hbalance => exact h0
  | _ => exact le_rfl

/-! ## The sum over the verifiers -/

/-- A step moves only the account it is about. -/
theorem netOf_eq_zero {v : Address} {i : Input Address} (hv : concerns i ≠ some v) :
    netOf v i = 0 := by
  rcases i with ⟨env, c, r⟩ | n | amount
  · rcases c with ⟨v', amount⟩ | ⟨v', amount⟩ | v' | ⟨v', wasmHash, inputDigest, hash⟩ |
        ⟨wasmHash, inputDigest, v'⟩ <;>
      rcases r with ⟨_ | amount⟩ | error | fault <;>
      simp_all [netOf, stakedBy, paidOutTo, burnedFrom, concerns]
  · rfl
  · rfl

/-- What moves the registry's balance moves one account, or came from outside. -/
theorem inward_eq {S : Finset Address} {i : Input Address} (hS : ∀ v ∈ concerns i, v ∈ S) :
    inward i = ∑ v ∈ S, netOf v i + receivedBy i := by
  rcases i with ⟨env, c, r⟩ | n | amount
  · rcases c with ⟨v', amount⟩ | ⟨v', amount⟩ | v' | ⟨v', wasmHash, inputDigest, hash⟩ |
        ⟨wasmHash, inputDigest, v'⟩ <;>
      rcases r with ⟨_ | amount⟩ | error | fault <;>
      simp_all [netOf, inward, stakedBy, paidOutTo, burnedFrom, receivedBy, concerns]
  · simp [netOf, inward, stakedBy, paidOutTo, burnedFrom, receivedBy]
  · simp [netOf, inward, stakedBy, paidOutTo, burnedFrom, receivedBy]

/-- The verifiers a history is about. -/
def verifiers {σ : Type} (h : List (Transition σ (Input Address))) : Finset Address :=
  (h.filterMap fun e => concerns e.label).toFinset

theorem mem_verifiers {σ : Type} {h : List (Transition σ (Input Address))} {v : Address} :
    v ∈ verifiers h ↔ ∃ e ∈ h, concerns e.label = some v := by
  rw [verifiers, List.mem_toFinset, List.mem_filterMap]

/-! ## Along a run -/

section Runs

variable {s₀ s : Chain T} {h : List (Transition (Chain T) (Input Address))}

/-- The sum over a history of what its labels say. -/
def along {σ : Type} (f : Input Address → ℤ) (h : List (Transition σ (Input Address))) : ℤ :=
  total (fun e => f e.label) h

omit [DecidableEq Address] in
theorem along_bookHistory (f : Input Address → ℤ) :
    along f (bookHistory h) = along f h := by
  rw [along, along, total, total, bookHistory, List.map_map]
  rfl

theorem along_netOf {σ : Type} (v : Address) (h : List (Transition σ (Input Address))) :
    along (netOf v) h = along (stakedBy v) h - along (paidOutTo v) h - along (burnedFrom v) h := by
  induction h with
  | nil => rfl
  | cons e h ih =>
    simp only [along, total, List.map_cons, List.sum_cons, netOf] at ih ⊢
    omega

/-- **What a verifier staked** is what it still has, what it was paid and what it lost. -/
theorem Run.account_conserved (hrun : Run registry cfg s₀ h s) (v : Address) :
    along (stakedBy v) h = (readStake s.world.persistent v).total + along (paidOutTo v) h +
      along (burnedFrom v) h := by
  obtain ⟨-, hpath⟩ := hrun.refines
  obtain ⟨-, -, hfresh⟩ := hrun.deployed.sound
  obtain ⟨-, htotal⟩ := hpath.conservation (I := fun _ => True)
    (φ := fun b => (b.account v).total) (f := fun e => netOf v e.label)
    (fun b i b' _ hstep => ⟨trivial, hstep.total_eq v⟩) trivial
  have hnet : total (fun e => netOf v e.label) (bookHistory h) = along (netOf v) h :=
    along_bookHistory (netOf v)
  have hzero : (s₀.book.account v).total = 0 := by
    rw [hfresh.account_eq]
    rfl
  have hnow : (s.book.account v).total = (readStake s.world.persistent v).total := rfl
  have hsplit := along_netOf v h
  omega

/-- What the registry holds is what it held at first, moved by its own calls and by what came
from outside. -/
theorem Run.balance_conserved (hT : T.Exact) (hrun : Run registry cfg s₀ h s) :
    T.balance s.world.token registry = T.balance s₀.world.token registry + along inward h := by
  obtain ⟨haccepted, hsound, -⟩ := hrun.deployed.sound
  exact (hrun.path.conservation (I := Sound cfg)
    (φ := fun s => T.balance s.world.token registry) (f := fun e => inward e.label)
    (fun _ _ _ hs hstep => ⟨(hstep.refines haccepted hs).1, hstep.balance_eq hT hs⟩) hsound).2

/-- Who has not been in a history has nothing. -/
theorem Run.account_eq_zero (hrun : Run registry cfg s₀ h s) {v : Address}
    (hv : v ∉ verifiers h) : (readStake s.world.persistent v).total = 0 := by
  have hnet : along (netOf v) h = 0 :=
    total_eq_zero fun e he => netOf_eq_zero fun hc => hv (mem_verifiers.mpr ⟨e, he, hc⟩)
  have hsplit := along_netOf v h
  have hconserved := hrun.account_conserved v
  omega

/-- **Solvency.**  What the registry holds is what its verifiers have in it, and what came from
outside. -/
theorem Run.balance_eq_sum (hT : T.Exact) (hrun : Run registry cfg s₀ h s) :
    T.balance s.world.token registry =
      ∑ v ∈ verifiers h, (readStake s.world.persistent v).total +
        (T.balance s₀.world.token registry + along receivedBy h) := by
  have hinward : along inward h = ∑ v ∈ verifiers h, along (netOf v) h + along receivedBy h := by
    have hsplit : along inward h = total
        (fun e => ∑ v ∈ verifiers h, netOf v e.label + receivedBy e.label) h := by
      refine total_congr fun e he => inward_eq ?_
      intro v hv
      exact mem_verifiers.mpr ⟨e, he, hv⟩
    rw [hsplit, total_add, total_finset_sum]
    rfl
  have haccount : ∀ v ∈ verifiers h,
      (readStake s.world.persistent v).total = along (netOf v) h := by
    intro v _
    have hconserved := hrun.account_conserved v
    have hsplit := along_netOf v h
    omega
  rw [hrun.balance_conserved hT, hinward, Finset.sum_congr rfl haccount]
  omega

/-- A balance that starts nonnegative covers every single account. -/
theorem Run.account_le_balance (hT : T.Exact) (hrun : Run registry cfg s₀ h s)
    (h0 : 0 ≤ T.balance s₀.world.token registry) (v : Address) :
    (readStake s.world.persistent v).total ≤ T.balance s.world.token registry := by
  obtain ⟨hsound, -⟩ := hrun.refines
  have hreceived : 0 ≤ along receivedBy h := by
    refine total_nonneg fun e he => ?_
    obtain ⟨before, after, -, -, hstep, -⟩ := hrun.path.split he
    exact hstep.receivedBy_nonneg
  have hbalance := hrun.balance_eq_sum hT
  by_cases hv : v ∈ verifiers h
  · have hle := Finset.single_le_sum (f := fun v => (readStake s.world.persistent v).total)
      (fun v _ => (hsound.nonneg v).total) hv
    omega
  · have hsum : 0 ≤ ∑ v ∈ verifiers h, (readStake s.world.persistent v).total :=
      Finset.sum_nonneg fun v _ => (hsound.nonneg v).total
    have hzero := hrun.account_eq_zero hv
    omega

/-- **Where the money is**, after every run over a token that moves what it is asked to.  No
account is negative; what a verifier staked is what it still has, was paid and lost; the registry
holds exactly what its verifiers have, and what came from outside; and no payout and no burn ever
took more than the verifier had. -/
theorem Run.solvent (hT : T.Exact) (hrun : Run registry cfg s₀ h s) :
    (∀ v, 0 ≤ (readStake s.world.persistent v).staked ∧
      0 ≤ (readStake s.world.persistent v).unbonding ∧
      along (stakedBy v) h = (readStake s.world.persistent v).staked +
        (readStake s.world.persistent v).unbonding + along (paidOutTo v) h +
        along (burnedFrom v) h) ∧
    (∃ staking : Finset Address,
      (∀ v ∉ staking, (readStake s.world.persistent v).staked = 0 ∧
        (readStake s.world.persistent v).unbonding = 0) ∧
      T.balance s.world.token registry =
        ∑ v ∈ staking, ((readStake s.world.persistent v).staked +
          (readStake s.world.persistent v).unbonding) +
        (T.balance s₀.world.token registry + along receivedBy h)) ∧
    (∀ e ∈ h, ∀ v, paidOutTo v e.label + burnedFrom v e.label ≤
      (readStake e.pre.world.persistent v).staked +
        (readStake e.pre.world.persistent v).unbonding) := by
  obtain ⟨hsound, -⟩ := hrun.refines
  obtain ⟨haccepted, -, -⟩ := hrun.deployed.sound
  refine ⟨?_, ⟨verifiers h, ?_, hrun.balance_eq_sum hT⟩, ?_⟩
  · intro v
    exact ⟨(hsound.nonneg v).staked, (hsound.nonneg v).unbonding, hrun.account_conserved v⟩
  · intro v hv
    have hstaked := (hsound.nonneg v).staked
    have hunbonding := (hsound.nonneg v).unbonding
    have hzero := hrun.account_eq_zero hv
    simp only [StakeInfo.total] at hzero
    omega
  · intro e he v
    obtain ⟨hpre, hstep⟩ := hrun.step_of_mem he
    exact hstep.outflow_le haccepted hpre.nonneg v

/-- The dispute, and then verifier 2 leaves: the registry holds what verifier 1 staked. -/
theorem Sample.solvent_after_departure :
    (readStake (played 0 (Sample.chain 60 120)
      (Sample.dispute ++ Sample.departure 120)).world.persistent 2).staked = 0 ∧
    ∃ staking : Finset ℕ, (1000 : ℤ) = ∑ v ∈ staking,
      ((readStake (played 0 (Sample.chain 60 120)
          (Sample.dispute ++ Sample.departure 120)).world.persistent v).staked +
        (readStake (played 0 (Sample.chain 60 120)
          (Sample.dispute ++ Sample.departure 120)).world.persistent v).unbonding) := by
  obtain ⟨-, ⟨staking, -, hbalance⟩, -⟩ := (Sample.run 60 120
    (Sample.dispute ++ Sample.departure 120) (by decide) (by decide) (by decide +kernel)).solvent
    Vrfy.token_exact
  have hheld : (Vrfy.token ℕ).balance (played 0 (Sample.chain 60 120)
      (Sample.dispute ++ Sample.departure 120)).world.token 0 = 1000 := by decide +kernel
  have houtside : (Vrfy.token ℕ).balance (Sample.chain 60 120).world.token 0 +
      along receivedBy (play 0 (Sample.chain 60 120)
        (Sample.dispute ++ Sample.departure 120)) = 0 := by decide +kernel
  rw [hheld, houtside, add_zero] at hbalance
  exact ⟨by decide +kernel, staking, hbalance⟩

end Runs
end Registry
end Sorofy
