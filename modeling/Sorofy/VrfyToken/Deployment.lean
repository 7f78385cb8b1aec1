import Sorofy.Registry.Overflow
import Sorofy.VrfyToken.Supply

/-!
# The registry over the VRFY token

Both contracts on one ledger: anybody calls either of them, in any order, while the clock and the
host go on.  The calls the registry makes on the token are made with the registry's own
authorization and with those its caller has granted for them (`Input.grant`); nobody else can sign
for the registry, which is a contract.

`hosted` is the token as the interface `Registry.Token` asks for one, and `Step.simulates` says that
a step of the deployment is a step of the registry's ledger.  There a step may change the token in
any way that takes nothing from the registry; here that is proved of every call of the token.
-/

namespace Sorofy
namespace VrfyToken

open Foundation
open History
open Registry (i128Min i128Max u32Max readStake)

variable {Address : Type}

/-! ## The token as an interface -/

/-- What holds of the token's state once it is constructed. -/
structure World.Sound (w : World Address) : Prop where
  constructed : w.admin.isSome
  fits : w.Fits
  nonneg : ∀ a, 0 ≤ w.readBalance a

section Sound

variable [DecidableEq Address] {env : Env Address} {c : Call Address} {w w' : World Address}

/-- A call keeps the state sound. -/
theorem World.Sound.call (hw : w.Sound) {u : Unit} (h : c.run env w = .ok u w') :
    w'.Sound ∧ ∃ admin, Effect env c w w' admin := by
  obtain ⟨admin, hadmin⟩ := Option.isSome_iff_exists.mp hw.constructed
  have he := c.effect hadmin h
  refine ⟨⟨by rw [he.administrator]; rfl, he.fits hw.fits, fun a => ?_⟩, admin, he⟩
  exact he.balance_nonneg hw.nonneg a

end Sound

/-- The token as the registry finds it: its state, and the environment of the calls the registry
makes. -/
structure Hosted (Address : Type) where
  env : Env Address
  world : World Address
  sound : world.Sound

section Hosting

variable [DecidableEq Address]

namespace Hosted

/-- The token after a call, if the call returns. -/
def call (t : Hosted Address) (env : Env Address) (c : Call Address) : Option (Hosted Address) :=
  match h : c.run env t.world with
  | .ok _ w => some ⟨t.env, w, (t.sound.call h).1⟩
  | .trap _ => none

/-- The environment of a call the registry makes: a contract has authorized its own calls. -/
def inward (t : Hosted Address) (registry : Address) : Env Address :=
  { t.env with authorized := fun a => decide (a = registry) || t.env.authorized a }

/-- The token after the host has dropped an allowance. -/
def evict (t : Hosted Address) (src spender : Address) : Hosted Address :=
  ⟨t.env, { t.world with allowances := t.world.allowances.evict (src, spender) },
    ⟨t.sound.constructed, t.sound.fits, t.sound.nonneg⟩⟩

variable {t t' : Hosted Address} {env : Env Address} {c : Call Address}

theorem call_eq_some : t.call env c = some t' ↔
    t'.env = t.env ∧ ∃ u, c.run env t.world = .ok u t'.world := by
  unfold call
  split
  · next u w h =>
    rw [Option.some.injEq]
    constructor
    · rintro rfl
      exact ⟨rfl, u, h⟩
    · rintro ⟨henv, u', h'⟩
      obtain ⟨env', w', hsound⟩ := t'
      simp only at henv h'
      rw [h] at h'
      cases h'
      rw [henv]
  · next fault h =>
    constructor
    · intro hnone
      cases hnone
    · rintro ⟨-, u', h'⟩
      rw [h] at h'
      cases h'

/-- A call that does not return leaves nothing. -/
theorem call_eq_none : t.call env c = none ↔ ∃ fault, c.run env t.world = .trap fault := by
  unfold call
  split
  · next u w h => simp [h]
  · next fault h => simp [h]

end Hosted

/-- The VRFY token, as the registry calls it. -/
def hosted (registry : Address) : Registry.Token Address where
  State := Hosted Address
  balance t a := t.world.readBalance a
  transfer t src dst amount := t.call (t.inward registry) (.transfer src dst none amount)
  burn t src amount := t.call (t.inward registry) (.burn src amount)

/-- It moves and burns exactly what it is asked to. -/
theorem hosted_exact (registry : Address) : (hosted registry).Exact where
  balance_transfer := by
    intro (t : Hosted Address) (t' : Hosted Address) src dst amount h a
    obtain ⟨-, u, hrun⟩ := Hosted.call_eq_some.mp h
    obtain ⟨-, admin, he⟩ := t.sound.call hrun
    have hbalance := he.balance a
    simp only [Call.debit, Call.credit, Call.payer, Call.payee, Call.amount, Option.some.injEq,
      eq_comm (b := a)] at hbalance
    exact hbalance
  balance_burn := by
    intro (t : Hosted Address) (t' : Hosted Address) src amount h a
    obtain ⟨-, u, hrun⟩ := Hosted.call_eq_some.mp h
    obtain ⟨-, admin, he⟩ := t.sound.call hrun
    have hbalance := he.balance a
    simp only [Call.debit, Call.credit, Call.payer, Call.payee, Call.amount, Option.some.injEq,
      reduceCtorEq, if_false, add_zero, eq_comm (b := a)] at hbalance
    exact hbalance

theorem hosted_fitsI128 (registry : Address) : (hosted registry).FitsI128 :=
  fun t a => ⟨t.sound.nonneg a, (t.sound.fits a).2⟩

end Hosting

/-! ## Nobody takes from the registry -/

/-- Nobody may spend from the account. -/
def World.Unlent (w : World Address) (owner : Address) : Prop :=
  ∀ spender, w.allowances.get (owner, spender) = none

section Unlent

variable [DecidableEq Address] {env : Env Address} {c : Call Address} {w w' : World Address}
variable {admin owner : Address}

omit [DecidableEq Address] in
theorem World.Unlent.readAllowance_amount (hw : w.Unlent owner) (sequence : ℕ)
    (spender : Address) : (w.readAllowance sequence owner spender).amount = 0 := by
  simp only [World.readAllowance, hw spender]

/-- Nothing can be drawn on an account that lends nothing. -/
theorem Effect.amount_of_unlent (he : Effect env c w w' admin) (hw : w.Unlent owner)
    {spender : Address} (hdrawn : c.drawnOn = some (owner, spender)) : c.amount = 0 := by
  have hallowed := he.allowed owner spender hdrawn
  rw [hw.readAllowance_amount] at hallowed
  exact le_antisymm hallowed he.amount_nonneg

/-- **Without its owner's authorization** a call takes nothing from an account that lends nothing,
and the account lends nothing after it. -/
theorem Effect.unlent (he : Effect env c w w' admin) (hw : w.Unlent owner)
    (hself : env.authorized owner = false) : w'.Unlent owner ∧ c.debit owner = 0 := by
  have hsigned := he.signed
  have hother : ∀ {a}, env.authorized a = true → a ≠ owner := by
    rintro a ha rfl
    rw [hself] at ha
    cases ha
  rw [World.Unlent, he.allowances]
  cases c with
  | mint dst n => exact ⟨hw, rfl⟩
  | setAdmin newAdmin => exact ⟨hw, rfl⟩
  | approve src spender n live =>
    refine ⟨fun spender' => ?_, rfl⟩
    have hne : (owner, spender') ≠ (src, spender) :=
      fun hk => hother hsigned (congrArg Prod.fst hk).symm
    exact (get_written_of_ne hne).trans (hw spender')
  | transfer src dst muxedId n =>
    exact ⟨hw, if_neg fun hk => hother hsigned (Option.some.inj hk)⟩
  | burn src n => exact ⟨hw, if_neg fun hk => hother hsigned (Option.some.inj hk)⟩
  | transferFrom spender src dst n =>
    by_cases hsrc : src = owner
    · subst hsrc
      have hzero : n = 0 := he.amount_of_unlent hw (rfl : _ = some (src, spender))
      subst hzero
      exact ⟨hw, ite_self _⟩
    · refine ⟨fun spender' => ?_, if_neg fun hk => hsrc (Option.some.inj hk)⟩
      have hne : (owner, spender') ≠ (src, spender) := fun hk => hsrc (congrArg Prod.fst hk).symm
      exact (get_spent_of_ne hne).trans (hw spender')
  | burnFrom spender src n =>
    by_cases hsrc : src = owner
    · subst hsrc
      have hzero : n = 0 := he.amount_of_unlent hw (rfl : _ = some (src, spender))
      subst hzero
      exact ⟨hw, ite_self _⟩
    · refine ⟨fun spender' => ?_, if_neg fun hk => hsrc (Option.some.inj hk)⟩
      have hne : (owner, spender') ≠ (src, spender) := fun hk => hsrc (congrArg Prod.fst hk).symm
      exact (get_spent_of_ne hne).trans (hw spender')

end Unlent

/-! ## The two contracts together -/

namespace Deployment

/-- What moves the deployment on. -/
inductive Input (Address : Type) where
  | callRegistry (env : Registry.Env Address) (call : Registry.Call Address)
      (receipt : Registry.Receipt)
  | callToken (env : Env Address) (call : Call Address) (receipt : Receipt)
  | grant (env : Env Address)
  | advance (sequence : ℕ)
  | evict (src spender : Address)

variable [DecidableEq Address] {registry : Address}

/-- The registry on its ledger, over the token. -/
abbrev State (registry : Address) : Type := Registry.Chain (hosted registry)

/-- The token of the deployment. -/
def token (s : State registry) : Hosted Address := s.world.token

/-- The deployment with another state of the token. -/
def withToken (s : State registry) (t : Hosted Address) : State registry :=
  { s with world := { s.world with token := t } }

@[simp] theorem token_withToken (s : State registry) (t : Hosted Address) :
    token (withToken s t) = t := rfl

/-- One step of the deployment. -/
inductive Step (registry : Address) : State registry → Input Address → State registry → Prop where
  | callRegistry (s : State registry) (authorized : Address → Bool) (c : Registry.Call Address) :
      Step registry s
        (.callRegistry ⟨s.sequence, registry, authorized⟩ c
          (Registry.receipt (c.run ⟨s.sequence, registry, authorized⟩ s.world)))
        { s with world := (c.run ⟨s.sequence, registry, authorized⟩ s.world).commit s.world }
  | callToken (s : State registry) (maxLiveUntilLedger : ℕ) (authorized : Address → Bool)
      (c : Call Address) (htyped : c.Typed) (hself : authorized registry = false) :
      Step registry s
        (.callToken ⟨s.sequence, maxLiveUntilLedger, authorized⟩ c
          (receipt (c.run ⟨s.sequence, maxLiveUntilLedger, authorized⟩ (token s).world)))
        (withToken s
          (((token s).call ⟨s.sequence, maxLiveUntilLedger, authorized⟩ c).getD (token s)))
  | grant (s : State registry) (env : Env Address) :
      Step registry s (.grant env) (withToken s { token s with env })
  | advance (s : State registry) (n : ℕ) (hle : s.sequence ≤ n) (hfit : n ≤ u32Max) :
      Step registry s (.advance n) { s with sequence := n }
  | evict (s : State registry) (src spender : Address)
      (hexpired : (token s).world.allowances.Expired s.sequence (src, spender)) :
      Step registry s (.evict src spender) (withToken s ((token s).evict src spender))

/-- What the registry's ledger sees of an input: calls of the token are tokens that arrive. -/
def Input.seen (registry : Address) : Input Address → Registry.Input Address
  | .callRegistry env c r => .call env c r
  | .callToken _ c .returned => .receive (c.credit registry)
  | .advance n => .advance n
  | _ => .receive 0

/-- The registry has just been deployed, over a token in which nobody can spend from its address. -/
structure Deployed (registry : Address) (cfg : Registry.Config Address) (s : State registry) :
    Prop where
  deployed : Registry.Deployed cfg s
  unlent : (token s).world.Unlent registry

/-- A run of the deployment. -/
structure Run (registry : Address) (cfg : Registry.Config Address) (s₀ : State registry)
    (h : List (Transition (State registry) (Input Address))) (s : State registry) : Prop where
  deployed : Deployed registry cfg s₀
  path : Path (Step registry) s₀ h s

/-! ### The simulation -/

/-- A call of the registry makes one call of the token, or none. -/
theorem token_of_call {T : Registry.Token Address} {cfg : Registry.Config Address}
    {env : Registry.Env Address} {w w' : Registry.World T} {c : Registry.Call Address}
    {value : Registry.Value} (hcfg : w.instanceStorage.get .config = some cfg)
    (h : c.run env w = .ok value w') :
    w'.token = w.token ∨ (∃ src dst n, T.transfer w.token src dst n = some w'.token) ∨
      ∃ src n, T.burn w.token src n = some w'.token := by
  have hreturns := Registry.Call.run_eq_ok.mp h
  cases c with
  | stake v n =>
    obtain ⟨-, -, t, ht, -, rfl⟩ := (Registry.stake_eq_ok hcfg).mp hreturns.1
    exact .inr (.inl ⟨_, _, _, ht⟩)
  | requestUnstake v n =>
    obtain ⟨-, -, -, -, -, -, rfl⟩ := (Registry.requestUnstake_eq_ok hcfg).mp hreturns.1
    exact .inl rfl
  | withdraw v =>
    obtain ⟨n, hwithdraw, -⟩ := hreturns
    obtain ⟨-, -, -, t, ht, -, rfl⟩ := (Registry.withdraw_eq_ok hcfg).mp hwithdraw
    exact .inr (.inl ⟨_, _, _, ht⟩)
  | attest v wasmHash inputDigest rebuiltHash =>
    obtain ⟨-, -, u, w₁, henter, -, rfl⟩ := (Registry.attest_eq_ok hcfg).mp hreturns.1
    rcases Registry.enterWindow_eq_ok.mp henter with ⟨-, rfl⟩ | ⟨-, -, -, -, rfl⟩
    · exact .inl rfl
    · exact .inl rfl
  | slash wasmHash inputDigest v =>
    obtain ⟨n, hslash, -⟩ := hreturns
    obtain ⟨-, -, t, ht, rfl⟩ := (Registry.slash_eq_ok hcfg).mp hslash
    exact .inr (.inr ⟨_, _, ht⟩)

variable {cfg : Registry.Config Address} {s s' : State registry} {i : Input Address}

/-- A call of the registry approves nobody. -/
theorem unlent_of_call {env : Registry.Env Address} {c : Registry.Call Address}
    (hs : Registry.Sound cfg s) (hunlent : (token s).world.Unlent registry) :
    ((c.run env s.world).commit s.world).token.world.Unlent registry := by
  cases hrun : c.run env s.world with
  | ok value w' =>
    rcases token_of_call hs.coherent.config_eq hrun with hsame | ⟨src, dst, n, ht⟩ | ⟨src, n, ht⟩
    · rw [Outcome.commit_ok, hsame]
      exact hunlent
    · obtain ⟨-, u, hcall⟩ := Hosted.call_eq_some.mp ht
      obtain ⟨-, admin, he⟩ := (token s).sound.call hcall
      rw [Outcome.commit_ok, World.Unlent, he.allowances]
      exact hunlent
    · obtain ⟨-, u, hcall⟩ := Hosted.call_eq_some.mp ht
      obtain ⟨-, admin, he⟩ := (token s).sound.call hcall
      rw [Outcome.commit_ok, World.Unlent, he.allowances]
      exact hunlent
  | err error w' => exact hunlent
  | trap fault => exact hunlent

/-- **One step of the deployment is one step of the registry's ledger.**  Whatever others do with
the token, nothing is taken from the registry, and nobody can come to spend from it. -/
theorem Step.simulates (hcfg : cfg.Accepted) (hs : Registry.Sound cfg s)
    (hunlent : (token s).world.Unlent registry) (h : Step registry s i s') :
    (Registry.Sound cfg s' ∧ (token s').world.Unlent registry) ∧
      Registry.Step registry s (i.seen registry) s' := by
  suffices hstep : (token s').world.Unlent registry ∧
      Registry.Step registry s (i.seen registry) s' by
    exact ⟨⟨(hstep.2.refines hcfg hs).1, hstep.1⟩, hstep.2⟩
  cases h with
  | callRegistry authorized c =>
    exact ⟨unlent_of_call hs hunlent, Registry.Step.call s authorized c⟩
  | advance n hle hfit => exact ⟨hunlent, Registry.Step.advance s n hle hfit⟩
  | grant env =>
    exact ⟨hunlent, Registry.Step.receive s _ 0 le_rfl (add_zero _).symm⟩
  | evict src spender hexpired =>
    refine ⟨fun spender' => ?_, Registry.Step.receive s _ 0 le_rfl (add_zero _).symm⟩
    by_cases hk : (registry, spender') = (src, spender)
    · rw [token_withToken, Hosted.evict, hk]
      exact Leases.get_evict_self
    · exact (Leases.get_evict_of_ne hk).trans (hunlent spender')
  | callToken maxLive authorized c htyped hself =>
    set env : Env Address := ⟨s.sequence, maxLive, authorized⟩
    cases hrun : c.run env (token s).world with
    | ok u w' =>
      have hcall : (token s).call env c = some ⟨(token s).env, w', ((token s).sound.call hrun).1⟩ :=
        Hosted.call_eq_some.mpr ⟨rfl, u, hrun⟩
      obtain ⟨-, admin, he⟩ := (token s).sound.call hrun
      obtain ⟨hkept, hdebit⟩ := he.unlent hunlent hself
      rw [hcall]
      refine ⟨hkept, Registry.Step.receive s _ (c.credit registry) ?_ ?_⟩
      · rw [Call.credit]
        split <;> [exact he.amount_nonneg; exact le_rfl]
      · have hbalance := he.balance registry
        rw [hdebit, sub_zero] at hbalance
        exact hbalance
    | err e => exact e.elim
    | trap fault =>
      have hcall : (token s).call env c = none := Hosted.call_eq_none.mpr ⟨fault, hrun⟩
      rw [hcall]
      exact ⟨hunlent, Registry.Step.receive s _ 0 le_rfl (add_zero _).symm⟩

variable {s₀ : State registry} {h : List (Transition (State registry) (Input Address))}

/-- The history as the registry's ledger sees it. -/
def seen (registry : Address) (h : List (Transition (State registry) (Input Address))) :
    List (Transition (State registry) (Registry.Input Address)) :=
  h.map fun e => ⟨e.pre, e.label.seen registry, e.post⟩

/-- **The refinement.**  Every run of the two contracts together is a run of the registry, and
nobody but the registry can ever spend what it holds. -/
theorem Run.registry_run (hrun : Run registry cfg s₀ h s) :
    Registry.Run registry cfg s₀ (seen registry h) s ∧ (token s).world.Unlent registry := by
  obtain ⟨hcfg, hsound, -⟩ := hrun.deployed.deployed.sound
  obtain ⟨⟨-, hunlent⟩, hpath⟩ := hrun.path.simulate (f := id)
    (g := fun _ i => i.seen registry) (I := fun s => Registry.Sound cfg s ∧
      (token s).world.Unlent registry)
    (fun t i u hI hstep => hstep.simulates hcfg hI.1 hI.2) ⟨hsound, hrun.deployed.unlent⟩
  exact ⟨⟨hrun.deployed.deployed, hpath⟩, hunlent⟩

/-! ### Getting out -/

/-- A transfer that is covered and fits returns. -/
theorem transfer_returns {env : Env Address} {w : World Address} {src dst : Address} {n : ℤ}
    (hw : w.Sound) (hauth : env.authorized src = true) (h0 : 0 ≤ n) (hle : n ≤ w.readBalance src)
    (hne : dst ≠ src) (hfit : w.readBalance dst + n ≤ i128Max) :
    ∃ u w', transfer env src dst none n w = .ok u w' := by
  have hmin : i128Min ≤ 0 := by decide
  have hsrc := (hw.fits src).2
  have hdst := hw.nonneg dst
  have hread : (w.writeBalance src (w.readBalance src - n)).readBalance dst =
      w.readBalance dst := by
    rw [World.readBalance_writeBalance, if_neg hne]
  simp only [transfer, Tx.bind_eq_ok, checkNonnegativeAmount_eq_ok, requireAuth_eq_ok,
    spendBalance_eq_ok, receiveBalance_eq_ok, publish_eq_ok]
  refine ⟨⟨⟩, _, ⟨⟩, w, ⟨hauth, rfl⟩, ⟨⟩, w, ⟨h0, rfl⟩, ⟨⟩, _,
    ⟨hle, ⟨by omega, by omega⟩, rfl⟩, ⟨⟩, _, ⟨?_, rfl⟩, rfl⟩
  rw [hread]
  exact ⟨by omega, hfit⟩

/-- **A verifier gets out** with everything that has finished unbonding exactly when it asks for it
itself, there is something, the release ledger has come, and it can hold what it is paid: what the
registry owes is there, whatever anybody has done with the token. -/
theorem Run.withdraw_returns_iff (hrun : Run registry cfg s₀ h s) {env : Registry.Env Address}
    (hcontract : env.currentContractAddress = registry) (hseq : env.sequence = s.sequence)
    (v : Address) :
    (∃ n w', Registry.withdraw env v s.world = .ok n w' ∧
      n = (readStake s.world.persistent v).unbonding ∧
      w'.token.world.readBalance v = (token s).world.readBalance v + n ∧
      w'.token.world.readBalance registry = (token s).world.readBalance registry - n) ↔
    v ≠ registry ∧ env.authorized v = true ∧ 0 < (readStake s.world.persistent v).unbonding ∧
      (readStake s.world.persistent v).releaseLedger ≤ s.sequence ∧
      (token s).world.readBalance v + (readStake s.world.persistent v).unbonding ≤ i128Max := by
  obtain ⟨hregistry, -⟩ := hrun.registry_run
  obtain ⟨hsound, -⟩ := hregistry.refines
  have hcfg := hsound.coherent.config_eq
  constructor
  · rintro ⟨n, w', hwithdraw, rfl, hpaid, -⟩
    obtain ⟨⟨hself, hauth⟩, hpos, hrelease, -⟩ := (Registry.withdraw_eq_ok hcfg).mp hwithdraw
    rw [hcontract] at hself
    rw [hseq] at hrelease
    refine ⟨hself, hauth, hpos, hrelease, ?_⟩
    rw [← hpaid]
    exact (w'.token.sound.fits v).2
  · rintro ⟨hself, hauth, hpos, hrelease, hfit⟩
    have hheld := hregistry.account_le_balance (hosted_exact registry)
      (s₀.world.token.sound.nonneg registry) v
    have hstaked := (hsound.nonneg v).staked
    have hcovered : (readStake s.world.persistent v).unbonding ≤
        (token s).world.readBalance registry := by
      refine le_trans ?_ hheld
      simp only [Registry.StakeInfo.total]
      omega
    obtain ⟨u, w', hcall⟩ := transfer_returns (token s).sound
      (by simp [Hosted.inward] : ((token s).inward registry).authorized registry = true) hpos.le
      hcovered hself hfit
    obtain ⟨t, ht⟩ : ∃ t, (hosted registry).transfer s.world.token registry v
        (readStake s.world.persistent v).unbonding = some t :=
      ⟨⟨(token s).env, w', ((token s).sound.call (c := .transfer registry v none _) hcall).1⟩,
        Hosted.call_eq_some.mpr ⟨rfl, u, hcall⟩⟩
    have hbalance := (hosted_exact registry).balance_transfer ht
    have hv := hbalance v
    have hreg := hbalance registry
    rw [if_neg hself, if_pos rfl, sub_zero] at hv
    rw [if_pos rfl, if_neg (Ne.symm hself), add_zero] at hreg
    refine ⟨_, _, (Registry.withdraw_eq_ok hcfg).mpr ⟨⟨?_, hauth⟩, hpos, ?_, t, ?_, rfl, rfl⟩, rfl,
      hv, hreg⟩
    · rwa [hcontract]
    · rwa [hseq]
    · rwa [hcontract]

/-! ### Scripts -/

/-- A move of a script: a call of either contract with the authorizations of some, or some ledgers
going by. -/
inductive Move (Address : Type) where
  | registry (signers : List Address) (c : Registry.Call Address)
  | token (signers : List Address) (c : Call Address)
  | wait (ledgers : ℕ)

namespace Move

/-- What a move is seen as. -/
def label (s : State registry) : Move Address → Input Address
  | .registry signers c =>
    let env := ⟨s.sequence, registry, fun a => signers.contains a⟩
    .callRegistry env c (Registry.receipt (c.run env s.world))
  | .token signers c =>
    let env := ⟨s.sequence, u32Max, fun a => signers.contains a⟩
    .callToken env c (receipt (c.run env (Deployment.token s).world))
  | .wait ledgers => .advance (s.sequence + ledgers)

/-- The state after a move. -/
def post (s : State registry) : Move Address → State registry
  | .registry signers c =>
    { s with world :=
        (c.run ⟨s.sequence, registry, fun a => signers.contains a⟩ s.world).commit s.world }
  | .token signers c =>
    let env := ⟨s.sequence, u32Max, fun a => signers.contains a⟩
    withToken s (((Deployment.token s).call env c).getD (Deployment.token s))
  | .wait ledgers => { s with sequence := s.sequence + ledgers }

/-- When a move may be made. -/
def May (s : State registry) : Move Address → Prop
  | .registry _ _ => True
  | .token signers c => c.Typed ∧ signers.contains registry = false
  | .wait ledgers => s.sequence + ledgers ≤ u32Max

instance (s : State registry) : (m : Move Address) → Decidable (m.May s)
  | .registry _ _ => inferInstanceAs (Decidable True)
  | .token signers c => inferInstanceAs (Decidable (c.Typed ∧ signers.contains registry = false))
  | .wait ledgers => inferInstanceAs (Decidable (s.sequence + ledgers ≤ u32Max))

theorem step (s : State registry) (m : Move Address) (hmay : m.May s) :
    Step registry s (m.label s) (m.post s) := by
  cases m with
  | registry signers c => exact Step.callRegistry s _ c
  | token signers c => exact Step.callToken s _ _ c hmay.1 hmay.2
  | wait ledgers => exact Step.advance s _ (Nat.le_add_right ..) hmay

end Move

/-! ### A deployment to run -/

namespace Sample

/-- Everybody but the registry, which is account 0, has 1000 tokens; 9 is the administrator. -/
def hosted : Hosted ℕ where
  env := ⟨1, u32Max, fun a => a != 0⟩
  world := ⟨some 9, some VrfyToken.Sample.metadata, fun a => if a = 0 then none else some 1000,
    Leases.empty, []⟩
  sound := by
    have hrange : ∀ a : ℕ, 0 ≤ (if a = 0 then (none : Option ℤ) else some 1000).getD 0 ∧
        (if a = 0 then (none : Option ℤ) else some 1000).getD 0 ≤ i128Max := by
      intro a
      split <;> exact ⟨by decide, by decide⟩
    exact ⟨rfl, fun a => ⟨le_trans (by decide : i128Min ≤ 0) (hrange a).1, (hrange a).2⟩,
      fun a => (hrange a).1⟩

/-- The registry, deployed at ledger 1. -/
def state : State (0 : ℕ) where
  sequence := 1
  world := ⟨Registry.Storage.empty.set .config (Registry.Sample.config 60 120),
    Registry.Storage.empty, hosted, []⟩

theorem deployed : Deployed 0 (Registry.Sample.config 60 120) state where
  deployed := {
    sequence_fits := by
      show 1 ≤ u32Max
      decide
    constructed := ⟨hosted, by
      simp [Registry.construct, Registry.Sample.config, state, Registry.minQuorum,
        Registry.bpsDenominator]⟩ }
  unlent := fun spender => rfl

/-- Verifier 1 stakes, another account burns and transfers what it can, and 1 asks for its stake. -/
def exit : List (Move ℕ) :=
  [.registry [1] (.stake 1 1000), .token [2] (.burnFrom 2 0 10), .token [2] (.transfer 2 0 none 7),
    .registry [1] (.requestUnstake 1 1000), .wait 120]

/-- The history of a script. -/
def played (ms : List (Move ℕ)) : List (Transition (State (0 : ℕ)) (Input ℕ)) :=
  script (fun s m => m.label s) (fun s m => m.post s) state ms

/-- The state after a script. -/
def after (ms : List (Move ℕ)) : State (0 : ℕ) :=
  ms.foldl (fun s m => m.post s) state

theorem run (ms : List (Move ℕ))
    (hmay : Playable (fun s m => m.post s) (fun s m => m.May s) state ms) :
    Run 0 (Registry.Sample.config 60 120) state (played ms) (after ms) :=
  ⟨deployed, Path.of_script Move.step ms state hmay⟩

/-- The run of the exit is a run of the registry. -/
theorem exit_refines :
    Registry.Run 0 (Registry.Sample.config 60 120) state (seen 0 (played exit)) (after exit) ∧
      (token (after exit)).world.Unlent 0 :=
  (run exit (by decide)).registry_run

/-- Verifier 1 gets its 1000 back. -/
theorem exit_withdraws :
    ∃ n w', Registry.withdraw ⟨121, 0, fun a => a == 1⟩ 1 (after exit).world = .ok n w' ∧
      n = (readStake (after exit).world.persistent 1).unbonding ∧
      w'.token.world.readBalance 1 = (token (after exit)).world.readBalance 1 + n ∧
      w'.token.world.readBalance 0 = (token (after exit)).world.readBalance 0 - n :=
  ((run exit (by decide)).withdraw_returns_iff rfl rfl 1).mpr (by decide)

end Sample

end Deployment

end VrfyToken
end Sorofy
