import Sorofy.Foundation.History
import Sorofy.Registry.Contract

/-!
# Runs of the registry

The registry on its ledger: anybody may call it, the ledger sequence may move on, and tokens may
reach it from outside.  A call is executed by the host, which keeps what a returning call wrote
and rolls back everything else (`Step.call`); the receipt goes into the history, so that every
statement about "the successful calls of a run" is about the labels of its transitions.

The read-only part of the environment is the host's: the current ledger, the registry's own
address, and any set of authorizations.
-/

namespace Sorofy
namespace Registry

open Foundation
open History

variable {Address : Type}

/-- A call of one of the registry's state-changing entry points. -/
inductive Call (Address : Type) where
  | stake (verifier : Address) (amount : ℤ)
  | requestUnstake (verifier : Address) (amount : ℤ)
  | withdraw (verifier : Address)
  | attest (verifier : Address) (wasmHash inputDigest rebuiltHash : Bytes32)
  | slash (wasmHash inputDigest : Bytes32) (verifier : Address)

/-- What an entry point returns: nothing, or an amount. -/
inductive Value where
  | unit
  | amount (value : ℤ)
  deriving DecidableEq, Repr

/-- How a call ended, as its caller sees it. -/
inductive Receipt where
  | returned (value : Value)
  | refused (error : Error)
  | trapped (fault : Trap)
  deriving DecidableEq, Repr

/-- What moves the registry's ledger on. -/
inductive Input (Address : Type) where
  | call (env : Env Address) (call : Call Address) (receipt : Receipt)
  | advance (sequence : ℕ)
  | receive (amount : ℤ)

/-- The registry on its ledger: the current sequence, and the state its entry points work on. -/
structure Chain (T : Token Address) where
  sequence : ℕ
  world : World T

section Execution

variable [DecidableEq Address] {T : Token Address}

/-- The entry point a call runs. -/
def Call.run (env : Env Address) : Call Address → Entry T Value
  | .stake v amount => do
    Registry.stake env v amount
    pure .unit
  | .requestUnstake v amount => do
    Registry.requestUnstake env v amount
    pure .unit
  | .withdraw v => do
    let amount ← Registry.withdraw env v
    pure (.amount amount)
  | .attest v wasmHash inputDigest rebuiltHash => do
    Registry.attest env v wasmHash inputDigest rebuiltHash
    pure .unit
  | .slash wasmHash inputDigest v => do
    let amount ← Registry.slash env wasmHash inputDigest v
    pure (.amount amount)

omit [DecidableEq Address] in
/-- The receipt of an outcome. -/
def receipt : Outcome Error Trap (World T) Value → Receipt
  | .ok value _ => .returned value
  | .err error _ => .refused error
  | .trap fault => .trapped fault

/-- One step of the registry's ledger.  Tokens can reach the registry's address from outside,
and the token may change in any way that leaves the registry what it has: the registry grants no
allowance, so nobody else can take from it. -/
inductive Step (registry : Address) : Chain T → Input Address → Chain T → Prop where
  | call (s : Chain T) (authorized : Address → Bool) (c : Call Address) :
      Step registry s
        (.call ⟨s.sequence, registry, authorized⟩ c
          (receipt (c.run ⟨s.sequence, registry, authorized⟩ s.world)))
        { s with world := (c.run ⟨s.sequence, registry, authorized⟩ s.world).commit s.world }
  | advance (s : Chain T) (n : ℕ) (hle : s.sequence ≤ n) (hfit : n ≤ u32Max) :
      Step registry s (.advance n) { s with sequence := n }
  | receive (s : Chain T) (token : T.State) (amount : ℤ) (h0 : 0 ≤ amount)
      (hbalance : T.balance token registry = T.balance s.world.token registry + amount) :
      Step registry s (.receive amount) { s with world := { s.world with token } }

/-- The registry just deployed with the configuration `cfg`: its constructor has returned on
empty storage, at some ledger and some state of the token. -/
structure Deployed (cfg : Config Address) (s : Chain T) : Prop where
  sequence_fits : s.sequence ≤ u32Max
  constructed : ∃ token : T.State,
    construct cfg.token cfg.minStake cfg.quorum cfg.attestWindow cfg.unbondPeriod cfg.slashBps
      ⟨Storage.empty, Storage.empty, token, []⟩ = .ok () s.world

/-- A run of the registry: deployed as `s₀` with the configuration `cfg`, it reaches `s` by the
transitions `h`. -/
structure Run (registry : Address) (cfg : Config Address) (s₀ : Chain T)
    (h : List (Transition (Chain T) (Input Address))) (s : Chain T) : Prop where
  deployed : Deployed cfg s₀
  path : Path (Step registry) s₀ h s

/-! ### Scripts

A script is executable: it computes a history, and what it computes is a path. -/

/-- A move of a script: a call with all authorizations granted, or some ledgers going by. -/
inductive Move (Address : Type) where
  | call (c : Call Address)
  | wait (ledgers : ℕ)

/-- The transition of a move. -/
def Move.play (registry : Address) (s : Chain T) :
    Move Address → Transition (Chain T) (Input Address)
  | .call c =>
    let env := ⟨s.sequence, registry, fun _ => true⟩
    let outcome := c.run env s.world
    ⟨s, .call env c (receipt outcome), { s with world := outcome.commit s.world }⟩
  | .wait ledgers =>
    ⟨s, .advance (s.sequence + ledgers), { s with sequence := s.sequence + ledgers }⟩

/-- The history of a script. -/
def play (registry : Address) : Chain T → List (Move Address) →
    List (Transition (Chain T) (Input Address))
  | _, [] => []
  | s, m :: ms => m.play registry s :: play registry (m.play registry s).post ms

/-- The state after a script. -/
def played (registry : Address) : Chain T → List (Move Address) → Chain T
  | s, [] => s
  | s, m :: ms => played registry (m.play registry s).post ms

theorem sequence_le_played (registry : Address) (s : Chain T) (ms : List (Move Address)) :
    s.sequence ≤ (played registry s ms).sequence := by
  induction ms generalizing s with
  | nil => exact le_rfl
  | cons m ms ih =>
    have hone : s.sequence ≤ (m.play registry s).post.sequence := by
      cases m with
      | call c => exact le_rfl
      | wait ledgers => exact Nat.le_add_right ..
    exact hone.trans (ih _)

/-- A script that stays within the ledger's range is a path. -/
theorem path_play {registry : Address} {s : Chain T} (ms : List (Move Address))
    (hfit : (played registry s ms).sequence ≤ u32Max) :
    Path (Step registry) s (play registry s ms) (played registry s ms) := by
  induction ms generalizing s with
  | nil => exact Path.nil
  | cons m ms ih =>
    cases m with
    | call c => exact (Path.single (Step.call s _ c)).trans (ih hfit)
    | wait ledgers =>
      have hle := sequence_le_played registry ((Move.wait ledgers).play registry s).post ms
      have hstep : Step registry s (.advance (s.sequence + ledgers)) _ :=
        Step.advance s _ (Nat.le_add_right ..) (hle.trans hfit)
      exact (Path.single hstep).trans (ih hfit)

end Execution

/-! ### A registry to run scripts on -/

namespace Sample

/-- The registry is address 0; everybody else has 1000 tokens. -/
def balances : Vrfy.Balances ℕ where
  readBalance a := if a = 0 then 0 else 1000
  nonneg a := by split <;> decide
  fits a := by split <;> decide

/-- A stake of 1000 is active, and a slash burns half of what there is. -/
def config (attestWindow unbondPeriod : ℕ) : Config ℕ where
  token := 9
  minStake := 1000
  quorum := 3
  attestWindow
  unbondPeriod
  slashBps := 5000

/-- The registry, deployed at ledger 1. -/
def chain (attestWindow unbondPeriod : ℕ) : Chain (Vrfy.token ℕ) where
  sequence := 1
  world := ⟨Storage.empty.set .config (config attestWindow unbondPeriod), Storage.empty, balances,
    []⟩

theorem deployed {attestWindow unbondPeriod : ℕ} (hpos : 0 < attestWindow)
    (hle : attestWindow ≤ unbondPeriod) :
    Deployed (config attestWindow unbondPeriod) (chain attestWindow unbondPeriod) where
  sequence_fits := by
    show 1 ≤ u32Max
    decide
  constructed := ⟨balances, by
    simp [construct, config, chain, hpos.ne', hle, minQuorum, bpsDenominator]⟩

/-- An on-chain hash. -/
def onChain : Bytes32 := BytesN.fill 32 1

/-- Another hash. -/
def forged : Bytes32 := BytesN.fill 32 2

/-- An input digest. -/
def digest : Bytes32 := BytesN.fill 32 3

/-- Verifiers 1 and 2 stake; 1 attests the on-chain hash, and five ledgers later 2 another. -/
def dispute : List (Move ℕ) :=
  [.call (.stake 1 1000), .call (.stake 2 1000), .call (.attest 1 onChain digest onChain),
    .wait 5, .call (.attest 2 onChain digest forged)]

/-- The dispute, after its window has closed. -/
def closed : Chain (Vrfy.token ℕ) := played 0 (chain 60 120) (dispute ++ [.wait 100])

/-- The dispute, in which verifier 3 sides with verifier 1 before the window closes. -/
def outvote : List (Move ℕ) :=
  dispute ++ [.call (.stake 3 1000), .call (.attest 3 onChain digest onChain), .wait 100]

/-- Verifier 2 asks for its whole stake, waits, and tries to leave with it. -/
def departure (ledgers : ℕ) : List (Move ℕ) :=
  [.call (.requestUnstake 2 1000), .wait ledgers, .call (.withdraw 2)]

/-- Verifier 2 attests the other hash in the ledger it staked in. -/
def lie (attestWindow unbondPeriod : ℕ) :
    Transition (Chain (Vrfy.token ℕ)) (Input ℕ) :=
  (Move.call (.attest 2 onChain digest forged)).play 0
    (played 0 (chain attestWindow unbondPeriod) [.call (.stake 2 1000)])

theorem lie_label {attestWindow unbondPeriod : ℕ} :
    (lie attestWindow unbondPeriod).label =
      .call ⟨1, 0, fun _ => true⟩ (.attest 2 onChain digest forged) (.returned .unit) := rfl

/-- Every script that stays within the ledger's range is a run of it. -/
theorem run (attestWindow unbondPeriod : ℕ) (ms : List (Move ℕ)) (hpos : 0 < attestWindow)
    (hle : attestWindow ≤ unbondPeriod)
    (hfit : (played 0 (chain attestWindow unbondPeriod) ms).sequence ≤ u32Max) :
    Run 0 (config attestWindow unbondPeriod) (chain attestWindow unbondPeriod)
      (play 0 (chain attestWindow unbondPeriod) ms)
      (played 0 (chain attestWindow unbondPeriod) ms) :=
  ⟨deployed hpos hle, path_play ms hfit⟩

end Sample

/-! ## Reading a history

What a transition did, read off its label: the attestation it filed on a claim, and the amounts
it moved for a verifier. -/

/-- The claim an attestation is filed under: on-chain hash and input digest. -/
abbrev Claim : Type := Bytes32 × Bytes32

section Labels

variable [DecidableEq Address]

omit [DecidableEq Address] in
/-- The attestation a successful `attest` call filed on the claim. -/
def filedOn (claim : Claim) : Input Address → Option (Attestation Address)
  | .call env (.attest v wasmHash inputDigest rebuiltHash) (.returned _) =>
    if (wasmHash, inputDigest) = claim then some ⟨v, rebuiltHash, env.sequence⟩ else none
  | _ => none

/-- What a successful `stake` call locked for `v`. -/
def stakedBy (v : Address) : Input Address → ℤ
  | .call _ (.stake v' amount) (.returned _) => if v' = v then amount else 0
  | _ => 0

/-- What a successful `withdraw` call paid out to `v`. -/
def paidOutTo (v : Address) : Input Address → ℤ
  | .call _ (.withdraw v') (.returned (.amount amount)) => if v' = v then amount else 0
  | _ => 0

/-- What a successful `slash` call burned from `v`. -/
def burnedFrom (v : Address) : Input Address → ℤ
  | .call _ (.slash _ _ v') (.returned (.amount amount)) => if v' = v then amount else 0
  | _ => 0

/-- By how much a transition changed what `v` has in the registry. -/
def netOf (v : Address) (i : Input Address) : ℤ :=
  stakedBy v i - paidOutTo v i - burnedFrom v i

omit [DecidableEq Address] in
/-- By how much a transition changed what the registry holds. -/
def inward : Input Address → ℤ
  | .call _ (.stake _ amount) (.returned _) => amount
  | .call _ (.withdraw _) (.returned (.amount amount)) => -amount
  | .call _ (.slash _ _ _) (.returned (.amount amount)) => -amount
  | .receive amount => amount
  | _ => 0

omit [DecidableEq Address] in
/-- The verifier whose account a call is about. -/
def concerns : Input Address → Option Address
  | .call _ (.stake v _) _ => some v
  | .call _ (.requestUnstake v _) _ => some v
  | .call _ (.withdraw v) _ => some v
  | .call _ (.slash _ _ v) _ => some v
  | _ => none

omit [DecidableEq Address] in
/-- What reached the registry from outside. -/
def receivedBy : Input Address → ℤ
  | .receive amount => amount
  | _ => 0

/-- Whether the label is a successful slash of `v` on the claim. -/
def Slashes (claim : Claim) (v : Address) : Input Address → Prop
  | .call _ (.slash wasmHash inputDigest v') (.returned _) =>
    (wasmHash, inputDigest) = claim ∧ v' = v
  | _ => False

end Labels
end Registry
end Sorofy
