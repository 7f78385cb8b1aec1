import Sorofy.Foundation.History
import Sorofy.VrfyToken.Effect

/-!
# Runs of the token

The token on its ledger: anybody may call it with any authorizations, the ledger sequence moves
on, and the host drops entries of temporary storage whose lease is over, at any moment and in any
order.  Who authorized what is part of an input's environment, so that a statement about the
holders' consent is about the labels of the history.
-/

namespace Sorofy
namespace VrfyToken

open Foundation
open History
open Registry (i128Min i128Max u32Max)

variable {Address : Type}

/-- How a call ended. -/
inductive Receipt where
  | returned
  | trapped (fault : Fault)
  deriving DecidableEq, Repr

/-- What moves the token's ledger on. -/
inductive Input (Address : Type) where
  | call (env : Env Address) (call : Call Address) (receipt : Receipt)
  | advance (sequence : ℕ)
  | evict (src spender : Address)

/-- The token on its ledger. -/
structure Ledger (Address : Type) where
  sequence : ℕ
  world : World Address

/-- The arguments of a call are of their types: an `i128` and a `u32`. -/
def Call.Typed (c : Call Address) : Prop :=
  i128Min ≤ c.amount ∧ c.amount ≤ i128Max ∧ ∀ p ∈ c.sets, p.2.liveUntilLedger ≤ u32Max

instance (c : Call Address) : Decidable c.Typed :=
  inferInstanceAs (Decidable (_ ∧ _ ∧ ∀ p ∈ c.sets, p.2.liveUntilLedger ≤ u32Max))

/-- The receipt of an outcome. -/
def receipt {Address : Type} : Outcome Empty Fault (World Address) Unit → Receipt
  | .ok _ _ => .returned
  | .trap fault => .trapped fault

section Execution

variable [DecidableEq Address]

/-- One step of the token's ledger. -/
inductive Step : Ledger Address → Input Address → Ledger Address → Prop where
  | call (s : Ledger Address) (maxLiveUntilLedger : ℕ) (authorized : Address → Bool)
      (c : Call Address) (htyped : c.Typed) :
      Step s
        (.call ⟨s.sequence, maxLiveUntilLedger, authorized⟩ c
          (receipt (c.run ⟨s.sequence, maxLiveUntilLedger, authorized⟩ s.world)))
        { s with world :=
            (c.run ⟨s.sequence, maxLiveUntilLedger, authorized⟩ s.world).commit s.world }
  | advance (s : Ledger Address) (n : ℕ) (hle : s.sequence ≤ n) (hfit : n ≤ u32Max) :
      Step s (.advance n) { s with sequence := n }
  | evict (s : Ledger Address) (src spender : Address)
      (hexpired : s.world.allowances.Expired s.sequence (src, spender)) :
      Step s (.evict src spender)
        { s with world := { s.world with allowances := s.world.allowances.evict (src, spender) } }

omit [DecidableEq Address] in
/-- The storage of a contract that has not been constructed. -/
def World.empty : World Address := ⟨none, none, fun _ => none, Leases.empty, []⟩

omit [DecidableEq Address] in
/-- The token just deployed: its constructor has returned on empty storage. -/
structure Deployed (admin : Address) (metadata : TokenMetadata) (s : Ledger Address) : Prop where
  sequence_fits : s.sequence ≤ u32Max
  constructed : construct admin metadata.decimal metadata.name metadata.symbol World.empty =
    .ok () s.world

/-- A run of the token: deployed as `s₀`, it reaches `s` by the transitions `h`. -/
structure Run (admin : Address) (metadata : TokenMetadata) (s₀ : Ledger Address)
    (h : List (Transition (Ledger Address) (Input Address))) (s : Ledger Address) : Prop where
  deployed : Deployed admin metadata s₀
  path : Path Step s₀ h s

variable {admin : Address} {metadata : TokenMetadata} {s₀ s s' : Ledger Address} {i : Input Address}
variable {h : List (Transition (Ledger Address) (Input Address))}

omit [DecidableEq Address] in
theorem Deployed.world_eq (hd : Deployed admin metadata s) :
    metadata.decimal ≤ 18 ∧
      s.world = ⟨some admin, some metadata, fun _ => none, Leases.empty, []⟩ := by
  obtain ⟨-, hd⟩ := hd
  simp only [construct, writeMetadata, writeAdministrator, Tx.bind_eq_ok, Tx.demand_eq_ok,
    Tx.update_eq_ok, Nat.not_lt] at hd
  obtain ⟨_, _, ⟨hle, rfl⟩, _, _, rfl, hw⟩ := hd
  exact ⟨hle, hw.symm⟩

/-! ## What a transition did -/

omit [DecidableEq Address] in
/-- The call that returned, with the environment it ran in. -/
def Input.returned? : Input Address → Option (Env Address × Call Address)
  | .call env c .returned => some (env, c)
  | _ => none

/-- **One step**: a call that returned, or one that did not, and then nothing has happened. -/
theorem Step.cases_returned (hstep : Step s i s') (hadmin : s.world.admin = some admin) :
    (∃ env c, i.returned? = some (env, c) ∧ c.Typed ∧ env.sequence = s.sequence ∧
      s'.sequence = s.sequence ∧ Effect env c s.world s'.world admin) ∨
    (i.returned? = none ∧ s.sequence ≤ s'.sequence ∧
      (s'.world = s.world ∨ ∃ src spender,
        s.world.allowances.Expired s.sequence (src, spender) ∧ s'.world =
          { s.world with allowances := s.world.allowances.evict (src, spender) })) := by
  cases hstep with
  | call maxLive authorized c htyped =>
    set env : Env Address := ⟨s.sequence, maxLive, authorized⟩
    cases hout : c.run env s.world with
    | ok u w' => exact .inl ⟨env, c, rfl, htyped, rfl, rfl, c.effect hadmin hout⟩
    | err e => exact e.elim
    | trap fault => exact .inr ⟨rfl, le_rfl, .inl rfl⟩
  | advance n hle => exact .inr ⟨rfl, hle, .inl rfl⟩
  | evict src spender hexpired => exact .inr ⟨rfl, le_rfl, .inr ⟨src, spender, hexpired, rfl⟩⟩

omit [DecidableEq Address] in
/-- The administrator a transition leaves. -/
def Input.adminAfter (admin : Address) (i : Input Address) : Address :=
  match i.returned? with
  | some (_, c) => c.adminAfter admin
  | none => admin

omit [DecidableEq Address] in
/-- The administrator a history leaves. -/
def administrator {σ : Type} (admin : Address) (h : List (Transition σ (Input Address))) :
    Address :=
  h.foldl (fun admin e => e.label.adminAfter admin) admin

omit [DecidableEq Address] in
@[simp] theorem administrator_snoc {σ : Type} (admin : Address)
    (h : List (Transition σ (Input Address))) (e : Transition σ (Input Address)) :
    administrator admin (h ++ [e]) = e.label.adminAfter (administrator admin h) := by
  simp only [administrator, List.foldl_append, List.foldl_cons, List.foldl_nil]

omit [DecidableEq Address] in
/-- A transition is of a call that returned, or it leaves the administrator. -/
theorem Input.adminAfter_of_returned {env : Env Address} {c : Call Address}
    (hi : i.returned? = some (env, c)) : i.adminAfter admin = c.adminAfter admin := by
  rw [Input.adminAfter, hi]

omit [DecidableEq Address] in
theorem Input.adminAfter_of_not_returned (hi : i.returned? = none) :
    i.adminAfter admin = admin := by
  rw [Input.adminAfter, hi]

/-- In a run, the administrator is the one the history leaves. -/
theorem Run.admin_eq (hrun : Run admin metadata s₀ h s) :
    s.world.admin = some (administrator admin h) := by
  refine hrun.path.invariant (P := fun h s => s.world.admin = some (administrator admin h)) ?_ ?_
  · rw [hrun.deployed.world_eq.2]
    rfl
  · intro h t i u _ hadmin hstep
    rw [administrator_snoc]
    rcases hstep.cases_returned hadmin with ⟨env, c, hret, -, -, -, he⟩ | ⟨hret, -, hw⟩
    · rw [Input.adminAfter_of_returned hret]
      exact he.administrator
    · rw [Input.adminAfter_of_not_returned hret]
      rcases hw with hw | ⟨src, spender, -, hw⟩
      · rwa [hw]
      · rwa [hw]

/-- **The rule for invariants of a run.**  What holds at deployment, is kept by every call that
returned, and by the clock and the host, holds of every run. -/
theorem Run.invariant {P : List (Transition (Ledger Address) (Input Address)) →
      Ledger Address → Prop} (hrun : Run admin metadata s₀ h s)
    (hdeployed : P [] s₀)
    (hcall : ∀ h t i u env c, P h t → i.returned? = some (env, c) → c.Typed →
      env.sequence = t.sequence → u.sequence = t.sequence →
      Effect env c t.world u.world (administrator admin h) → P (h ++ [⟨t, i, u⟩]) u)
    (hidle : ∀ h t i u, P h t → i.returned? = none → t.sequence ≤ u.sequence →
      (u.world = t.world ∨ ∃ src spender, t.world.allowances.Expired t.sequence (src, spender) ∧
        u.world = { t.world with allowances := t.world.allowances.evict (src, spender) }) →
      P (h ++ [⟨t, i, u⟩]) u) : P h s := by
  refine hrun.path.invariant hdeployed fun h t i u hpath hP hstep => ?_
  have hadmin := Run.admin_eq ⟨hrun.deployed, hpath⟩
  rcases hstep.cases_returned hadmin with ⟨env, c, hret, htyped, hseq, hsame, he⟩ |
    ⟨hret, hle, hw⟩
  · exact hcall h t i u env c hP hret htyped hseq hsame he
  · exact hidle h t i u hP hret hle hw

/-- Cut at one of its transitions, a run was a run before it. -/
theorem Run.cut {before after : List (Transition (Ledger Address) (Input Address))}
    {e : Transition (Ledger Address) (Input Address)}
    (hrun : Run admin metadata s₀ (before ++ e :: after) s) :
    Run admin metadata s₀ before e.pre ∧ Step e.pre e.label e.post := by
  obtain ⟨hbefore, hat, -⟩ := hrun.path.cut
  exact ⟨⟨hrun.deployed, hbefore⟩, hat⟩

/-- The effect of a call of a run that returned. -/
theorem Run.effect {before after : List (Transition (Ledger Address) (Input Address))}
    {e : Transition (Ledger Address) (Input Address)} {env : Env Address} {c : Call Address}
    (hrun : Run admin metadata s₀ (before ++ e :: after) s)
    (hret : e.label.returned? = some (env, c)) :
    env.sequence = e.pre.sequence ∧
      Effect env c e.pre.world e.post.world (administrator admin before) := by
  obtain ⟨hbefore, hstep⟩ := hrun.cut
  rcases hstep.cases_returned hbefore.admin_eq with ⟨env', c', hret', -, hseq, -, he⟩ |
    ⟨hnone, -⟩
  · cases hret.symm.trans hret'
    exact ⟨hseq, he⟩
  · rw [hret] at hnone
    cases hnone

/-! ## Scripts -/

omit [DecidableEq Address] in
/-- A move of a script: a call with the authorizations of some, some ledgers going by, or an entry
being dropped. -/
inductive Move (Address : Type) where
  | call (signers : List Address) (c : Call Address)
  | wait (ledgers : ℕ)
  | evict (src spender : Address)

namespace Move

/-- The outcome of a call with the authorizations of the signers. -/
def outcome (s : Ledger Address) (signers : List Address) (c : Call Address) :
    Outcome Empty Fault (World Address) Unit :=
  c.run ⟨s.sequence, u32Max, fun a => signers.contains a⟩ s.world

/-- What a move is seen as. -/
def label (s : Ledger Address) : Move Address → Input Address
  | .call signers c =>
    .call ⟨s.sequence, u32Max, fun a => signers.contains a⟩ c (receipt (outcome s signers c))
  | .wait ledgers => .advance (s.sequence + ledgers)
  | .evict src spender => .evict src spender

/-- The state after a move. -/
def post (s : Ledger Address) : Move Address → Ledger Address
  | .call signers c => { s with world := (outcome s signers c).commit s.world }
  | .wait ledgers => { s with sequence := s.sequence + ledgers }
  | .evict src spender =>
    { s with world := { s.world with allowances := s.world.allowances.evict (src, spender) } }

omit [DecidableEq Address] in
/-- When a move may be made. -/
def May (s : Ledger Address) : Move Address → Prop
  | .call _ c => c.Typed
  | .wait ledgers => s.sequence + ledgers ≤ u32Max
  | .evict src spender => s.world.allowances.Expired s.sequence (src, spender)

instance (s : Ledger Address) : (m : Move Address) → Decidable (m.May s)
  | .call _ c => inferInstanceAs (Decidable c.Typed)
  | .wait ledgers => inferInstanceAs (Decidable (s.sequence + ledgers ≤ u32Max))
  | .evict src spender =>
    inferInstanceAs (Decidable (s.world.allowances.Expired s.sequence (src, spender)))

theorem step (s : Ledger Address) (m : Move Address) (hmay : m.May s) :
    Step s (m.label s) (m.post s) := by
  cases m with
  | call signers c => exact Step.call s _ _ c hmay
  | wait ledgers => exact Step.advance s _ (Nat.le_add_right ..) hmay
  | evict src spender => exact Step.evict s src spender hmay

end Move

end Execution

/-! ### A token to run scripts on -/

namespace Sample

/-- VRFY, as it is deployed. -/
def metadata : TokenMetadata := ⟨7, "Sorofy Verifier Token", "VRFY"⟩

/-- The token, deployed at ledger 1 with the administrator 0. -/
def ledger : Ledger ℕ := ⟨1, ⟨some 0, some metadata, fun _ => none, Leases.empty, []⟩⟩

theorem deployed : Deployed 0 metadata ledger where
  sequence_fits := by
    show 1 ≤ u32Max
    decide
  constructed := rfl

/-- Account 1 is given 100 and lets account 2 spend 60 of it until ledger 10; 2 spends 25. -/
def lending : List (Move ℕ) :=
  [.call [0] (.mint 1 100), .call [1] (.approve 1 2 60 10), .wait 3,
    .call [2] (.transferFrom 2 1 3 25)]

/-- The history of a script. -/
def played (ms : List (Move ℕ)) : List (Transition (Ledger ℕ) (Input ℕ)) :=
  script (fun s m => m.label s) (fun s m => m.post s) ledger ms

/-- The state after a script. -/
def after (ms : List (Move ℕ)) : Ledger ℕ :=
  ms.foldl (fun s m => m.post s) ledger

theorem run (ms : List (Move ℕ))
    (hmay : Playable (fun s m => m.post s) (fun s m => m.May s) ledger ms) :
    Run 0 metadata ledger (played ms) (after ms) :=
  ⟨deployed, Path.of_script Move.step ms ledger hmay⟩

end Sample

end VrfyToken
end Sorofy
