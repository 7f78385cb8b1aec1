import Sorofy.Foundation.Transaction
import Sorofy.Registry.Token

/-!
# What the host gives the contract

The part of the Soroban environment an entry point sees: the ledger sequence and who has
authorized the invocation (`Env`, read only), and the two storage areas, the token and the
event log (`World`, which the call changes).

An entry point is a transaction over the world.  It can return, it can refuse with one of the
contract's errors, and it can trap: in checked arithmetic, for want of an authorization, in the
token, or by `panic_with_error!`.  Time-to-live extension is left out, since no record is
archived here, so `bump_instance` has nothing to do.
-/

namespace Sorofy
namespace Registry

open Foundation

/-- Why a call trapped. -/
inductive Trap where
  | overflow
  | unauthorized
  | tokenFailed
  | panicked (error : Error)
  deriving DecidableEq, Repr

/-- The read-only part of an invocation's environment. -/
structure Env (Address : Type) where
  sequence : ℕ
  currentContractAddress : Address
  authorized : Address → Bool

/-- The state an invocation works on. -/
structure World {Address : Type} (T : Token Address) where
  instanceStorage : Storage Address
  persistent : Storage Address
  token : T.State
  events : List (Event Address)

/-- An entry point, or a part of one. -/
abbrev Entry {Address : Type} (T : Token Address) (α : Type) : Type :=
  Tx Error Trap (World T) α

section Host

variable {Address : Type} [DecidableEq Address] {T : Token Address}

/-- `require_auth`.  A contract is authorized for itself only in the calls it makes, and the
host lets no contract re-enter itself, so inside an entry point the registry's own address is
never authorized. -/
def requireAuth (env : Env Address) (a : Address) : Entry T Unit :=
  Tx.demand (a ≠ env.currentContractAddress ∧ env.authorized a = true) .unauthorized

/-- An `u32` result of checked arithmetic. -/
def checkedU32 (n : ℕ) : Entry T ℕ :=
  Tx.fit (· ≤ u32Max) n .overflow

/-- An `i128` result of checked arithmetic. -/
def checkedI128 (z : ℤ) : Entry T ℤ :=
  Tx.fit (fun z => i128Min ≤ z ∧ z ≤ i128Max) z .overflow

/-- `get`: the persistent record under a key. -/
def get (key : DataKey Address) : Entry T (Option key.Value) :=
  Tx.read fun w => w.persistent.get key

/-- `put`: set the persistent record under a key. -/
def put (key : DataKey Address) (value : key.Value) : Entry T Unit :=
  Tx.update fun w => { w with persistent := w.persistent.set key value }

/-- Publish an event. -/
def publish (event : Event Address) : Entry T Unit :=
  Tx.update fun w => { w with events := w.events ++ [event] }

/-- Replace the token's state by the result of a call to it, or trap with it. -/
def tokenCall (call : T.State → Option T.State) : Entry T Unit := fun w =>
  match call w.token with
  | some token => .ok () { w with token }
  | none => .trap .tokenFailed

/-- `TokenClient::transfer`. -/
def transfer (src dst : Address) (amount : ℤ) : Entry T Unit :=
  tokenCall fun s => T.transfer s src dst amount

/-- `TokenClient::burn`. -/
def burn (src : Address) (amount : ℤ) : Entry T Unit :=
  tokenCall fun s => T.burn s src amount

omit [DecidableEq Address] in
@[simp] theorem tokenCall_eq_ok {call : T.State → Option T.State} {w w' : World T} {u : Unit} :
    tokenCall call w = .ok u w' ↔ ∃ t, call w.token = some t ∧ { w with token := t } = w' := by
  unfold tokenCall
  cases call w.token <;> simp

omit [DecidableEq Address] in
@[simp] theorem tokenCall_ne_err {call : T.State → Option T.State} {w w' : World T} {e : Error} :
    tokenCall call w ≠ .err e w' := by
  unfold tokenCall
  cases call w.token <;> simp

omit [DecidableEq Address] in
@[simp] theorem tokenCall_eq_trap {call : T.State → Option T.State} {w : World T} {t : Trap} :
    tokenCall call w = .trap t ↔ call w.token = none ∧ .tokenFailed = t := by
  unfold tokenCall
  cases call w.token <;> simp

end Host
end Registry
end Sorofy
