import Sorofy.Foundation.Leases
import Sorofy.Foundation.Transaction
import Sorofy.Registry.Types

/-!
# The VRFY token contract

The entry points of `contracts/vrfy-token`, statement by statement, over the three storage areas
they use: the administrator and the metadata in instance storage, the balances in persistent
storage, the allowances in temporary storage.

The contract has no error type: a call returns, or it panics and the host keeps nothing of it.
Instance and persistent storage are not archived here, so extending their time to live is left
out.  Temporary storage does lose its entries, and there the time to live matters: `write_allowance`
pays for an entry up to the ledger the allowance lives until, and the host refuses to be paid beyond
the longest lease it gives.
-/

namespace Sorofy
namespace VrfyToken

open Foundation
open Registry (i128Min i128Max u32Max)

/-- `AllowanceValue`. -/
structure AllowanceValue where
  amount : ℤ
  liveUntilLedger : ℕ
  deriving DecidableEq, Repr

/-- `TokenMetadata`. -/
structure TokenMetadata where
  decimal : ℕ
  name : String
  symbol : String
  deriving DecidableEq, Repr

/-- What the token publishes. -/
inductive Event (Address : Type) where
  | mint (dst : Address) (amount : ℤ)
  | setAdmin (admin newAdmin : Address)
  | approve (src spender : Address) (amount : ℤ) (expirationLedger : ℕ)
  | transfer (src dst : Address) (muxedId : Option ℕ) (amount : ℤ)
  | burn (src : Address) (amount : ℤ)
  deriving DecidableEq, Repr

/-- Why a call trapped. -/
inductive Fault where
  | unauthorized
  | overflow
  | unwrapped
  | leaseTooLong
  | panicked (message : String)
  deriving DecidableEq, Repr

/-- The read-only part of an invocation's environment. -/
structure Env (Address : Type) where
  sequence : ℕ
  maxLiveUntilLedger : ℕ
  authorized : Address → Bool

/-- The state an invocation works on.  An allowance is stored under its owner and its spender. -/
structure World (Address : Type) where
  admin : Option Address
  metadata : Option TokenMetadata
  balances : Address → Option ℤ
  allowances : Leases (Address × Address) AllowanceValue
  events : List (Event Address)

/-- An entry point, or a part of one. -/
abbrev Entry (Address α : Type) : Type :=
  Tx Empty Fault (World Address) α

variable {Address : Type} [DecidableEq Address]

/-- An `i128` result of checked arithmetic. -/
def checkedI128 (z : ℤ) : Entry Address ℤ :=
  Tx.fit (fun z => i128Min ≤ z ∧ z ≤ i128Max) z .overflow

/-- `require_auth`. -/
def requireAuth (env : Env Address) (a : Address) : Entry Address Unit :=
  Tx.demand (env.authorized a = true) .unauthorized

/-- Publish an event. -/
def publish (event : Event Address) : Entry Address Unit :=
  Tx.update fun w => { w with events := w.events ++ [event] }

/-- `check_nonnegative_amount`. -/
def checkNonnegativeAmount (amount : ℤ) : Entry Address Unit :=
  Tx.demand (¬ amount < 0) (.panicked s!"negative amount is not allowed: {amount}")

/-! ## Administrator and metadata -/

/-- `read_administrator`. -/
def readAdministrator : Entry Address Address := do
  let admin ← Tx.read World.admin
  Tx.someOrTrap admin .unwrapped

/-- `write_administrator`. -/
def writeAdministrator (id : Address) : Entry Address Unit :=
  Tx.update fun w => { w with admin := some id }

/-- `write_metadata`. -/
def writeMetadata (metadata : TokenMetadata) : Entry Address Unit :=
  Tx.update fun w => { w with metadata := some metadata }

/-- `TokenUtils::metadata`, as `read_decimal`, `read_name` and `read_symbol` use it. -/
def readMetadata : Entry Address TokenMetadata := do
  let metadata ← Tx.read World.metadata
  Tx.someOrTrap metadata .unwrapped

/-! ## Balances -/

/-- `read_balance`: an account without a record has nothing. -/
def World.readBalance (w : World Address) (addr : Address) : ℤ :=
  (w.balances addr).getD 0

/-- `write_balance`. -/
def World.writeBalance (w : World Address) (addr : Address) (amount : ℤ) : World Address :=
  { w with balances := Function.update w.balances addr (some amount) }

/-- `receive_balance`: the addition is checked. -/
def receiveBalance (addr : Address) (amount : ℤ) : Entry Address Unit := do
  let balance ← Tx.read fun w => w.readBalance addr
  let balance ← checkedI128 (balance + amount)
  Tx.update fun w => w.writeBalance addr balance

/-- `spend_balance`. -/
def spendBalance (addr : Address) (amount : ℤ) : Entry Address Unit := do
  let balance ← Tx.read fun w => w.readBalance addr
  Tx.demand (¬ balance < amount) (.panicked "insufficient balance")
  let balance ← checkedI128 (balance - amount)
  Tx.update fun w => w.writeBalance addr balance

/-! ## Allowances -/

/-- `read_allowance`: nothing can be spent of an allowance that has expired. -/
def World.readAllowance (w : World Address) (sequence : ℕ) (src spender : Address) :
    AllowanceValue :=
  match w.allowances.get (src, spender) with
  | some allowance =>
    if allowance.liveUntilLedger < sequence then
      { amount := 0, liveUntilLedger := allowance.liveUntilLedger }
    else allowance
  | none => { amount := 0, liveUntilLedger := 0 }

/-- `extend_ttl` on temporary storage.  The host traps where the lease would be longer than it
gives. -/
def extendAllowance (env : Env Address) (src spender : Address) (liveFor : ℕ) :
    Entry Address Unit := do
  Tx.demand (env.sequence + liveFor ≤ env.maxLiveUntilLedger) .leaseTooLong
  Tx.update fun w =>
    { w with allowances := w.allowances.extend (src, spender) (env.sequence + liveFor) }

/-- `write_allowance`. -/
def writeAllowance (env : Env Address) (src spender : Address) (amount : ℤ)
    (liveUntilLedger : ℕ) : Entry Address Unit := do
  Tx.demand (¬ (amount > 0 ∧ liveUntilLedger < env.sequence))
    (.panicked "live_until_ledger is less than ledger seq when amount > 0")
  Tx.update fun w => { w with
    allowances := w.allowances.set env.sequence (src, spender) { amount, liveUntilLedger } }
  if amount > 0 then do
    Tx.demand (env.sequence ≤ liveUntilLedger) .unwrapped
    extendAllowance env src spender (liveUntilLedger - env.sequence)

/-- `spend_allowance`. -/
def spendAllowance (env : Env Address) (src spender : Address) (amount : ℤ) :
    Entry Address Unit := do
  let allowance ← Tx.read fun w => w.readAllowance env.sequence src spender
  Tx.demand (¬ allowance.amount < amount) (.panicked "insufficient allowance")
  if amount > 0 then do
    let rest ← checkedI128 (allowance.amount - amount)
    writeAllowance env src spender rest allowance.liveUntilLedger

/-! ## The entry points -/

/-- `__constructor`. -/
def construct (admin : Address) (decimal : ℕ) (name symbol : String) : Entry Address Unit := do
  Tx.demand (¬ decimal > 18) (.panicked "Decimal must not be greater than 18")
  writeAdministrator admin
  writeMetadata { decimal, name, symbol }

/-- `mint`. -/
def mint (env : Env Address) (dst : Address) (amount : ℤ) : Entry Address Unit := do
  checkNonnegativeAmount amount
  let admin ← readAdministrator
  requireAuth env admin
  receiveBalance dst amount
  publish (.mint dst amount)

/-- `set_admin`. -/
def setAdmin (env : Env Address) (newAdmin : Address) : Entry Address Unit := do
  let admin ← readAdministrator
  requireAuth env admin
  writeAdministrator newAdmin
  publish (.setAdmin admin newAdmin)

/-- `allowance`. -/
def allowance (env : Env Address) (src spender : Address) : Entry Address ℤ :=
  Tx.read fun w => (w.readAllowance env.sequence src spender).amount

/-- `approve`. -/
def approve (env : Env Address) (src spender : Address) (amount : ℤ) (liveUntilLedger : ℕ) :
    Entry Address Unit := do
  requireAuth env src
  checkNonnegativeAmount amount
  writeAllowance env src spender amount liveUntilLedger
  publish (.approve src spender amount liveUntilLedger)

/-- `balance`. -/
def balance (id : Address) : Entry Address ℤ :=
  Tx.read fun w => w.readBalance id

/-- `transfer`.  A muxed destination is an address with an identifier. -/
def transfer (env : Env Address) (src dst : Address) (muxedId : Option ℕ) (amount : ℤ) :
    Entry Address Unit := do
  requireAuth env src
  checkNonnegativeAmount amount
  spendBalance src amount
  receiveBalance dst amount
  publish (.transfer src dst muxedId amount)

/-- `transfer_from`. -/
def transferFrom (env : Env Address) (spender src dst : Address) (amount : ℤ) :
    Entry Address Unit := do
  requireAuth env spender
  checkNonnegativeAmount amount
  spendAllowance env src spender amount
  spendBalance src amount
  receiveBalance dst amount
  publish (.transfer src dst none amount)

/-- `burn`. -/
def burn (env : Env Address) (src : Address) (amount : ℤ) : Entry Address Unit := do
  requireAuth env src
  checkNonnegativeAmount amount
  spendBalance src amount
  publish (.burn src amount)

/-- `burn_from`. -/
def burnFrom (env : Env Address) (spender src : Address) (amount : ℤ) : Entry Address Unit := do
  requireAuth env spender
  checkNonnegativeAmount amount
  spendAllowance env src spender amount
  spendBalance src amount
  publish (.burn src amount)

/-- `decimals`. -/
def decimals : Entry Address ℕ := do
  let metadata ← readMetadata
  pure metadata.decimal

/-- `name`. -/
def name : Entry Address String := do
  let metadata ← readMetadata
  pure metadata.name

/-- `symbol`. -/
def symbol : Entry Address String := do
  let metadata ← readMetadata
  pure metadata.symbol

/-! ## Calls -/

/-- A call of one of the entry points that write. -/
inductive Call (Address : Type) where
  | mint (dst : Address) (amount : ℤ)
  | setAdmin (newAdmin : Address)
  | approve (src spender : Address) (amount : ℤ) (liveUntilLedger : ℕ)
  | transfer (src dst : Address) (muxedId : Option ℕ) (amount : ℤ)
  | transferFrom (spender src dst : Address) (amount : ℤ)
  | burn (src : Address) (amount : ℤ)
  | burnFrom (spender src : Address) (amount : ℤ)
  deriving DecidableEq, Repr

/-- The entry point a call runs. -/
def Call.run (env : Env Address) : Call Address → Entry Address Unit
  | .mint dst amount => VrfyToken.mint env dst amount
  | .setAdmin newAdmin => VrfyToken.setAdmin env newAdmin
  | .approve src spender amount liveUntilLedger =>
    VrfyToken.approve env src spender amount liveUntilLedger
  | .transfer src dst muxedId amount => VrfyToken.transfer env src dst muxedId amount
  | .transferFrom spender src dst amount => VrfyToken.transferFrom env spender src dst amount
  | .burn src amount => VrfyToken.burn env src amount
  | .burnFrom spender src amount => VrfyToken.burnFrom env spender src amount

end VrfyToken
end Sorofy
