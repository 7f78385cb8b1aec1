import Sorofy.Foundation.Async
import Sorofy.Gate.Amount
import Sorofy.Gate.Check
import Sorofy.Gate.Toml

/-!
# What the page does with a wallet

`web/gate/lib/protocol.js`, `anchor.js` and `wallet.js`: a deposit into a pool, the steps of a
deposit with an anchor, and the wallet that signs for both.  Each is an `Async` over whatever state
the page has; none of them touches it.

What they wait for is a `Call`, to the network, to the wallet or to a module that is loaded, or a
whole check of a contract, which is answered with the `Browser` it consults.  `Library` is what the
Stellar SDK and the language compute without waiting.  A transaction that has been built is its
envelope.
-/

namespace Sorofy
namespace Gate

open Foundation
open Foundation.Async (Does.throw Does.ask)

/-! ## The configuration -/

namespace Network

/-- `NETWORK.passphrase`. -/
def passphrase : JsString := js "Test SDF Network ; September 2015"

/-- `NETWORK.explorer`. -/
def explorer : JsString := js "https://stellar.expert/explorer/testnet"

end Network

/-- `ACTIVE_REGISTRY`. -/
def activeRegistry : JsString :=
  js "CDACBJDL7SEXSODGEAQSK5SPVHWZ7QM5PGQP37C7Y3ACYO5Q5QJQZXY4"

/-- `ANCHOR.homeDomain`. -/
def anchorDomain : JsString := js "testanchor.stellar.org"

/-- An asset. -/
structure Asset where
  code : JsString
  label : JsString
  issuer : Option JsString
  sac : JsString
  decimals : ℕ
  suppliable : Bool
  deriving DecidableEq

/-- The names of the assets. -/
inductive AssetKey where
  | native
  | SRT
  deriving DecidableEq

/-- `ASSETS`. -/
def assets : AssetKey → Asset
  | .native =>
    { code := js "native"
      label := js "XLM"
      issuer := none
      sac := js "CDLZFC3SYJYDZT7K67VZ75HPJVIEUVNIXF47ZG2FB2RMQQVU2HHGCYSC"
      decimals := 7
      suppliable := true }
  | .SRT =>
    { code := js "SRT"
      label := js "SRT"
      issuer := some (js "GCDNJUBQSX7AJWLJACMJ7I4BC3Z47BQUTMHEICZLE6MU4KQBRYG5JY6B")
      sac := js "CBZVLMD5DBKIFSVU23WAVMJD25IRUBWCVAXGURPUPMB2CUNFBQN742UV"
      decimals := 7
      suppliable := false }

/-- A target of a deposit. -/
structure Protocol where
  kind : JsString
  label : JsString
  contractId : JsString
  note : JsString
  unimplemented : Bool
  noDeposit : Bool
  deriving DecidableEq

/-- The names of the targets. -/
inductive ProtocolKey where
  | blendV2Pool
  | defindexUsdcVault
  | vrfyToken
  deriving DecidableEq

/-- `PROTOCOLS`. -/
def protocols : ProtocolKey → Protocol
  | .blendV2Pool =>
    { kind := js "blend-v2"
      label := js "Blend v2 — testnet pool"
      contractId := js "CCEBVDYM32YNYCVNRXQKDFFPISJJCV557CDZEIRBEE4NCV4KHPQ44HGF"
      note := js "A live Blend v2 lending pool. Declares a source repo, no SEP-58 build metadata."
      unimplemented := false
      noDeposit := false }
  | .defindexUsdcVault =>
    { kind := js "defindex"
      label := js "DeFindex — USDC vault (recorded, not wired)"
      contractId := js "CBMVK2JK6NTOT2O4HNQAIQFJY232BHKGLIMXDVQVHIIZKDACXDFZDWHN"
      note := js ("deposit(amounts_desired, amounts_min, from, invest). " ++
        "Left unimplemented on purpose.")
      unimplemented := true
      noDeposit := false }
  | .vrfyToken =>
    { kind := js "none"
      label := js "VRFY token — Sorofy’s own, reproduced by its own engine"
      contractId := js "CCM2LLD2TAFOMQQUQK62DHCEWNO7UEYOWDXL52GF3KTDK4NMBT6HKEDW"
      note := js ("Not a pool — here so the gate can be pointed at a contract Sorofy really " ++
        "rebuilt.")
      unimplemented := false
      noDeposit := true }

/-! ## What the page waits for -/

/-- A URL that was parsed. -/
structure Url where
  base : JsString
  hostname : JsString
  query : List (JsString × JsString)

/-- `url.searchParams.set(name, value)`. -/
def Url.set (url : Url) (name value : JsString) : Url :=
  { url with query := Keyed.put Prod.fst url.query (name, value) }

/-- Where a request goes. -/
inductive Endpoint where
  | text (url : JsString)
  | url (url : Url)

/-- A request, with the value its JSON body is made from. -/
structure FetchRequest where
  endpoint : Endpoint
  post : Bool
  headers : List (JsString × JsString)
  body : Option JsValue

/-- The status of a response. -/
structure Response where
  ok : Bool
  status : ℤ

/-- A request of the pool. -/
structure Request where
  address : JsString
  amount : ℤ
  requestType : ℕ
  deriving DecidableEq

/-- An operation of a transaction. -/
inductive Operation where
  | submit (contractId sender spender receiver : JsString) (requests : List Request)
  | changeTrust (code issuer : JsString)
  deriving DecidableEq

/-- A transaction to be built, with an account as it was loaded. -/
structure Transaction where
  source : JsValue
  operation : Operation
  timeout : ℕ
  networkPassphrase : JsString

/-- A call that is waited for, and that can fail. -/
inductive Call where
  /-- `import(VENDOR.stellarSdk)`. -/
  | loadSdk
  /-- `import(VENDOR.walletsKit)`. -/
  | loadKit
  | openModal
  | getAddress
  | sign (xdr : JsValue) (address : JsString) (networkPassphrase : JsString)
  | getAccount (account : JsString)
  | loadAccount (account : JsString)
  | prepareTransaction (envelope : JsString)
  | sendTransaction (signed : JsString)
  | submitTransaction (signed : JsString)
  | getTransaction (hash : JsValue)
  | fetch (request : FetchRequest)
  | json
  | text

/-- What a call returns, unless it fails. -/
@[reducible] def Call.Reply : Call → Type
  | .loadSdk => Unit
  | .loadKit => Unit
  | .openModal => JsString
  | .getAddress => JsString
  | .sign _ _ _ => JsValue
  | .getAccount _ => JsValue
  | .loadAccount _ => JsValue
  | .prepareTransaction _ => JsString
  | .sendTransaction _ => JsValue
  | .submitTransaction _ => JsValue
  | .getTransaction _ => JsValue
  | .fetch _ => Response
  | .json => JsValue
  | .text => JsString

/-- What is waited for: a check of a contract, the time, or a call. -/
inductive Ask where
  | check (contractId : JsString)
  | sleep (ms : ℕ)
  | call (c : Call)

/-- What the page is told. -/
@[reducible] def Answer : Ask → Type
  | .check _ => Browser
  | .sleep _ => Unit
  | .call c => Except JsString c.Reply

/-- A call that returned. -/
def returned (c : Call) (reply : c.Reply) : Exchange Answer := ⟨.call c, .ok reply⟩

/-- An error, with the verdict of the gate if that is what stopped the deposit. -/
structure Thrown where
  message : JsString
  blocked : Option CheckResult

/-- A part of a handler, over the state of the page. -/
abbrev Program (σ α : Type) : Type := Async σ Answer Thrown α

/-- What the SDK and the language compute without waiting. -/
structure Library where
  rt : Runtime
  /-- The number a TOML fraction stands for. -/
  fraction : JsString → JsValue
  parseUrl : JsString → Except JsString Url
  encodeURIComponent : JsString → Except JsString JsString
  /-- `new Address(id)` and `new Contract(id)`. -/
  address : JsString → Except JsString Unit
  /-- `nativeToScVal`, of a request. -/
  toScVal : Request → Except JsString Unit
  /-- The envelope of a transaction. -/
  build : Transaction → Except JsString JsString
  /-- `TransactionBuilder.fromXDR`. -/
  fromXdr : JsString → Except JsString Unit
  /-- `WebAuth.readChallengeTx`, with the account the challenge is for. -/
  readChallengeTx : (transaction signingKey : JsValue) →
    (network homeDomain webAuthDomain : JsString) → Except JsString JsString

section Steps

variable {σ α : Type}

/-- `throw new Error(message)`. -/
def fail (message : JsString) : Program σ α := .throw ⟨message, none⟩

/-- What is computed without waiting, and may throw. -/
def attempt (x : Except JsString α) : Program σ α :=
  match x with
  | .ok a => .pure a
  | .error message => fail message

/-- Call, and go on with the reply. -/
def call (c : Call) : Program σ c.Reply :=
  .ask (.call c) fun answer => attempt answer

/-- Check a contract. -/
def awaitCheck (contractId : JsString) : Program σ CheckResult :=
  .ask (.check contractId) fun browser =>
    .pure (checkContract browser activeRegistry contractId)

/-- `new Promise((r) => setTimeout(r, ms))`. -/
def sleep (ms : ℕ) : Program σ Unit := Async.await (Ask.sleep ms)

end Steps

/-! ### What can be said of them -/

section Rules

open Async (Discipline Point Does)

variable {σ α β : Type} {D : Discipline σ Answer} {p : Point σ Answer}
variable {P : β → List (Exchange Answer) → Prop} {E : Thrown → List (Exchange Answer) → Prop}

theorem Does.fail {message : JsString} (hp : D.Yields p) (hE : E ⟨message, none⟩ p.told) :
    Does D (fail message : Program σ β) p P E :=
  Does.throw hp hE

theorem Does.attempted {x : Except JsString β} (hp : D.Yields p)
    (hE : ∀ message, E ⟨message, none⟩ p.told) (hx : ∀ b, x = .ok b → P b p.told) :
    Does D (attempt x : Program σ β) p P E := by
  cases x with
  | ok b => exact Async.Does.pure hp (hx b rfl)
  | error message => exact Does.throw hp (hE message)

theorem Does.attempt {x : Except JsString α} {k : α → Program σ β} (hp : D.Yields p)
    (hE : ∀ message, E ⟨message, none⟩ p.told) (hk : ∀ a, x = .ok a → Does D (k a) p P E) :
    Does D (attempt x >>= k) p P E := by
  cases x with
  | ok a => exact hk a rfl
  | error message => exact Does.throw hp (hE message)

theorem Does.call (hD : D.Lazy) {c : Call} {k : c.Reply → Program σ β} (hp : D.Yields p)
    (hc : D.reason p.told (.call c))
    (hE : ∀ message, E ⟨message, none⟩ (p.told ++ [⟨.call c, .error message⟩]))
    (hk : ∀ reply p', D.Reaches p p' → p'.told = p.told ++ [returned c reply] →
      Does D (k reply) p' P E) : Does D (call c >>= k) p P E := by
  refine Does.ask hD hp hc fun answer p' hreach htold => ?_
  cases answer with
  | ok reply => exact hk reply p' hreach htold
  | error message =>
    refine Does.throw hreach.yields ?_
    rw [htold]
    exact hE message

end Rules

/-- `v === s`, for a string. -/
def JsValue.is (v : JsValue) (s : JsString) : Bool :=
  match v with
  | .string t => t = s
  | _ => false

@[simp] theorem JsValue.is_eq_true {v : JsValue} {s : JsString} : v.is s = true ↔ v = .string s := by
  cases v <;> simp [JsValue.is]

/-! ## The wallet -/

/-- A connection. -/
structure Wallet where
  address : JsString
  walletId : JsString

/-- The signed envelope, whatever name the wallet gives it. -/
def signedEnvelope (result : JsValue) : Except JsString JsString :=
  let signed : JsValue := match result with
    | .string s => .string s
    | result => (result.get (js "signedTxXdr")).orElse (result.get (js "signedXDR"))
  match signed with
  | .string s => if s = [] then throw (js "the wallet returned no signed transaction") else pure s
  | _ => throw (js "the wallet returned no signed transaction")

section Wallet

variable {σ : Type}

/-- `connect`. -/
def connect : Program σ Wallet := do
  call .loadKit
  let selectedId ← call .openModal
  let address ← call .getAddress
  if address = [] then fail (js "the wallet returned no address")
  else pure ⟨address, selectedId⟩

/-- `signWith`. -/
def signWith (address : JsString) (xdr : JsValue) (networkPassphrase : JsString) :
    Program σ JsString := do
  let result ← call (.sign xdr address networkPassphrase)
  attempt (signedEnvelope result)

end Wallet

/-! ## The pool -/

/-- `REQUEST_TYPE`. -/
inductive RequestType where
  | Supply
  | SupplyCollateral

/-- The number of a request type. -/
def RequestType.code : RequestType → ℕ
  | .Supply => 0
  | .SupplyCollateral => 2

/-- What is known of a transaction that was sent. -/
structure Settled where
  status : JsValue
  /-- `none` where the network has not said. -/
  succeeded : Option Bool

/-- What `supply` returns. -/
structure SupplyResult where
  hash : JsValue
  settled : Settled
  verdict : CheckResult

/-- The transaction of a deposit. -/
def supplyTransaction (pool : Protocol) (asset : Asset) (stroops : ℤ) (account : JsString)
    (source : JsValue) : Transaction where
  source := source
  operation := .submit pool.contractId account account account
    [⟨asset.sac, stroops, RequestType.Supply.code⟩]
  timeout := 180
  networkPassphrase := Network.passphrase

section Pool

variable {σ : Type} (lib : Library)

/-- `waitForTransaction`, with the number of attempts that are left. -/
def waitForTransaction (hash : JsValue) (everyMs : ℕ) : ℕ → Program σ Settled
  | 0 => pure ⟨.string (js "PENDING"), none⟩
  | attempts + 1 => do
    let result ← call (.getTransaction hash)
    let status ← attempt (result.read (js "status"))
    if status.is (js "NOT_FOUND") = false then pure ⟨status, some (status.is (js "SUCCESS"))⟩
    else
      sleep everyMs
      waitForTransaction hash everyMs attempts

/-- `supply`. -/
def supply (pool : Protocol) (asset : Asset) (amount account : JsString)
    (signTransaction : JsValue → JsString → Program σ JsString)
    (recheck : Program σ CheckResult) : Program σ SupplyResult := do
  let verdict ← recheck
  if verdict.allow = false then
    .throw ⟨js "blocked by the verification gate: " ++ verdict.headline, some verdict⟩
  else
    call .loadSdk
    let stroops ← attempt (toStroops amount asset.decimals)
    attempt (lib.address asset.sac)
    attempt (lib.toScVal ⟨asset.sac, stroops, RequestType.Supply.code⟩)
    attempt (lib.address account)
    attempt (lib.address pool.contractId)
    let source ← call (.getAccount account)
    let built ← attempt (lib.build (supplyTransaction pool asset stroops account source))
    let prepared ← call (.prepareTransaction built)
    let signedXdr ← signTransaction (.string prepared) Network.passphrase
    attempt (lib.fromXdr signedXdr)
    let sent ← call (.sendTransaction signedXdr)
    let status ← attempt (sent.read (js "status"))
    if status.is (js "ERROR") = true then
      let reason ← attempt (lib.rt.stringify
        ((sent.get (js "errorResult")).orElse (.object [] .null)))
      fail (js "the pool rejected the transaction: " ++ reason.getD (js "undefined"))
    else
      let hash := sent.get (js "hash")
      let settled ← waitForTransaction hash 1000 30
      pure ⟨hash, settled, verdict⟩

end Pool

/-! ## The anchor -/

/-- A currency an anchor lists. -/
structure Currency where
  code : JsValue
  issuer : JsValue
  desc : JsValue

/-- What a `stellar.toml` says of an anchor. -/
structure Anchor where
  homeDomain : JsString
  webAuth : JsValue
  sep24 : JsValue
  signingKey : JsValue
  kycServer : JsValue
  networkPassphrase : JsValue
  currencies : List Currency
  orgName : JsValue
  missing : List JsString
  handlesTry : Bool

/-- `missing.length === 0`. -/
def Anchor.usable (anchor : Anchor) : Bool := anchor.missing.isEmpty

/-- `/^TRY$/i.test(code)`. -/
def isTry (code : JsString) : Bool :=
  code.map (fun u => UInt16.ofNat (Hex.lower u.toNat)) = js "try"

/-- One entry of `CURRENCIES`. -/
def currency (c : JsValue) : Except JsString Currency := do
  let code ← c.read (js "code")
  pure
    { code
      issuer := (c.get (js "issuer")).orElse .null
      desc := (c.get (js "desc")).orElse (.string []) }

/-- `(toml.CURRENCIES ?? []).map(…)`. -/
def currencyList (listed : JsValue) : Except JsString (List Currency) :=
  match listed.orElse (.array []) with
  | .array elems => elems.mapM currency
  | _ => throw (js "(toml.CURRENCIES ?? []).map is not a function")

/-- `describeAnchor`. -/
def describeAnchor (rt : Runtime) (toml : JsValue) (homeDomain : JsString) :
    Except JsString Anchor := do
  let webAuth ← toml.read (js "WEB_AUTH_ENDPOINT")
  let sep24 := toml.get (js "TRANSFER_SERVER_SEP0024")
  let signingKey := toml.get (js "SIGNING_KEY")
  let missing :=
    (if webAuth.truthy = true then [] else [js "WEB_AUTH_ENDPOINT (SEP-10)"]) ++
    (if sep24.truthy = true then [] else [js "TRANSFER_SERVER_SEP0024 (SEP-24)"]) ++
    (if signingKey.truthy = true then [] else [js "SIGNING_KEY"])
  let currencies ← currencyList (toml.get (js "CURRENCIES"))
  pure
    { homeDomain
      webAuth
      sep24
      signingKey
      kycServer := (toml.get (js "KYC_SERVER")).orElse .null
      networkPassphrase := (toml.get (js "NETWORK_PASSPHRASE")).orElse .null
      currencies
      orgName := ((toml.get (js "DOCUMENTATION")).get (js "ORG_NAME")).orElse .null
      missing
      handlesTry := currencies.any fun c => isTry ((c.code.orElse (.string [])).toString rt) }

/-- The status of a deposit with an anchor. -/
structure DepositStatus where
  status : JsValue
  amountOut : JsValue
  message : JsValue
  settled : Bool
  failed : Bool

/-- `SETTLED`. -/
def settledStatuses : List JsString := [js "completed"]

/-- `FAILED`. -/
def failedStatuses : List JsString :=
  [js "error", js "refunded", js "expired", js "no_market", js "too_small", js "too_large"]

/-- What the anchor says of a transaction. -/
def readStatus (transaction : JsValue) : DepositStatus where
  status := (transaction.get (js "status")).orElse (.string (js "unknown"))
  amountOut := (transaction.get (js "amount_out")).orElse .null
  message := (transaction.get (js "message")).orElse .null
  settled := settledStatuses.any (transaction.get (js "status")).is
  failed := failedStatuses.any (transaction.get (js "status")).is

/-- What `ensureTrustline` did. -/
structure TrustlineResult where
  needed : Bool
  created : Bool
  hash : Option JsValue
  reason : JsString

/-- The transaction that creates a trustline. -/
def trustlineTransaction (asset : Asset) (issuer : JsString) (loaded : JsValue) : Transaction where
  source := loaded
  operation := .changeTrust asset.code issuer
  timeout := 120
  networkPassphrase := Network.passphrase

/-- `balances.some(…)`, as far as it looks: whether a balance is of the asset. -/
def someBalance (code issuer : JsString) : List JsValue → Except JsString Bool
  | [] => pure false
  | b :: balances => do
    let assetCode ← b.read (js "asset_code")
    if assetCode.is code = true ∧ (b.get (js "asset_issuer")).is issuer = true then pure true
    else someBalance code issuer balances

/-- Whether an account that was loaded can hold the asset. -/
def hasTrustline (code issuer : JsString) (loaded : JsValue) : Except JsString Bool := do
  match ← loaded.read (js "balances") with
  | .array balances => someBalance code issuer balances
  | .undefined => throw (js "Cannot read properties of undefined (reading 'some')")
  | .null => throw (js "Cannot read properties of null (reading 'some')")
  | _ => throw (js "loaded.balances.some is not a function")

section Anchor

variable {σ : Type} (lib : Library)

/-- A plain `GET`. -/
def getRequest (endpoint : Endpoint) : FetchRequest := ⟨endpoint, false, [], none⟩

/-- A `POST` of a value as JSON. -/
def postRequest (url : JsString) (headers : List (JsString × JsString)) (body : JsValue) :
    FetchRequest :=
  ⟨.text url, true, (js "Content-Type", js "application/json") :: headers, some body⟩

/-- An object, from its properties. -/
def object (own : List (String × JsValue)) : JsValue :=
  .object (own.map fun p => (js p.1, p.2)) .null

/-- A number in a message. -/
def digits (n : ℤ) : JsString := js (toString n)

/-- `fetchStellarToml`. -/
def fetchStellarToml (homeDomain : JsString) : Program σ Anchor := do
  let url := js "https://" ++ homeDomain ++ js "/.well-known/stellar.toml"
  let res ← call (.fetch (getRequest (.text url)))
  if res.ok = false then
    fail (js "SEP-1: " ++ url ++ js " returned HTTP " ++ digits res.status)
  else
    let text ← call .text
    attempt (describeAnchor lib.rt (parseToml lib.rt lib.fraction (.string text)) homeDomain)

/-- `authenticate`. -/
def authenticate (anchor : Anchor) (account : JsString)
    (signTransaction : JsValue → JsString → Program σ JsString) : Program σ JsValue := do
  call .loadSdk
  let webAuth := anchor.webAuth.toString lib.rt
  let parsed ← attempt (lib.parseUrl webAuth)
  let url := (parsed.set (js "account") account).set (js "home_domain") anchor.homeDomain
  let res ← call (.fetch (getRequest (.url url)))
  if res.ok = false then
    fail (js "SEP-10 challenge: HTTP " ++ digits res.status ++ js " from " ++ webAuth)
  else
    let answer ← call .json
    let transaction ← attempt (answer.read (js "transaction"))
    if transaction.truthy = false then
      fail (js "SEP-10: the anchor returned no challenge transaction")
    else
      let network := ((answer.get (js "network_passphrase")).orElse anchor.networkPassphrase).orElse
        (.string Network.passphrase)
      if network.is Network.passphrase = false then
        fail (js "SEP-10: anchor is on \"" ++ network.toString lib.rt ++
          js "\", this page is on \"" ++ Network.passphrase ++ js "\"")
      else
        let clientAccountID ← attempt (lib.readChallengeTx transaction anchor.signingKey
          Network.passphrase anchor.homeDomain parsed.hostname)
        if clientAccountID ≠ account then
          fail (js "SEP-10: challenge is addressed to " ++ clientAccountID ++ js ", not " ++ account)
        else
          let signedXdr ← signTransaction transaction Network.passphrase
          let post ← call (.fetch (postRequest webAuth []
            (object [("transaction", .string signedXdr)])))
          if post.ok = false then
            let text ← call .text
            fail (js "SEP-10 token: HTTP " ++ digits post.status ++ js " — " ++ text.take 200)
          else
            let body ← call .json
            let token ← attempt (body.read (js "token"))
            if token.truthy = false then fail (js "SEP-10: the anchor returned no token")
            else pure token

/-- What `startInteractiveDeposit` returns. -/
structure Interactive where
  url : JsValue
  id : JsValue

/-- The header that names the session. -/
def bearer (token : JsValue) : JsString × JsString :=
  (js "Authorization", js "Bearer " ++ token.toString lib.rt)

/-- `startInteractiveDeposit`. -/
def startInteractiveDeposit (anchor : Anchor) (token : JsValue) (assetCode account : JsString) :
    Program σ Interactive := do
  let res ← call (.fetch (postRequest
    (anchor.sep24.toString lib.rt ++ js "/transactions/deposit/interactive") [bearer lib token]
    (object [("asset_code", .string assetCode), ("account", .string account)])))
  if res.ok = false then
    let text ← call .text
    fail (js "SEP-24 deposit: HTTP " ++ digits res.status ++ js " — " ++ text.take 200)
  else
    let body ← call .json
    let url ← attempt (body.read (js "url"))
    let id := body.get (js "id")
    if url.truthy = false ∨ id.truthy = false then
      fail (js "SEP-24: the anchor returned no interactive URL")
    else pure ⟨url, id⟩

/-- `depositStatus`. -/
def depositStatus (anchor : Anchor) (token id : JsValue) : Program σ DepositStatus := do
  let encoded ← attempt (lib.encodeURIComponent (id.toString lib.rt))
  let res ← call (.fetch
    { endpoint := .text (anchor.sep24.toString lib.rt ++ js "/transaction?id=" ++ encoded)
      post := false
      headers := [bearer lib token]
      body := none })
  if res.ok = false then fail (js "SEP-24 status: HTTP " ++ digits res.status)
  else
    let answer ← call .json
    let transaction ← attempt (answer.read (js "transaction"))
    pure (readStatus transaction)

/-- `ensureTrustline`. -/
def ensureTrustline (asset : Asset) (account : JsString)
    (signTransaction : JsValue → JsString → Program σ JsString) : Program σ TrustlineResult :=
  match asset.issuer.filter (· ≠ []) with
  | none => pure ⟨false, false, none, asset.label ++ js " is the native asset"⟩
  | some issuer => do
    call .loadSdk
    let loaded ← call (.loadAccount account)
    let already ← attempt (hasTrustline asset.code issuer loaded)
    if already = true then
      pure ⟨true, false, none, js "a trustline to " ++ asset.code ++ js " already exists"⟩
    else
      let tx ← attempt (lib.build (trustlineTransaction asset issuer loaded))
      let signedXdr ← signTransaction (.string tx) Network.passphrase
      attempt (lib.fromXdr signedXdr)
      let submitted ← call (.submitTransaction signedXdr)
      let hash ← attempt (submitted.read (js "hash"))
      pure ⟨true, true, some hash, js "trustline to " ++ asset.code ++ js " created"⟩

end Anchor

end Gate
end Sorofy
