import Sorofy.Gate.Session

/-!
# The page

`web/gate/app.js`: what the page remembers and shows, and its handlers.  A handler runs up to where
it waits, and other handlers run meanwhile; all of them read and write `App`, also what is selected
and typed.

A click on a button that is disabled starts nothing.  Which buttons are disabled is part of the
page, so whether a click starts a handler is decided where it arrives (`Event.handler`).
-/

namespace Sorofy
namespace Gate

open Foundation

/-! ## What is shown -/

/-- What a panel shows of a verdict. -/
structure Shown where
  tone : Tone
  headline : JsString
  state : Option JsString
  detail : JsString
  /-- What is listed, with what it links to. -/
  facts : List (JsString × JsString × Option JsString)
  caveat : Option JsString
  deriving DecidableEq

/-- A panel. -/
inductive Panel where
  | hidden
  | notice (text : JsString)
  | verdict (shown : Shown)
  deriving DecidableEq

/-- The steps of the flow with the anchor. -/
inductive StepName where
  | wallet
  | toml
  | auth
  | trust
  | deposit
  deriving DecidableEq

/-- How a step stands. -/
inductive StepState where
  | active
  | done
  | failed
  | skipped
  deriving DecidableEq

/-- What is shown of a step. -/
structure StepView where
  state : Option StepState
  note : JsString
  deriving DecidableEq

/-- The steps, in the order of the document. -/
def StepName.all : List StepName := [.wallet, .toml, .auth, .trust, .deposit]

/-- What the page remembers and shows. -/
structure App where
  wallet : Option Wallet
  anchor : Option Anchor
  token : JsValue
  asset : Asset
  target : Protocol
  verdict : Option CheckResult
  amount : JsString
  custom : JsString
  verdictPanel : Panel
  depositResult : Panel
  targetNote : JsString
  poolName : JsString
  anchorName : JsString
  anchorNote : JsString
  steps : StepName → StepView
  anchorRunDisabled : Bool
  depositDisabled : Bool
  depositNote : JsString
  /-- The windows that were opened. -/
  opened : List JsValue

/-- `VERIFIED_IS_NOT_SAFE`. -/
def VERIFIED_IS_NOT_SAFE : JsString :=
  js ("Verified means the deployed bytes match source that staked verifiers rebuilt. It is not an " ++
    "audit: it says nothing about whether that source is any good. You cannot audit code you " ++
    "cannot prove is running — this is the precondition, not the review.")

namespace App

/-- `short`, of a text. -/
def short (hash : JsString) (head tail : ℕ) : JsString :=
  if hash.length > head + tail + 1 then
    hash.take head ++ js "…" ++ hash.drop (hash.length - tail)
  else hash

/-- The facts that have a value. -/
def facts (extras : List (JsString × JsString × Option JsString)) :
    List (JsString × JsString × Option JsString) :=
  extras.filter fun extra => extra.2.1 ≠ []

/-- `setStep`. -/
def setStep (name : StepName) (state : StepState) (note : JsString) (p : App) : App :=
  { p with steps := Function.update p.steps name ⟨some state, note⟩ }

/-- `describeTarget`. -/
def describeTarget (p : App) : App :=
  { p with
    targetNote := p.target.contractId ++ js " — " ++ p.target.note
    poolName := p.target.label }

/-- Why nothing can be supplied. -/
def reasons (p : App) : List JsString :=
  (if p.wallet.isNone = true then [js "connect a wallet"] else []) ++
  (if p.verdict.isNone = true then [js "check the target first"] else []) ++
  (if p.target.noDeposit = true then [p.target.label ++ js " is not a pool"] else []) ++
  (if p.target.unimplemented = true then
    [js "the " ++ p.target.kind ++ js " adapter is not wired up"] else []) ++
  (if p.asset.suppliable = true then [] else
    [js "the pool has no " ++ p.asset.label ++ js " reserve"])

/-- What is said of the button. -/
def supplyNote (p : App) : JsString :=
  if p.reasons ≠ [] then js "To supply: " ++ (js "; ").intercalate p.reasons ++ js "."
  else
    match p.verdict with
    | some verdict =>
      if verdict.allow = true then
        js "Ready. The gate will be re-read against the pool’s current bytes before signing."
      else
        js "The gate currently says “" ++ verdict.headline ++ js ("”. Pressing Supply will be " ++
          "refused — which is the point, and worth doing on stage.")
    | none => []

/-- `refreshDepositButton`. -/
def refreshDepositButton (p : App) : App :=
  { p with
    depositDisabled := !p.reasons.isEmpty
    depositNote := p.supplyNote }

/-- What was selected in `target`. -/
def selectTarget (key : ProtocolKey) (p : App) : App :=
  ({ p with
    target := protocols key
    verdict := none
    verdictPanel := .hidden }).describeTarget.refreshDepositButton

/-- What was selected in `asset`. -/
def selectAsset (key : AssetKey) (p : App) : App :=
  ({ p with asset := assets key }).refreshDepositButton

/-- The first step that is active. -/
def activeStep (p : App) : Option StepName :=
  StepName.all.find? fun name => (p.steps name).state = some .active

/-- The page when its script has run. -/
def boot : App :=
  ({ wallet := none
     anchor := none
     token := .null
     asset := assets .native
     target := protocols .blendV2Pool
     verdict := none
     amount := js "1"
     custom := []
     verdictPanel := .hidden
     depositResult := .hidden
     targetNote := []
     poolName := []
     anchorName := anchorDomain
     anchorNote := []
     steps := fun _ => ⟨none, []⟩
     anchorRunDisabled := true
     depositDisabled := true
     depositNote := js "Connect a wallet and check a target first."
     opened := [] } : App).describeTarget.refreshDepositButton

end App

/-! ## The handlers -/

/-- A handler of the page. -/
abbrev Handler : Type := Program App Unit

/-- A link into the explorer. -/
def explorerLink (kind : String) (id : JsString) : Option JsString :=
  some (Network.explorer ++ js "/" ++ js kind ++ js "/" ++ id)

/-- Where a claim was found. -/
def Source.text : Source → JsString
  | .chainEvents _ => js "chain events"
  | .configuredBuild => js "configured build"

/-- What the panel shows of a check. -/
def checkShown (contractId : JsString) (verdict : CheckResult) : Shown where
  tone := verdict.tone
  headline := verdict.headline
  state := verdict.state.map State.name
  detail := verdict.detail
  facts := App.facts (
    [(js "Contract", contractId, explorerLink "contract" contractId),
      (js "Deployed wasm", (verdict.wasmHash.map fun hash => App.short hash 16 8).getD [], none),
      (js "Registry", App.short activeRegistry 8 6, explorerLink "contract" activeRegistry),
      (js "Claims found", if verdict.claims ≠ [] then digits verdict.claims.length else js "none",
        none)] ++
    match verdict.claim with
    | some asked =>
      if asked.candidate.inputDigest ≠ [] then
        [(js "Claim", App.short asked.candidate.inputDigest 16 8, none),
          (js "Discovered via", asked.candidate.source.text, none)]
      else []
    | none => [])
  caveat := if verdict.allow = true then some VERIFIED_IS_NOT_SAFE else none

/-- `runCheck`. -/
def runCheck (contractId : JsString) : Handler := do
  Async.modify fun p => { p with verdictPanel := .notice (js "Reading the ledger…") }
  let verdict ← awaitCheck contractId
  Async.modify fun p =>
    ({ p with
      verdict := some verdict
      verdictPanel := .verdict (checkShown contractId verdict) }).refreshDepositButton

/-- `connectWallet`. -/
def connectWallet : Handler := do
  Async.modify (App.setStep .wallet .active (js "waiting for the wallet…"))
  Async.tryCatch
    (do
      let wallet ← connect
      Async.modify fun p =>
        ({ ({ p with wallet := some wallet }).setStep .wallet .done
            (App.short wallet.address 6 6) with
          anchorRunDisabled := false }).refreshDepositButton)
    fun e => Async.modify (App.setStep .wallet .failed e.message)

section Handlers

variable (lib : Library)

/-- `state.wallet.address`, and what signs for it. -/
def theWallet : Program App Wallet := do
  let p ← Async.get
  match p.wallet with
  | some wallet => pure wallet
  | none => fail (js "Cannot read properties of null (reading 'address')")

/-- `state.anchor`, where one of its fields is read. -/
def theAnchor (field : String) : Program App Anchor := do
  let p ← Async.get
  match p.anchor with
  | some anchor => pure anchor
  | none => fail (js ("Cannot read properties of null (reading '" ++ field ++ "')"))

/-- The note on a deposit that the anchor has completed. -/
def completedNote (rt : Runtime) (status : DepositStatus) (label : JsString) : JsString :=
  if status.amountOut.truthy = true then
    js "The anchor sent " ++ status.amountOut.toString rt ++ js " " ++ label ++ js "."
  else js "The anchor reports the deposit as complete."

/-- The note on a deposit that the anchor has given up. -/
def givenUpNote (rt : Runtime) (status : DepositStatus) : JsString :=
  if status.message.isNullish = true then
    js "The anchor reported \"" ++ status.status.toString rt ++ js "\"."
  else status.message.toString rt

/-- How the step stands that shows a deposit. -/
def depositStep (status : DepositStatus) : StepState :=
  if status.failed = true then .failed else if status.settled = true then .done else .active

/-- `pollDeposit`, with the number of polls that are left. -/
def pollDeposit (id : JsValue) : ℕ → Handler
  | 0 => Async.modify (App.setStep .deposit .active
      (js "still pending — the anchor has not settled it yet"))
  | polls + 1 => do
    let anchor ← theAnchor "sep24"
    let p ← Async.get
    let status ← depositStatus lib anchor p.token id
    Async.modify (App.setStep .deposit (depositStep status) (status.status.toString lib.rt))
    if status.settled = true then
      Async.modify fun p =>
        ({ p with anchorNote := completedNote lib.rt status p.asset.label }).refreshDepositButton
    else if status.failed = true then
      Async.modify fun p => { p with anchorNote := givenUpNote lib.rt status }
    else
      sleep 3000
      pollDeposit id polls

/-- What the page says of an anchor. -/
def anchorNoteText (anchor : Anchor) : JsString :=
  if anchor.handlesTry = true then js "This anchor lists TRY."
  else
    js ("This anchor does not handle TRY. What is demonstrated is the SEP-24 flow against a " ++
      "test anchor; a lira partner is an integration question, and calling this a lira on-ramp " ++
      "would be false.")

/-- The page, when the anchor's `stellar.toml` has been read. -/
def anchorRead (rt : Runtime) (anchor : Anchor) (p : App) : App :=
  { (p.setStep .toml .done (digits anchor.currencies.length ++ js " assets, TRY: " ++
      if anchor.handlesTry = true then js "yes" else js "no")) with
    anchorName := (anchor.orgName.orElse (.string anchor.homeDomain)).toString rt
    anchorNote := anchorNoteText anchor }

/-- The flow with an anchor that can be used. -/
def useAnchor : Handler := do
  Async.modify (App.setStep .auth .active (js "sign the challenge in your wallet…"))
  let wallet ← theWallet
  let anchor ← theAnchor "webAuth"
  let token ← authenticate lib anchor wallet.address (signWith wallet.address)
  Async.modify fun p => { p with token }
  Async.modify (App.setStep .auth .done (js "session token held in this tab only"))
  Async.modify (App.setStep .trust .active (js "checking…"))
  let p ← Async.get
  let wallet ← theWallet
  let trust ← ensureTrustline lib p.asset wallet.address (signWith wallet.address)
  Async.modify (App.setStep .trust (if trust.needed = true then .done else .skipped) trust.reason)
  Async.modify (App.setStep .deposit .active (js "opening the anchor’s own page…"))
  let p ← Async.get
  let wallet ← theWallet
  let anchor ← theAnchor "sep24"
  let interactive ← startInteractiveDeposit lib anchor p.token p.asset.code wallet.address
  Async.modify fun p => { p with opened := p.opened ++ [interactive.url] }
  pollDeposit lib interactive.id 240

/-- The flow that is tried. -/
def tryAnchor : Handler := do
  Async.modify (App.setStep .toml .active (js "fetching…"))
  let anchor ← fetchStellarToml lib anchorDomain
  Async.modify fun p => { p with anchor := some anchor }
  if anchor.usable = false then
    Async.modify (App.setStep .toml .failed
      (js "missing " ++ (js ", ").intercalate anchor.missing))
  else
    Async.modify (anchorRead lib.rt anchor)
    useAnchor lib

/-- The page, when the flow has thrown: the first step that is active has failed. -/
def flowFailed (e : Thrown) (p : App) : App :=
  { (match p.activeStep with
      | some name => p.setStep name .failed e.message
      | none => p) with
    anchorNote := e.message }

/-- `runAnchorFlow`. -/
def runAnchorFlow : Handler := do
  Async.modify fun p => { p with anchorRunDisabled := true }
  Async.tryCatch (tryAnchor lib) fun e => Async.modify (flowFailed e)
  Async.modify fun p => { p with anchorRunDisabled := false }

/-- `short`, of the hash of a transaction. -/
def shortHash (rt : Runtime) (hash : JsValue) : JsString :=
  match hash with
  | .string s => App.short s 12 8
  | hash => if hash.truthy = true then hash.toString rt else []

/-- What the panel shows of a deposit that was submitted. -/
def suppliedShown (p : App) (result : SupplyResult) : Shown where
  tone := if result.settled.succeeded = some true then .ok else .waiting
  headline :=
    if result.settled.succeeded = some true then js "Supplied"
    else js "Submitted — " ++ result.settled.status.toString lib.rt
  state := result.verdict.state.map State.name
  detail :=
    if result.settled.succeeded = some true then
      p.amount ++ js " " ++ p.asset.label ++ js " went into " ++ p.target.label ++
        js ", after the gate re-read consensus and allowed it."
    else
      js ("The transaction was submitted; the network has not reported a final result yet.")
  facts := App.facts [(js "Transaction", shortHash lib.rt result.hash,
    explorerLink "tx" (result.hash.toString lib.rt))]
  caveat := none

/-- What the panel shows of a deposit that the gate has refused. -/
def refusedShown (p : App) (verdict : CheckResult) : Shown where
  tone := verdict.tone
  headline := js "Deposit refused — " ++ verdict.headline
  state := verdict.state.map State.name
  detail := verdict.detail
  facts := App.facts [(js "Target", p.target.contractId, none)]
  caveat := some (js ("This refusal is client-side (docs/anchor-integration.md §4a). It is a " ++
    "real check against real on-chain consensus, and it is not a guarantee: calling the pool " ++
    "directly bypasses it. Only the on-chain wrapper in §4b would bind."))

/-- What the panel shows of a deposit that failed. -/
def failedShown (message : JsString) : Shown where
  tone := .danger
  headline := js "Deposit failed"
  state := none
  detail := message
  facts := []
  caveat := none

/-- The gate, read again: on what is the target when it is called. -/
def recheck : Program App CheckResult := do
  let p ← Async.get
  awaitCheck p.target.contractId

/-- The deposit that is tried. -/
def tryDeposit : Handler := do
  let p ← Async.get
  let wallet ← theWallet
  let result ← supply lib p.target p.asset p.amount wallet.address (signWith wallet.address) recheck
  Async.modify fun p => { p with depositResult := .verdict (suppliedShown lib p result) }

/-- What the panel shows of a deposit that threw. -/
def thrownShown (p : App) (e : Thrown) : Shown :=
  match e.blocked with
  | some verdict => refusedShown p verdict
  | none => failedShown e.message

/-- `runDeposit`. -/
def runDeposit : Handler := do
  Async.modify fun p =>
    { p with depositResult := .notice (js "Re-reading consensus, then building…") }
  Async.tryCatch (tryDeposit lib) fun e => Async.modify fun p =>
    { p with depositResult := .verdict (thrownShown p e) }

/-- What happens to the page. -/
inductive Event where
  | typeAmount (text : JsString)
  | typeCustom (text : JsString)
  | selectTarget (key : ProtocolKey)
  | selectAsset (key : AssetKey)
  | check
  | checkCustom
  | connect
  | anchorRun
  | deposit

/-- What an event starts. -/
def Event.handler : Event → Handler
  | .typeAmount text => Async.modify fun p => { p with amount := text }
  | .typeCustom text => Async.modify fun p => { p with custom := text }
  | .selectTarget key => Async.modify (App.selectTarget key)
  | .selectAsset key => Async.modify (App.selectAsset key)
  | .check => do
    let p ← Async.get
    runCheck p.target.contractId
  | .checkCustom => do
    let p ← Async.get
    if trim p.custom ≠ [] then runCheck (trim p.custom) else pure ()
  | .connect => connectWallet
  | .anchorRun => do
    let p ← Async.get
    if p.anchorRunDisabled = true then pure () else runAnchorFlow lib
  | .deposit => do
    let p ← Async.get
    if p.depositDisabled = true then pure () else runDeposit lib

end Handlers

end Gate
end Sorofy
