import Sorofy.Gate.Consensus
import Sorofy.Gate.Xdr

/-!
# What the gate reads from the chain

`web/gate/lib/chain.js`: which bytes a contract runs, what the registry answers about a claim, and
which claims its events name.

The network is a parameter.  `Rpc` is the endpoint, as what it answers to each call of one check,
with the message of the error where a call throws; the calls of the event scan are numbered, so
that the endpoint may answer each of them as it pleases.  `Sdk` is the Stellar SDK.

The scan reports how it ended along with what it found.  Nothing in the page looks at that; it is
what there is to say about a scan.
-/

namespace Sorofy
namespace Gate

open Foundation

/-! ## The network -/

/-- `EVENT_SCAN`. -/
structure EventScan where
  maxLedgersBack : ℕ
  pageLimit : ℕ
  maxPages : ℕ

/-- The configured scan. -/
def eventScan : EventScan where
  maxLedgersBack := 100000
  pageLimit := 200
  maxPages := 40

/-- Where a page of events begins: at a ledger, which may be `NaN`, or behind a cursor. -/
inductive PageStart where
  | ledger (startLedger : Option ℤ)
  | cursor (cursor : JsValue)

/-- The parameters of `getEvents`: the events of one contract with three topics, the last of them
given. -/
structure EventsRequest where
  contractId : JsString
  topic : JsString
  limit : ℕ
  start : PageStart

/-- The RPC endpoint. -/
structure Rpc where
  getLatestLedger : Except JsString JsValue
  /-- The answer to the call of the given number. -/
  getEvents : ℕ → EventsRequest → Except JsString JsValue
  getLedgerEntries : JsString → Except JsString JsValue

/-- The Stellar SDK. -/
structure Sdk where
  load : Except JsString Unit
  /-- The key of a contract's instance entry. -/
  footprint : JsString → Except JsString JsString
  /-- The JSON of a ledger entry. -/
  ledgerEntry : JsValue → Except JsString JsValue
  /-- The simulated `consensus` call of a registry for a claim, with its result decoded. -/
  consensus : JsString → List UInt8 → List UInt8 → Except JsString JsValue

/-! ## Pure helpers -/

/-- `bytesScValBase64`. -/
def bytesScValBase64 (rt : Runtime) (hex : JsString) : Except JsString JsString := do
  let bytes ← fromHex rt.unicode hex (some 32)
  pure (btoa (toBeBytes 13 ++ toBeBytes 32 ++ bytes))

/-- `/\d/`. -/
def isDigit (u : UInt16) : Bool :=
  48 ≤ u.toNat ∧ u.toNat ≤ 57

/-- `/\w/`. -/
def isWord (u : UInt16) : Bool :=
  isDigit u ∨ 65 ≤ u.toNat ∧ u.toNat ≤ 90 ∨ 97 ≤ u.toNat ∧ u.toNat ≤ 122 ∨ u.toNat = 95

/-- The number a string of digits stands for. -/
def parseDigits (s : JsString) : ℕ :=
  s.foldl (fun n u => 10 * n + (u.toNat - 48)) 0

/-- `cursorLedger`. -/
def cursorLedger (cursor : JsValue) : Option ℕ :=
  match cursor with
  | .string s =>
    let toid := s.takeWhile (· ≠ 45)
    if toid ≠ [] ∧ toid.all isDigit = true then some (parseDigits toid / 2 ^ 32) else none
  | _ => none

/-- The claim one event records. -/
structure EventClaim where
  wasmHash : JsString
  inputDigest : JsString
  rebuiltHash : JsValue
  verifier : JsValue
  ledger : JsValue

/-- `claimFromEvent`. -/
def claimFromEvent (rt : Runtime) (event : JsValue) : Except JsString (Option EventClaim) := do
  let topic ← event.read (js "topic")
  let topics := (topic.orElse (event.get (js "topics"))).orElse (.array [])
  if numLt (topics.length.toNumber rt) (some 3) then pure none
  else
    match ← decodeScVal rt (topics.index 0) with
    | .string name =>
      if name ≠ js "attested" then pure none
      else
        let wasmHash ← decodeScVal rt (topics.index 2)
        let value ← decodeScVal rt (event.get (js "value"))
        match wasmHash, value.get (js "input_digest") with
        | .string wasmHash, .string inputDigest =>
          let verifier ← decodeScVal rt (topics.index 1)
          pure (some
            { wasmHash
              inputDigest
              rebuiltHash := (value.get (js "rebuilt_hash")).orElse .null
              verifier := (verifier.get (js "key")).orElse .null
              ledger := event.get (js "ledger") })
        | _, _ => pure none
    | _ => pure none

/-- The claim on the given hash an event records, if it can be read. -/
def claimOn (rt : Runtime) (want : JsString) (event : JsValue) : Option EventClaim :=
  match claimFromEvent rt event with
  | .ok (some claim) => if claim.wasmHash = want then some claim else none
  | _ => none

/-- `claimsForHash`. -/
def claimsForHash (rt : Runtime) (events : JsValue) (wasmHashHex : JsString) :
    Except JsString (List EventClaim) := do
  let want := toLowerCase rt.unicode wasmHashHex
  let events ← (events.orElse (.array [])).iterate
  pure (Keyed.addAll EventClaim.inputDigest [] (events.filterMap (claimOn rt want)))

/-! ## Which bytes a contract runs -/

/-- What a contract executes. -/
inductive Executable where
  | wasm (wasmHash : JsString)
  | stellarAsset
  deriving DecidableEq

/-- `executableFromEntryJson`. -/
def executableFromEntryJson (rt : Runtime) (json : JsValue) : Except JsString Executable := do
  let exe := (((json.get (js "contract_data")).get (js "val")).get (js "contract_instance")).get
    (js "executable")
  let asset : Bool := match exe with
    | .string s => s = js "stellar_asset"
    | exe => exe.isObject && exe.has (js "stellar_asset")
  if asset = true then pure .stellarAsset
  else
    match exe.get (js "wasm") with
    | .string wasm =>
      if wasm.all isHex = true ∧ wasm.length = 64 then pure (.wasm (toLowerCase rt.unicode wasm))
      else unknown exe
    | _ => unknown exe
where
  /-- The error for an executable of no known shape. -/
  unknown (exe : JsValue) : Except JsString Executable := do
    let text ← rt.stringify exe
    throw (js "unrecognised contract executable: " ++
      match text with
      | some s => s.take 80
      | none => js "undefined")

/-- `executableOf`: `none` is a contract that does not exist. -/
def executableOf (rt : Runtime) (rpc : Rpc) (sdk : Sdk) (contractId : JsString) :
    Except JsString (Option Executable) := do
  sdk.load
  let key ← sdk.footprint contractId
  let result ← rpc.getLedgerEntries key
  let xdr := ((result.get (js "entries")).index 0).get (js "xdr")
  if xdr.truthy = false then pure none
  else
    let json ← sdk.ledgerEntry xdr
    let exe ← executableFromEntryJson rt json
    pure (some exe)

/-! ## What the registry answers -/

/-- The value the registry's `consensus` was simulated to return for a claim. -/
def simulateConsensus (rt : Runtime) (sdk : Sdk)
    (registryId wasmHashHex inputDigestHex : JsString) : Except JsString JsValue := do
  sdk.load
  let wasmHash ← fromHex rt.unicode wasmHashHex (some 32)
  let inputDigest ← fromHex rt.unicode inputDigestHex (some 32)
  sdk.consensus registryId wasmHash inputDigest

/-- `readConsensus`. -/
def readConsensus (rt : Runtime) (sdk : Sdk) (registryId wasmHashHex inputDigestHex : JsString) :
    Except JsString Reading := do
  let raw ← simulateConsensus rt sdk registryId wasmHashHex inputDigestHex
  normalizeConsensus rt raw

/-! ## Which claims there are -/

/-- How a scan ended. -/
inductive Ending where
  /-- It came to the latest ledger, or to a page without a cursor. -/
  | reached
  /-- It used up its pages. -/
  | outOfPages
  /-- A call failed, and there was nowhere to start again. -/
  | failed
  deriving DecidableEq, Repr

/-- `Number(/\b(\d{6,})\b/.exec(message)?.[1])`, with `none` for `NaN`: the first word that is a
number of six digits or more. -/
def oldestNamed (message : JsString) : Option ℤ :=
  ((message.splitOnP fun u => !isWord u).find? fun word =>
    word.all isDigit ∧ 6 ≤ word.length).map fun word => parseDigits word

/-- `at >= ledger`, where `at` is the ledger of a cursor. -/
def reaches (rt : Runtime) (cursor ledger : JsValue) : Bool :=
  match cursorLedger cursor, ledger.toNumber rt with
  | some reached, some n => n ≤ reached
  | _, _ => false

section Scan

variable (rt : Runtime) (rpc : Rpc) (registryId wasmHashHex topic : JsString) (latest : JsValue)

/-- The loop over the pages, with the number of pages it may still ask for. -/
def scanPages : ℕ → Option ℤ → JsValue → List EventClaim →
    Except JsString (List EventClaim × Ending)
  | 0, _, _, found => pure (found, .outOfPages)
  | pages + 1, startLedger, cursor, found =>
    let request : EventsRequest :=
      { contractId := registryId
        topic
        limit := eventScan.pageLimit
        start := if cursor.truthy then .cursor cursor else .ledger startLedger }
    match rpc.getEvents (eventScan.maxPages - (pages + 1)) request with
    | .error message =>
      -- the error may name the oldest ledger there is
      match oldestNamed message with
      | some oldest =>
        if cursor.truthy = false ∧ numLt startLedger (some oldest) = true then
          scanPages pages (some oldest) cursor found
        else pure (found, .failed)
      | none => pure (found, .failed)
    | .ok result => do
      let events ← result.read (js "events")
      let page ← claimsForHash rt events wasmHashHex
      let found := Keyed.addAll EventClaim.inputDigest found page
      let cursor := result.get (js "cursor")
      if cursor.truthy = false ∨
          reaches rt cursor ((result.get (js "latestLedger")).orElse latest) = true then
        pure (found, .reached)
      else scanPages pages startLedger cursor found

/-- `discoverClaims`, with how its scan ended. -/
def discover : Except JsString (List EventClaim × Ending) := do
  let answer ← rpc.getLatestLedger
  let latest ← answer.read (js "sequence")
  let topic ← bytesScValBase64 rt wasmHashHex
  let startLedger := (latest.toNumber rt).map fun n : ℤ =>
    max 1 (n - eventScan.maxLedgersBack)
  scanPages rt rpc registryId wasmHashHex topic latest eventScan.maxPages startLedger .null []

/-- `discoverClaims`. -/
def discoverClaims : Except JsString (List EventClaim) := do
  let (found, _) ← discover rt rpc registryId wasmHashHex
  pure found

end Scan

end Gate
end Sorofy
