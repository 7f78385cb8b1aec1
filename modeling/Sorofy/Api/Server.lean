import Sorofy.Api.Db

/-!
# The requests of the API

`crates/api/src/server.rs` and `rpc.rs`: what `POST /verify` makes of a body, and what
`GET /verify/{key}` answers.

The network is a parameter: reading a contract id is the `strkey` crate's, and which executable a
contract's instance entry names is the ledger's.  `Strkey.Documented` is the shape of a contract id.

Authorization, the rate limit and admission come first and are not part of it: `startVerification`
is what happens to a request that was let in.
-/

namespace Sorofy
namespace Api

open Foundation VerifierCore
open Registry (Bytes32)

/-! ## Requests -/

/-- `POST /verify` body. -/
structure VerifyRequest where
  contractId : Option String
  wasmHash : Option String
  repo : Option String
  rev : Option String
  sourceUri : Option String
  sourceSha256 : Option String
  bldimg : String
  bldopt : List String
  deriving DecidableEq

/-- Why a request is refused. -/
inductive ApiError where
  | unauthorized
  | tooManyRequests
  | rateLimited (retryAfter : ℕ)
  | badRequest (reason : String)
  | notFound (reason : String)
  | internal (reason : String)
  deriving DecidableEq

/-- `parse_source`: exactly one source shape must be present. -/
def parseSource (req : VerifyRequest) : Except ApiError SourceRef :=
  match req.repo, req.sourceUri with
  | some repo, none => do
    let rev ← okOr req.rev (.badRequest "`repo` requires `rev` (a commit)")
    pure (.git repo rev)
  | none, some uri => do
    let sha256 ← okOr req.sourceSha256
      (.badRequest "`source_uri` requires `source_sha256` (SEP-58)")
    pure (.archive uri sha256)
  | _, _ => throw (.badRequest
      "pass exactly one source: `repo`+`rev`, or `source_uri`+`source_sha256`")

/-! ## The network -/

/-- What the instance entry of a contract executes. -/
inductive ContractExecutable where
  | wasm (hash : Bytes32)
  | stellarAsset
  deriving DecidableEq

/-- The network, and the crate that reads contract ids. -/
structure Soroban where
  strkey : String → Except String Bytes32
  instanceOf : Bytes32 → Except String (Option ContractExecutable)

/-- The letters and digits of base32. -/
def isBase32 (c : Char) : Bool :=
  c.isUpper ∨ 50 ≤ c.toNat ∧ c.toNat ≤ 55

/-- What the documentation of the `strkey` crate promises: a contract id is 56 characters of
base32, of which the first is a `C`. -/
structure Soroban.Documented (soroban : Soroban) : Prop where
  shape : ∀ s id, soroban.strkey s = .ok id →
    s.toList.length = 56 ∧ s.toList.head? = some 'C' ∧ s.toList.all isBase32 = true

/-- The string is a contract id. -/
def Soroban.IsContractId (soroban : Soroban) (s : String) : Prop :=
  ∃ id, soroban.strkey s = .ok id

/-- What a contract is found to execute. -/
inductive OnChainExecutable where
  | wasm (wasmHashHex : String)
  | stellarAsset
  deriving DecidableEq

/-- `fetch_executable`. -/
def fetchExecutable (host : Host) (soroban : Soroban) (contractId : String) :
    Except String (Option OnChainExecutable) := do
  let contract ← (soroban.strkey contractId).mapError fun e =>
    "`" ++ contractId ++ "` is not a valid contract id (C… strkey): " ++ e
  let entry ← soroban.instanceOf contract
  pure (entry.map fun
    | .wasm hash => .wasm (host.hex.encode hash.toList)
    | .stellarAsset => .stellarAsset)

/-! ## Handlers -/

section Handlers

variable (host : Host) (soroban : Soroban)

/-- The hash a request sets out to reproduce.  With a contract id it is the network's. -/
def expectedHash (req : VerifyRequest) : Except ApiError String :=
  match req.contractId, req.wasmHash with
  | some contractId, _ => do
    let exec ← (fetchExecutable host soroban contractId).mapError fun e =>
      .badRequest ("on-chain lookup failed: " ++ e)
    match exec with
    | some (.wasm wasmHashHex) => pure wasmHashHex
    | some .stellarAsset => throw (.badRequest
        "contract is a built-in Stellar Asset Contract; there is no WASM to verify")
    | none => throw (.notFound ("contract " ++ contractId ++ " does not exist on this network"))
  | none, some hash => pure (toLowercase host hash)
  | none, none => throw (.badRequest
      "pass a contract_id (hash resolved on-chain) or an explicit wasm_hash")

/-- `start_verification`: the job's row, which is the newest, and the job. -/
def startVerification (allowUnpinnedImage : Bool) (now : ℕ) (db : Db) (req : VerifyRequest) :
    Except ApiError (Db × ReproductionRequest) := do
  let source ← parseSource req
  let hash ← expectedHash host soroban req
  pure (db.insertPending now host req.contractId hash source req.bldimg,
    { source
      bldimg := req.bldimg
      bldopt := req.bldopt
      expectedWasmSha256 := hash
      allowUnpinnedImage
      emitWasm := none })

/-- `str::parse::<i64>`. -/
def parseI64 (s : String) : Option ℤ :=
  Decimal.parseInt (-2 ^ 63) (2 ^ 63 - 1) s

/-- `get_verification`. -/
def getVerification (db : Db) (key : String) : Option (ℕ × VerificationRow) :=
  match parseI64 key with
  | some id => db.get id
  | none => db.lookup host key

end Handlers

/-- A request that was accepted has left its row, under the hash it targets. -/
theorem startVerification_eq_ok {host : Host} {soroban : Soroban} {allowUnpinnedImage : Bool}
    {now : ℕ} {db db' : Db} {req : VerifyRequest} {job : ReproductionRequest}
    (h : startVerification host soroban allowUnpinnedImage now db req = .ok (db', job)) :
    ∃ source hash, parseSource req = .ok source ∧ expectedHash host soroban req = .ok hash ∧
      db' = db.insertPending now host req.contractId hash source req.bldimg ∧
      job.source = source ∧ job.expectedWasmSha256 = hash ∧ job.bldimg = req.bldimg ∧
      job.bldopt = req.bldopt := by
  simp only [startVerification, bind_eq_ok, pure_eq_ok, Prod.mk.injEq] at h
  obtain ⟨source, hsource, hash, hhash, hdb, rfl⟩ := h
  exact ⟨source, hash, hsource, hhash, hdb.symm, rfl, rfl, rfl, rfl⟩

/-- A contract id that was accepted is one, and its hash is 32 bytes of hexadecimal. -/
theorem isContractId_of_expectedHash {host : Host} {soroban : Soroban} {req : VerifyRequest}
    {contractId hash : String} (hid : req.contractId = some contractId)
    (h : expectedHash host soroban req = .ok hash) :
    soroban.IsContractId contractId ∧ ∃ bytes : Bytes32, hash = host.hex.encode bytes.toList := by
  simp only [expectedHash, hid, fetchExecutable, bind_eq_ok, mapError_eq_ok, pure_eq_ok] at h
  obtain ⟨exec, ⟨contract, hcontract, entry, -, hexec⟩, h⟩ := h
  refine ⟨⟨contract, hcontract⟩, ?_⟩
  cases entry with
  | none =>
    subst hexec
    cases h
  | some executable =>
    subst hexec
    cases executable with
    | wasm bytes =>
      cases h
      exact ⟨bytes, rfl⟩
    | stellarAsset => cases h

end Api
end Sorofy
