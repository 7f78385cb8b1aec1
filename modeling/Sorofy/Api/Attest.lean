import Sorofy.Api.Claim
import Sorofy.Api.Db

/-!
# Attesting on chain

`crates/api/src/attest.rs`: what is queued for a finished verification, what is made of a
submission, and what is recorded about it.

A submission is a run of the `stellar` command, known by how it ended (`CliRun`).  Whether a
contract error is among what it printed decides whether to try again.
-/

namespace Sorofy
namespace Api

open Foundation VerifierCore

/-- `INVOKE_TIMEOUT`, in seconds. -/
def invokeTimeout : ℕ := 60

/-- `RETRY_BASE`, in seconds. -/
def retryBase : ℕ := 5

/-- `RETRY_CAP`, in seconds. -/
def retryCap : ℕ := 300

/-- `MAX_ATTEMPTS`. -/
def maxAttempts : ℕ := 10

/-! ## What the command printed -/

/-- `char::is_ascii_alphanumeric`. -/
def isAlphanumeric (c : Char) : Bool :=
  c.isAlphanum

/-- `is_secret`: an `S` and 55 characters of base32. -/
def isSecret (word : List Char) : Bool :=
  word.length = 56 ∧ word.head? = some 'S' ∧ (word.drop 1).all fun c =>
    c.isUpper || ('2' ≤ c && c ≤ '7')

/-- One piece of a text that is cut behind every character that cannot be in a word. -/
def redactPiece (piece : List Char) : List Char :=
  let word := piece.takeWhile isAlphanumeric
  let tail := piece.dropWhile isAlphanumeric
  if isSecret word = true then "S…redacted".toList ++ tail else piece

/-- `str::split_inclusive`: every piece but the last ends with a character that meets the
condition. -/
def splitInclusive (p : Char → Bool) : List Char → List (List Char)
  | [] => []
  | c :: s =>
    if p c = true then [c] :: splitInclusive p s
    else
      match splitInclusive p s with
      | [] => [[c]]
      | piece :: pieces => (c :: piece) :: pieces

/-- `redact`. -/
def redact (text : String) : String :=
  String.ofList ((splitInclusive (fun c => !isAlphanumeric c) text.toList).flatMap redactPiece)

/-- What comes behind the first occurrence of a pattern, up to the next: `split(pat).nth(1)`. -/
def afterFirst (pat text : List Char) : Option (List Char) :=
  (splitOnce pat text).map fun cut =>
    match splitOnce pat cut.2 with
    | some (before, _) => before
    | none => cut.2

/-- `contract_error_code`. -/
def contractErrorCode (stderr : String) : Option ℕ := do
  let rest ← afterFirst "Error(Contract, #".toList stderr.toList
  let digits := rest.takeWhile Char.isDigit
  if digits ≠ [] ∧ Decimal.value digits < 2 ^ 32 then pure (Decimal.value digits) else none

/-- `char::is_ascii_hexdigit`. -/
def isHexDigit (c : Char) : Bool :=
  c.isDigit || ('a' ≤ c && c ≤ 'f') || ('A' ≤ c && c ≤ 'F')

/-- `token_after`. -/
def tokenAfter (text : List Char) (marker : String) : Option String := do
  let rest ← afterFirst marker.toList text
  let token := (rest.dropWhile fun c => isWhitespace c).takeWhile isAlphanumeric
  if token.length = 64 ∧ token.all isHexDigit = true then pure (String.ofList token) else none

/-- `transaction_hash`. -/
def transactionHash (stderr : String) : Option String :=
  ["/tx/", "Signing transaction:"].findSome? (tokenAfter stderr.toList)

/-- `last_meaningful_line`. -/
def lastMeaningfulLine (stderr : String) : String :=
  let line := (((stderr.toList.splitOn '\n').reverse.map trim).find? (· ≠ [])).getD
    "stellar-cli failed with no output".toList
  String.ofList (line.take 500)

/-! ## Submissions -/

/-- Why one submission did not produce a transaction. -/
inductive SubmitError where
  | permanent (why : String)
  | transient (why : String)
  deriving DecidableEq

/-- `classify`: a contract error is final, anything else gets another go. -/
def classify (stderr : String) : SubmitError :=
  match contractErrorCode stderr with
  | some 2 => .permanent
      "registry refused: this verifier is not active — its stake is below the minimum (#2)"
  | some 3 => .permanent "registry refused: the claim's attestation window has closed (#3)"
  | some 4 => .permanent
      "registry refused: this verifier has already attested this claim (#4)"
  | some code => .permanent ("registry refused with contract error #" ++ toString code ++
      "; see the registry's Error enum")
  | none => .transient (lastMeaningfulLine stderr)

/-- How a run of the `stellar` command ended. -/
inductive CliRun where
  | notSpawned (error : String)
  | waitFailed (error : String)
  | timedOut
  /-- It exited, and this is what it wrote to its error stream. -/
  | exited (success : Bool) (stderr : String)
  deriving DecidableEq

/-- `submit`: what a run of the command says about the submission. -/
def submit (cli : String) : CliRun → Except SubmitError (Option String)
  | .notSpawned e => throw (.transient ("could not run " ++ cli ++ ": " ++ e))
  | .waitFailed e => throw (.transient ("stellar-cli failed: " ++ e))
  | .timedOut => throw (.transient
      ("stellar-cli did not finish within " ++ toString invokeTimeout ++ "s"))
  | .exited success stderr =>
    if success = true then pure (transactionHash (redact stderr))
    else throw (classify (redact stderr))

/-- `backoff`, in seconds. -/
def backoff (attempts : ℕ) : ℕ :=
  min (retryBase * 2 ^ (min (max attempts 1) 32 - 1)) retryCap

/-! ## The outbox -/

/-- `Attestor::enqueue`: a report that forms no claim queues nothing. -/
def enqueue (host : Host) (now : ℕ) (db : Db) (verificationId : ℕ) (report : ReproductionReport) :
    Db :=
  match Claim.fromReport host.hex host.sha256 report with
  | .ok claim =>
    db.enqueueAttestation now host verificationId (host.hex.encode claim.wasmHash.toList)
      (host.hex.encode claim.inputDigest.toList) (host.hex.encode claim.rebuiltHash.toList)
  | .error _ => db

/-- What `attempt` records about a submission of a row, as the worker has read the row. -/
def recordOutcome (now : ℕ) (db : Db) (id : ℕ) (row : AttestationRow) :
    Except SubmitError (Option String) → Db
  | .ok txHash => db.attestationSubmitted now id txHash
  | .error (.permanent why) => db.attestationRejected now id why
  | .error (.transient why) =>
    let next := row.attempts + 1
    if next ≥ maxAttempts then
      db.attestationRejected now id
        ("gave up after " ++ toString next ++ " attempts; last error: " ++ why)
    else db.attestationRetryLater now id why (backoff next)

/-! ## What the outbox leaves alone -/

section Frames

variable {host : Host} {now id : ℕ} {db : Db} {report : ReproductionReport} {row : AttestationRow}
variable {outcome : Except SubmitError (Option String)}

@[simp] theorem enqueueAttestation_verifications {wasmHash inputDigest rebuiltHash : String} :
    (db.enqueueAttestation now host id wasmHash inputDigest rebuiltHash).verifications =
      db.verifications := by
  unfold Db.enqueueAttestation
  split_ifs <;> rfl

@[simp] theorem enqueue_verifications :
    (enqueue host now db id report).verifications = db.verifications := by
  unfold enqueue
  split
  · exact enqueueAttestation_verifications
  · rfl

@[simp] theorem recordOutcome_verifications :
    (recordOutcome now db id row outcome).verifications = db.verifications := by
  rcases outcome with why | txHash
  · rcases why with why | why
    · rfl
    · simp only [recordOutcome]
      split_ifs <;> rfl
  · rfl

/-- The verifications that have a row in the outbox. -/
def Db.queuedIds (db : Db) : List ℕ :=
  db.attestations.rows.map AttestationRow.verificationId

/-- A row that is queued is the last, and the only one of its verification. -/
theorem queuedIds_enqueueAttestation {wasmHash inputDigest rebuiltHash : String} :
    (db.enqueueAttestation now host id wasmHash inputDigest rebuiltHash).queuedIds =
      if id ∈ db.queuedIds then db.queuedIds else db.queuedIds ++ [id] := by
  have hthere : (∃ row ∈ db.attestations.rows, row.verificationId = id) ↔ id ∈ db.queuedIds := by
    rw [Db.queuedIds, List.mem_map]
  unfold Db.enqueueAttestation
  split_ifs with h h' h'
  · rfl
  · exact absurd (hthere.1 h) h'
  · exact absurd (hthere.2 h') h
  · simp [Db.queuedIds, Table.insert]

/-- An outcome is recorded in a row that keeps its verification. -/
theorem queuedIds_recordOutcome :
    (recordOutcome now db id row outcome).queuedIds = db.queuedIds := by
  have hmodify : ∀ f : AttestationRow → AttestationRow,
      (∀ a, (f a).verificationId = a.verificationId) →
        (db.attestations.modify id f).rows.map AttestationRow.verificationId = db.queuedIds := by
    intro f hf
    exact congrArg Table.rows (Table.map_modify hf)
  rcases outcome with why | txHash
  · rcases why with why | why
    · exact hmodify _ fun a => rfl
    · simp only [recordOutcome]
      split_ifs
      · exact hmodify _ fun a => rfl
      · exact hmodify _ fun a => rfl
  · exact hmodify _ fun a => rfl

end Frames

end Api
end Sorofy
