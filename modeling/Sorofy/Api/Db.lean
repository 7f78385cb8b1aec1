import Sorofy.Foundation.Decimal
import Sorofy.Foundation.Table
import Sorofy.VerifierCore.Reproduce

/-!
# The database

`crates/api/src/db.rs`: the verifications, and the outbox of attestations.

Each function is one statement of the database, and what it leaves.  A statement that fails leaves
everything as it was, and is up to the caller.  The clock is the database's, in seconds; it is an
argument, so that nothing is assumed about two readings of it.

A stored source and a stored report are the values they are the JSON of.
-/

namespace Sorofy
namespace Api

open Foundation VerifierCore

/-- Lifecycle of a verification job. -/
inductive JobStatus where
  | pending
  | verified
  | mismatch
  | error
  deriving DecidableEq

/-- A cached verification.  Its id is its number in the table. -/
structure VerificationRow where
  contractId : Option String
  wasmHash : String
  source : SourceRef
  bldimg : String
  status : JobStatus
  report : Option ReproductionReport
  error : Option String
  createdAt : ℕ
  updatedAt : ℕ
  deriving DecidableEq

/-- Lifecycle of one queued attestation. -/
inductive AttestationStatus where
  | pending
  | submitted
  | rejected
  deriving DecidableEq

/-- One queued attestation.  Its id is its number in the table. -/
structure AttestationRow where
  verificationId : ℕ
  wasmHash : String
  inputDigest : String
  rebuiltHash : String
  status : AttestationStatus
  txHash : Option String
  attempts : ℕ
  lastError : Option String
  nextAttemptAt : ℕ
  createdAt : ℕ
  updatedAt : ℕ
  deriving DecidableEq

/-- `MAX_PAGE`: how many verifications one page holds at most. -/
def maxPage : ℕ := 200

/-- The database. -/
structure Db where
  verifications : Table VerificationRow
  attestations : Table AttestationRow

namespace Db

/-- The database just created. -/
def empty : Db := ⟨.empty, .empty⟩

section Statements

variable (now : ℕ) (db : Db)

/-- `insert_pending`. -/
def insertPending (host : Host) (contractId : Option String) (wasmHash : String)
    (source : SourceRef) (bldimg : String) : Db :=
  { db with
    verifications := db.verifications.insert
      { contractId
        wasmHash := toLowercase host wasmHash
        source
        bldimg
        status := .pending
        report := none
        error := none
        createdAt := now
        updatedAt := now } }

/-- `complete`. -/
def complete (id : ℕ) (status : JobStatus) (report : ReproductionReport) : Db :=
  { db with
    verifications := db.verifications.modify id fun row =>
      { row with status, report := some report, updatedAt := now } }

/-- `fail`. -/
def fail (id : ℕ) (error : String) : Db :=
  { db with
    verifications := db.verifications.modify id fun row =>
      { row with status := .error, error := some error, updatedAt := now } }

/-- `fail_orphaned_pending`. -/
def failOrphanedPending (error : String) : Db :=
  { db with
    verifications := db.verifications.modifyWhere (fun row => row.status = .pending) fun row =>
      { row with status := .error, error := some error, updatedAt := now } }

/-- `get`. -/
def get (id : ℤ) : Option (ℕ × VerificationRow) :=
  (db.verifications.get? id.toNat).map fun row => (id.toNat, row)

/-- `lookup`. -/
def lookup (host : Host) (key : String) : Option (ℕ × VerificationRow) :=
  db.verifications.last? fun row =>
    row.contractId = some key ∨ row.wasmHash = toLowercase host key

/-- `recent`: a page of the verifications, newest first. -/
def recent (limit offset : ℕ) : List (ℕ × VerificationRow) :=
  (db.verifications.numbered.reverse.drop offset).take (min limit maxPage)

/-- `count`. -/
def count : ℕ := db.verifications.count

/-- `enqueue_attestation`: a verification that has its row already keeps it. -/
def enqueueAttestation (host : Host) (verificationId : ℕ)
    (wasmHash inputDigest rebuiltHash : String) : Db :=
  if ∃ row ∈ db.attestations.rows, row.verificationId = verificationId then db
  else
    { db with
      attestations := db.attestations.insert
        { verificationId
          wasmHash := toLowercase host wasmHash
          inputDigest := toLowercase host inputDigest
          rebuiltHash := toLowercase host rebuiltHash
          status := .pending
          txHash := none
          attempts := 0
          lastError := none
          nextAttemptAt := now
          createdAt := now
          updatedAt := now } }

/-- A row that is waiting, and whose time has come. -/
def isDue (row : AttestationRow) : Bool :=
  row.status = .pending ∧ row.nextAttemptAt ≤ now

/-- `due_attestation`. -/
def dueAttestation : Option (ℕ × AttestationRow) :=
  db.attestations.first? (isDue now)

/-- `finish_attestation`. -/
def finishAttestation (id : ℕ) (status : AttestationStatus) (txHash error : Option String) : Db :=
  { db with
    attestations := db.attestations.modify id fun row =>
      { row with
        status
        txHash
        lastError := error
        attempts := row.attempts + 1
        updatedAt := now } }

/-- `attestation_submitted`. -/
def attestationSubmitted (id : ℕ) (txHash : Option String) : Db :=
  db.finishAttestation now id .submitted txHash none

/-- `attestation_rejected`. -/
def attestationRejected (id : ℕ) (reason : String) : Db :=
  db.finishAttestation now id .rejected none (some reason)

/-- `attestation_retry_later`. -/
def attestationRetryLater (id : ℕ) (error : String) (delay : ℕ) : Db :=
  { db with
    attestations := db.attestations.modify id fun row =>
      { row with
        lastError := some error
        attempts := row.attempts + 1
        nextAttemptAt := now + delay
        updatedAt := now } }

end Statements

end Db
end Api
end Sorofy
