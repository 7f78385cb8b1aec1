import Mathlib.Logic.Function.Basic
import Sorofy.Api.Attest
import Sorofy.Api.Server
import Sorofy.Foundation.History

/-!
# The service

The API with attestation enabled, as a process on its database.

A request that is accepted leaves a pending row and starts a job.  A job that has built records its
report, and then queues its attestation; one that fails records that.  Each of these is one write
to the database, and any of them may fail: `recorded` and `written` say whether it did.  The worker
takes the next attestation that is due, runs the command, and records how that ended.

The process may be gone at any point (`Step.crash`), and with it the jobs and what the worker was
doing.  When it starts again it fails the rows of the jobs it lost before it does anything else
(`Step.restart`).

There is nothing else that a run of the service can do; results about all runs are about paths of
`Step`.
-/

namespace Sorofy
namespace Api

open Foundation VerifierCore
open History

/-- `ORPHANED_JOB_ERROR`. -/
def orphanedJobError : String :=
  "verification was interrupted by a service restart and did not complete; resubmit to retry"

/-- The largest number of a row. -/
def i64Max : ℕ := 2 ^ 63 - 1

/-- What the service is configured with. -/
structure Config where
  host : Host
  soroban : Soroban
  allowUnpinnedImage : Bool
  /-- The `stellar` command. -/
  cli : String

/-- Where a job stands. -/
inductive Phase where
  | building (job : ReproductionRequest)
  /-- The report is there; whether it was recorded. -/
  | built (report : ReproductionReport) (recorded : Bool)

/-- The process and its database. -/
structure Service where
  db : Db
  running : Bool
  jobs : ℕ → Option Phase
  /-- The attestation the worker is submitting, as it was read. -/
  worker : Option (ℕ × AttestationRow)

/-- The service before its first start. -/
def Service.new : Service := ⟨.empty, false, fun _ => none, none⟩

/-- What happens to the service. -/
inductive Input where
  | accept (req : VerifyRequest)
  | finish (id : ℕ) (report : ReproductionReport) (recorded : Bool)
  | queue (id : ℕ) (written : Bool)
  | fail (id : ℕ) (reason : String) (recorded : Bool)
  | pick (now : ℕ) (id : ℕ) (row : AttestationRow)
  | settle (id : ℕ) (row : AttestationRow) (run : CliRun) (recorded : Bool)
  | crash
  | restart

/-- The status of a finished job: anything but a match is a mismatch. -/
def statusOf (report : ReproductionReport) : JobStatus :=
  if report.result = .verified then .verified else .mismatch

/-- One step of the service. -/
inductive Step (cfg : Config) : Service → Input → Service → Prop where
  /-- `start_verification`. -/
  | accept (s : Service) (now : ℕ) (req : VerifyRequest) (db : Db) (job : ReproductionRequest)
      (hrunning : s.running = true) (hid : s.db.verifications.nextId ≤ i64Max)
      (hstart : startVerification cfg.host cfg.soroban cfg.allowUnpinnedImage now s.db req =
        .ok (db, job)) :
      Step cfg s (.accept req)
        { s with
          db
          jobs := Function.update s.jobs s.db.verifications.nextId (some (.building job)) }
  /-- `run_job`, when the build has returned a report. -/
  | finish (s : Service) (now id : ℕ) (job : ReproductionRequest) (docker : Docker)
      (report : ReproductionReport) (recorded : Bool) (hjob : s.jobs id = some (.building job))
      (hrun : reproduce cfg.host docker job = .ok report) :
      Step cfg s (.finish id report recorded)
        { s with
          db := if recorded = true then s.db.complete now id (statusOf report) report else s.db
          jobs := Function.update s.jobs id (some (.built report recorded)) }
  /-- `run_job`, queueing the attestation. -/
  | queue (s : Service) (now id : ℕ) (report : ReproductionReport) (recorded written : Bool)
      (hjob : s.jobs id = some (.built report recorded)) :
      Step cfg s (.queue id written)
        { s with
          db := if written = true then enqueue cfg.host now s.db id report else s.db
          jobs := Function.update s.jobs id none }
  /-- `run_job`, when the build has failed or panicked. -/
  | fail (s : Service) (now id : ℕ) (job : ReproductionRequest) (reason : String)
      (recorded : Bool) (hjob : s.jobs id = some (.building job)) :
      Step cfg s (.fail id reason recorded)
        { s with
          db := if recorded = true then s.db.fail now id reason else s.db
          jobs := Function.update s.jobs id none }
  /-- `worker`, taking the next attestation. -/
  | pick (s : Service) (now id : ℕ) (row : AttestationRow) (hrunning : s.running = true)
      (hidle : s.worker = none) (hdue : s.db.dueAttestation now = some (id, row)) :
      Step cfg s (.pick now id row) { s with worker := some (id, row) }
  /-- `attempt`, when the command has ended. -/
  | settle (s : Service) (now id : ℕ) (row : AttestationRow) (run : CliRun) (recorded : Bool)
      (hbusy : s.worker = some (id, row)) :
      Step cfg s (.settle id row run recorded)
        { s with
          db := if recorded = true then recordOutcome now s.db id row (submit cfg.cli run) else s.db
          worker := none }
  /-- The process is gone. -/
  | crash (s : Service) :
      Step cfg s .crash { s with running := false, jobs := fun _ => none, worker := none }
  /-- `main`, up to where it starts to serve. -/
  | restart (s : Service) (now : ℕ) (hdown : s.running = false) :
      Step cfg s .restart
        { s with db := s.db.failOrphanedPending now orphanedJobError, running := true }

/-- A run of the service: from its first start it has reached `s` by the transitions `h`. -/
abbrev Run (cfg : Config) (h : List (Transition Service Input)) (s : Service) : Prop :=
  Path (Step cfg) .new h s

end Api
end Sorofy
