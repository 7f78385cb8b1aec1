import Sorofy.Api.Lookup
import Sorofy.Api.PinnedImage

/-!
# Jobs and their attestations

A job that ended in an error says nothing about the contract, and is not to be attested.

Where a job stands and what its row says go together in every run (`Run.phases`): a row is pending
while its job builds, and finished once the report was recorded.  A restart fails the rows that are
pending, so it fails none that is finished.

What is queued belongs to a finished row as long as nothing is queued for a job whose report could
not be recorded (`Run.not_error_of_queued`).  The job queues its attestation all the same, and then
a restart makes its row an error (`exists_error_of_queue`).
-/

namespace Sorofy
namespace Api

open Foundation VerifierCore
open History

/-- The status of a verification. -/
def Db.statusAt (db : Db) (id : ℕ) : Option JobStatus :=
  (db.verifications.get? id).map VerificationRow.status

/-- The status of a job whose report was recorded. -/
def Finished (status : Option JobStatus) : Prop :=
  status = some .verified ∨ status = some .mismatch

section Status

variable {host : Host} {now id i : ℕ} {db : Db}

theorem statusAt_insertPending {contractId : Option String} {wasmHash : String}
    {source : SourceRef} {bldimg : String} :
    (db.insertPending now host contractId wasmHash source bldimg).statusAt i =
      if i = db.verifications.nextId then some .pending else db.statusAt i := by
  unfold Db.statusAt Db.insertPending
  rw [Table.get?_insert]
  split_ifs <;> rfl

theorem statusAt_complete {status : JobStatus} {report : ReproductionReport} :
    (db.complete now id status report).statusAt i =
      if i = id then (db.statusAt i).map fun _ => status else db.statusAt i := by
  unfold Db.statusAt Db.complete
  rw [Table.get?_modify]
  split_ifs
  · rw [Option.map_map, Option.map_map]
    rfl
  · rfl

theorem statusAt_fail {error : String} :
    (db.fail now id error).statusAt i =
      if i = id then (db.statusAt i).map fun _ => .error else db.statusAt i := by
  unfold Db.statusAt Db.fail
  rw [Table.get?_modify]
  split_ifs
  · rw [Option.map_map, Option.map_map]
    rfl
  · rfl

/-- The sweep fails the pending rows, and no other. -/
theorem statusAt_failOrphanedPending {error : String} :
    (db.failOrphanedPending now error).statusAt i =
      (db.statusAt i).map fun status => if status = .pending then .error else status := by
  unfold Db.statusAt Db.failOrphanedPending
  rw [Table.get?_modifyWhere, Option.map_map, Option.map_map]
  refine congrArg (fun f => Option.map f (db.verifications.get? i)) (funext fun row => ?_)
  rw [Function.comp_apply, Function.comp_apply]
  by_cases hpending : row.status = .pending
  · rw [if_pos (decide_eq_true hpending), if_pos hpending]
  · rw [if_neg (by simpa using hpending), if_neg hpending]

theorem statusAt_congr {db' : Db} (h : db'.verifications = db.verifications) :
    db'.statusAt i = db.statusAt i := by
  rw [Db.statusAt, Db.statusAt, h]

theorem statusAt_nextId : db.statusAt db.verifications.nextId = none := by
  rw [Db.statusAt, Table.get?_nextId]
  rfl

theorem finished_statusOf (report : ReproductionReport) : Finished (some (statusOf report)) := by
  unfold statusOf Finished
  split_ifs
  · exact Or.inl rfl
  · exact Or.inr rfl

end Status

/-! ## Phases -/

/-- What the row of a job says in each of its phases. -/
def Phase.Fits : Phase → Option JobStatus → Prop
  | .building _, status => status = some .pending
  | .built _ false, status => status = some .pending
  | .built _ true, status => Finished status

/-- Each job of the process fits its row, and a process that is gone has none. -/
structure Phases (s : Service) : Prop where
  down : s.running = false → ∀ id, s.jobs id = none
  fits : ∀ id phase, s.jobs id = some phase → phase.Fits (s.db.statusAt id)

/-- One job moves on, and only its row is written to. -/
theorem fits_update {jobs : ℕ → Option Phase} {status status' : ℕ → Option JobStatus} {id : ℕ}
    {next : Option Phase} (hfits : ∀ i phase, jobs i = some phase → phase.Fits (status i))
    (hrest : ∀ i, i ≠ id → status' i = status i)
    (hnext : ∀ phase, next = some phase → phase.Fits (status' id)) :
    ∀ i phase, Function.update jobs id next i = some phase → phase.Fits (status' i) := by
  intro i phase hphase
  by_cases hi : i = id
  · rw [hi, Function.update_self] at hphase
    rw [hi]
    exact hnext phase hphase
  · rw [Function.update_of_ne hi] at hphase
    rw [hrest i hi]
    exact hfits i phase hphase

section Runs

variable {cfg : Config} {s s' : Service} {input : Input} {h : List (Transition Service Input)}

/-- A process that has a job is there. -/
theorem Phases.not_down (hphases : Phases s) {id : ℕ} {phase : Phase}
    (hjob : s.jobs id = some phase) : ¬ s.running = false := by
  intro hdown
  have hnone := hphases.down hdown id
  rw [hjob] at hnone
  cases hnone

theorem Phases.step (hphases : Phases s) (hstep : Step cfg s input s') : Phases s' := by
  cases hstep with
  | accept now req db job hrunning hid hstart =>
    obtain ⟨source, hash, -, -, rfl, -⟩ := startVerification_eq_ok hstart
    constructor
    · intro hdown
      exact absurd hrunning (Bool.eq_false_iff.1 hdown)
    · refine fits_update hphases.fits (fun i hi => ?_) fun phase hphase => ?_
      · rw [statusAt_insertPending, if_neg hi]
      · rw [statusAt_insertPending, if_pos rfl]
        cases hphase
        rfl
  | finish now id job docker report recorded hjob hrun =>
    have hpending : s.db.statusAt id = some .pending := hphases.fits id _ hjob
    constructor
    · exact fun hdown => absurd hdown (hphases.not_down hjob)
    · cases recorded with
      | false =>
        refine fits_update hphases.fits (fun i hi => rfl) fun phase hphase => ?_
        cases hphase
        exact hpending
      | true =>
        refine fits_update hphases.fits (fun i hi => ?_) fun phase hphase => ?_
        · show (s.db.complete now id (statusOf report) report).statusAt i = _
          rw [statusAt_complete, if_neg hi]
        · show phase.Fits ((s.db.complete now id (statusOf report) report).statusAt id)
          cases hphase
          rw [statusAt_complete, if_pos rfl, hpending]
          exact finished_statusOf report
  | queue now id report recorded written hjob =>
    have hsame : ∀ i, (if written = true then enqueue cfg.host now s.db id report else
        s.db).statusAt i = s.db.statusAt i := by
      intro i
      split_ifs
      · exact statusAt_congr enqueue_verifications
      · rfl
    constructor
    · exact fun hdown => absurd hdown (hphases.not_down hjob)
    · exact fits_update hphases.fits (fun i _ => hsame i) fun phase hphase => by cases hphase
  | fail now id job reason recorded hjob =>
    constructor
    · exact fun hdown => absurd hdown (hphases.not_down hjob)
    · cases recorded with
      | false =>
        exact fits_update hphases.fits (fun i _ => rfl) fun phase hphase => by cases hphase
      | true =>
        refine fits_update hphases.fits (fun i hi => ?_) fun phase hphase => by cases hphase
        show (s.db.fail now id reason).statusAt i = _
        rw [statusAt_fail, if_neg hi]
  | pick now id row hrunning hidle hdue => exact ⟨hphases.down, hphases.fits⟩
  | settle now id row run recorded hbusy =>
    refine ⟨hphases.down, fun i phase hphase => ?_⟩
    cases recorded with
    | false => exact hphases.fits i phase hphase
    | true =>
      have hsame : (recordOutcome now s.db id row (submit cfg.cli run)).statusAt i =
          s.db.statusAt i := statusAt_congr recordOutcome_verifications
      exact hsame ▸ hphases.fits i phase hphase
  | crash => exact ⟨fun _ _ => rfl, fun i phase hphase => by cases hphase⟩
  | restart now hdown =>
    refine ⟨fun _ => hphases.down hdown, fun i phase hphase => ?_⟩
    rw [hphases.down hdown i] at hphase
    cases hphase

/-- **A job fits its row**, in every run. -/
theorem Run.phases (hrun : Run cfg h s) : Phases s :=
  hrun.state_invariant (fun _ _ _ hphases hstep => hphases.step hstep)
    ⟨fun _ _ => rfl, fun _ _ hphase => by cases hphase⟩

/-! ## What is queued -/

/-- A transition that queues an attestation for a job whose report could not be recorded. -/
def QueuesUnrecorded (cfg : Config) (e : Transition Service Input) : Prop :=
  ∃ id report claim, e.label = .queue id true ∧ e.pre.jobs id = some (.built report false) ∧
    Claim.fromReport cfg.host.hex cfg.host.sha256 report = .ok claim

theorem mem_queuedIds_enqueue {host : Host} {now id i : ℕ} {db : Db}
    {report : ReproductionReport} :
    i ∈ (enqueue host now db id report).queuedIds ↔
      i ∈ db.queuedIds ∨
        i = id ∧ ∃ claim, Claim.fromReport host.hex host.sha256 report = .ok claim := by
  unfold enqueue
  cases hclaim : Claim.fromReport host.hex host.sha256 report with
  | error why => simp
  | ok claim =>
    simp only [queuedIds_enqueueAttestation]
    split_ifs with hthere
    · constructor
      · exact Or.inl
      · rintro (hi | ⟨rfl, -⟩)
        · exact hi
        · exact hthere
    · simp

/-- Only finished verifications have a row in the outbox. -/
def OnlyFinished (db : Db) : Prop :=
  ∀ id ∈ db.queuedIds, Finished (db.statusAt id)

/-- What is queued is not pending. -/
theorem OnlyFinished.ne_of_pending {db : Db} (hqueued : OnlyFinished db) {id i : ℕ}
    (hpending : db.statusAt id = some .pending) (hi : i ∈ db.queuedIds) : i ≠ id := by
  rintro rfl
  rcases hqueued i hi with hstatus | hstatus <;> rw [hpending] at hstatus <;> cases hstatus

theorem OnlyFinished.step (hqueued : OnlyFinished s.db) (hphases : Phases s)
    (hstep : Step cfg s input s') (hgood : ¬ QueuesUnrecorded cfg ⟨s, input, s'⟩) :
    OnlyFinished s'.db := by
  cases hstep with
  | accept now req db job hrunning hid hstart =>
    obtain ⟨source, hash, -, -, rfl, -⟩ := startVerification_eq_ok hstart
    intro i hi
    rw [statusAt_insertPending]
    split_ifs with hnew
    · rcases hqueued i hi with hstatus | hstatus <;>
        rw [hnew, statusAt_nextId] at hstatus <;> cases hstatus
    · exact hqueued i hi
  | finish now id job docker report recorded hjob hrun =>
    cases recorded with
    | false => exact hqueued
    | true =>
      intro i hi
      have hi' := hqueued.ne_of_pending (hphases.fits id _ hjob) hi
      show Finished ((s.db.complete now id (statusOf report) report).statusAt i)
      rw [statusAt_complete, if_neg hi']
      exact hqueued i hi
  | queue now id report recorded written hjob =>
    intro i hi
    show Finished (Db.statusAt (if written = true then enqueue cfg.host now s.db id report else
      s.db) i)
    cases written with
    | false => exact hqueued i hi
    | true =>
      have hsame : (enqueue cfg.host now s.db id report).statusAt i = s.db.statusAt i :=
        statusAt_congr enqueue_verifications
      rw [if_pos rfl, hsame]
      rcases mem_queuedIds_enqueue.1 hi with hold | ⟨rfl, claim, hclaim⟩
      · exact hqueued i hold
      -- the row that is new is the job's, whose report was recorded
      · cases recorded with
        | false => exact absurd ⟨i, report, claim, rfl, hjob, hclaim⟩ hgood
        | true => exact hphases.fits i _ hjob
  | fail now id job reason recorded hjob =>
    cases recorded with
    | false => exact hqueued
    | true =>
      intro i hi
      have hi' := hqueued.ne_of_pending (hphases.fits id _ hjob) hi
      show Finished ((s.db.fail now id reason).statusAt i)
      rw [statusAt_fail, if_neg hi']
      exact hqueued i hi
  | pick now id row hrunning hidle hdue => exact hqueued
  | settle now id row run recorded hbusy =>
    cases recorded with
    | false => exact hqueued
    | true =>
      intro i hi
      have hi' : i ∈ s.db.queuedIds := by rwa [← queuedIds_recordOutcome]
      have hsame : (recordOutcome now s.db id row (submit cfg.cli run)).statusAt i =
          s.db.statusAt i := statusAt_congr recordOutcome_verifications
      exact hsame ▸ hqueued i hi'
  | crash => exact hqueued
  | restart now hdown =>
    intro i hi
    have hi' : i ∈ s.db.queuedIds := hi
    show Finished ((s.db.failOrphanedPending now orphanedJobError).statusAt i)
    rw [statusAt_failOrphanedPending]
    rcases hqueued i hi' with hstatus | hstatus
    · rw [hstatus]
      exact Or.inl rfl
    · rw [hstatus]
      exact Or.inr rfl

/-- No verification that ended in an error has a row in the outbox. -/
def Db.ErrorsNotQueued (db : Db) : Prop :=
  ∀ id row, db.verifications.get? id = some row → row.status = .error →
    ∀ attestation ∈ db.attestations.rows, attestation.verificationId ≠ id

theorem OnlyFinished.errors {db : Db} (hqueued : OnlyFinished db) :
    db.ErrorsNotQueued := by
  rintro id row hget herror attestation hmem rfl
  have hstatus : db.statusAt attestation.verificationId = some .error := by
    rw [Db.statusAt, hget, Option.map_some, herror]
  rcases hqueued _ (List.mem_map_of_mem hmem) with h | h <;> rw [hstatus] at h <;> cases h

/-- **What is queued belongs to a finished verification**, in every run that queues nothing for a
job whose report could not be recorded. -/
theorem Run.errorsNotQueued (hrun : Run cfg h s) (hgood : ∀ e ∈ h, ¬ QueuesUnrecorded cfg e) :
    s.db.ErrorsNotQueued := by
  suffices hqueued : OnlyFinished s.db from hqueued.errors
  refine hrun.invariant (P := fun h t => (∀ e ∈ h, ¬ QueuesUnrecorded cfg e) → OnlyFinished t.db)
    ?_ ?_ hgood
  · intro _ id hid
    exact absurd hid List.not_mem_nil
  · intro h t input u hpath ih hstep hall
    have hpre := ih fun e he => hall e (List.mem_append_left _ he)
    exact hpre.step (Run.phases hpath) hstep
      (hall _ (List.mem_append_right _ (List.mem_singleton_self _)))

/-- A job that has built can queue its attestation, recorded or not. -/
theorem exists_queue {id : ℕ} {report : ReproductionReport} {recorded : Bool} {claim : Claim}
    (hjob : s.jobs id = some (.built report recorded))
    (hclaim : Claim.fromReport cfg.host.hex cfg.host.sha256 report = .ok claim) :
    ∃ t, Step cfg s (.queue id true) t ∧ id ∈ t.db.queuedIds ∧
      t.db.verifications = s.db.verifications := by
  refine ⟨_, Step.queue s 0 id report recorded true hjob, ?_, enqueue_verifications⟩
  show id ∈ (enqueue cfg.host 0 s.db id report).queuedIds
  exact mem_queuedIds_enqueue.2 (Or.inr ⟨rfl, claim, hclaim⟩)

/-- Where the report could not be recorded, a restart makes an error of the job that has queued its
attestation. -/
theorem exists_error_of_queue {id : ℕ} {report : ReproductionReport} {claim : Claim}
    (hrun : Run cfg h s) (hjob : s.jobs id = some (.built report false))
    (hclaim : Claim.fromReport cfg.host.hex cfg.host.sha256 report = .ok claim) :
    ∃ k t, Run cfg (h ++ k) t ∧ t.db.statusAt id = some .error ∧ id ∈ t.db.queuedIds := by
  have hpending : s.db.statusAt id = some .pending := hrun.phases.fits id _ hjob
  obtain ⟨t, hqueue, hqueued, hsame⟩ := exists_queue hjob hclaim
  have hpath := ((Path.nil.snoc hqueue).snoc (Step.crash t)).snoc (Step.restart _ 0 rfl)
  refine ⟨_, _, hrun.trans hpath, ?_, hqueued⟩
  show (t.db.failOrphanedPending 0 orphanedJobError).statusAt id = _
  rw [statusAt_failOrphanedPending, statusAt_congr hsame, hpending]
  rfl

end Runs

/-! ## A report that could not be recorded -/

namespace Sample

/-- The job has been accepted. -/
def building : Service where
  db := Db.insertPending 0 .empty host (some contractId) contractHash request.source request.bldimg
  running := true
  jobs := Function.update (fun _ => none) 1 (some (.building request))
  worker := none

/-- The job has built, and its report was recorded or not. -/
def built (recorded : Bool) : Service where
  db := if recorded = true then building.db.complete 0 1 (statusOf alone.report) alone.report else
    building.db
  running := true
  jobs := Function.update building.jobs 1 (some (.built alone.report recorded))
  worker := none

theorem step_building :
    Step config started (.accept (verifyRequest (some contractId) none)) building := by
  refine Step.accept started 0 _ _ request rfl (show 1 ≤ i64Max by decide) ?_
  simp only [startVerification, expectedHash_contract, ok_bind, config, started]
  rfl

theorem run_built (recorded : Bool) : Run config
    [⟨.new, .restart, started⟩,
      ⟨started, .accept (verifyRequest (some contractId) none), building⟩,
      ⟨building, .finish 1 alone.report recorded, built recorded⟩] (built recorded) := by
  have hjob : building.jobs 1 = some (.building request) := by
    simp only [building, Function.update_self]
  exact (run_started.snoc step_building).snoc
    (Step.finish building 0 1 request (docker [request.bldimg]) alone.report recorded hjob
      alone.reproduced)

theorem jobs_built (recorded : Bool) :
    (built recorded).jobs 1 = some (.built alone.report recorded) := by
  simp only [built, Function.update_self]

/-- A job whose report was recorded has queued its attestation. -/
theorem recorded_not_error : ∃ h s, Run config h s ∧ 1 ∈ s.db.queuedIds ∧
    s.db.ErrorsNotQueued := by
  have hclaim : Claim.fromReport config.host.hex config.host.sha256 alone.report = .ok _ :=
    fromReport_reproduction alone_firstPins
  obtain ⟨t, hqueue, hqueued, -⟩ := exists_queue (jobs_built true) hclaim
  have hrun := (run_built true).snoc hqueue
  refine ⟨_, t, hrun, hqueued, Run.errorsNotQueued hrun ?_⟩
  rintro e he ⟨id, report, claim, hlabel, hunrecorded, -⟩
  simp only [List.cons_append, List.nil_append, List.mem_cons, List.not_mem_nil, or_false] at he
  rcases he with rfl | rfl | rfl | rfl
  · cases hlabel
  · cases hlabel
  · cases hlabel
  · cases hlabel
    rw [jobs_built true] at hunrecorded
    cases hunrecorded

/-- A job whose report could not be recorded ends in an error, and its attestation is queued. -/
theorem error_queued : ∃ h s, Run config h s ∧ ¬ s.db.ErrorsNotQueued := by
  obtain ⟨k, t, hrun, hstatus, hqueued⟩ := exists_error_of_queue (run_built false)
    (jobs_built false) (fromReport_reproduction alone_firstPins)
  refine ⟨_, t, hrun, fun hnone => ?_⟩
  obtain ⟨row, hget, herror⟩ := Option.map_eq_some_iff.1 hstatus
  obtain ⟨attestation, hmem, hid⟩ := List.mem_map.1 hqueued
  exact hnone 1 row hget herror attestation hmem hid

end Sample

end Api
end Sorofy
