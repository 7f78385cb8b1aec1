import Sorofy.Api.PinnedImage
import Sorofy.Api.Service

/-!
# The outbox

The outbox and its worker, as a machine of their own: attestations are queued for any verification,
any number of times and with any report; the worker takes the next one that is due and records how
the submission ended, if the database lets it; and it can be gone at any point.  Everything else
that happens to the service leaves the outbox as it is (`Run.outbox`).

The worker decides whether to give up by the row as it has read it, and the writes do not ask what
the row says.  Both are right because nobody else writes to a row that is queued: what the worker
holds is what the database has (`Orderly`).

A row keeps its verification and its digests, its attempts are counted, and once it is not pending
it stays as it is (`AttestationRow.Evolves`, `Outbox.grows`).
-/

namespace Sorofy
namespace Api

open Foundation VerifierCore
open History

/-- The database, and the attestation the worker is submitting. -/
structure Outbox where
  db : Db
  worker : Option (ℕ × AttestationRow)

namespace Outbox

/-- What happens to the outbox. -/
inductive Input where
  | enqueue (verificationId : ℕ) (report : ReproductionReport) (written : Bool)
  | pick (now : ℕ) (id : ℕ) (row : AttestationRow)
  | settle (id : ℕ) (row : AttestationRow) (run : CliRun) (recorded : Bool)
  | crash
  | elsewhere

/-- One step of the outbox. -/
inductive Step (host : Host) (cli : String) : Outbox → Input → Outbox → Prop where
  /-- `Attestor::enqueue`. -/
  | enqueue (o : Outbox) (now id : ℕ) (report : ReproductionReport) (written : Bool) :
      Step host cli o (.enqueue id report written)
        { o with db := if written = true then Api.enqueue host now o.db id report else o.db }
  /-- `worker`, taking the next attestation. -/
  | pick (o : Outbox) (now id : ℕ) (row : AttestationRow) (hidle : o.worker = none)
      (hdue : o.db.dueAttestation now = some (id, row)) :
      Step host cli o (.pick now id row) { o with worker := some (id, row) }
  /-- `attempt`, when the command has ended. -/
  | settle (o : Outbox) (now id : ℕ) (row : AttestationRow) (run : CliRun) (recorded : Bool)
      (hbusy : o.worker = some (id, row)) :
      Step host cli o (.settle id row run recorded)
        ⟨if recorded = true then recordOutcome now o.db id row (submit cli run) else o.db, none⟩
  /-- The process is gone. -/
  | crash (o : Outbox) : Step host cli o .crash { o with worker := none }
  /-- The verifications are written to. -/
  | elsewhere (o : Outbox) (verifications : Table VerificationRow) :
      Step host cli o .elsewhere { o with db := { o.db with verifications } }

/-- The outbox of a new database. -/
def new : Outbox := ⟨.empty, none⟩

end Outbox

/-! ## What a row becomes -/

/-- A row that says what another said when it was queued, later on. -/
structure AttestationRow.Evolves (row row' : AttestationRow) : Prop where
  verificationId : row'.verificationId = row.verificationId
  wasmHash : row'.wasmHash = row.wasmHash
  inputDigest : row'.inputDigest = row.inputDigest
  rebuiltHash : row'.rebuiltHash = row.rebuiltHash
  attempts : row.attempts ≤ row'.attempts
  final : row.status ≠ .pending → row' = row

theorem AttestationRow.Evolves.refl (row : AttestationRow) : row.Evolves row :=
  ⟨rfl, rfl, rfl, rfl, le_rfl, fun _ => rfl⟩

theorem AttestationRow.Evolves.trans (a b c : AttestationRow) (hab : a.Evolves b)
    (hbc : b.Evolves c) : a.Evolves c where
  verificationId := hbc.verificationId.trans hab.verificationId
  wasmHash := hbc.wasmHash.trans hab.wasmHash
  inputDigest := hbc.inputDigest.trans hab.inputDigest
  rebuiltHash := hbc.rebuiltHash.trans hab.rebuiltHash
  attempts := hab.attempts.trans hbc.attempts
  final ha := by
    have hb := hab.final ha
    subst hb
    exact hbc.final ha

/-- A row has not been tried too often, and one that is pending may be tried again. -/
def AttestationRow.Bounded (row : AttestationRow) : Prop :=
  row.attempts ≤ maxAttempts ∧ (row.status = .pending → row.attempts < maxAttempts)

/-- The status that an outcome leaves; `read` is the row as the worker has read it. -/
def statusAfter (read : AttestationRow) (status : AttestationStatus) :
    Except SubmitError (Option String) → AttestationStatus
  | .ok _ => .submitted
  | .error (.permanent _) => .rejected
  | .error (.transient _) => if read.attempts + 1 ≥ maxAttempts then .rejected else status

/-- What recording an outcome writes to a row. -/
structure RecordsOutcome (read : AttestationRow) (outcome : Except SubmitError (Option String))
    (write : AttestationRow → AttestationRow) : Prop where
  verificationId : ∀ a, (write a).verificationId = a.verificationId
  wasmHash : ∀ a, (write a).wasmHash = a.wasmHash
  inputDigest : ∀ a, (write a).inputDigest = a.inputDigest
  rebuiltHash : ∀ a, (write a).rebuiltHash = a.rebuiltHash
  attempts : ∀ a, (write a).attempts = a.attempts + 1
  status : ∀ a, (write a).status = statusAfter read a.status outcome

/-- A row that is still what the worker has read evolves, and remains bounded. -/
theorem RecordsOutcome.evolves {row : AttestationRow} {outcome : Except SubmitError (Option String)}
    {write : AttestationRow → AttestationRow} (hwrite : RecordsOutcome row outcome write)
    (hpending : row.status = .pending) (hbounded : row.Bounded) :
    row.Evolves (write row) ∧ (write row).Bounded := by
  have hattempts := hwrite.attempts row
  have hlt := hbounded.2 hpending
  refine ⟨⟨hwrite.verificationId row, hwrite.wasmHash row, hwrite.inputDigest row,
    hwrite.rebuiltHash row, by omega, fun hfinal => absurd hpending hfinal⟩, by omega, ?_⟩
  intro hstill
  rw [hwrite.status row, statusAfter.eq_def] at hstill
  split at hstill
  · cases hstill
  · cases hstill
  -- it will be tried again, so this was not the last attempt
  · split_ifs at hstill with hgive
    omega

section Statements

variable {host : Host} {now id : ℕ} {db : Db} {report : ReproductionReport}

/-- What is queued is a row of its own. -/
theorem enqueue_attestations :
    (enqueue host now db id report).attestations = db.attestations ∨
      ∃ row, (enqueue host now db id report).attestations = db.attestations.insert row ∧
        id ∉ db.queuedIds ∧ row.verificationId = id ∧ row.status = .pending ∧ row.attempts = 0 := by
  unfold enqueue
  cases Claim.fromReport host.hex host.sha256 report with
  | error why => exact Or.inl rfl
  | ok claim =>
    simp only [Db.enqueueAttestation]
    by_cases hthere : ∃ row ∈ db.attestations.rows, row.verificationId = id
    · rw [if_pos hthere]
      exact Or.inl rfl
    · rw [if_neg hthere]
      refine Or.inr ⟨_, rfl, ?_, rfl, rfl, rfl⟩
      rwa [Db.queuedIds, List.mem_map]

/-- An outcome is recorded in one row. -/
theorem recordOutcome_attestations (row : AttestationRow)
    (outcome : Except SubmitError (Option String)) :
    ∃ write, RecordsOutcome row outcome write ∧
      (recordOutcome now db id row outcome).attestations = db.attestations.modify id write := by
  rcases outcome with why | txHash
  · rcases why with why | why
    · refine ⟨_, ?_, rfl⟩
      constructor <;> intro a <;> rfl
    · simp only [recordOutcome]
      split_ifs with hgive
      · refine ⟨_, ?_, rfl⟩
        constructor <;> intro a
        case status => exact (if_pos hgive).symm
        all_goals rfl
      · refine ⟨_, ?_, rfl⟩
        constructor <;> intro a
        case status => exact (if_neg hgive).symm
        all_goals rfl
  · refine ⟨_, ?_, rfl⟩
    constructor <;> intro a <;> rfl

/-- The attestation that is due is the first that is pending and whose time has come. -/
theorem dueAttestation_eq_some {row : AttestationRow} :
    db.dueAttestation now = some (id, row) ↔
      db.attestations.get? id = some row ∧ (row.status = .pending ∧ row.nextAttemptAt ≤ now) ∧
        ∀ j < id, ∀ other, db.attestations.get? j = some other →
          ¬ (other.status = .pending ∧ other.nextAttemptAt ≤ now) := by
  simp only [Db.dueAttestation, Table.first?_eq_some, Db.isDue, decide_eq_true_eq,
    decide_eq_false_iff_not]

end Statements

namespace Outbox

variable {host : Host} {cli : String} {o o' : Outbox} {input : Input}
variable {h k : List (Transition Outbox Input)}

/-! ## One step -/

/-- What a step can do to the attestations and the worker. -/
inductive Changes (cli : String) (o : Outbox) (input : Input) (o' : Outbox) : Prop where
  | nothing (hrows : o'.db.attestations = o.db.attestations)
      (hworker : o'.worker = o.worker ∨ o'.worker = none)
  | taken (now id : ℕ) (row : AttestationRow) (hinput : input = .pick now id row)
      (hrows : o'.db.attestations = o.db.attestations)
      (hdue : o.db.dueAttestation now = some (id, row)) (hworker : o'.worker = some (id, row))
  | queued (row : AttestationRow) (hrows : o'.db.attestations = o.db.attestations.insert row)
      (hnew : row.verificationId ∉ o.db.queuedIds) (hpending : row.status = .pending)
      (hattempts : row.attempts = 0) (hworker : o'.worker = o.worker)
  | recorded (id : ℕ) (row : AttestationRow) (run : CliRun)
      (write : AttestationRow → AttestationRow) (hinput : input = .settle id row run true)
      (hbusy : o.worker = some (id, row)) (hwrite : RecordsOutcome row (submit cli run) write)
      (hrows : o'.db.attestations = o.db.attestations.modify id write)
      (hworker : o'.worker = none)

theorem Step.changes (hstep : Step host cli o input o') : Changes cli o input o' := by
  cases hstep with
  | enqueue now id report written =>
    cases written with
    | false => exact .nothing rfl (Or.inl rfl)
    | true =>
      rcases @enqueue_attestations host now id o.db report with
        hsame | ⟨row, hrows, hnew, rfl, hpending, hattempts⟩
      · exact .nothing hsame (Or.inl rfl)
      · exact .queued row hrows hnew hpending hattempts rfl
  | pick now id row hidle hdue => exact .taken now id row rfl rfl hdue rfl
  | settle now id row run recorded hbusy =>
    cases recorded with
    | false => exact .nothing rfl (Or.inr rfl)
    | true =>
      obtain ⟨write, hwrite, hrows⟩ :=
        @recordOutcome_attestations now id o.db row (submit cli run)
      exact .recorded id row run write rfl hbusy hwrite hrows rfl
  | crash => exact .nothing rfl (Or.inr rfl)
  | elsewhere verifications => exact .nothing rfl (Or.inl rfl)

/-- The outbox is in order: no verification is queued twice, no row has been tried too often, and
what the worker holds is what the database has. -/
structure Orderly (o : Outbox) : Prop where
  unique : o.db.queuedIds.Nodup
  bounded : ∀ i row, o.db.attestations.get? i = some row → row.Bounded
  fresh : ∀ id row, o.worker = some (id, row) →
    o.db.attestations.get? id = some row ∧ row.status = .pending

theorem orderly_new : Orderly new where
  unique := List.nodup_nil
  bounded i row hget := by
    rw [new, Db.empty, Table.get?_empty] at hget
    cases hget
  fresh id row hbusy := by cases hbusy

/-- **A step keeps the outbox in order**, and each of its rows evolves. -/
theorem Orderly.step (ho : Orderly o) (hstep : Step host cli o input o') :
    Orderly o' ∧ o.db.attestations.Grows AttestationRow.Evolves o'.db.attestations := by
  have hids : o'.db.queuedIds = o'.db.attestations.rows.map AttestationRow.verificationId := rfl
  cases hstep.changes with
  | nothing hrows hworker =>
    rw [hrows] at hids
    refine ⟨⟨hids ▸ ho.unique, hrows ▸ ho.bounded, fun id row hbusy => ?_⟩,
      hrows ▸ Table.Grows.refl AttestationRow.Evolves.refl _⟩
    rcases hworker with hsame | hnone
    · exact hrows ▸ ho.fresh id row (hsame ▸ hbusy)
    · rw [hnone] at hbusy
      cases hbusy
  | taken now id row hinput hrows hdue hworker =>
    rw [hrows] at hids
    refine ⟨⟨hids ▸ ho.unique, hrows ▸ ho.bounded, fun id' row' hbusy => ?_⟩,
      hrows ▸ Table.Grows.refl AttestationRow.Evolves.refl _⟩
    rw [hworker] at hbusy
    cases hbusy
    obtain ⟨hget, ⟨hpending, -⟩, -⟩ := dueAttestation_eq_some.1 hdue
    exact ⟨hrows ▸ hget, hpending⟩
  | queued row hrows hnew hpending hattempts hworker =>
    refine ⟨⟨?_, fun i a hget => ?_, fun id a hbusy => ?_⟩,
      hrows ▸ Table.Grows.insert AttestationRow.Evolves.refl _ _⟩
    · rw [hids, hrows, Table.insert, List.map_append, List.map_singleton]
      refine List.Nodup.append ho.unique (List.nodup_singleton _) ?_
      exact List.disjoint_singleton.2 hnew
    · rw [hrows, Table.get?_insert] at hget
      split_ifs at hget
      · cases hget
        rw [AttestationRow.Bounded, hattempts]
        exact ⟨Nat.zero_le _, fun _ => by decide⟩
      · exact ho.bounded i a hget
    · obtain ⟨hget, hstill⟩ := ho.fresh id a (hworker ▸ hbusy)
      exact ⟨hrows ▸ Table.get?_insert_of_some hget, hstill⟩
  | recorded id row run write hinput hbusy hwrite hrows hworker =>
    obtain ⟨hget, hpending⟩ := ho.fresh id row hbusy
    obtain ⟨hevolves, hbounded⟩ := hwrite.evolves hpending (ho.bounded id row hget)
    refine ⟨⟨?_, fun i a hget' => ?_, fun id' a hbusy' => ?_⟩, ?_⟩
    · have hsame : (o.db.attestations.modify id write).rows.map AttestationRow.verificationId =
          o.db.queuedIds := congrArg Table.rows (Table.map_modify hwrite.verificationId)
      rw [hids, hrows, hsame]
      exact ho.unique
    · rw [hrows, Table.get?_modify] at hget'
      split_ifs at hget' with hi
      · rw [hi, hget] at hget'
        cases hget'
        exact hbounded
      · exact ho.bounded i a hget'
    · rw [hworker] at hbusy'
      cases hbusy'
    · rw [hrows]
      refine Table.Grows.modify AttestationRow.Evolves.refl fun a ha => ?_
      rw [hget] at ha
      cases ha
      exact hevolves

/-! ## Runs -/

/-- The outbox stays in order, and its rows evolve. -/
theorem Orderly.path (ho : Orderly o) (hpath : Path (Step host cli) o k o') :
    Orderly o' ∧ o.db.attestations.Grows AttestationRow.Evolves o'.db.attestations := by
  refine hpath.state_invariant (P := fun o' => Orderly o' ∧
    o.db.attestations.Grows AttestationRow.Evolves o'.db.attestations) ?_
    ⟨ho, Table.Grows.refl AttestationRow.Evolves.refl _⟩
  rintro t input u ⟨ht, hgrows⟩ hstep
  obtain ⟨hu, hgrows'⟩ := ht.step hstep
  exact ⟨hu, hgrows.trans AttestationRow.Evolves.trans hgrows'⟩

/-- The input takes or submits the row of this number. -/
def Input.Submits (i : ℕ) : Input → Prop
  | .pick _ id _ => id = i
  | .settle id _ _ _ => id = i
  | _ => False

/-- A row that is not pending is neither taken nor submitted. -/
theorem Orderly.not_submits (ho : Orderly o) (hstep : Step host cli o input o') {i : ℕ}
    {row : AttestationRow} (hget : o.db.attestations.get? i = some row)
    (hfinal : row.status ≠ .pending) : ¬ input.Submits i := by
  have hnot : ∀ row', o.db.attestations.get? i = some row' → row'.status ≠ .pending := by
    rintro row' hget'
    rw [hget] at hget'
    cases hget'
    exact hfinal
  cases hstep with
  | pick now id row' hidle hdue =>
    rintro rfl
    obtain ⟨hget', ⟨hpending, -⟩, -⟩ := dueAttestation_eq_some.1 hdue
    exact hnot row' hget' hpending
  | settle now id row' run recorded hbusy =>
    rintro rfl
    obtain ⟨hget', hpending⟩ := ho.fresh _ row' hbusy
    exact hnot row' hget' hpending
  | _ => exact id

/-- **The outbox, in every run.**  Its run so far has reached `t`, and goes on by `k` to `o`.

No verification has two rows.  A row keeps its digests, its attempts do not get fewer, and once it
is submitted or rejected it stays as it is and is not taken again.  No row is tried more than ten
times, and one that is pending can be tried again.  The row that is taken is the first that is
pending and due. -/
theorem orderly_of_run {t : Outbox} (hbefore : Path (Step host cli) new h t)
    (hafter : Path (Step host cli) t k o) :
    (∀ i j a b, o.db.attestations.get? i = some a → o.db.attestations.get? j = some b →
      a.verificationId = b.verificationId → i = j) ∧
    (∀ i row, t.db.attestations.get? i = some row →
      (∃ row', o.db.attestations.get? i = some row' ∧ row.Evolves row') ∧
      (row.status ≠ .pending → ∀ e ∈ k, ¬ e.label.Submits i)) ∧
    (∀ i row, o.db.attestations.get? i = some row → row.Bounded) ∧
    ∀ e ∈ k, ∀ now id row, e.label = .pick now id row →
      e.pre.db.attestations.get? id = some row ∧
      (row.status = .pending ∧ row.nextAttemptAt ≤ now) ∧
      ∀ j < id, ∀ other, e.pre.db.attestations.get? j = some other →
        ¬ (other.status = .pending ∧ other.nextAttemptAt ≤ now) := by
  have ht := (orderly_new.path hbefore).1
  obtain ⟨ho, hgrows⟩ := ht.path hafter
  refine ⟨fun i j a b hi hj hab => Table.get?_inj ho.unique hi hj hab,
    fun i row hget => ⟨hgrows i row hget, fun hfinal e he => ?_⟩, ho.bounded,
    fun e he now id row hlabel => ?_⟩
  · obtain ⟨pre, label, post⟩ := e
    obtain ⟨_, _, -, hpath, hstep, -⟩ := hafter.split he
    -- the row is in the outbox before this step, as it was
    obtain ⟨hpre, hgrows'⟩ := ht.path hpath
    obtain ⟨row', hget', hevolves⟩ := hgrows' i row hget
    rw [hevolves.final hfinal] at hget'
    exact hpre.not_submits hstep hget' hfinal
  · obtain ⟨pre, label, post⟩ := e
    obtain ⟨_, _, -, -, hstep, -⟩ := hafter.split he
    have hstep' : Step host cli pre label post := hstep
    cases hlabel
    cases hstep' with
    | pick now id row hidle hdue => exact dueAttestation_eq_some.1 hdue

end Outbox

namespace Sample

/-- The attestation of the job, as it is queued. -/
def queuedRow : AttestationRow where
  verificationId := 1
  wasmHash := toLowercase host (hexCrate.encode (claimOn vrfyImage).wasmHash.toList)
  inputDigest := toLowercase host (hexCrate.encode (claimOn vrfyImage).inputDigest.toList)
  rebuiltHash := toLowercase host (hexCrate.encode (claimOn vrfyImage).rebuiltHash.toList)
  status := .pending
  txHash := none
  attempts := 0
  lastError := none
  nextAttemptAt := 0
  createdAt := 0
  updatedAt := 0

/-- The outbox with this one row. -/
def waiting : Outbox := ⟨⟨.empty, ⟨[queuedRow]⟩⟩, none⟩

theorem enqueue_alone : enqueue host 0 .empty 1 alone.report = waiting.db := by
  have hclaim : Claim.fromReport host.hex host.sha256 alone.report = .ok (claimOn vrfyImage) :=
    fromReport_reproduction alone_firstPins
  rw [enqueue, hclaim]
  rfl

theorem step_waiting :
    Outbox.Step host "stellar" .new (.enqueue 1 alone.report true) waiting := by
  have hstep : Outbox.Step host "stellar" .new (.enqueue 1 alone.report true) _ :=
    Outbox.Step.enqueue .new 0 1 alone.report true
  rwa [if_pos rfl, show Outbox.new.db = Db.empty from rfl, enqueue_alone] at hstep

theorem due_waiting : waiting.db.dueAttestation 0 = some (1, queuedRow) := by
  refine dueAttestation_eq_some.2 ⟨rfl, ⟨rfl, le_rfl⟩, fun j hj other hget => ?_⟩
  obtain rfl : j = 0 := by omega
  cases hget

/-- A submission that timed out leaves the row as it should be. -/
theorem timed_out_evolves : ∃ k o, Path (Outbox.Step host "stellar") waiting k o ∧
    ∃ row, o.db.attestations.get? 1 = some row ∧ queuedRow.Evolves row ∧ row.Bounded := by
  have hpick : Outbox.Step host "stellar" waiting (.pick 0 1 queuedRow) _ :=
    Outbox.Step.pick waiting 0 1 queuedRow rfl due_waiting
  have hsettle : Outbox.Step host "stellar" _ (.settle 1 queuedRow .timedOut true) _ :=
    Outbox.Step.settle { waiting with worker := some (1, queuedRow) } 0 1 queuedRow .timedOut true
      rfl
  have hpath := (Path.single hpick).snoc hsettle
  obtain ⟨-, hrows, hbounded, -⟩ := Outbox.orderly_of_run (Path.single step_waiting) hpath
  obtain ⟨⟨row, hget, hevolves⟩, -⟩ := hrows 1 queuedRow rfl
  exact ⟨_, _, hpath, row, hget, hevolves, hbounded 1 row hget⟩

end Sample

/-! ## The outbox of the service -/

/-- The service, seen from its outbox. -/
def Service.outbox (s : Service) : Outbox := ⟨s.db, s.worker⟩

/-- What the outbox sees of an input. -/
def Service.outboxInput (s : Service) : Input → Outbox.Input
  | .queue id written =>
    match s.jobs id with
    | some (.built report _) => .enqueue id report written
    | _ => .elsewhere
  | .pick now id row => .pick now id row
  | .settle id row run recorded => .settle id row run recorded
  | .crash => .crash
  | _ => .elsewhere

theorem Step.outbox {cfg : Config} {s s' : Service} {input : Input} (hstep : Step cfg s input s') :
    Outbox.Step cfg.host cfg.cli s.outbox (s.outboxInput input) s'.outbox := by
  -- a write to the verifications alone
  have helsewhere : ∀ db : Db, db.attestations = s.db.attestations →
      Outbox.Step cfg.host cfg.cli s.outbox .elsewhere ⟨db, s.worker⟩ := by
    rintro ⟨verifications, attestations⟩ rfl
    exact Outbox.Step.elsewhere s.outbox verifications
  cases hstep with
  | accept now req db job hrunning hid hstart =>
    obtain ⟨source, hash, -, -, rfl, -⟩ := startVerification_eq_ok hstart
    exact helsewhere _ rfl
  | finish now id job docker report recorded hjob hrun =>
    cases recorded with
    | false => exact helsewhere _ rfl
    | true => exact helsewhere (s.db.complete now id (statusOf report) report) rfl
  | queue now id report recorded written hjob =>
    rw [Service.outboxInput, hjob]
    exact Outbox.Step.enqueue s.outbox now id report written
  | fail now id job reason recorded hjob =>
    cases recorded with
    | false => exact helsewhere _ rfl
    | true => exact helsewhere (s.db.fail now id reason) rfl
  | pick now id row hrunning hidle hdue => exact Outbox.Step.pick s.outbox now id row hidle hdue
  | settle now id row run recorded hbusy =>
    exact Outbox.Step.settle s.outbox now id row run recorded hbusy
  | crash => exact Outbox.Step.crash s.outbox
  | restart now hdown => exact helsewhere (s.db.failOrphanedPending now orphanedJobError) rfl

/-- **A run of the service is a run of its outbox.** -/
theorem Run.outbox {cfg : Config} {h : List (Transition Service Input)} {s : Service}
    (hrun : Run cfg h s) :
    Path (Outbox.Step cfg.host cfg.cli) .new
      (h.map fun e => ⟨e.pre.outbox, e.pre.outboxInput e.label, e.post.outbox⟩) s.outbox :=
  Path.relabel (fun _ _ _ hstep => hstep.outbox) hrun

end Api
end Sorofy
