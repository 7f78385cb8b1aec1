import Mathlib.Data.BitVec
import Mathlib.Tactic.Ring
import Sorofy.Api.Lookup
import Sorofy.Foundation.Tasks

/-!
# Admission, build slots and metrics

`crates/api/src/server.rs`: `start_verification` and `run_job` as tasks of one process, which take
turns in any order.

A turn ends where the source awaits, and where it has reached for what is shared: a permit, the
database, or the counters, of which one call counts all in one turn.  A request is dropped only while
it awaits the lookup of its contract; past admission there is nothing else it awaits, and nothing
drops a job.

A permit is what a task holds between two turns: one of admission from the turn in which it was
acquired until the job returns, a build slot for as long as the build runs.  So each turn is looked
at alone, and what a semaphore has left is what the tasks do not hold
(`ServerRun.admission_permits`, `ServerRun.build_permits`).  The gauge is what the tasks hold of the
counters (`ServerRun.counter`).
-/

namespace Sorofy
namespace Api

open Foundation VerifierCore
open History Tasks

/-! ## Semaphores and counters -/

/-- `MAX_CONCURRENT_BUILDS`. -/
def maxConcurrentBuilds : ℕ := 2

/-- `MAX_OUTSTANDING_JOBS`. -/
def maxOutstandingJobs : ℕ := 16

/-- What is left of a semaphore when one of its permits has been acquired. -/
def tryAcquire : ℕ → Option ℕ
  | 0 => none
  | left + 1 => some left

theorem tryAcquire_eq_some {permits left : ℕ} :
    tryAcquire permits = some left ↔ permits = left + 1 := by
  cases permits <;> simp [tryAcquire]

/-- Process-lifetime counters, which wrap around. -/
structure Metrics where
  submitted : BitVec 64 := 0
  inFlight : BitVec 64 := 0
  verified : BitVec 64 := 0
  mismatch : BitVec 64 := 0
  errored : BitVec 64 := 0
  buildMsTotal : BitVec 64 := 0
  buildsTimed : BitVec 64 := 0
  deriving DecidableEq

namespace Metrics

/-- Terminal outcome of a job. -/
inductive Outcome where
  | verified
  | mismatch
  | errored
  deriving DecidableEq

/-- `on_accepted`. -/
def onAccepted (m : Metrics) : Metrics :=
  { m with
    submitted := m.submitted + 1
    inFlight := m.inFlight + 1 }

/-- `on_finished`, with the time of the build in milliseconds when there was one. -/
def onFinished (m : Metrics) (outcome : Outcome) (buildMs : Option (BitVec 64)) : Metrics :=
  let m := { m with inFlight := m.inFlight - 1 }
  let m := match outcome with
    | .verified => { m with verified := m.verified + 1 }
    | .mismatch => { m with mismatch := m.mismatch + 1 }
    | .errored => { m with errored := m.errored + 1 }
  match buildMs with
  | some ms => { m with
      buildMsTotal := m.buildMsTotal + ms
      buildsTimed := m.buildsTimed + 1 }
  | none => m

/-- The jobs submitted that no outcome was counted of. -/
def unsettled (m : Metrics) : BitVec 64 :=
  m.submitted - m.verified - m.mismatch - m.errored

theorem inFlight_onFinished (m : Metrics) (outcome : Outcome) (buildMs : Option (BitVec 64)) :
    (m.onFinished outcome buildMs).inFlight = m.inFlight - 1 := by
  cases outcome <;> cases buildMs <;> rfl

theorem unsettled_onAccepted (m : Metrics) : m.onAccepted.unsettled = m.unsettled + 1 := by
  simp only [unsettled, onAccepted]
  ring

theorem unsettled_onFinished (m : Metrics) (outcome : Outcome) (buildMs : Option (BitVec 64)) :
    (m.onFinished outcome buildMs).unsettled = m.unsettled - 1 := by
  cases outcome <;> cases buildMs <;> simp only [unsettled, onFinished] <;> ring

end Metrics

/-! ## Tasks -/

/-- What the handlers share. -/
structure AppState where
  db : Db
  buildSlots : ℕ
  admission : ℕ
  metrics : Metrics

/-- `AppState::new`. -/
def AppState.new (db : Db) : AppState where
  db
  buildSlots := maxConcurrentBuilds
  admission := maxOutstandingJobs
  metrics := {}

/-- How the blocking build ended: with a report, with an error of the engine, or in a panic. -/
inductive BuildEnd where
  | report (report : ReproductionReport) (buildMs : BitVec 64)
  | engineErr (text : String)
  | joinErr (text : String)

/-- The outcome that is counted, and the time of the build. -/
def BuildEnd.outcome : BuildEnd → Metrics.Outcome × Option (BitVec 64)
  | .report found buildMs =>
    (if found.result = .verified then .verified else .mismatch, some buildMs)
  | .engineErr _ => (.errored, none)
  | .joinErr _ => (.errored, none)

/-- What `run_job` writes to the database.  Either write may fail; without an attestor there is no
second. -/
def BuildEnd.record (host : Host) (now : ℕ) (db : Db) (id : ℕ) (recorded queued : Bool) :
    BuildEnd → Db
  | .report found _ =>
    let db := if recorded = true then db.complete now id (statusOf found) found else db
    if queued = true then enqueue host now db id found else db
  | .engineErr text => if recorded = true then db.fail now id text else db
  | .joinErr text => if recorded = true then db.fail now id ("job panicked: " ++ text) else db

/-- Where a task stands. -/
inductive Task where
  /-- `start_verification`, not yet admitted. -/
  | received (req : VerifyRequest)
  /-- Admitted; it resolves the target hash. -/
  | admitted (req : VerifyRequest) (source : SourceRef)
  | resolved (req : VerifyRequest) (source : SourceRef) (hash : String)
  | inserted (id : ℕ) (job : ReproductionRequest)
  | accepted (id : ℕ) (job : ReproductionRequest)
  /-- `run_job`, waiting for a build slot. -/
  | queued (id : ℕ) (job : ReproductionRequest)
  | building (id : ℕ) (job : ReproductionRequest)
  /-- The build has ended, and the slot is not yet dropped. -/
  | built (id : ℕ) (outcome : BuildEnd)
  | ended (id : ℕ) (outcome : BuildEnd)
  | recorded (outcome : Metrics.Outcome) (buildMs : Option (BitVec 64))
  /-- All is counted, and the function is about to return. -/
  | counted
  /-- It was answered, was dropped, or has returned. -/
  | gone

namespace Task

/-- The permits of admission that a task holds. -/
def admissionPermits : Task → ℕ
  | received _ | gone => 0
  | _ => 1

/-- The build slots that a task holds. -/
def buildPermits : Task → ℕ
  | building _ _ | built _ _ => 1
  | _ => 0

/-- The gauge counts it. -/
def inFlight : Task → Bool
  | accepted _ _ | queued _ _ | building _ _ | built _ _ | ended _ _ | recorded _ _ => true
  | _ => false

/-- A request past admission. -/
def isAdmitted : Task → Bool
  | admitted _ _ | resolved _ _ _ | inserted _ _ | accepted _ _ => true
  | _ => false

/-- A job that has not returned. -/
def isJob : Task → Bool
  | queued _ _ | building _ _ | built _ _ | ended _ _ | recorded _ _ | counted => true
  | _ => false

/-- A build that runs. -/
def isBuilding : Task → Bool
  | building _ _ => true
  | _ => false

end Task

/-- What happens in a turn. -/
inductive Action where
  | refuse (err : ApiError)
  | drop
  | enter
  | resolve
  | insert
  | accept
  | spawn
  | build
  | finish
  | release
  | record
  | count
  | return
  deriving DecidableEq

/-- One turn of a task. -/
inductive Turn (cfg : Config) : Turns AppState Task Action
  /-- Authorization, the rate limit and `parse_source` come before admission. -/
  | refuse (s : AppState) (req : VerifyRequest) (err : ApiError)
      (h : err = .unauthorized ∨ (∃ wait, err = .rateLimited wait) ∨ parseSource req = .error err) :
      Turn cfg s (.received req) (.refuse err) s .gone []
  | full (s : AppState) (req : VerifyRequest) (source : SourceRef)
      (hsource : parseSource req = .ok source) (hnone : tryAcquire s.admission = none) :
      Turn cfg s (.received req) (.refuse .tooManyRequests) s .gone []
  | enter (s : AppState) (req : VerifyRequest) (source : SourceRef) (left : ℕ)
      (hsource : parseSource req = .ok source) (hleft : tryAcquire s.admission = some left) :
      Turn cfg s (.received req) .enter { s with admission := left } (.admitted req source) []
  /-- The network is as it is when it is asked. -/
  | resolve (s : AppState) (req : VerifyRequest) (source : SourceRef) (soroban : Soroban)
      (hash : String) (hhash : expectedHash cfg.host soroban req = .ok hash) :
      Turn cfg s (.admitted req source) .resolve s (.resolved req source hash) []
  | unresolved (s : AppState) (req : VerifyRequest) (source : SourceRef) (soroban : Soroban)
      (err : ApiError) (herr : expectedHash cfg.host soroban req = .error err) :
      Turn cfg s (.admitted req source) (.refuse err)
        { s with admission := s.admission + 1 } .gone []
  /-- The lookup has panicked. -/
  | lookupPanicked (s : AppState) (req : VerifyRequest) (source : SourceRef) (why : String)
      (hwaits : req.contractId.isSome = true) :
      Turn cfg s (.admitted req source) (.refuse (.internal why))
        { s with admission := s.admission + 1 } .gone []
  /-- The caller is gone while the lookup is awaited. -/
  | drop (s : AppState) (req : VerifyRequest) (source : SourceRef)
      (hwaits : req.contractId.isSome = true) :
      Turn cfg s (.admitted req source) .drop { s with admission := s.admission + 1 } .gone []
  | insert (s : AppState) (req : VerifyRequest) (source : SourceRef) (hash : String) (now : ℕ)
      (hid : s.db.verifications.nextId ≤ i64Max) :
      Turn cfg s (.resolved req source hash) .insert
        { s with db := s.db.insertPending now cfg.host req.contractId hash source req.bldimg }
        (.inserted s.db.verifications.nextId
          { source
            bldimg := req.bldimg
            bldopt := req.bldopt
            expectedWasmSha256 := hash
            allowUnpinnedImage := cfg.allowUnpinnedImage
            emitWasm := none }) []
  | insertFailed (s : AppState) (req : VerifyRequest) (source : SourceRef) (hash why : String) :
      Turn cfg s (.resolved req source hash) (.refuse (.internal why))
        { s with admission := s.admission + 1 } .gone []
  | accept (s : AppState) (id : ℕ) (job : ReproductionRequest) :
      Turn cfg s (.inserted id job) .accept { s with metrics := s.metrics.onAccepted }
        (.accepted id job) []
  /-- The request is answered, and its permit is the job's. -/
  | spawn (s : AppState) (id : ℕ) (job : ReproductionRequest) :
      Turn cfg s (.accepted id job) .spawn s .gone [.queued id job]
  | build (s : AppState) (id : ℕ) (job : ReproductionRequest) (left : ℕ)
      (hleft : tryAcquire s.buildSlots = some left) :
      Turn cfg s (.queued id job) .build { s with buildSlots := left } (.building id job) []
  | reported (s : AppState) (id : ℕ) (job : ReproductionRequest) (docker : Docker)
      (report : ReproductionReport) (buildMs : BitVec 64)
      (hrun : reproduce cfg.host docker job = .ok report) :
      Turn cfg s (.building id job) .finish s (.built id (.report report buildMs)) []
  | engineErr (s : AppState) (id : ℕ) (job : ReproductionRequest) (docker : Docker)
      (err : VerifyError) (text : String) (hrun : reproduce cfg.host docker job = .error err) :
      Turn cfg s (.building id job) .finish s (.built id (.engineErr text)) []
  | joinErr (s : AppState) (id : ℕ) (job : ReproductionRequest) (text : String) :
      Turn cfg s (.building id job) .finish s (.built id (.joinErr text)) []
  | release (s : AppState) (id : ℕ) (outcome : BuildEnd) :
      Turn cfg s (.built id outcome) .release { s with buildSlots := s.buildSlots + 1 }
        (.ended id outcome) []
  | record (s : AppState) (id : ℕ) (outcome : BuildEnd) (now : ℕ) (recorded queued : Bool) :
      Turn cfg s (.ended id outcome) .record
        { s with db := outcome.record cfg.host now s.db id recorded queued }
        (.recorded outcome.outcome.1 outcome.outcome.2) []
  | count (s : AppState) (outcome : Metrics.Outcome) (buildMs : Option (BitVec 64)) :
      Turn cfg s (.recorded outcome buildMs) .count
        { s with metrics := s.metrics.onFinished outcome buildMs } .counted []
  /-- `run_job` returns, and its permit of admission is dropped. -/
  | return (s : AppState) :
      Turn cfg s .counted .return { s with admission := s.admission + 1 } .gone []

/-- A request arrives. -/
def Arrives (t : Task) : Prop :=
  ∃ req, t = .received req

/-- A run of the process on a database: from its start it has reached `p` by the transitions `h`. -/
abbrev ServerRun (cfg : Config) (db : Db)
    (h : List (Transition (Pool AppState Task) (Option Action))) (p : Pool AppState Task) : Prop :=
  Path (Tasks.Step (Turn cfg) Arrives) ⟨.new db, []⟩ h p

/-! ## Permits -/

section Permits

variable {cfg : Config} {db : Db} {h : List (Transition (Pool AppState Task) (Option Action))}
  {p : Pool AppState Task}

theorem Arrives.hold {t : Task} (harrives : Arrives t) :
    t.admissionPermits = 0 ∧ t.buildPermits = 0 ∧ t.inFlight = false := by
  obtain ⟨req, rfl⟩ := harrives
  exact ⟨rfl, rfl, rfl⟩

/-- A turn keeps the permits of admission. -/
theorem Turn.admission_permits {s s' : AppState} {t t' : Task} {a : Action} {started : List Task}
    (hturn : Turn cfg s t a s' t' started) :
    s'.admission + (t'.admissionPermits + load Task.admissionPermits started) =
      s.admission + t.admissionPermits := by
  cases hturn with
  | enter s req source left hsource hleft =>
    rw [tryAcquire_eq_some.1 hleft]
    rfl
  | _ => rfl

/-- A turn keeps the build slots. -/
theorem Turn.build_permits {s s' : AppState} {t t' : Task} {a : Action} {started : List Task}
    (hturn : Turn cfg s t a s' t' started) :
    s'.buildSlots + (t'.buildPermits + load Task.buildPermits started) =
      s.buildSlots + t.buildPermits := by
  cases hturn with
  | build s id job left hleft =>
    rw [tryAcquire_eq_some.1 hleft]
    rfl
  | _ => rfl

/-- Admission is for what is past it: requests that were admitted, and jobs. -/
theorem Task.admissionPermits_eq (t : Task) :
    t.admissionPermits = t.isAdmitted.toNat + t.isJob.toNat := by
  cases t <;> rfl

theorem load_admissionPermits (tasks : List Task) :
    load Task.admissionPermits tasks = tasks.countP Task.isAdmitted + tasks.countP Task.isJob := by
  rw [← load_toNat, ← load_toNat, ← load_add]
  simp only [← Task.admissionPermits_eq]

theorem Task.inFlight_le (t : Task) : t.inFlight.toNat ≤ t.admissionPermits := by
  cases t <;> simp [inFlight, admissionPermits]

theorem Task.isBuilding_le (t : Task) : t.isBuilding.toNat ≤ t.buildPermits := by
  cases t <;> simp [isBuilding, buildPermits]

theorem Task.buildPermits_le (t : Task) : t.buildPermits ≤ t.isJob.toNat := by
  cases t <;> simp [buildPermits, isJob]

/-- **Admission is what is not outstanding.** -/
theorem ServerRun.admission_permits (hrun : ServerRun cfg db h p) :
    p.shared.admission + (p.tasks.countP Task.isAdmitted + p.tasks.countP Task.isJob) =
      maxOutstandingJobs := by
  have hbalance := Path.balanced AppState.admission Task.admissionPermits
    (fun _ _ _ _ _ _ hturn => hturn.admission_permits) (fun _ harrives => harrives.hold.1) hrun
  rwa [balance, load_admissionPermits] at hbalance

/-- **Build slots are what no job holds.** -/
theorem ServerRun.build_permits (hrun : ServerRun cfg db h p) :
    p.shared.buildSlots + load Task.buildPermits p.tasks = maxConcurrentBuilds :=
  Path.balanced AppState.buildSlots Task.buildPermits
    (fun _ _ _ _ _ _ hturn => hturn.build_permits) (fun _ harrives => harrives.hold.2.1) hrun

/-! ## The gauge -/

/-- A turn counts a job up as the gauge takes it on, and down as it lets it go. -/
theorem Turn.counter {c : Metrics → BitVec 64} (hup : ∀ m, c m.onAccepted = c m + 1)
    (hdown : ∀ m outcome buildMs, c (m.onFinished outcome buildMs) = c m - 1)
    {s s' : AppState} {t t' : Task} {a : Action} {started : List Task}
    (hturn : Turn cfg s t a s' t' started) :
    -c s'.metrics + ((t'.inFlight.toNat : BitVec 64) +
        load (fun t => (t.inFlight.toNat : BitVec 64)) started) =
      -c s.metrics + (t.inFlight.toNat : BitVec 64) := by
  cases hturn with
  | accept s id job =>
    simp only [hup, Task.inFlight, Bool.toNat_true, Bool.toNat_false, Nat.cast_one, Nat.cast_zero,
      load_nil]
    ring
  | count s outcome buildMs =>
    simp only [hdown, Task.inFlight, Bool.toNat_true, Bool.toNat_false, Nat.cast_one,
      Nat.cast_zero, load_nil]
    ring
  | _ => simp [Task.inFlight]

/-- **A counter that goes up with `on_accepted` and down with `on_finished`** counts the jobs in
flight. -/
theorem ServerRun.counter {c : Metrics → BitVec 64} (hzero : c {} = 0)
    (hup : ∀ m, c m.onAccepted = c m + 1)
    (hdown : ∀ m outcome buildMs, c (m.onFinished outcome buildMs) = c m - 1)
    (hrun : ServerRun cfg db h p) :
    c p.shared.metrics = (p.tasks.countP Task.inFlight : BitVec 64) := by
  have hidle : ∀ t, Arrives t → (t.inFlight.toNat : BitVec 64) = 0 := by
    intro t harrives
    rw [harrives.hold.2.2, Bool.toNat_false, Nat.cast_zero]
  have hbalance := Path.balanced (fun s => -c s.metrics) (fun t => (t.inFlight.toNat : BitVec 64))
    (fun _ _ _ _ _ _ hturn => hturn.counter hup hdown) hidle hrun
  have hstart : balance (fun s : AppState => -c s.metrics)
      (fun t : Task => (t.inFlight.toNat : BitVec 64)) ⟨.new db, []⟩ = 0 := by
    show -c {} + 0 = 0
    rw [hzero, neg_zero, add_zero]
  rw [hstart, balance, load_natCast, load_toNat] at hbalance
  exact neg_add_eq_zero.1 hbalance

/-- No more jobs are in flight than were admitted. -/
theorem ServerRun.countP_inFlight_le (hrun : ServerRun cfg db h p) :
    p.tasks.countP Task.inFlight ≤ maxOutstandingJobs := by
  have hle : load (fun t => t.inFlight.toNat) p.tasks ≤ load Task.admissionPermits p.tasks :=
    load_le_load Task.inFlight_le
  rw [load_toNat, load_admissionPermits] at hle
  have hpermits := hrun.admission_permits
  omega

/-- **The gauge** is the number of jobs in flight, and does not wrap around. -/
theorem ServerRun.inFlight_toNat (hrun : ServerRun cfg db h p) :
    p.shared.metrics.inFlight.toNat = p.tasks.countP Task.inFlight := by
  have hcount := hrun.counter (c := Metrics.inFlight) rfl (fun _ => rfl)
    Metrics.inFlight_onFinished
  have hle := hrun.countP_inFlight_le
  rw [hcount, BitVec.natCast_eq_ofNat, BitVec.toNat_ofNat, Nat.mod_eq_of_lt]
  exact hle.trans_lt (by decide)

/-- **The gauge balances**: it is what was submitted and not yet counted as an outcome. -/
theorem ServerRun.inFlight_eq (hrun : ServerRun cfg db h p) :
    p.shared.metrics.inFlight = p.shared.metrics.unsettled :=
  (hrun.counter (c := Metrics.inFlight) rfl (fun _ => rfl) Metrics.inFlight_onFinished).trans
    (hrun.counter (c := Metrics.unsettled) rfl Metrics.unsettled_onAccepted
      Metrics.unsettled_onFinished).symm

/-- A job is counted once it has ended, when it is still in flight. -/
theorem ServerRun.inFlight_of_count
    {before after : List (Transition (Pool AppState Task) (Option Action))}
    {e : Transition (Pool AppState Task) (Option Action)}
    (hrun : ServerRun cfg db (before ++ e :: after) p) (hcount : e.label = some .count) :
    e.post.shared.metrics.inFlight.toNat + 1 = e.pre.shared.metrics.inFlight.toNat := by
  obtain ⟨hpre, hstep, -⟩ := hrun.cut
  have hpost : ServerRun cfg db (before ++ [e]) e.post := hpre.snoc hstep
  rw [ServerRun.inFlight_toNat hpre, ServerRun.inFlight_toNat hpost]
  obtain ⟨⟨s, tasks⟩, label, ⟨s', tasks'⟩⟩ := e
  obtain rfl : label = some .count := hcount
  cases hstep with
  | turn front back s t a s' t' started hturn =>
    cases hturn with
    | count s outcome buildMs =>
      simp only [List.countP_append, List.countP_cons, List.countP_nil, Task.inFlight, if_true,
        Bool.false_eq_true, if_false]
      omega

/-! ## All runs -/

/-- What holds of the tasks, the semaphores and the counters between any two turns. -/
structure Balanced (p : Pool AppState Task) : Prop where
  outstanding : p.tasks.countP Task.isAdmitted + p.tasks.countP Task.isJob ≤ maxOutstandingJobs
  builds : p.tasks.countP Task.isBuilding ≤ maxConcurrentBuilds
  inFlight : p.shared.metrics.inFlight.toNat = p.tasks.countP Task.inFlight
  gauge : p.shared.metrics.inFlight = p.shared.metrics.submitted - p.shared.metrics.verified -
    p.shared.metrics.mismatch - p.shared.metrics.errored
  idle : p.tasks.countP Task.isAdmitted = 0 → p.tasks.countP Task.isJob = 0 →
    p.shared.admission = maxOutstandingJobs ∧ p.shared.buildSlots = maxConcurrentBuilds ∧
      p.shared.metrics.inFlight = 0

/-- **Nothing leaks**, however the turns of requests and jobs are interleaved. -/
theorem ServerRun.nothing_leaks (hrun : ServerRun cfg db h p) :
    Balanced p ∧ ∀ e ∈ h, e.label = some .count →
      e.post.shared.metrics.inFlight.toNat + 1 = e.pre.shared.metrics.inFlight.toNat := by
  have hadmission := hrun.admission_permits
  have hslots := hrun.build_permits
  have hinFlight := hrun.inFlight_toNat
  constructor
  · have hbuilding : load (fun t => t.isBuilding.toNat) p.tasks ≤ load Task.buildPermits p.tasks :=
      load_le_load Task.isBuilding_le
    rw [load_toNat] at hbuilding
    refine ⟨by omega, by omega, hinFlight, hrun.inFlight_eq, fun hadmitted hjobs => ?_⟩
    have hheld : load Task.buildPermits p.tasks ≤ load (fun t => t.isJob.toNat) p.tasks :=
      load_le_load Task.buildPermits_le
    have hflying : load (fun t => t.inFlight.toNat) p.tasks ≤ load Task.admissionPermits p.tasks :=
      load_le_load Task.inFlight_le
    rw [load_toNat] at hheld
    rw [load_toNat, load_admissionPermits] at hflying
    exact ⟨by omega, by omega, BitVec.eq_of_toNat_eq (by rw [hinFlight]; show _ = 0; omega)⟩
  · intro e he hcount
    obtain ⟨before, after, rfl, -⟩ := hrun.split he
    exact hrun.inFlight_of_count hcount

end Permits

namespace Sample

/-- The process with one request, answered or not, and its job. -/
def serving (db : Db) (metrics : Metrics) (slots admission : ℕ) (tasks : List Task) :
    Pool AppState Task :=
  ⟨⟨db, slots, admission, metrics⟩, tasks⟩

/-- The rows with the one that is pending. -/
def pendingDb : Db :=
  Db.insertPending 0 .empty host (some contractId) contractHash request.source request.bldimg

/-- A request is accepted, and its build verified. -/
theorem run_verified : ∃ h db metrics,
    ServerRun config .empty h (serving db metrics maxConcurrentBuilds maxOutstandingJobs
      [.gone, .gone]) ∧ metrics.submitted = 1 ∧ metrics.verified = 1 := by
  let req := verifyRequest (some contractId) none
  have hreceived : ServerRun config .empty _ (serving .empty {} 2 16 [.received req]) :=
    Path.single (Tasks.Step.arrival [] (AppState.new .empty) (Task.received req) ⟨req, rfl⟩)
  have hadmitted : ServerRun config .empty _
      (serving .empty {} 2 15 [.admitted req request.source]) :=
    hreceived.snoc (Tasks.Step.turn [] [] _ _ _ _ _ _ (Turn.enter _ req request.source 15 rfl rfl))
  have hinserted : ServerRun config .empty _ (serving pendingDb {} 2 15 [.inserted 1 request]) :=
    (hadmitted.snoc (Tasks.Step.turn [] [] _ _ _ _ _ _
      (Turn.resolve _ req request.source soroban contractHash expectedHash_contract))).snoc
      (Tasks.Step.turn [] [] _ _ _ _ _ _ (Turn.insert _ req request.source contractHash 0 (by decide)))
  have hqueued : ServerRun config .empty _
      (serving pendingDb (Metrics.onAccepted {}) 2 15 [.gone, .queued 1 request]) :=
    (hinserted.snoc (Tasks.Step.turn [] [] _ _ _ _ _ _ (Turn.accept _ 1 request))).snoc
      (Tasks.Step.turn [] [] _ _ _ _ _ _ (Turn.spawn _ 1 request))
  have hbuilt : ServerRun config .empty _
      (serving pendingDb (Metrics.onAccepted {}) 1 15
        [.gone, .built 1 (.report alone.report 0)]) :=
    (hqueued.snoc (Tasks.Step.turn [Task.gone] [] _ _ _ _ _ _ (Turn.build _ 1 request 1 rfl))).snoc
      (Tasks.Step.turn [Task.gone] [] _ _ _ _ _ _
        (Turn.reported _ 1 request (docker [request.bldimg]) alone.report 0 alone.reproduced))
  have hrecorded := (hbuilt.snoc (Tasks.Step.turn [Task.gone] [] _ _ _ _ _ _ (Turn.release _ 1 _))).snoc
    (Tasks.Step.turn [Task.gone] [] _ _ _ _ _ _ (Turn.record _ 1 _ 0 true false))
  have hover := (hrecorded.snoc (Tasks.Step.turn [Task.gone] [] _ _ _ _ _ _ (Turn.count _ _ _))).snoc
    (Tasks.Step.turn [Task.gone] [] _ _ _ _ _ _ (Turn.return _))
  exact ⟨_, _, _, hover, rfl, rfl⟩

/-- When the job is over, all is as it was at the start but for what was counted. -/
theorem verified_balanced : ∃ h p, ServerRun config .empty h p ∧ Balanced p ∧
    p.shared.metrics.verified = 1 := by
  obtain ⟨h, db, metrics, hrun, -, hverified⟩ := run_verified
  exact ⟨h, _, hrun, (ServerRun.nothing_leaks hrun).1, hverified⟩

end Sample

end Api
end Sorofy
