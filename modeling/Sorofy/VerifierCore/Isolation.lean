import Sorofy.VerifierCore.Lifecycle

/-!
# What runs in a sandbox, and when

Dependencies are fetched with a route to the network, and none of their code is run.  The build runs
that code, and has no route.  `Sanctioned` is what each event of a job needs to have happened before
it, and `Job.justified_reproduce` that it has, whatever docker answers.
-/

namespace Sorofy
namespace VerifierCore

open Foundation
open Foundation.Traced

/-- What an event creates: the id of a container, and what it was created from. -/
def JobEvent.created (cli : DockerCli) : JobEvent → Option (String × ContainerSpec)
  | .output (.create spec) ended =>
    match cli.createdId spec ended with
    | .ok id => some (id, spec)
    | .error _ => none
  | _ => none

/-- The containers that were created. -/
def createdIds (cli : DockerCli) (t : List JobEvent) : List String :=
  (t.filterMap (JobEvent.created cli)).map Prod.fst

theorem createdIds_append {cli : DockerCli} (t t' : List JobEvent) :
    createdIds cli (t ++ t') = createdIds cli t ++ createdIds cli t' := by
  simp [createdIds]

theorem mem_createdIds {cli : DockerCli} {t : List JobEvent} {e : JobEvent} {id : String}
    {spec : ContainerSpec} (he : e ∈ t) (hcreated : e.created cli = some (id, spec)) :
    id ∈ createdIds cli t :=
  List.mem_map.2 ⟨(id, spec), List.mem_filterMap.2 ⟨e, he, hcreated⟩, rfl⟩

/-- The container that was created last. -/
def current (cli : DockerCli) (t : List JobEvent) : Option (String × ContainerSpec) :=
  (t.filterMap (JobEvent.created cli)).getLast?

/-- The tar was copied into the container. -/
def StagedIn (t : List JobEvent) (id : String) (tar : List UInt8) : Prop :=
  ∃ ended, .staged id stageDir tar ended ∈ t ∧ ended.accept = .ok ()

/-- The container ran to its end, and succeeded. -/
def Succeeded (t : List JobEvent) (id : String) : Prop :=
  ∃ timeout ended run, .started id timeout ended ∈ t ∧ StartRun.accept timeout ended = .ok run ∧
    run.exitCode = 0

section Sanctioned

variable (cli : DockerCli) (daemon : Daemon) (host : Host) (job : Job)

/-- The dependencies were fetched. -/
def Fetched (t : List JobEvent) : Prop :=
  ∃ id, (id, fetchSpec host job.toReproductionRequest) ∈ t.filterMap (JobEvent.created cli) ∧
    Succeeded t id

/-- The container is the one that was created last, from what the phase is for: the dependencies are
fetched in the first, and when that is done the build runs in the second. -/
def InPhase (t : List JobEvent) (id : String) : Prop :=
  current cli t = some (id, fetchSpec host job.toReproductionRequest) ∨
    current cli t = some (id, buildSpec host job.toReproductionRequest) ∧ Fetched cli host job t

/-- The source of the job was copied into the container. -/
def HasSource (t : List JobEvent) (id : String) : Prop :=
  ∃ source, host.fetch job.source = .ok source ∧ StagedIn t id source.tar

/-- The source was built in the container that was created last, once its dependencies were there. -/
structure Built (t : List JobEvent) (id : String) : Prop where
  current : current cli t = some (id, buildSpec host job.toReproductionRequest)
  fetched : Fetched cli host job t
  source : HasSource host job t id
  succeeded : Succeeded t id

/-- The artifact was copied out of a build. -/
def Extracted (t : List JobEvent) (artifact : String × List UInt8) : Prop :=
  ∃ id ended tar, Built cli host job t id ∧ .output (.getArchive id releaseDir) ended ∈ t ∧
    gotArchive releaseDir ended = .ok tar ∧ selectWasmFromTar host tar = .ok artifact

/-- The report is on an artifact that was copied out of a build of the source. -/
def Reported (t : List JobEvent) (report : ReproductionReport) : Prop :=
  ∃ source artifact wasm, host.fetch job.source = .ok source ∧
    Extracted cli host job t (artifact, wasm) ∧ report.artifact = artifact ∧
    report.sourceSha256 = source.sha256 ∧ report.rebuiltWasmSha256 = sha256Hex host wasm ∧
    (report.result = .verified ↔ sha256Hex host wasm = toLowercase host job.expectedWasmSha256)

/-- What was done until the volume was there, from when on the time is taken. -/
def Began (t : List JobEvent) : Prop :=
  ∃ before ended, t = before ++ [.output (.createVolume (cargoVolume host)) ended]

/-- The time that a container has: a share of the budget for the first, and for the second what is
left of it. -/
def Allotted (t : List JobEvent) (id : String) (timeout : ℕ) : Prop :=
  current cli t = some (id, fetchSpec host job.toReproductionRequest) ∧ timeout = job.timeout / 3 ∨
    current cli t = some (id, buildSpec host job.toReproductionRequest) ∧
      ∃ began, Began host began ∧ began <+: t ∧
        timeout = job.timeout - (daemon.now t - daemon.now began)

/-- What an event needs to have happened before it. -/
def Sanctioned (before : List JobEvent) : JobEvent → Prop
  | .output (.createVolume name) _ | .output (.removeVolume name) _ => name = cargoVolume host
  | .output (.create spec) _ =>
    spec = fetchSpec host job.toReproductionRequest ∨
      spec = buildSpec host job.toReproductionRequest ∧ Fetched cli host job before
  | .staged id dest tar _ =>
    dest = stageDir ∧ (∃ source, host.fetch job.source = .ok source ∧ source.tar = tar) ∧
      InPhase cli host job before id
  | .started id timeout _ =>
    HasSource host job before id ∧ InPhase cli host job before id ∧
      Allotted cli daemon host job before id timeout
  | .output (.kill id) _ => ∃ t timeout, before = t ++ [.started id timeout .timedOut]
  | .output (.getArchive id src) _ => src = releaseDir ∧ Built cli host job before id
  | .wrote path bytes =>
    job.emitWasm = some path ∧ ∃ artifact, Extracted cli host job before (artifact, bytes)
  | .output (.inspectImage image) _ => image = job.bldimg
  | .output .version _ | .output (.remove _) _ => True

/-- Every event has what it needs before it. -/
abbrev Orderly (t : List JobEvent) : Prop :=
  Justified (Sanctioned cli daemon host job) t

end Sanctioned

/-! ## What stays -/

section Facts

variable {cli : DockerCli} {host : Host} {job : Job} {t t' : List JobEvent} {e : JobEvent}
  {id : String}

@[simp] theorem current_snoc (h : e.created cli = none) : current cli (t ++ [e]) = current cli t := by
  simp [current, h]

theorem current_snoc_of_created {p : String × ContainerSpec} (h : e.created cli = some p) :
    current cli (t ++ [e]) = some p := by
  simp [current, h]

theorem StagedIn.append {tar : List UInt8} (h : StagedIn t id tar) (t' : List JobEvent) :
    StagedIn (t ++ t') id tar := by
  obtain ⟨ended, hmem, hok⟩ := h
  exact ⟨ended, List.mem_append_left _ hmem, hok⟩

theorem Succeeded.append (h : Succeeded t id) (t' : List JobEvent) : Succeeded (t ++ t') id := by
  obtain ⟨timeout, ended, run, hmem, hok⟩ := h
  exact ⟨timeout, ended, run, List.mem_append_left _ hmem, hok⟩

theorem Fetched.append (h : Fetched cli host job t) (t' : List JobEvent) :
    Fetched cli host job (t ++ t') := by
  obtain ⟨id, hmem, hrun⟩ := h
  refine ⟨id, ?_, hrun.append t'⟩
  rw [List.filterMap_append]
  exact List.mem_append_left _ hmem

/-- An event that creates nothing leaves the phase. -/
theorem InPhase.snoc (h : InPhase cli host job t id) (he : e.created cli = none) :
    InPhase cli host job (t ++ [e]) id := by
  unfold InPhase
  rw [current_snoc he]
  exact h.imp_right fun h => ⟨h.1, h.2.append _⟩

theorem HasSource.append (h : HasSource host job t id) (t' : List JobEvent) :
    HasSource host job (t ++ t') id := by
  obtain ⟨source, hsource, hstaged⟩ := h
  exact ⟨source, hsource, hstaged.append t'⟩

theorem Built.snoc (h : Built cli host job t id) (he : e.created cli = none) :
    Built cli host job (t ++ [e]) id where
  current := by rw [current_snoc he, h.current]
  fetched := h.fetched.append _
  source := h.source.append _
  succeeded := h.succeeded.append _

theorem Extracted.snoc {artifact : String × List UInt8} (h : Extracted cli host job t artifact)
    (he : e.created cli = none) : Extracted cli host job (t ++ [e]) artifact := by
  obtain ⟨id, ended, tar, hbuilt, hmem, hgot⟩ := h
  exact ⟨id, ended, tar, hbuilt.snoc he, List.mem_append_left _ hmem, hgot⟩

theorem Reported.snoc {report : ReproductionReport} (h : Reported cli host job t report)
    (he : e.created cli = none) : Reported cli host job (t ++ [e]) report := by
  obtain ⟨source, artifact, wasm, hsource, hextracted, hreport⟩ := h
  exact ⟨source, artifact, wasm, hsource, hextracted.snoc he, hreport⟩

end Facts

/-! ## Each part of a job -/

section Parts

variable {cli : DockerCli} {daemon : Daemon} {host : Host} {job : Job} {t : List JobEvent}
  {id : String}

/-- **A run** that is over in its time leaves one event, and one that is not is killed. -/
theorem justified_runToCompletion {timeout : ℕ} (ht : Orderly cli daemon host job t)
    (hstart : ∀ ended, Sanctioned cli daemon host job t (.started id timeout ended)) :
    Ends (cli.runToCompletion daemon id timeout) t
      (fun run t' => Orderly cli daemon host job t' ∧
        ∃ ended, StartRun.accept timeout ended = .ok run ∧ t' = t ++ [.started id timeout ended])
      (fun _ => Orderly cli daemon host job) := by
  unfold DockerCli.runToCompletion
  refine (justified_ask ht hstart).bind (fun _ _ h => h.1) ?_
  rintro ended t' ⟨ht', ended', hended, rfl⟩
  obtain rfl := Except.ok.inj hended
  cases ended' with
  | timedOut =>
    have hkill : ∀ ended, Sanctioned cli daemon host job (t ++ [.started id timeout .timedOut])
        (.output (.kill id) ended) := fun _ => ⟨t, timeout, rfl⟩
    have hkilled : Ends (cli.run daemon (.kill id)) (t ++ [.started id timeout .timedOut])
        (fun _ => Orderly cli daemon host job)
        (fun _ => Orderly cli daemon host job) :=
      (justified_ask ht' hkill).mono (fun _ _ h => h.1) fun _ _ h => h.1
    simp only [DockerCli.stop, ends_bind, ends_attempt, ends_pure]
    exact hkilled
  | notSpawned => exact ht'
  | waitFailed => exact ht'
  | exited code out err => exact ⟨ht', _, rfl, rfl⟩

/-- **A container** is created last in its scope, and what is known then stays known when it is
removed. -/
theorem justified_withContainer {α : Type} {spec : ContainerSpec}
    {use : String → Traced JobEvent VerifyError α} {Q : α → List JobEvent → Prop}
    (ht : Orderly cli daemon host job t)
    (hcreate : ∀ ended, Sanctioned cli daemon host job t (.output (.create spec) ended))
    (hQ : ∀ a t e, e.created cli = none → Q a t → Q a (t ++ [e]))
    (huse : ∀ id t', Orderly cli daemon host job t' → t <+: t' →
      (id, spec) ∈ t'.filterMap (JobEvent.created cli) → current cli t' = some (id, spec) →
      Ends (use id) t' (fun a t'' => Orderly cli daemon host job t'' ∧ Q a t'')
        (fun _ => Orderly cli daemon host job)) :
    Ends (cli.withContainer daemon spec use) t
      (fun a t' => Orderly cli daemon host job t' ∧ Q a t')
      (fun _ => Orderly cli daemon host job) := by
  unfold DockerCli.withContainer
  refine (justified_ask ht hcreate).bind (fun _ _ h => h.1) ?_
  rintro id t' ⟨ht', ended, hid, rfl⟩
  have hcreated : (JobEvent.output (.create spec) ended).created cli = some (id, spec) := by
    simp [JobEvent.created, hid]
  have hlast := huse id _ ht' (List.prefix_append t _) (by simp [hcreated])
    (current_snoc_of_created hcreated)
  have hremove : ∀ t ended, Sanctioned cli daemon host job t (.output (.remove id) ended) :=
    fun _ _ => trivial
  rw [ends_afterwards]
  refine hlast.mono (fun _ t'' h => ?_) fun _ t'' h => ?_
  · refine (justified_ask h.1 (hremove t'')).mono ?_ ?_
    · rintro _ _ ⟨hremoved, _, -, rfl⟩
      exact ⟨hremoved, hQ _ _ _ rfl h.2⟩
    · rintro _ _ ⟨hremoved, _, -, rfl⟩
      exact ⟨hremoved, hQ _ _ _ rfl h.2⟩
  · exact (justified_ask h (hremove t'')).mono (fun _ _ h => h.1) fun _ _ h => h.1

/-- **The source is copied in and the container is run** as the phase has it. -/
theorem justified_staged {α : Type} {source : SourceArchive} (timeout : List JobEvent → ℕ)
    {f : RunOutput → Traced JobEvent VerifyError α} {Q : α → List JobEvent → Prop}
    (hsource : host.fetch job.source = .ok source)
    (ht : Orderly cli daemon host job t) (hphase : InPhase cli host job t id)
    (htimeout : ∀ e, e.created cli = none →
      Allotted cli daemon host job (t ++ [e]) id (timeout (t ++ [e])))
    (hf : ∀ run e ended, e.created cli = none → HasSource host job (t ++ [e]) id →
      Orderly cli daemon host job
        (t ++ [e] ++ [.started id (timeout (t ++ [e])) ended]) →
      StartRun.accept (timeout (t ++ [e])) ended = .ok run →
      Ends (f run) (t ++ [e] ++ [.started id (timeout (t ++ [e])) ended]) Q
        (fun _ => Orderly cli daemon host job)) :
    Ends (do
      cli.putArchive daemon id stageDir source.tar
      let allotted ← observe timeout
      let run ← cli.runToCompletion daemon id allotted
      f run) t Q (fun _ => Orderly cli daemon host job) := by
  have hput : ∀ ended, Sanctioned cli daemon host job t
      (.staged id stageDir source.tar ended) := fun _ => ⟨rfl, ⟨source, hsource, rfl⟩, hphase⟩
  refine (justified_ask ht hput).bind (fun _ _ h => h.1) ?_
  rintro ⟨⟩ t' ⟨ht', cp, hcp, rfl⟩
  rw [ends_bind, ends_observe]
  have hcreated : (JobEvent.staged id stageDir source.tar cp).created cli = none := rfl
  have hstaged : HasSource host job (t ++ [.staged id stageDir source.tar cp]) id :=
    ⟨source, hsource, cp, List.mem_append_right t List.mem_cons_self, hcp⟩
  refine (justified_runToCompletion ht' fun _ => ⟨hstaged, hphase.snoc hcreated,
    htimeout _ hcreated⟩).bind (fun _ _ h => h) ?_
  rintro run t'' ⟨ht'', ended, hended, rfl⟩
  exact hf run _ ended hcreated hstaged ht'' hended

/-- Fetching the dependencies, in its container. -/
theorem Job.justified_fetchDependencies {source : SourceArchive}
    (hsource : host.fetch job.source = .ok source)
    (ht : Orderly cli daemon host job t)
    (hmem : (id, fetchSpec host job.toReproductionRequest) ∈ t.filterMap (JobEvent.created cli))
    (hcurrent : current cli t = some (id, fetchSpec host job.toReproductionRequest)) :
    Ends (job.fetchDependencies cli daemon source id) t
      (fun _ t' => Orderly cli daemon host job t' ∧ t <+: t' ∧
        Fetched cli host job t')
      (fun _ => Orderly cli daemon host job) := by
  refine justified_staged (fun _ => job.timeout / fetchTimeoutFraction) hsource ht
    (Or.inl hcurrent) (fun e he => Or.inl ⟨?_, rfl⟩) ?_
  · rw [current_snoc he, hcurrent]
  · intro run e ended he _ ht' hended
    rw [ends_lift]
    refine ⟨fun _ hzero => ⟨ht', ?_, id, ?_, _, ended, run, ?_, hended, ensure_eq_ok.1 hzero⟩,
      fun _ _ => ht'⟩
    · rw [List.append_assoc]
      exact List.prefix_append t _
    · rw [List.append_assoc, List.filterMap_append]
      exact List.mem_append_left _ hmem
    · simp

/-- Copying the artifact out of a build. -/
theorem Job.justified_extractWasm (ht : Orderly cli daemon host job t)
    (hbuilt : Built cli host job t id) :
    Ends (Job.extractWasm cli daemon host id) t
      (fun artifact t' => Orderly cli daemon host job t' ∧
        Extracted cli host job t' artifact)
      (fun _ => Orderly cli daemon host job) := by
  unfold Job.extractWasm
  have hget : ∀ ended, Sanctioned cli daemon host job t
      (.output (.getArchive id releaseDir) ended) := fun _ => ⟨rfl, hbuilt⟩
  rw [ends_bind, ends_attempt]
  refine (justified_ask ht hget).mono ?_ ?_
  · rintro tar t' ⟨ht', ended, hgot, rfl⟩
    rw [ends_lift]
    refine ⟨fun artifact hselect => ⟨ht', id, ended, tar, hbuilt.snoc rfl, ?_, hgot, hselect⟩,
      fun _ _ => ht'⟩
    simp
  · rintro err t' ⟨ht', -⟩
    rw [ends_lift]
    refine ⟨fun artifact hok => ?_, fun _ _ => ht'⟩
    -- What could not be copied out is never an artifact.
    cases err with
    | docker msg =>
      simp only [extracted] at hok
      split_ifs at hok
    | _ => cases hok

/-- Writing the artifact, if that was asked for. -/
theorem Job.justified_emit {artifact : String × List UInt8}
    (ht : Orderly cli daemon host job t)
    (hextracted : Extracted cli host job t artifact) :
    Ends (job.emit host artifact.2) t
      (fun _ t' => Orderly cli daemon host job t' ∧
        Extracted cli host job t' artifact)
      (fun _ => Orderly cli daemon host job) := by
  unfold Job.emit
  split
  · rename_i path hpath
    have hreason : Sanctioned cli daemon host job t (.wrote path artifact.2) :=
      ⟨hpath, artifact.1, hextracted⟩
    have hwrote := justified_snoc.2 ⟨ht, hreason⟩
    simp only [ends_bind, ends_record, ends_lift]
    exact ⟨fun _ _ => ⟨hwrote, hextracted.snoc rfl⟩, fun _ _ => hwrote⟩
  · exact ⟨ht, hextracted⟩

/-- The build, in its container. -/
theorem Job.justified_build {source : SourceArchive} {began : List JobEvent}
    (hsource : host.fetch job.source = .ok source)
    (ht : Orderly cli daemon host job t)
    (hcurrent : current cli t = some (id, buildSpec host job.toReproductionRequest))
    (hfetched : Fetched cli host job t) (hbegan : Began host began) (hpre : began <+: t) :
    Ends (job.build cli daemon host source (daemon.now began) id) t
      (fun r t' => Orderly cli daemon host job t' ∧ Reported cli host job t' r.1)
      (fun _ => Orderly cli daemon host job) := by
  refine justified_staged (fun t => job.timeout - (daemon.now t - daemon.now began)) hsource ht
    (Or.inr ⟨hcurrent, hfetched⟩) (fun e he => Or.inr ⟨?_, began, hbegan, ?_, rfl⟩) ?_
  · rw [current_snoc he, hcurrent]
  · exact hpre.trans (List.prefix_append t [e])
  intro run e ended he hstaged ht' hended
  rw [ends_bind, ends_observe]
  refine Ends.lift_bind (fun _ => ht') fun _ hzero => ?_
  have hbuilt : Built cli host job (t ++ [e] ++ [.started id
      (job.timeout - (daemon.now (t ++ [e]) - daemon.now began)) ended]) id := by
    refine ⟨?_, (hfetched.append _).append _, hstaged.append _, _, ended, run, ?_, hended,
      ensure_eq_ok.1 hzero⟩
    · rw [current_snoc rfl, current_snoc he, hcurrent]
    · simp
  refine (Job.justified_extractWasm ht' hbuilt).bind (fun _ _ h => h) ?_
  rintro ⟨artifact, wasm⟩ t'' ⟨ht'', hextracted⟩
  refine (Job.justified_emit ht'' hextracted).bind (fun _ _ h => h) ?_
  rintro _ t₃ ⟨ht₃, hextracted⟩
  have hinspect : ∀ ended, Sanctioned cli daemon host job t₃
      (.output (.inspectImage job.bldimg) ended) := fun _ => rfl
  have hdigest : Ends (cli.imageDigest daemon job.bldimg) t₃
      (fun _ t' => Orderly cli daemon host job t' ∧
        Extracted cli host job t' (artifact, wasm))
      (fun _ t' => Orderly cli daemon host job t' ∧
        Extracted cli host job t' (artifact, wasm)) := by
    refine (justified_ask ht₃ hinspect).bind ?_ ?_
    · rintro _ _ ⟨ht₄, _, -, rfl⟩
      exact ⟨ht₄, hextracted.snoc rfl⟩
    · rintro _ _ ⟨ht₄, _, -, rfl⟩
      exact ⟨ht₄, hextracted.snoc rfl⟩
  have hreported : ∀ digest t', Extracted cli host job t' (artifact, wasm) →
      Reported cli host job t' (job.report host source run artifact wasm digest) := by
    refine fun digest t' h => ⟨source, artifact, wasm, hsource, h, rfl, rfl, rfl, ?_⟩
    simp [Job.report]
  rw [ends_bind, ends_attempt]
  exact hdigest.mono (fun _ _ h => ⟨h.1, hreported _ _ h.2⟩) fun _ _ h => ⟨h.1, hreported _ _ h.2⟩

/-- Both phases, from when the volume is there. -/
theorem Job.justified_phases {source : SourceArchive} {began : List JobEvent}
    (hsource : host.fetch job.source = .ok source)
    (ht : Orderly cli daemon host job began) (hbegan : Began host began) :
    Ends (job.phases cli daemon host source) began
      (fun r t => Orderly cli daemon host job t ∧ Reported cli host job t r.1)
      (fun _ => Orderly cli daemon host job) := by
  unfold Job.phases
  rw [ends_bind, ends_observe]
  have hfetch : Ends (cli.withContainer daemon (fetchSpec host job.toReproductionRequest)
      (job.fetchDependencies cli daemon source)) began
      (fun _ t => Orderly cli daemon host job t ∧
        (began <+: t ∧ Fetched cli host job t))
      (fun _ => Orderly cli daemon host job) := by
    refine justified_withContainer ht (fun _ => Or.inl rfl) ?_ ?_
    · rintro _ t e - ⟨hpre, hfetched⟩
      exact ⟨hpre.trans (List.prefix_append t [e]), hfetched.append [e]⟩
    · intro id t ht hpre hmem hcurrent
      refine (Job.justified_fetchDependencies hsource ht hmem hcurrent).mono ?_ fun _ _ h => h
      rintro _ t' ⟨ht', hpre', hfetched⟩
      exact ⟨ht', hpre.trans hpre', hfetched⟩
  refine hfetch.bind (fun _ _ h => h) ?_
  rintro _ t ⟨ht, hpre, hfetched⟩
  refine justified_withContainer ht (fun _ => Or.inr ⟨rfl, hfetched⟩)
    (fun r _ _ he h => Reported.snoc h he) ?_
  rintro id t' ht' ⟨after, rfl⟩ - hcurrent
  exact Job.justified_build hsource ht' hcurrent (hfetched.append after) hbegan
    (hpre.trans (List.prefix_append t after))

/-- **Every event of a job has its reason**, whatever docker answers, and what it reports on was
built. -/
theorem Job.ends_reproduce (cli : DockerCli) (daemon : Daemon) (host : Host) (job : Job) :
    Ends (job.reproduce cli daemon host) []
      (fun r t => Orderly cli daemon host job t ∧ Reported cli host job t r.1)
      (fun _ => Orderly cli daemon host job) := by
  refine Ends.lift_bind (fun _ => justified_nil) fun _ _ => ?_
  have hpreflight : Ends (cli.preflight daemon) []
      (fun _ => Orderly cli daemon host job)
      (fun _ => Orderly cli daemon host job) := by
    have hversion : ∀ ended, Sanctioned cli daemon host job [] (.output .version ended) :=
      fun _ => trivial
    exact (justified_ask justified_nil hversion).bind (fun _ _ h => h.1) fun _ _ h => h.1
  refine hpreflight.bind (fun _ _ h => h) fun _ t ht => ?_
  refine Ends.lift_bind (fun _ => ht) fun source hsource => ?_
  have hvolume : ∀ ended, Sanctioned cli daemon host job t
      (.output (.createVolume (cargoVolume host)) ended) := fun _ => rfl
  refine (justified_ask ht hvolume).bind (fun _ _ h => h.1) ?_
  rintro _ began ⟨hbegan, ended, -, rfl⟩
  have hname : ∀ t ended, Sanctioned cli daemon host job t
      (.output (.removeVolume (cargoVolume host)) ended) := fun _ _ => rfl
  rw [ends_afterwards]
  refine (Job.justified_phases hsource hbegan ⟨t, ended, rfl⟩).mono (fun r t' h => ?_)
    fun _ t' ht' => ?_
  · refine (justified_ask h.1 (hname t')).mono ?_ ?_
    · rintro _ _ ⟨ht'', _, -, rfl⟩
      exact ⟨ht'', h.2.snoc rfl⟩
    · rintro _ _ ⟨ht'', _, -, rfl⟩
      exact ⟨ht'', h.2.snoc rfl⟩
  · exact (justified_ask ht' (hname t')).mono (fun _ _ h => h.1) fun _ _ h => h.1

theorem Job.justified_reproduce (cli : DockerCli) (daemon : Daemon) (host : Host) (job : Job) :
    Orderly cli daemon host job (job.reproduce cli daemon host).trace :=
  ends_trace.1 ((Job.ends_reproduce cli daemon host job).mono (fun _ _ h => h.1) fun _ _ h => h)

end Parts

/-! ## What follows -/

section Results

variable {cli : DockerCli} {daemon : Daemon} {host : Host} {job : Job}

/-- The container has no capabilities, gains no privileges, is limited, and shares one volume. -/
def Confined (host : Host) (spec : ContainerSpec) : Prop :=
  spec.security = buildSecurity ∧ spec.limits = buildLimits ∧
    spec.volumes = [(cargoVolume host, cargoHome)]

variable (cli host job) in
/-- What is run has the source and is confined, and it has a route to the network only to fetch the
dependencies.  What has none is the build, and is run when they are there. -/
def Isolated (before : List JobEvent) : JobEvent → Prop
  | .started id _ _ => ∃ spec, current cli before = some (id, spec) ∧ spec.image = job.bldimg ∧
      HasSource host job before id ∧ Confined host spec ∧
      (spec.network ≠ .none → spec.entrypoint = some "cargo" ∧ spec.argv = ["fetch", "--locked"]) ∧
      (spec.network = .none →
        spec.argv = ["contract", "build"] ++ job.bldopt ∧ Fetched cli host job before)
  | _ => True

variable (cli daemon host job) in
/-- The fetch has a third of the time of the job, and the build until it is over, taken from when the
volume was there. -/
def OnTime (before : List JobEvent) : JobEvent → Prop
  | .started id timeout _ =>
    current cli before = some (id, fetchSpec host job.toReproductionRequest) ∧
        timeout = job.timeout / 3 ∨
      current cli before = some (id, buildSpec host job.toReproductionRequest) ∧
        ∃ began, Began host began ∧ began <+: before ∧
          daemon.now before + timeout = max (daemon.now before) (daemon.now began + job.timeout)
  | _ => True

/-- **No build is let run beyond the time of its job.** -/
theorem Job.onTime (hclock : ∀ t t', daemon.now t ≤ daemon.now (t ++ t')) :
    Justified (OnTime cli daemon host job) (job.reproduce cli daemon host).trace := by
  intro before e after htrace
  have hreason := Job.justified_reproduce cli daemon host job before e after htrace
  cases e with
  | started id timeout ended =>
    obtain ⟨-, -, hallotted⟩ := hreason
    refine hallotted.imp_right ?_
    rintro ⟨hcurrent, began, hbegan, ⟨rest, rfl⟩, rfl⟩
    refine ⟨hcurrent, began, hbegan, List.prefix_append began rest, ?_⟩
    have hlater := hclock began rest
    omega
  | _ => trivial

end Results

/-! ## A job that is verified -/

namespace Sample

/-- A machine that has fetched a source, and finds one contract in what is built. -/
def buildHost (token : String) : Host where
  hex := ⟨fun bytes => String.ofList ((Hex.encode bytes).map Char.ofNat),
    fun _ => .error "Odd number of digits"⟩
  sha256 _ := .fill 32 0
  unicodeLower := id
  verifyFetchNetwork := some "sorofy-fetch"
  uniqueToken := token
  fetch _ := .ok ⟨[], "00"⟩
  tarEntries _ := .ok [.ok ⟨true, .ok "release/hello.wasm", .ok [1]⟩]
  writeFile _ _ := .ok ()

/-- A docker that runs everything, and a clock that ticks with each command.  The containers are
named by a letter, as often as there were commands. -/
def buildDaemon (letter : UInt8) : Daemon where
  output t args :=
    if args.take 2 = ["docker", "create"] then .ok ⟨true, List.replicate t.length letter, []⟩
    else .ok ⟨true, [], []⟩
  feed _ _ _ := .exited ⟨true, [], []⟩
  attach _ _ _ := .exited (some 0) [] []
  now t := t.length
  parseDigests _ := .ok ["img@sha256:1"]

/-- A job, with the hash that the machine makes. -/
def buildJob : Job where
  source := .git "https://example.org/pkg.git" "HEAD"
  bldimg := "img@sha256:1"
  bldopt := []
  expectedWasmSha256 := String.ofList (List.replicate 64 '0')
  allowUnpinnedImage := false
  emitWasm := some "/out.wasm"
  timeout := 9

/-- A job that is verified, and what it has done. -/
def buildTrace (token : String) (letter : UInt8) : List JobEvent :=
  (buildJob.reproduce .localDocker (buildDaemon letter) (buildHost token)).trace

theorem built_onTime :
    ((buildJob.reproduce .localDocker (buildDaemon 99) (buildHost "1-0")).run []).1.map
        (fun r => r.1.result) = .ok .verified ∧
      Justified (OnTime .localDocker (buildDaemon 99) (buildHost "1-0") buildJob)
        (buildTrace "1-0" 99) := by
  refine ⟨by decide +kernel, Job.onTime fun t t' => ?_⟩
  show t.length ≤ (t ++ t').length
  simp

end Sample

end VerifierCore
end Sorofy
