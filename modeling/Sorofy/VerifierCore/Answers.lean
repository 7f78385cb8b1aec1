import Mathlib.Data.Fintype.EquivFin
import Sorofy.VerifierCore.Isolation

/-!
# The job and its phases

`reproduce` knows docker as what it answers to each command, once and for all; `Job.reproduce` asks
one that may answer as it likes.  A docker `Explains` an event that it would have answered so.

A job ends as `reproduce` does with any docker that explains what has happened
(`accounted_reproduce`).  There is one, if the daemon names no two containers alike, since no
question is asked twice then (`Job.exists_docker`).
-/

namespace Sorofy
namespace VerifierCore

open Foundation
open Foundation.Traced

/-! ## What explains an event -/

section Explains

variable (cli : DockerCli) (daemon : Daemon) (docker : Docker)

/-- The docker would have answered so. -/
def Explains : JobEvent → Prop
  | .output .version ended => docker.preflight = (cli.accept .version ended).map fun _ => ()
  | .output (.createVolume name) ended =>
    docker.createVolume name = (cli.accept (.createVolume name) ended).map fun _ => ()
  | .output (.create spec) ended => docker.create spec = cli.createdId spec ended
  | .output (.getArchive id src) ended => docker.getArchive id src = gotArchive src ended
  | .output (.inspectImage image) ended =>
    docker.repoDigests image = cli.digests daemon image ended
  | .staged id dest tar ended => docker.putArchive id dest tar = ended.accept
  | .started id timeout ended => docker.runToCompletion id = ended.accept timeout
  | .output (.removeVolume _) _ | .output (.kill _) _ | .output (.remove _) _ | .wrote _ _ => True

end Explains

section Accounted

variable {cli : DockerCli} {daemon : Daemon} {host : Host} {job : Job} {source : SourceArchive}

theorem accounted_create (spec : ContainerSpec) :
    Accounted (Explains cli daemon) (cli.create daemon spec)
      fun docker r => r = docker.create spec :=
  accounted_ask _ _ _ fun _ _ h => h.symm

theorem accounted_putArchive (id dest : String) (tar : List UInt8) :
    Accounted (Explains cli daemon) (cli.putArchive daemon id dest tar)
      fun docker r => r = docker.putArchive id dest tar :=
  accounted_ask _ _ _ fun _ _ h => h.symm

theorem accounted_getArchive (id src : String) :
    Accounted (Explains cli daemon) (cli.getArchive daemon id src)
      fun docker r => r = docker.getArchive id src :=
  accounted_ask _ _ _ fun _ _ h => h.symm

/-- What a command that is removed or killed with answers is nothing to the result. -/
theorem accounted_run (command : DockerCommand) :
    Accounted (Explains cli daemon) (cli.run daemon command) fun _ _ => True :=
  accounted_ask _ _ _ fun _ _ _ => trivial

theorem accounted_preflight :
    Accounted (Explains cli daemon) (cli.preflight daemon) fun docker r => r = docker.preflight := by
  have hrun : Accounted (Explains cli daemon) (cli.run daemon .version)
      fun docker r => docker.preflight = r.map fun _ => () :=
    accounted_ask _ _ _ fun _ _ h => h
  refine hrun.bind (Q := fun _ _ r => r = .ok ()) (fun _ => accounted_lift (.ok ())) ?_ ?_
  · rintro docker out r h rfl
    exact h.symm
  · rintro docker err h
    exact h.symm

theorem accounted_imageDigest (image : String) :
    Accounted (Explains cli daemon) (cli.imageDigest daemon image)
      fun docker r => r = docker.imageDigest image := by
  have hdigests : Accounted (Explains cli daemon)
      (ask (fun t => daemon.output t (cli.commandLine (DockerCommand.inspectImage image).args))
        (.output (.inspectImage image)) (cli.digests daemon image))
      fun docker r => r = docker.repoDigests image := accounted_ask _ _ _ fun _ _ h => h.symm
  exact hdigests.bind_eq (fun r => r) (fun _ => rfl) fun digests => accounted_lift (.ok digests.head?)

/-- A container that ran out of its time is killed, and that is all. -/
theorem accounted_runToCompletion (id : String) (timeout : ℕ) :
    Accounted (Explains cli daemon) (cli.runToCompletion daemon id timeout)
      fun docker r => r = docker.runToCompletion id := by
  have hstart : Accounted (Explains cli daemon)
      (ask (fun t => daemon.attach t (cli.commandLine ["start", "--attach", id]) timeout)
        (.started id timeout) pure)
      fun docker (r : Except VerifyError StartRun) => ∃ ended, r = .ok ended ∧
        docker.runToCompletion id = StartRun.accept timeout ended :=
    accounted_ask _ _ _ fun _ ended h => ⟨ended, rfl, h⟩
  have hstop : ∀ ended, Accounted (Explains cli daemon) (cli.stop daemon id ended)
      fun _ r => r = .ok () := by
    intro ended
    unfold DockerCli.stop
    split
    · refine (accounted_run _).attempt.bind (Q := fun _ _ r => r = .ok ())
        (fun _ => accounted_lift (.ok ())) (fun _ _ _ _ h => h) ?_
      rintro _ _ ⟨_, h, -⟩
      cases h
    · exact accounted_lift (.ok ())
  refine hstart.bind (fun ended => (hstop ended).bind_eq (fun r => r) (fun _ => rfl) fun _ =>
    accounted_lift (StartRun.accept timeout ended)) ?_ ?_
  · rintro docker ended r ⟨ended', hended, h⟩ hr
    cases hended
    exact hr.trans h.symm
  · rintro docker err ⟨_, h, -⟩
    cases h

/-- **A container in its scope**: removing it does not change what comes of its use. -/
theorem accounted_withContainer {α β : Type} {spec : ContainerSpec}
    {use : String → Traced JobEvent VerifyError α} {g : String → Docker → Except VerifyError β}
    (F : Except VerifyError α → Except VerifyError β) (hF : ∀ e, F (.error e) = .error e)
    (huse : ∀ id, Accounted (Explains cli daemon) (use id) fun docker r => F r = g id docker) :
    Accounted (Explains cli daemon) (cli.withContainer daemon spec use)
      fun docker r => F r = docker.create spec >>= fun id => g id docker :=
  (accounted_create spec).bind_eq F hF fun id => (huse id).afterwards (accounted_run _)

theorem accounted_fetchDependencies (id : String) :
    Accounted (Explains cli daemon) (job.fetchDependencies cli daemon source id)
      fun docker r => r = (do
        docker.putArchive id stageDir source.tar
        let run ← docker.runToCompletion id
        ensure (run.exitCode = 0) (.buildFailed run.exitCode run.log)) := by
  refine (accounted_putArchive id stageDir source.tar).bind_eq (fun r => r) (fun _ => rfl) fun _ => ?_
  refine (accounted_runToCompletion id _).bind_eq (fun r => r) (fun _ => rfl) fun run => ?_
  exact accounted_lift _

theorem extractWasm_eq (docker : Docker) (id : String) :
    extractWasm host docker id = extracted host (docker.getArchive id releaseDir) := by
  unfold extractWasm extracted
  rfl

theorem accounted_extractWasm (id : String) :
    Accounted (Explains cli daemon) (Job.extractWasm cli daemon host id)
      fun docker r => r = extractWasm host docker id := by
  refine (accounted_getArchive id releaseDir).attempt.bind
    (Q := fun tar _ r => r = extracted host tar) (fun tar => accounted_lift _) ?_ ?_
  · rintro docker tar r ⟨tar', htar, h⟩ hr
    cases htar
    rw [hr, h, extractWasm_eq]
  · rintro _ _ ⟨_, h, -⟩
    cases h

theorem accounted_emit (wasm : List UInt8) :
    Accounted (Explains cli daemon) (job.emit host wasm)
      fun _ r => r = emit host job.toReproductionRequest wasm := by
  cases hpath : job.emitWasm with
  | some path =>
    simp only [Job.emit, emit, hpath]
    exact fun t => ⟨List.prefix_append t _, fun _ _ => rfl⟩
  | none =>
    simp only [Job.emit, emit, hpath]
    exact accounted_lift (.ok ())

theorem report_eq_finish (docker : Docker) (run : RunOutput) (artifact : String)
    (wasm : List UInt8) :
    job.report host source run artifact wasm ((docker.imageDigest job.bldimg).toOption.getD none) =
      finish host docker job.toReproductionRequest source run artifact wasm := by
  have hdigest : (docker.imageDigest job.bldimg).toOption.getD none =
      resolvedDigest docker job.bldimg := by
    unfold resolvedDigest
    cases docker.imageDigest job.bldimg <;> rfl
  rw [hdigest]
  rfl

variable (host job source) in
/-- What `reproduce` does with its second container. -/
def buildOn (docker : Docker) (id : String) : Except VerifyError ReproductionReport := do
  docker.putArchive id stageDir source.tar
  let run ← docker.runToCompletion id
  ensure (run.exitCode = 0) (.buildFailed run.exitCode run.log)
  let wasm ← extractWasm host docker id
  emit host job.toReproductionRequest wasm.2
  pure (finish host docker job.toReproductionRequest source run wasm.1 wasm.2)

variable (host job) in
theorem reproduce_eq (docker : Docker) : reproduce host docker job.toReproductionRequest = (do
    ensure (job.allowUnpinnedImage = true ∨ contains job.bldimg "@sha256:")
      (.unpinnedImage job.bldimg)
    docker.preflight
    let source ← host.fetch job.source
    docker.createVolume (cargoVolume host)
    fetchDependencies host docker job.toReproductionRequest source
    let id ← docker.create (buildSpec host job.toReproductionRequest)
    buildOn host job source docker id) := by
  simp only [reproduce, build, buildOn, bind_assoc, pure_bind]

/-- The build, but for the time that it took. -/
theorem accounted_build (started : ℕ) (id : String) :
    Accounted (Explains cli daemon) (job.build cli daemon host source started id)
      fun docker r => r.map Prod.fst = buildOn host job source docker id := by
  have hF : ∀ e, Except.map Prod.fst (.error e : Except VerifyError (ReproductionReport × ℕ)) =
      .error e := fun _ => rfl
  refine (accounted_putArchive id stageDir source.tar).bind_eq (Except.map Prod.fst) hF fun _ => ?_
  refine accounted_observe_bind fun now => ?_
  refine (accounted_runToCompletion id _).bind_eq (Except.map Prod.fst) hF fun run => ?_
  refine accounted_observe_bind fun ended => ?_
  refine (accounted_lift _).bind_eq (Except.map Prod.fst) hF fun _ => ?_
  refine (accounted_extractWasm id).bind_eq (Except.map Prod.fst) hF fun wasm => ?_
  refine (accounted_emit wasm.2).bind_eq (Except.map Prod.fst) hF fun _ => ?_
  refine (accounted_imageDigest job.bldimg).attempt.bind
    (Q := fun digest _ r => r = .ok (job.report host source run wasm.1 wasm.2
      (digest.toOption.getD none), ended - started)) (fun digest => accounted_lift (.ok _)) ?_ ?_
  · rintro docker digest r ⟨digest', hdigest, rfl⟩ rfl
    cases hdigest
    exact congrArg Except.ok (report_eq_finish docker run wasm.1 wasm.2)
  · rintro _ _ ⟨_, h, -⟩
    cases h

theorem accounted_phases :
    Accounted (Explains cli daemon) (job.phases cli daemon host source)
      fun docker r => r.map Prod.fst = (do
        fetchDependencies host docker job.toReproductionRequest source
        let id ← docker.create (buildSpec host job.toReproductionRequest)
        buildOn host job source docker id) := by
  have hF : ∀ e, Except.map Prod.fst (.error e : Except VerifyError (ReproductionReport × ℕ)) =
      .error e := fun _ => rfl
  have hfetch : Accounted (Explains cli daemon)
      (cli.withContainer daemon (fetchSpec host job.toReproductionRequest)
        (job.fetchDependencies cli daemon source))
      fun docker r => r = fetchDependencies host docker job.toReproductionRequest source :=
    accounted_withContainer (fun r => r) (fun _ => rfl) accounted_fetchDependencies
  refine accounted_observe_bind fun started => ?_
  refine hfetch.bind_eq (Except.map Prod.fst) hF fun _ => ?_
  exact accounted_withContainer (Except.map Prod.fst) hF (accounted_build started)

/-- **A job ends as its phases do**, with any docker that explains what has happened. -/
theorem accounted_reproduce :
    Accounted (Explains cli daemon) (job.reproduce cli daemon host)
      fun docker r => r.map Prod.fst = reproduce host docker job.toReproductionRequest := by
  have hF : ∀ e, Except.map Prod.fst (.error e : Except VerifyError (ReproductionReport × ℕ)) =
      .error e := fun _ => rfl
  have hvolume : Accounted (Explains cli daemon) (cli.run daemon (.createVolume (cargoVolume host)))
      fun docker r => docker.createVolume (cargoVolume host) = r.map fun _ => () :=
    accounted_ask _ _ _ fun _ _ h => h
  simp only [reproduce_eq host job]
  refine (accounted_lift _).bind_eq (Except.map Prod.fst) hF fun _ => ?_
  refine accounted_preflight.bind_eq (Except.map Prod.fst) hF fun _ => ?_
  refine (accounted_lift _).bind_eq (Except.map Prod.fst) hF fun source => ?_
  refine hvolume.bind (fun _ => accounted_phases.afterwards (accounted_run _)) ?_ ?_
  · intro docker out r h hr
    rw [hr, h]
    rfl
  · intro docker err h
    rw [h]
    rfl

end Accounted

/-! ## Nothing is asked twice -/

/-- What an event asks docker for. -/
inductive Inquiry where
  | output (command : DockerCommand)
  | staged (id dest : String) (tar : List UInt8)
  | started (id : String)
  | wrote

/-- What an event asks for, without the answer. -/
def JobEvent.inquiry : JobEvent → Inquiry
  | .output command _ => .output command
  | .staged id dest tar _ => .staged id dest tar
  | .started id _ _ => .started id
  | .wrote _ _ => .wrote

section Asks

variable {cli : DockerCli} {daemon : Daemon} {host : Host} {job : Job} {source : SourceArchive}
  {h : List JobEvent} {id : String}

theorem asks_run (command : DockerCommand) :
    Asks JobEvent.inquiry (cli.run daemon command) [.output command] :=
  asks_ask _ _ _ fun _ => rfl

theorem asks_putArchive (dest : String) (tar : List UInt8) :
    Asks JobEvent.inquiry (cli.putArchive daemon id dest tar) [.staged id dest tar] :=
  asks_ask _ _ _ fun _ => rfl

theorem asks_getArchive (src : String) :
    Asks JobEvent.inquiry (cli.getArchive daemon id src) [.output (.getArchive id src)] :=
  asks_ask _ _ _ fun _ => rfl

theorem asks_imageDigest (image : String) :
    Asks JobEvent.inquiry (cli.imageDigest daemon image) [.output (.inspectImage image)] := by
  have hinspect : Asks JobEvent.inquiry
      (ask (fun t => daemon.output t (cli.commandLine (DockerCommand.inspectImage image).args))
        (.output (.inspectImage image)) (cli.digests daemon image))
      [.output (.inspectImage image)] := asks_ask _ _ _ fun _ => rfl
  exact hinspect.bind fun digests => asks_lift (.ok digests.head?)

theorem asks_runToCompletion (timeout : ℕ) :
    Asks JobEvent.inquiry (cli.runToCompletion daemon id timeout)
      [.started id, .output (.kill id)] := by
  have hstop : ∀ ended, Asks JobEvent.inquiry (cli.stop daemon id ended) [.output (.kill id)] := by
    intro ended
    unfold DockerCli.stop
    split
    · exact (asks_run _).attempt.bind fun _ => asks_lift (.ok ())
    · exact (asks_lift (.ok ())).of_sublist (List.nil_sublist _)
  have hstart : Asks JobEvent.inquiry
      (ask (fun t => daemon.attach t (cli.commandLine ["start", "--attach", id]) timeout)
        (.started id timeout) pure : Traced JobEvent VerifyError StartRun)
      [.started id] := asks_ask _ _ _ fun _ => rfl
  exact hstart.bind fun ended => (hstop ended).bind fun _ => asks_lift _

variable (host job source) in
/-- What is asked over the first container. -/
def fetchInquiries (id : String) : List Inquiry :=
  [.output (.create (fetchSpec host job.toReproductionRequest)),
    .staged id stageDir source.tar, .started id, .output (.kill id), .output (.remove id)]

variable (host job source) in
/-- What is asked over the second one. -/
def buildInquiries (id : String) : List Inquiry :=
  [.output (.create (buildSpec host job.toReproductionRequest)),
    .staged id stageDir source.tar, .started id, .output (.kill id),
    .output (.getArchive id releaseDir), .wrote, .output (.inspectImage job.bldimg),
    .output (.remove id)]

theorem asks_fetchDependencies (id : String) :
    Asks JobEvent.inquiry (job.fetchDependencies cli daemon source id)
      [.staged id stageDir source.tar, .started id, .output (.kill id)] :=
  (asks_putArchive _ _).bind fun _ => (asks_runToCompletion _).bind fun _ => asks_lift _

theorem asks_emit (wasm : List UInt8) : Asks JobEvent.inquiry (job.emit host wasm) [.wrote] := by
  unfold Job.emit
  split
  · exact (asks_record _).bind fun _ => asks_lift _
  · exact (asks_lift (.ok ())).of_sublist (List.nil_sublist _)

theorem asks_build (started : ℕ) (id : String) :
    Asks JobEvent.inquiry (job.build cli daemon host source started id)
      [.staged id stageDir source.tar, .started id, .output (.kill id),
        .output (.getArchive id releaseDir), .wrote, .output (.inspectImage job.bldimg)] := by
  have hextract : Asks JobEvent.inquiry (Job.extractWasm cli daemon host id)
      [.output (.getArchive id releaseDir)] :=
    (asks_getArchive _).attempt.bind fun _ => asks_lift _
  refine (asks_putArchive _ _).bind fun _ => ?_
  refine (asks_observe _).bind fun _ => ?_
  refine (asks_runToCompletion _).bind fun _ => ?_
  refine (asks_observe _).bind fun _ => ?_
  refine (asks_lift _).bind fun _ => ?_
  refine hextract.bind fun (artifact, wasm) => ?_
  refine (asks_emit wasm).bind fun _ => ?_
  exact (asks_imageDigest _).attempt.bind fun _ => asks_lift (.ok _)

/-- **A container in its scope**: all that is asked is about it.  Where it could not be created, any
other will do. -/
theorem exists_withContainer {α : Type} (spec : ContainerSpec)
    {use : String → Traced JobEvent VerifyError α} {ks : String → List Inquiry}
    (huse : ∀ id, Asks JobEvent.inquiry (use id) (ks id)) (other : String) (t : List JobEvent) :
    ∃ id events, ((cli.withContainer daemon spec use).run t).2 = t ++ events ∧
      (events.map JobEvent.inquiry).Sublist
        (.output (.create spec) :: (ks id ++ [.output (.remove id)])) ∧
      (id ∈ createdIds cli events ∨
        id ≠ other ∧ ∃ err, ((cli.withContainer daemon spec use).run t).1 = .error err) := by
  have hrun : (cli.withContainer daemon spec use).run t =
      (ExceptT.bindCont (fun id => afterwards (use id) (cli.run daemon (.remove id)))
        (cli.createdId spec (daemon.output t (cli.commandLine (DockerCommand.create spec).args))))
        (t ++ [.output (.create spec)
          (daemon.output t (cli.commandLine (DockerCommand.create spec).args))]) := rfl
  rw [hrun]
  generalize daemon.output t (cli.commandLine (DockerCommand.create spec).args) = ended
  cases hid : cli.createdId spec ended with
  | error err =>
    obtain ⟨id, hne⟩ := exists_ne other
    exact ⟨id, [.output (.create spec) ended], rfl, (List.nil_sublist _).cons_cons _,
      Or.inr ⟨hne, err, rfl⟩⟩
  | ok id =>
    have hasks : Asks JobEvent.inquiry (afterwards (use id) (cli.run daemon (.remove id)))
        (ks id ++ [.output (.remove id)]) := (huse id).afterwards (asks_run (.remove id))
    obtain ⟨events, ht, hevents⟩ := hasks (t ++ [.output (.create spec) ended])
    refine ⟨id, .output (.create spec) ended :: events, ?_, hevents.cons_cons _, Or.inl ?_⟩
    · exact ht.trans (List.append_cons _ _ _).symm
    · simp [createdIds, JobEvent.created, hid]

variable (cli daemon host job source) in
/-- Both phases ask about two containers. -/
theorem exists_phases (t : List JobEvent) :
    ∃ id id' events, ((job.phases cli daemon host source).run t).2 = t ++ events ∧
      (events.map JobEvent.inquiry).Sublist
        (fetchInquiries host job source id ++ buildInquiries host job source id') ∧
      ((createdIds cli events).Nodup → id ≠ id') := by
  have hfetch : ∀ id, Asks JobEvent.inquiry (job.fetchDependencies cli daemon source id)
      [.staged id stageDir source.tar, .started id, .output (.kill id)] := asks_fetchDependencies
  obtain ⟨id, events, ht, hevents, hid⟩ :=
    exists_withContainer (fetchSpec host job.toReproductionRequest) hfetch "" t
  have hrun : (job.phases cli daemon host source).run t =
      (ExceptT.bindCont (fun _ => cli.withContainer daemon
          (buildSpec host job.toReproductionRequest)
          (job.build cli daemon host source (daemon.now t)))
        ((cli.withContainer daemon (fetchSpec host job.toReproductionRequest)
          (job.fetchDependencies cli daemon source)).run t).1)
        ((cli.withContainer daemon (fetchSpec host job.toReproductionRequest)
          (job.fetchDependencies cli daemon source)).run t).2 := rfl
  rw [hrun]
  revert ht hid
  rcases (cli.withContainer daemon (fetchSpec host job.toReproductionRequest)
    (job.fetchDependencies cli daemon source)).run t with ⟨e | a, t'⟩
  · intro ht _
    obtain ⟨id', hne⟩ := exists_ne id
    exact ⟨id, id', events, ht, hevents.trans (List.sublist_append_left _ _), fun _ => hne.symm⟩
  · rintro rfl hid
    have hcreated : id ∈ createdIds cli events := by
      rcases hid with hid | ⟨-, err, herr⟩
      · exact hid
      · cases herr
    have hbuild : ∀ id, Asks JobEvent.inquiry
        (job.build cli daemon host source (daemon.now t) id)
        [.staged id stageDir source.tar, .started id, .output (.kill id),
          .output (.getArchive id releaseDir), .wrote, .output (.inspectImage job.bldimg)] :=
      asks_build (daemon.now t)
    obtain ⟨id', events', ht', hevents', hid'⟩ :=
      exists_withContainer (buildSpec host job.toReproductionRequest) hbuild id (t ++ events)
    refine ⟨id, id', events ++ events', ht'.trans (List.append_assoc _ _ _), ?_, fun hnodup => ?_⟩
    · rw [List.map_append]
      exact hevents.append hevents'
    · rcases hid' with hid' | ⟨hne, -⟩
      · rw [createdIds_append] at hnodup
        exact (List.nodup_append.1 hnodup).2.2 id hcreated id' hid'
      · exact hne.symm

variable (host job source) in
/-- What a job asks. -/
def inquiries (id id' : String) : List Inquiry :=
  [.output .version, .output (.createVolume (cargoVolume host))] ++
    (fetchInquiries host job source id ++ buildInquiries host job source id') ++
    [.output (.removeVolume (cargoVolume host))]

variable (host job source) in
theorem nodup_inquiries {id id' : String} (hne : id ≠ id') :
    (inquiries host job source id id').Nodup := by
  simp [inquiries, fetchInquiries, buildInquiries, fetchSpec, buildSpec, hne]

/-- **Nothing is asked twice.** -/
theorem nodup_reproduce : (createdIds cli (job.reproduce cli daemon host).trace).Nodup →
    ((job.reproduce cli daemon host).trace.map JobEvent.inquiry).Nodup := by
  refine (ends_trace (P := fun t => (createdIds cli t).Nodup →
    (t.map JobEvent.inquiry).Nodup)).1 ?_
  refine Ends.lift_bind (fun _ _ => List.nodup_nil) fun _ _ => ?_
  have hpreflight : Ends (cli.preflight daemon) []
      (fun _ t => ∃ ended, t = [.output .version ended])
      (fun _ t => ∃ ended, t = [.output .version ended]) := by
    simp only [DockerCli.preflight, DockerCli.run, ends_bind, ends_ask, ends_pure, List.nil_append]
    exact ⟨fun _ _ => ⟨_, rfl⟩, fun _ _ => ⟨_, rfl⟩⟩
  refine hpreflight.bind ?_ ?_
  · rintro _ t ⟨ended, rfl⟩
    exact fun _ => List.nodup_singleton _
  rintro _ t ⟨ended, rfl⟩
  refine Ends.lift_bind (fun _ _ => List.nodup_singleton _) fun source _ => ?_
  simp only [DockerCli.withVolume, DockerCli.run, ends_bind, ends_afterwards]
  rw [ends_ask]
  generalize daemon.output _ _ = volume
  refine ⟨fun _ _ => ?_, fun _ _ _ => by simp [JobEvent.inquiry]⟩
  refine (ends_run (P := fun _ t => Ends (cli.run daemon (.removeVolume (cargoVolume host))) t
    (fun _ t => (createdIds cli t).Nodup → (t.map JobEvent.inquiry).Nodup)
    (fun _ t => (createdIds cli t).Nodup → (t.map JobEvent.inquiry).Nodup))).2 ?_
  obtain ⟨id, id', events, hrun, hevents, hne⟩ := exists_phases cli daemon host job source
    ([.output .version ended] ++ [.output (.createVolume (cargoVolume host)) volume])
  rw [hrun, DockerCli.run, ends_ask]
  generalize daemon.output _ _ = last
  have hnodup : (createdIds cli ([.output .version ended] ++
      [.output (.createVolume (cargoVolume host)) volume] ++ events ++
      [.output (.removeVolume (cargoVolume host)) last])).Nodup →
      (([JobEvent.output .version ended] ++
        [JobEvent.output (.createVolume (cargoVolume host)) volume] ++ events ++
        [JobEvent.output (.removeVolume (cargoVolume host)) last]).map JobEvent.inquiry).Nodup := by
    intro hids
    rw [createdIds_append, createdIds_append] at hids
    have hne' := hne (List.nodup_append.1 (List.nodup_append.1 hids).1).2.1
    refine (nodup_inquiries host job source hne').sublist ?_
    rw [List.map_append, List.map_append]
    exact (hevents.append_left _).append_right _
  exact ⟨fun _ _ => hnodup, fun _ _ => hnodup⟩

end Asks

/-! ## The docker that answered -/

deriving instance DecidableEq for ResourceLimits, SecurityOpts, ContainerSpec

section Answering

variable (cli : DockerCli) (daemon : Daemon) (t : List JobEvent) {α : Type}

/-- The first answer of a kind. -/
def answerOf (answer : JobEvent → Option (Except VerifyError α)) : Except VerifyError α :=
  (t.findSome? answer).getD (.error (.docker "no answer"))

/-- The docker that answers as the trace has it. -/
def answering : Docker where
  preflight := answerOf t fun
    | .output .version ended => some ((cli.accept .version ended).map fun _ => ())
    | _ => none
  createVolume name := answerOf t fun
    | .output (.createVolume name') ended =>
      if name' = name then some ((cli.accept (.createVolume name') ended).map fun _ => ()) else none
    | _ => none
  create spec := answerOf t fun
    | .output (.create spec') ended =>
      if spec' = spec then some (cli.createdId spec' ended) else none
    | _ => none
  putArchive id dest tar := answerOf t fun
    | .staged id' dest' tar' ended =>
      if id' = id ∧ dest' = dest ∧ tar' = tar then some ended.accept else none
    | _ => none
  runToCompletion id := answerOf t fun
    | .started id' timeout ended => if id' = id then some (ended.accept timeout) else none
    | _ => none
  getArchive id src := answerOf t fun
    | .output (.getArchive id' src') ended =>
      if id' = id ∧ src' = src then some (gotArchive src' ended) else none
    | _ => none
  repoDigests image := answerOf t fun
    | .output (.inspectImage image') ended =>
      if image' = image then some (cli.digests daemon image' ended) else none
    | _ => none

variable {cli daemon t}

/-- Where nothing was asked twice, an answer is the first of its kind. -/
theorem answerOf_eq {answer : JobEvent → Option (Except VerifyError α)} {e : JobEvent}
    {r : Except VerifyError α} (hnodup : (t.map JobEvent.inquiry).Nodup) (he : e ∈ t)
    (hr : answer e = some r)
    (hkind : ∀ e', (answer e').isSome = true → e'.inquiry = e.inquiry) : answerOf t answer = r := by
  have hsome : (t.findSome? answer).isSome = true :=
    List.findSome?_isSome_iff.2 ⟨e, he, by simp [hr]⟩
  obtain ⟨r', hr'⟩ := Option.isSome_iff_exists.1 hsome
  obtain ⟨e', he', heq⟩ := List.exists_of_findSome?_eq_some hr'
  obtain rfl : e' = e := List.inj_on_of_nodup_map hnodup he' he (hkind e' (by simp [heq]))
  rw [answerOf, hr', Option.getD_some]
  exact Option.some.inj (heq.symm.trans hr)

/-- **The docker that answers as the trace has it** explains the trace. -/
theorem explains_answering (hnodup : (t.map JobEvent.inquiry).Nodup) {e : JobEvent} (he : e ∈ t) :
    Explains cli daemon (answering cli daemon t) e := by
  cases e with
  | output command ended =>
    cases command with
    | version =>
      refine answerOf_eq hnodup he rfl fun e' h => ?_
      split at h
      · rfl
      · cases h
    | createVolume name =>
      refine answerOf_eq hnodup he (if_pos rfl) fun e' h => ?_
      split at h
      · obtain rfl := Option.isSome_ite.1 h
        rfl
      · cases h
    | create spec =>
      refine answerOf_eq hnodup he (if_pos rfl) fun e' h => ?_
      split at h
      · obtain rfl := Option.isSome_ite.1 h
        rfl
      · cases h
    | getArchive id src =>
      refine answerOf_eq hnodup he (if_pos ⟨rfl, rfl⟩) fun e' h => ?_
      split at h
      · obtain ⟨rfl, rfl⟩ := Option.isSome_ite.1 h
        rfl
      · cases h
    | inspectImage image =>
      refine answerOf_eq hnodup he (if_pos rfl) fun e' h => ?_
      split at h
      · obtain rfl := Option.isSome_ite.1 h
        rfl
      · cases h
    | removeVolume | kill | remove => trivial
  | staged id dest tar ended =>
    refine answerOf_eq hnodup he (if_pos ⟨rfl, rfl, rfl⟩) fun e' h => ?_
    split at h
    · obtain ⟨rfl, rfl, rfl⟩ := Option.isSome_ite.1 h
      rfl
    · cases h
  | started id timeout ended =>
    refine answerOf_eq hnodup he (if_pos rfl) fun e' h => ?_
    split at h
    · obtain rfl := Option.isSome_ite.1 h
      rfl
    · cases h
  | wrote => trivial

end Answering

/-- **A job is a run of its phases**: there is a docker that would have answered all that it was
answered, and with it `reproduce` ends as the job did. -/
theorem Job.exists_docker {cli : DockerCli} {daemon : Daemon} {host : Host} {job : Job}
    (hfresh : (createdIds cli (job.reproduce cli daemon host).trace).Nodup) :
    ∃ docker, (∀ e ∈ (job.reproduce cli daemon host).trace, Explains cli daemon docker e) ∧
      ((job.reproduce cli daemon host).run []).1.map Prod.fst =
        VerifierCore.reproduce host docker job.toReproductionRequest := by
  have hexplains : ∀ e ∈ (job.reproduce cli daemon host).trace, Explains cli daemon
      (answering cli daemon (job.reproduce cli daemon host).trace) e := fun e he =>
    explains_answering (nodup_reproduce hfresh) he
  exact ⟨_, hexplains, (accounted_reproduce []).2 _ hexplains⟩

namespace Sample

/-- The job that is verified is a run of its phases that is verified. -/
theorem built_explained :
    ∃ docker, (∀ e ∈ buildTrace "1-0" 99, Explains .localDocker (buildDaemon 99) docker e) ∧
      ((buildJob.reproduce .localDocker (buildDaemon 99) (buildHost "1-0")).run []).1.map Prod.fst =
        reproduce (buildHost "1-0") docker buildJob.toReproductionRequest :=
  Job.exists_docker (by decide +kernel)

end Sample

end VerifierCore
end Sorofy
