import Sorofy.VerifierCore.Lifecycle

/-!
# What a job takes and leaves

A job takes a volume and two containers, and a container that ran out of its time is a process until
it is killed.  `custody` says which command takes, uses and gives back what.

Whatever docker answers, and wherever the job ends, it has given everything back in the opposite
order (`Job.leaves_nothing`).
-/

namespace Sorofy
namespace VerifierCore

open Foundation
open Foundation.Traced

/-! ## Custody -/

/-- What a job holds. -/
inductive Resource where
  | volume (name : String)
  | container (id : String)
  /-- A container that runs beyond its time. -/
  | process (id : String)
  deriving DecidableEq

/-- What an event uses. -/
def JobEvent.uses : JobEvent → List Resource
  | .output (.create spec) _ => spec.volumes.map fun volume => .volume volume.1
  | .output (.getArchive id _) _ | .output (.kill id) _ | .staged id _ _ _ | .started id _ _ =>
    [.container id]
  | _ => []

/-- What an event takes or gives back.  Removing is tried once, and what comes of it is nothing to
the job. -/
def JobEvent.change (cli : DockerCli) : JobEvent → Custody.Change Resource
  | .output (.createVolume name) ended =>
    if (cli.accept (.createVolume name) ended).isOk = true then .take (.volume name) else .keep
  | .output (.removeVolume name) _ => .give (.volume name)
  | .output (.create spec) ended =>
    match cli.createdId spec ended with
    | .ok id => .take (.container id)
    | .error _ => .keep
  | .output (.remove id) _ => .give (.container id)
  | .started id _ .timedOut => .take (.process id)
  | .output (.kill id) _ => .give (.process id)
  | _ => .keep

/-- What the events of a job take, use and give back. -/
def custody (cli : DockerCli) : Custody JobEvent Resource where
  uses := JobEvent.uses
  change := JobEvent.change cli

section Balanced

variable {cli : DockerCli} {daemon : Daemon} {h : List Resource} {e : JobEvent} {id : String}

/-- An event that changes nothing and uses what is held is in order. -/
theorem step_keep (hkeep : e.change cli = .keep) (huses : ∀ r ∈ e.uses, r ∈ h) :
    (custody cli).step h e = some h :=
  Custody.step_eq_some.2 ⟨huses, Or.inl ⟨hkeep, rfl⟩⟩

/-- A question whose events change nothing, and use what is held, leaves what is held. -/
theorem balanced_ask {α β : Type} (answer : List JobEvent → α) (event : α → JobEvent)
    (accept : α → Except VerifyError β) (hkeep : ∀ a, (event a).change cli = .keep)
    (huses : ∀ a, ∀ r ∈ (event a).uses, r ∈ h) :
    (custody cli).Balanced h (ask answer event accept) := by
  refine Custody.Balanced.bind (Custody.balanced_observe answer) fun a => ?_
  refine Custody.Balanced.bind (Custody.balanced_record (step_keep (hkeep a) (huses a))) fun _ => ?_
  exact Custody.balanced_lift (accept a)

/-- Removing gives back. -/
theorem returns_run {command : DockerCommand} {r : Resource}
    (hgive : ∀ ended, (JobEvent.output command ended).change cli = .give r)
    (huses : ∀ ended, (JobEvent.output command ended).uses = []) :
    (custody cli).Returns h r (cli.run daemon command) := by
  intro t ht
  have hstep : ∀ ended, (custody cli).held (t ++ [.output command ended]) = some h := by
    intro ended
    refine Custody.held_snoc_eq ht (Custody.step_eq_some.2 ⟨?_, Or.inr (Or.inr ⟨r, ?_, rfl⟩)⟩)
    · intro r' hr'
      have huses' : (custody cli).uses (.output command ended) = [] := huses ended
      simp [huses'] at hr'
    · exact hgive ended
  exact (ends_ask _ _ _).2 ⟨fun _ _ => hstep _, fun _ _ => hstep _⟩

/-- **A container** is removed when it is done with. -/
theorem balanced_withContainer {α : Type} {spec : ContainerSpec}
    {use : String → Traced JobEvent VerifyError α}
    (hvolumes : ∀ volume ∈ spec.volumes, .volume volume.1 ∈ h)
    (huse : ∀ id, (custody cli).Balanced (.container id :: h) (use id)) :
    (custody cli).Balanced h (cli.withContainer daemon spec use) := by
  intro t ht
  rw [DockerCli.withContainer, ends_bind, DockerCli.create, ends_ask]
  have huses : ∀ ended, ∀ r ∈ (JobEvent.output (.create spec) ended).uses, r ∈ h := by
    intro ended r hr
    obtain ⟨volume, hvolume, rfl⟩ := List.mem_map.1 hr
    exact hvolumes volume hvolume
  generalize daemon.output t (cli.commandLine (DockerCommand.create spec).args) = ended
  refine ⟨fun id hid => ?_, fun err herr => ?_⟩
  · refine Custody.Balanced.afterwards (huse id) (returns_run (fun _ => rfl) fun _ => rfl) _ ?_
    refine Custody.held_snoc_eq ht
      (Custody.step_eq_some.2 ⟨?_, Or.inr (Or.inl ⟨.container id, ?_, rfl⟩)⟩)
    · exact huses ended
    · simp [custody, JobEvent.change, hid]
  · refine Custody.held_snoc_eq ht (step_keep ?_ (huses ended))
    simp [JobEvent.change, herr]

/-- **A volume** is removed when it is done with. -/
theorem balanced_withVolume {α : Type} {name : String} {use : Traced JobEvent VerifyError α}
    (huse : (custody cli).Balanced (.volume name :: h) use) :
    (custody cli).Balanced h (cli.withVolume daemon name use) := by
  intro t ht
  rw [DockerCli.withVolume, ends_bind, DockerCli.run, ends_ask]
  refine ⟨fun out hout => ?_, fun err herr => ?_⟩
  · refine Custody.Balanced.afterwards huse (returns_run (fun _ => rfl) fun _ => rfl) _ ?_
    refine Custody.held_snoc_eq ht
      (Custody.step_eq_some.2 ⟨?_, Or.inr (Or.inl ⟨.volume name, ?_, rfl⟩)⟩)
    · simp [custody, JobEvent.uses]
    · simp [custody, JobEvent.change, hout, Except.isOk, Except.toBool]
  · refine Custody.held_snoc_eq ht (step_keep ?_ (by simp [JobEvent.uses]))
    simp [JobEvent.change, herr, Except.isOk, Except.toBool]

theorem balanced_putArchive {dest : String} {tar : List UInt8} (hid : .container id ∈ h) :
    (custody cli).Balanced h (cli.putArchive daemon id dest tar) :=
  balanced_ask _ _ _ (fun _ => rfl) fun _ => by simpa [JobEvent.uses] using hid

theorem balanced_getArchive {src : String} (hid : .container id ∈ h) :
    (custody cli).Balanced h (cli.getArchive daemon id src) :=
  balanced_ask _ _ _ (fun _ => rfl) fun _ => by simpa [JobEvent.uses] using hid

theorem balanced_imageDigest {image : String} :
    (custody cli).Balanced h (cli.imageDigest daemon image) :=
  (balanced_ask _ _ _ (fun _ => rfl) (by simp [JobEvent.uses])).bind
    fun _ => Custody.balanced_pure _

theorem balanced_preflight : (custody cli).Balanced h (cli.preflight daemon) :=
  (balanced_ask _ _ _ (fun _ => rfl) (by simp [JobEvent.uses])).bind
    fun _ => Custody.balanced_pure _

/-- **A run** is over when it is waited for, or it is killed. -/
theorem balanced_runToCompletion {timeout : ℕ} (hid : .container id ∈ h) :
    (custody cli).Balanced h (cli.runToCompletion daemon id timeout) := by
  intro t ht
  have huses : ∀ ended, ∀ r ∈ (JobEvent.started id timeout ended).uses, r ∈ h := by
    exact fun _ => by simpa [JobEvent.uses] using hid
  rw [DockerCli.runToCompletion, ends_bind, ends_ask]
  refine ⟨fun ended hended => ?_, fun _ herr => nomatch herr⟩
  obtain rfl := Except.ok.inj hended
  generalize daemon.attach t (cli.commandLine ["start", "--attach", id]) timeout = ended
  cases ended with
  | timedOut =>
    have hstarted : (custody cli).held (t ++ [.started id timeout .timedOut]) =
        some (.process id :: h) :=
      Custody.held_snoc_eq ht
        (Custody.step_eq_some.2 ⟨huses .timedOut, Or.inr (Or.inl ⟨.process id, rfl, rfl⟩)⟩)
    have hkill : ∀ ended, (custody cli).step (.process id :: h) (.output (.kill id) ended) =
        some h := by
      refine fun ended => Custody.step_eq_some.2 ⟨?_, Or.inr (Or.inr ⟨.process id, rfl, rfl⟩)⟩
      intro r hr
      obtain rfl := List.mem_singleton.1 hr
      exact List.mem_cons_of_mem _ hid
    simp only [DockerCli.stop, DockerCli.run, ends_bind, ends_attempt, ends_ask, ends_pure,
      ends_lift]
    have hheld := Custody.held_snoc_eq hstarted (hkill
      (daemon.output (t ++ [.started id timeout .timedOut]) (cli.commandLine ["kill", id])))
    exact ⟨fun _ _ => ⟨fun _ _ => hheld, fun _ _ => hheld⟩,
      fun _ _ => ⟨fun _ _ => hheld, fun _ _ => hheld⟩⟩
  | notSpawned => exact Custody.balanced_lift _ _ (Custody.held_snoc_eq ht (step_keep rfl (huses _)))
  | waitFailed => exact Custody.balanced_lift _ _ (Custody.held_snoc_eq ht (step_keep rfl (huses _)))
  | exited => exact Custody.balanced_lift _ _ (Custody.held_snoc_eq ht (step_keep rfl (huses _)))

end Balanced

section Job

variable {cli : DockerCli} {daemon : Daemon} {h : List Resource} {host : Host} {job : Job}
  {source : SourceArchive} {id : String}

theorem Job.balanced_emit {wasm : List UInt8} : (custody cli).Balanced h (job.emit host wasm) := by
  unfold Job.emit
  split
  · refine (Custody.balanced_record (step_keep rfl (by simp [JobEvent.uses]))).bind fun _ => ?_
    exact Custody.balanced_lift _
  · exact Custody.balanced_pure _

theorem Job.balanced_fetchDependencies (hid : .container id ∈ h) :
    (custody cli).Balanced h (job.fetchDependencies cli daemon source id) := by
  refine (balanced_putArchive hid).bind fun _ => ?_
  refine (balanced_runToCompletion hid).bind fun run => ?_
  exact Custody.balanced_lift _

theorem Job.balanced_build {started : ℕ} (hid : .container id ∈ h) :
    (custody cli).Balanced h (job.build cli daemon host source started id) := by
  refine (balanced_putArchive hid).bind fun _ => ?_
  refine (Custody.balanced_observe _).bind fun now => ?_
  refine (balanced_runToCompletion hid).bind fun run => ?_
  refine (Custody.balanced_observe _).bind fun ended => ?_
  refine (Custody.balanced_lift _).bind fun _ => ?_
  have hextract : (custody cli).Balanced h (Job.extractWasm cli daemon host id) :=
    (balanced_getArchive hid).attempt.bind fun _ => Custody.balanced_lift _
  refine hextract.bind fun (artifact, wasm) => ?_
  refine Job.balanced_emit.bind fun _ => ?_
  refine balanced_imageDigest.attempt.bind fun digest => ?_
  exact Custody.balanced_pure _

theorem Job.balanced_phases :
    (custody cli).Balanced (.volume (cargoVolume host) :: h)
      (job.phases cli daemon host source) := by
  refine (Custody.balanced_observe _).bind fun started => ?_
  refine (balanced_withContainer ?_ fun id => ?_).bind fun _ => balanced_withContainer ?_ fun id => ?_
  · simp [fetchSpec]
  · exact Job.balanced_fetchDependencies List.mem_cons_self
  · simp [buildSpec]
  · exact Job.balanced_build List.mem_cons_self

theorem Job.held_reproduce (cli : DockerCli) (daemon : Daemon) (host : Host) (job : Job) :
    (custody cli).held (job.reproduce cli daemon host).trace = some [] := by
  have hbalanced : (custody cli).Balanced [] (job.reproduce cli daemon host) := by
    refine (Custody.balanced_lift _).bind fun _ => ?_
    refine balanced_preflight.bind fun _ => ?_
    refine (Custody.balanced_lift _).bind fun source => ?_
    exact balanced_withVolume Job.balanced_phases
  exact ends_trace.1 (hbalanced [] rfl)

end Job

end VerifierCore
end Sorofy
