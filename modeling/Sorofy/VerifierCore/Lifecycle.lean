import Sorofy.Foundation.Custody
import Sorofy.VerifierCore.CommandLine

/-!
# A job at the docker CLI

`crates/verifier-core/src/docker.rs` and `reproduce.rs`: a job as the commands that it runs, one
after the other, with what goes wrong on the way.  A volume and a container are removed when they go
out of scope, so on every path: `withVolume` and `withContainer`.

The trace of a job is what it has run, with how that ended, and the file that it has written.  What
the CLI does is a parameter, as is the clock (`Daemon`), and may depend on all that has happened.

`Job.reproduce` is the job.
-/

namespace Sorofy
namespace VerifierCore

open Foundation
open Foundation.Traced

/-! ## The CLI -/

/-- `Docker`: the program, and the arguments that go before a command. -/
structure DockerCli where
  program : String
  prefixArgs : List String

/-- `Docker::local`. -/
def DockerCli.localDocker : DockerCli where
  program := "docker"
  prefixArgs := []

/-- `Docker::wsl`. -/
def DockerCli.wsl (distro : String) : DockerCli where
  program := "wsl"
  prefixArgs := ["-d", distro, "--", "docker"]

/-- `str::split_whitespace`. -/
def splitWhitespace (s : String) : List String :=
  ((s.toList.splitOnP fun c => isWhitespace c).filter (· ≠ [])).map String.ofList

/-- `Docker::autodetect`, by `VERIFY_DOCKER` and the platform. -/
def DockerCli.autodetect (verifyDocker : Option String) (windows : Bool) : DockerCli :=
  match verifyDocker.map splitWhitespace with
  | some (program :: parts) => ⟨program, parts⟩
  | _ => if windows then wsl "Ubuntu" else localDocker

/-- The command line of a docker command. -/
def DockerCli.commandLine (cli : DockerCli) (args : List String) : List String :=
  cli.program :: cli.prefixArgs ++ args

/-- A command that is run to its end for its output. -/
inductive DockerCommand where
  | version
  | createVolume (name : String)
  | removeVolume (name : String)
  | create (spec : ContainerSpec)
  | kill (id : String)
  | remove (id : String)
  | getArchive (id src : String)
  | inspectImage (image : String)

/-- The arguments of a command. -/
def DockerCommand.args : DockerCommand → List String
  | .version => ["version", "--format", "\x7b\x7b.Server.Version\x7d\x7d"]
  | .createVolume name => ["volume", "create", name]
  | .removeVolume name => ["volume", "rm", "--force", name]
  | .create spec => createArgs spec
  | .kill id => ["kill", id]
  | .remove id => ["rm", "--force", "--volumes", id]
  | .getArchive id src => ["cp", id ++ ":" ++ src, "-"]
  | .inspectImage image =>
    ["image", "inspect", image, "--format", "\x7b\x7bjson .RepoDigests\x7d\x7d"]

/-- How `docker cp` ended, which is fed with a tar. -/
inductive CpRun where
  | notSpawned (error : String)
  | writeFailed (error : String)
  | waitFailed (error : String)
  | exited (output : Output)

/-- How `docker start --attach` ended, within its time. -/
inductive StartRun where
  | notSpawned (error : String)
  | waitFailed (error : String)
  | timedOut
  | exited (code : Option ℤ) (stdout stderr : List UInt8)

/-- What a job does. -/
inductive JobEvent where
  | output (command : DockerCommand) (ended : Except String Output)
  | staged (id dest : String) (tar : List UInt8) (ended : CpRun)
  | started (id : String) (timeout : ℕ) (ended : StartRun)
  | wrote (path : String) (bytes : List UInt8)

/-- The docker CLI, by its command lines, and the clock, in nanoseconds.  What they answer may depend
on what has happened. -/
structure Daemon where
  output : List JobEvent → List String → Except String Output
  feed : List JobEvent → List String → List UInt8 → CpRun
  attach : List JobEvent → List String → ℕ → StartRun
  now : List JobEvent → ℕ
  /-- `serde_json::from_slice`, of a list of strings. -/
  parseDigests : List UInt8 → Except String (List String)

/-! ## What is made of an answer -/

/-- What `Docker::run` makes of how a command ended. -/
def DockerCli.accept (cli : DockerCli) (command : DockerCommand) :
    Except String Output → Except VerifyError (List UInt8)
  | .error e => throw (.docker ("could not run `" ++ cli.program ++ "`: " ++ e))
  | .ok out => do
    ensure (out.success = true) (.docker
      ("`docker " ++ " ".intercalate command.args ++ "` failed: " ++ out.reason))
    pure out.stdout

/-- What `Docker::create` makes of it: the id of the container. -/
def DockerCli.createdId (cli : DockerCli) (spec : ContainerSpec) (ended : Except String Output) :
    Except VerifyError String := do
  let out ← cli.accept (.create spec) ended
  let id := String.ofList (trim (Utf8.lossy out).toList)
  ensure (id ≠ "") (.docker "`docker create` returned no container id")
  pure id

/-- What `Docker::image_digest` makes of it, before it takes the first one. -/
def DockerCli.digests (cli : DockerCli) (daemon : Daemon) (image : String)
    (ended : Except String Output) : Except VerifyError (List String) := do
  let raw ← cli.accept (.inspectImage image) ended
  (daemon.parseDigests raw).mapError fun e =>
    .docker ("could not parse RepoDigests: " ++ e)

/-- What `Container::get_archive` makes of it. -/
def gotArchive (src : String) : Except String Output → Except VerifyError (List UInt8)
  | .error e => throw (.docker ("`docker cp` (out) failed: " ++ e))
  | .ok out => do
    ensure (out.success = true)
      (.docker ("`docker cp` (out) of `" ++ src ++ "` failed: " ++ out.reason))
    pure out.stdout

/-- What `Container::put_archive` makes of it. -/
def CpRun.accept : CpRun → Except VerifyError Unit
  | .notSpawned e => throw (.docker ("`docker cp` (in) failed to start: " ++ e))
  | .writeFailed e => throw (.docker ("writing source tar to `docker cp`: " ++ e))
  | .waitFailed e => throw (.docker ("`docker cp` (in) failed: " ++ e))
  | .exited out => ensure (out.success = true) (.docker ("`docker cp` (in) failed: " ++ out.reason))

/-- What `Container::run_to_completion` makes of it. -/
def StartRun.accept (timeout : ℕ) : StartRun → Except VerifyError RunOutput
  | .notSpawned e => throw (.docker ("`docker start` failed to start: " ++ e))
  | .waitFailed e => throw (.docker ("waiting on build container: " ++ e))
  | .timedOut => throw (.timeout timeout)
  | .exited code out err => pure ⟨code.getD (-1), Utf8.lossy out ++ Utf8.lossy err⟩

/-- What `extract_wasm` makes of the release directory, or of the failure to copy it. -/
def extracted (host : Host) :
    Except VerifyError (List UInt8) → Except VerifyError (String × List UInt8)
  | .ok tar => selectWasmFromTar host tar
  | .error (.docker msg) =>
    if isMissingPath msg then throw .noWasmProduced else throw (.docker msg)
  | .error e => throw e

/-! ## The job -/

/-- One job, with its wall-clock budget in nanoseconds. -/
structure Job extends ReproductionRequest where
  timeout : ℕ

/-- `FETCH_TIMEOUT_FRACTION`. -/
def fetchTimeoutFraction : ℕ := 3

/-- The release directory. -/
def releaseDir : String := workdir ++ "/target/wasm32v1-none/release"

section Cli

variable (cli : DockerCli) (daemon : Daemon) {α : Type}

namespace DockerCli

/-- `Docker::run`. -/
def run (command : DockerCommand) : Traced JobEvent VerifyError (List UInt8) :=
  ask (fun t => daemon.output t (cli.commandLine command.args)) (.output command)
    (cli.accept command)

/-- `Docker::preflight`. -/
def preflight : Traced JobEvent VerifyError Unit := do
  let _ ← cli.run daemon .version

/-- `Docker::image_digest`. -/
def imageDigest (image : String) : Traced JobEvent VerifyError (Option String) := do
  let digests ← ask
    (fun t => daemon.output t (cli.commandLine (DockerCommand.inspectImage image).args))
    (.output (.inspectImage image)) (cli.digests daemon image)
  pure digests.head?

/-- `Docker::create`. -/
def create (spec : ContainerSpec) : Traced JobEvent VerifyError String :=
  ask (fun t => daemon.output t (cli.commandLine (DockerCommand.create spec).args))
    (.output (.create spec)) (cli.createdId spec)

/-- `Docker::create`, and the container's `Drop` when it is done with. -/
def withContainer (spec : ContainerSpec) (use : String → Traced JobEvent VerifyError α) :
    Traced JobEvent VerifyError α := do
  let id ← cli.create daemon spec
  afterwards (use id) (cli.run daemon (.remove id))

/-- `Docker::create_volume`, and the volume's `Drop` when it is done with. -/
def withVolume (name : String) (use : Traced JobEvent VerifyError α) :
    Traced JobEvent VerifyError α := do
  let _ ← cli.run daemon (.createVolume name)
  afterwards use (cli.run daemon (.removeVolume name))

/-- `Container::put_archive`. -/
def putArchive (id dest : String) (tar : List UInt8) : Traced JobEvent VerifyError Unit :=
  ask (fun t => daemon.feed t (cli.commandLine ["cp", "-", id ++ ":" ++ dest]) tar)
    (.staged id dest tar) CpRun.accept

/-- `Container::get_archive`. -/
def getArchive (id src : String) : Traced JobEvent VerifyError (List UInt8) :=
  ask (fun t => daemon.output t (cli.commandLine (DockerCommand.getArchive id src).args))
    (.output (.getArchive id src)) (gotArchive src)

/-- A container that ran out of time is killed. -/
def stop (id : String) : StartRun → Traced JobEvent VerifyError Unit
  | .timedOut => do
    let _ ← attempt (cli.run daemon (.kill id))
  | _ => pure ()

/-- `Container::run_to_completion`. -/
def runToCompletion (id : String) (timeout : ℕ) : Traced JobEvent VerifyError RunOutput := do
  let ended ← ask (fun t => daemon.attach t (cli.commandLine ["start", "--attach", id]) timeout)
    (.started id timeout) pure
  cli.stop daemon id ended
  lift (ended.accept timeout)

end DockerCli

namespace Job

variable (job : Job) (host : Host)

/-- `fetch_dependencies`, in its container. -/
def fetchDependencies (source : SourceArchive) (id : String) :
    Traced JobEvent VerifyError Unit := do
  cli.putArchive daemon id stageDir source.tar
  let run ← cli.runToCompletion daemon id (job.timeout / fetchTimeoutFraction)
  lift (ensure (run.exitCode = 0) (.buildFailed run.exitCode run.log))

/-- `extract_wasm`. -/
def extractWasm (id : String) : Traced JobEvent VerifyError (String × List UInt8) := do
  let tar ← attempt (cli.getArchive daemon id releaseDir)
  lift (extracted host tar)

/-- Write the rebuilt wasm out, if that was asked for. -/
def emit (wasm : List UInt8) : Traced JobEvent VerifyError Unit :=
  match job.emitWasm with
  | some path => do
    record [.wrote path wasm]
    lift (host.writeFile path wasm)
  | none => pure ()

/-- The report on a finished build, with the digest of its image. -/
def report (source : SourceArchive) (run : RunOutput) (artifact : String) (wasm : List UInt8)
    (digest : Option String) : ReproductionReport :=
  let rebuilt := sha256Hex host wasm
  let expected := toLowercase host job.expectedWasmSha256
  let result := if rebuilt = expected then VerificationResult.verified else .mismatch
  { result := result
    expectedWasmSha256 := expected
    rebuiltWasmSha256 := rebuilt
    rebuiltWasmSize := wasm.length
    artifact := artifact
    bldimg := job.bldimg
    bldimgDigest := digest
    bldopt := job.bldopt
    sourceSha256 := source.sha256
    trustLevel := .arbitrary
    buildLog := if result = .mismatch then some run.log else none }

/-- The build, in its container, of a job that was started at a time: the report, and the
nanoseconds that it took. -/
def build (source : SourceArchive) (started : ℕ) (id : String) :
    Traced JobEvent VerifyError (ReproductionReport × ℕ) := do
  cli.putArchive daemon id stageDir source.tar
  let now ← observe daemon.now
  let run ← cli.runToCompletion daemon id (job.timeout - (now - started))
  let ended ← observe daemon.now
  lift (ensure (run.exitCode = 0) (.buildFailed run.exitCode run.log))
  let (artifact, wasm) ← extractWasm cli daemon host id
  job.emit host wasm
  let digest ← attempt (cli.imageDigest daemon job.bldimg)
  pure (job.report host source run artifact wasm (digest.toOption.getD none), ended - started)

/-- Both phases, over the volume that they share. -/
def phases (source : SourceArchive) : Traced JobEvent VerifyError (ReproductionReport × ℕ) := do
  let started ← observe daemon.now
  cli.withContainer daemon (fetchSpec host job.toReproductionRequest)
    (job.fetchDependencies cli daemon source)
  cli.withContainer daemon (buildSpec host job.toReproductionRequest)
    (job.build cli daemon host source started)

/-- `reproduce`. -/
def reproduce : Traced JobEvent VerifyError (ReproductionReport × ℕ) := do
  lift (ensure (job.allowUnpinnedImage = true ∨ contains job.bldimg "@sha256:")
    (.unpinnedImage job.bldimg))
  cli.preflight daemon
  let source ← lift (host.fetch job.source)
  cli.withVolume daemon (cargoVolume host) (job.phases cli daemon host source)

end Job

end Cli

end VerifierCore
end Sorofy
