import Sorofy.Foundation.Argv
import Sorofy.VerifierCore.Source

/-!
# The command lines of a job

A job runs `git` and `docker` with what its request names: the repository and the revision, the
build image and its arguments.  `createArgs` is the command line of a container
(`crates/verifier-core/src/docker.rs`), next to those of git (`cloneArgs`, `archiveArgs`).

What git and docker are is a parameter, as which options their commands take.
`Documented` is what the code relies on: that they take the options it writes.

What a request names is placed where an operand is meant, and no `--` is in front of it.  So a
command line is read as it is meant exactly when that does not look like an option
(`readAsMeant_iff`).
-/

namespace Sorofy
namespace VerifierCore

open Foundation Foundation.Argv

/-! ## `docker create` -/

/-- `create_args`. -/
def createArgs (spec : ContainerSpec) : List String :=
  ["create"] ++
  -- Bridge is the daemon default, so it emits no flag.
  (match spec.network with
    | .bridge => []
    | .none => ["--network=none"]
    | .named name => ["--network=" ++ name]) ++
  (if spec.security.capDropAll = true then ["--cap-drop=ALL"] else []) ++
  (if spec.security.noNewPrivileges = true then ["--security-opt=no-new-privileges"] else []) ++
  (match spec.limits.memory with
    | some memory => ["--memory", memory] ++
      match spec.limits.memorySwap with
      | some memorySwap => ["--memory-swap", memorySwap]
      | none => []
    | none => []) ++
  (match spec.limits.cpus with
    | some cpus => ["--cpus", cpus]
    | none => []) ++
  (match spec.limits.pids with
    | some pids => ["--pids-limit", toString pids]
    | none => []) ++
  (match spec.limits.storageOptSize with
    | some size => ["--storage-opt", "size=" ++ size]
    | none => []) ++
  (match spec.entrypoint with
    | some entrypoint => ["--entrypoint", entrypoint]
    | none => []) ++
  ["--workdir", spec.workdir] ++
  (spec.volumes.flatMap fun (name, mount) => ["--volume", name ++ ":" ++ mount]) ++
  (spec.env.flatMap fun (k, v) => ["--env", k ++ "=" ++ v]) ++
  [spec.image] ++ spec.argv

/-! ## What is meant -/

/-- The name of an option. -/
def optionName (text : String) (h : isName text = true := by decide) : Name :=
  ⟨text, h⟩

/-- The options that a container is asked to have. -/
def ContainerSpec.asked (spec : ContainerSpec) : List Written :=
  (match spec.network with
    | .bridge => []
    | .none => [Written.attached (optionName "--network") "none"]
    | .named name => [Written.attached (optionName "--network") name]) ++
  (if spec.security.capDropAll = true then
    [Written.attached (optionName "--cap-drop") "ALL"] else []) ++
  (if spec.security.noNewPrivileges = true then
    [Written.attached (optionName "--security-opt") "no-new-privileges"] else []) ++
  (spec.limits.memory.elim [] fun memory =>
    Written.separate (optionName "--memory") memory ::
      (spec.limits.memorySwap.map (Written.separate (optionName "--memory-swap"))).toList) ++
  (spec.limits.cpus.map (Written.separate (optionName "--cpus"))).toList ++
  (spec.limits.pids.map fun pids =>
    Written.separate (optionName "--pids-limit") (toString pids)).toList ++
  (spec.limits.storageOptSize.map fun size =>
    Written.separate (optionName "--storage-opt") ("size=" ++ size)).toList ++
  (spec.entrypoint.map (Written.separate (optionName "--entrypoint"))).toList ++
  [Written.separate (optionName "--workdir") spec.workdir] ++
  (spec.volumes.map fun (name, mount) =>
    Written.separate (optionName "--volume") (name ++ ":" ++ mount)) ++
  (spec.env.map fun (k, v) => Written.separate (optionName "--env") (k ++ "=" ++ v))

/-- The options of a container. -/
def ContainerSpec.options (spec : ContainerSpec) : List Opt :=
  spec.asked.map Written.option

/-- The command line of a container is its options, its image and its arguments. -/
theorem createArgs_eq (spec : ContainerSpec) :
    createArgs spec =
      "create" :: (spec.asked.flatMap Written.args ++ spec.image :: spec.argv) := by
  simp only [createArgs, ContainerSpec.asked, List.flatMap_append, List.append_assoc]
  refine congrArg (List.cons "create") ?_
  refine congrArg₂ (· ++ ·) ?network (congrArg₂ (· ++ ·) ?capDrop (congrArg₂ (· ++ ·) ?privileges
    (congrArg₂ (· ++ ·) ?memory (congrArg₂ (· ++ ·) ?cpus (congrArg₂ (· ++ ·) ?pids
      (congrArg₂ (· ++ ·) ?storage (congrArg₂ (· ++ ·) ?entrypoint (congrArg₂ (· ++ ·) ?workdir
        (congrArg₂ (· ++ ·) ?volumes (congrArg₂ (· ++ ·) ?env ?image))))))))))
  case network => cases spec.network <;> rfl
  case capDrop => split_ifs <;> rfl
  case privileges => split_ifs <;> rfl
  case memory =>
    cases spec.limits.memory with
    | none => rfl
    | some memory => cases spec.limits.memorySwap <;> rfl
  case cpus => cases spec.limits.cpus <;> rfl
  case pids => cases spec.limits.pids <;> rfl
  case storage => cases spec.limits.storageOptSize <;> rfl
  case entrypoint => cases spec.entrypoint <;> rfl
  case workdir => rfl
  case volumes => rw [List.flatMap_map]; rfl
  case env => rw [List.flatMap_map]; rfl
  case image => rfl

/-- The build is confined as the limits and the hardening say, and reaches no network. -/
theorem buildSpec_options (host : Host) (request : ReproductionRequest) :
    (buildSpec host request).options =
      [("--network", some "none"), ("--cap-drop", some "ALL"),
        ("--security-opt", some "no-new-privileges"), ("--memory", some "3g"),
        ("--memory-swap", some "3g"), ("--cpus", some "2"), ("--pids-limit", some "2048"),
        ("--workdir", some "/build/source"),
        ("--volume", some (cargoVolume host ++ ":" ++ "/cargo-home")),
        ("--env", some "CARGO_HOME=/cargo-home"), ("--env", some "CARGO_NET_OFFLINE=true")] := by
  rfl

/-- What `git clone` is meant to do. -/
def cloneMeant (tmp repo : String) : Invocation where
  globals := [("-c", some "http.followRedirects=false")]
  command := "clone"
  options := [("--quiet", none), ("--no-checkout", none)]
  operands := [repo, tmp]

/-- What `git archive` is meant to do. -/
def archiveMeant (tmp rev : String) : Invocation where
  globals := [("-C", some tmp)]
  command := "archive"
  options := [("--format", some "tar"), ("--prefix", some "source/")]
  operands := [rev]

/-- What `docker create` is meant to do. -/
def createMeant (spec : ContainerSpec) : Invocation where
  globals := []
  command := "create"
  options := spec.options
  operands := spec.image :: spec.argv

/-! ## What is read -/

/-- git and docker, as they read their command lines. -/
structure Clis where
  git : Program
  docker : Program

/-- What the documentation of git and docker promises: their commands take the options that the code
writes, as it writes them. -/
structure Clis.Documented (clis : Clis) (host : Host) : Prop where
  config : clis.git.tool.Takes (.separate (optionName "-c") "http.followRedirects=false")
  directory : ∀ path, clis.git.tool.Takes (.separate (optionName "-C") path)
  clone : ∃ tool, clis.git.command "clone" = some tool ∧
    tool.Takes (.flag (optionName "--quiet")) ∧ tool.Takes (.flag (optionName "--no-checkout"))
  archive : ∃ tool, clis.git.command "archive" = some tool ∧
    tool.Takes (.attached (optionName "--format") "tar") ∧
    tool.Takes (.attached (optionName "--prefix") "source/")
  create : ∃ tool, clis.docker.command "create" = some tool ∧ ∀ request,
    (∀ w ∈ (fetchSpec host request).asked, tool.Takes w) ∧
      ∀ w ∈ (buildSpec host request).asked, tool.Takes w

/-- Every command line of a job is read as it is meant. -/
structure ReadAsMeant (clis : Clis) (host : Host) (tmp : String) (request : ReproductionRequest) :
    Prop where
  clone : ∀ repo rev, request.source = .git repo rev →
    clis.git.read (cloneArgs tmp repo) = some (cloneMeant tmp repo)
  archive : ∀ repo rev, request.source = .git repo rev →
    clis.git.read (archiveArgs tmp rev) = some (archiveMeant tmp rev)
  fetch : clis.docker.read (createArgs (fetchSpec host request)) =
    some (createMeant (fetchSpec host request))
  build : clis.docker.read (createArgs (buildSpec host request)) =
    some (createMeant (buildSpec host request))

section Clis

variable {clis : Clis} {host : Host} {tmp : String}

theorem read_cloneArgs_iff (hdoc : clis.Documented host) (repo : String) :
    clis.git.read (cloneArgs tmp repo) = some (cloneMeant tmp repo) ↔ isOption repo = false := by
  obtain ⟨tool, hcommand, hquiet, hcheckout⟩ := hdoc.clone
  have hglobals : ∀ w ∈ [.separate (optionName "-c") "http.followRedirects=false"],
      clis.git.tool.Takes w := by
    simpa using hdoc.config
  have hoptions : ∀ w ∈ [.flag (optionName "--quiet"), .flag (optionName "--no-checkout")],
      tool.Takes w := by
    simpa using ⟨hquiet, hcheckout⟩
  exact Program.read_iff hglobals (by decide) hcommand hoptions

theorem read_archiveArgs_iff (hdoc : clis.Documented host) (rev : String) :
    clis.git.read (archiveArgs tmp rev) = some (archiveMeant tmp rev) ↔ isOption rev = false := by
  obtain ⟨tool, hcommand, hformat, hdirectory⟩ := hdoc.archive
  have hglobals : ∀ w ∈ [.separate (optionName "-C") tmp], clis.git.tool.Takes w := by
    simpa using hdoc.directory tmp
  have hoptions : ∀ w ∈ [.attached (optionName "--format") "tar",
      .attached (optionName "--prefix") "source/"], tool.Takes w := by
    simpa using ⟨hformat, hdirectory⟩
  exact Program.read_iff hglobals (by decide) hcommand hoptions

theorem read_createArgs_iff {tool : Tool} (hcommand : clis.docker.command "create" = some tool)
    {spec : ContainerSpec} (hoptions : ∀ w ∈ spec.asked, tool.Takes w) :
    clis.docker.read (createArgs spec) = some (createMeant spec) ↔
      isOption spec.image = false := by
  rw [createArgs_eq]
  have hglobals : ∀ w ∈ ([] : List Written), clis.docker.tool.Takes w := by simp
  exact Program.read_iff hglobals (by decide) hcommand hoptions

/-- **A job's command lines are read as they are meant exactly when none of its repository, its
revision and its image looks like an option.** -/
theorem readAsMeant_iff (hdoc : clis.Documented host) (request : ReproductionRequest) :
    ReadAsMeant clis host tmp request ↔
      (∀ repo rev, request.source = .git repo rev → isOption repo = false ∧ isOption rev = false) ∧
        isOption request.bldimg = false := by
  obtain ⟨tool, hcommand, hoptions⟩ := hdoc.create
  obtain ⟨hfetch, hbuild⟩ := hoptions request
  constructor
  · intro h
    refine ⟨fun repo rev hsource => ⟨?_, ?_⟩, ?_⟩
    · exact (read_cloneArgs_iff hdoc repo).1 (h.clone repo rev hsource)
    · exact (read_archiveArgs_iff hdoc rev).1 (h.archive repo rev hsource)
    · exact (read_createArgs_iff hcommand hbuild).1 h.build
  · rintro ⟨hgit, himage⟩
    exact {
      clone := fun repo rev hsource => (read_cloneArgs_iff hdoc repo).2 (hgit repo rev hsource).1
      archive := fun repo rev hsource =>
        (read_archiveArgs_iff hdoc rev).2 (hgit repo rev hsource).2
      fetch := (read_createArgs_iff hcommand hfetch).2 himage
      build := (read_createArgs_iff hcommand hbuild).2 himage }

end Clis

end VerifierCore
end Sorofy
