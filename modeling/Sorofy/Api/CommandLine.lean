import Sorofy.Api.Lookup
import Sorofy.VerifierCore.CommandLine

/-!
# The command lines of a request

What a caller writes in a request goes into the command lines of its job as it is: `parseSource`
looks at which fields there are, and the pin check for a digest in the image.  So they are read as
they are meant exactly when the caller named no repository, revision or image that looks like an
option (`accepted_readAsMeant_iff`).
-/

namespace Sorofy
namespace Api

open Foundation Foundation.Argv VerifierCore

/-- An accepted source is a repository with its revision, or an archive with its hash. -/
theorem parseSource_eq_ok {req : VerifyRequest} {source : SourceRef}
    (h : parseSource req = .ok source) :
    (∃ repo rev, req.repo = some repo ∧ req.rev = some rev ∧ source = .git repo rev) ∨
      ∃ uri sha256, req.repo = none ∧ source = .archive uri sha256 := by
  unfold parseSource at h
  split at h
  · rename_i repo hrepo huri
    simp only [bind_eq_ok, okOr_eq_ok, pure_eq_ok] at h
    obtain ⟨rev, hrev, rfl⟩ := h
    exact Or.inl ⟨repo, rev, hrepo, hrev, rfl⟩
  · rename_i uri hrepo huri
    simp only [bind_eq_ok, okOr_eq_ok, pure_eq_ok] at h
    obtain ⟨sha256, -, rfl⟩ := h
    exact Or.inr ⟨uri, sha256, hrepo, rfl⟩
  · cases h

/-- Nothing that the request names for a command line looks like an option. -/
structure NamesNoOption (req : VerifyRequest) : Prop where
  repo : ∀ repo ∈ req.repo, isOption repo = false
  rev : ∀ repo ∈ req.repo, ∀ rev ∈ req.rev, isOption rev = false
  bldimg : isOption req.bldimg = false

/-- **The command lines of an accepted request are read as they are meant exactly when it names no
repository, revision or image that looks like an option.** -/
theorem accepted_readAsMeant_iff {clis : Clis} {host : Host} (hdoc : clis.Documented host)
    {soroban : Soroban} {allowUnpinnedImage : Bool} {now : ℕ} {db db' : Db} {req : VerifyRequest}
    {job : ReproductionRequest}
    (haccepted : startVerification host soroban allowUnpinnedImage now db req = .ok (db', job))
    (tmp : String) : ReadAsMeant clis host tmp job ↔ NamesNoOption req := by
  obtain ⟨source, hash, hsource, -, -, hjob, -, himage, -⟩ := startVerification_eq_ok haccepted
  rw [readAsMeant_iff hdoc, hjob, himage]
  rcases parseSource_eq_ok hsource with ⟨repo, rev, hrepo, hrev, rfl⟩ | ⟨uri, sha256, hrepo, rfl⟩
  · constructor
    · rintro ⟨hgit, himage⟩
      obtain ⟨hrepo', hrev'⟩ := hgit repo rev rfl
      refine ⟨?_, ?_, himage⟩
      · simpa [hrepo] using hrepo'
      · simpa [hrepo, hrev] using hrev'
    · rintro ⟨hrepo', hrev', himage⟩
      refine ⟨fun repo' rev' hsource => ?_, himage⟩
      cases hsource
      exact ⟨hrepo' repo hrepo, hrev' repo hrepo rev hrev⟩
  · constructor
    · rintro ⟨-, himage⟩
      refine ⟨?_, ?_, himage⟩
      · simp [hrepo]
      · simp [hrepo]
    · rintro ⟨-, -, himage⟩
      exact ⟨fun repo rev hsource => (by cases hsource), himage⟩

/-! ## Names that look like options -/

namespace Sample

/-- The options of `docker create` that have no value. -/
def createFlags : List String :=
  ["--init", "--privileged"]

/-- The options of `docker create` that have one. -/
def createValued : List String :=
  ["--network", "--cap-drop", "--security-opt", "--memory", "--memory-swap", "--cpus",
    "--pids-limit", "--storage-opt", "--entrypoint", "--workdir", "--volume", "--env", "--label"]

/-- git and docker, with the options of the commands that a job runs. -/
def clis : Clis where
  git :=
    { tool := .table ["--bare", "--no-pager"] ["-c", "-C", "--git-dir"]
      command := fun name =>
        if name = "clone" then
          some (.table ["--quiet", "--no-checkout", "--bare"]
            ["--upload-pack", "--branch", "--config", "--depth"])
        else if name = "archive" then
          some (.table ["--list", "--verbose"] ["--format", "--prefix", "--output", "--remote"])
        else none }
  docker :=
    { tool := .table ["--debug"] ["--host", "--context"]
      command := fun name =>
        if name = "create" then some (.table createFlags createValued) else none }

theorem clis_documented : clis.Documented host where
  config := Tool.table_takes (by decide +kernel)
  directory path := Tool.table_takes ⟨by decide +kernel, by decide +kernel⟩
  clone := ⟨_, rfl, Tool.table_takes (by decide +kernel), Tool.table_takes (by decide +kernel)⟩
  archive := ⟨_, rfl, Tool.table_takes (by decide +kernel), Tool.table_takes (by decide +kernel)⟩
  create := by
    refine ⟨_, rfl, fun req => ⟨fun w hw => ?_, fun w hw => ?_⟩⟩
    · have hall : ∀ w ∈ (fetchSpec host request).asked,
          w.InTable createFlags createValued := by decide +kernel
      exact Tool.table_takes (hall w hw)
    · have hall : ∀ w ∈ (buildSpec host request).asked,
          w.InTable createFlags createValued := by decide +kernel
      exact Tool.table_takes (hall w hw)

/-- A request that is accepted. -/
theorem startVerification_verifyRequest :
    startVerification host soroban false 0 .empty (verifyRequest (some contractId) none) =
      .ok (Db.insertPending 0 .empty host (some contractId) contractHash request.source
        request.bldimg, request) := by
  simp only [startVerification, expectedHash_contract, ok_bind]
  rfl

/-- The command lines of a request for a repository on the web are read as they are meant. -/
theorem web_readAsMeant : ReadAsMeant clis host "/tmp/verify-src-1-0" request := by
  refine (accepted_readAsMeant_iff clis_documented startVerification_verifyRequest _).2 ?_
  refine ⟨?_, ?_, by decide +kernel⟩
  · intro repo hrepo
    obtain rfl := Option.some.inj hrepo
    decide
  · intro repo _ rev hrev
    obtain rfl := Option.some.inj hrev
    decide

/-- A request with these names. -/
def naming (repo bldimg : String) : VerifyRequest :=
  { verifyRequest (some contractId) none with repo := some repo, bldimg }

/-- Its job. -/
def namingJob (repo bldimg : String) : ReproductionRequest :=
  { request with source := .git repo "main", bldimg }

theorem startVerification_naming (repo bldimg : String) :
    ∃ db, startVerification host soroban false 0 .empty (naming repo bldimg) =
      .ok (db, namingJob repo bldimg) := by
  have hhash : expectedHash host soroban (naming repo bldimg) = .ok contractHash := rfl
  refine ⟨Db.insertPending 0 .empty host (some contractId) contractHash (.git repo "main") bldimg,
    ?_⟩
  simp only [startVerification, hhash, ok_bind]
  rfl

/-- A repository, or an image, that looks like an option is accepted and read as one: git clones
from its own scratch directory, with a command of the caller's, and docker is asked for a container
of the image `contract`. -/
theorem option_misread :
    clis.Documented host ∧
    (∃ db, startVerification host soroban false 0 .empty
        (naming "--upload-pack=touch /tmp/x" request.bldimg) =
      .ok (db, namingJob "--upload-pack=touch /tmp/x" request.bldimg)) ∧
    contains request.bldimg "@sha256:" ∧
    clis.git.read (cloneArgs "/tmp/verify-src-1-0" "--upload-pack=touch /tmp/x") =
      some ⟨[("-c", some "http.followRedirects=false")], "clone",
        [("--quiet", none), ("--no-checkout", none), ("--upload-pack", some "touch /tmp/x")],
        ["/tmp/verify-src-1-0"]⟩ ∧
    ¬ ReadAsMeant clis host "/tmp/verify-src-1-0"
      (namingJob "--upload-pack=touch /tmp/x" request.bldimg) ∧
    (∃ db, startVerification host soroban false 0 .empty
        (naming "https://github.com/erdemasik001/Sorofy" "--label=@sha256:") =
      .ok (db, namingJob "https://github.com/erdemasik001/Sorofy" "--label=@sha256:")) ∧
    contains "--label=@sha256:" "@sha256:" ∧
    (clis.docker.read (createArgs (buildSpec host
        (namingJob "https://github.com/erdemasik001/Sorofy" "--label=@sha256:")))).map
      Invocation.operands = some ["contract", "build", "--package=vrfy-token"] ∧
    ¬ ReadAsMeant clis host "/tmp/verify-src-1-0"
      (namingJob "https://github.com/erdemasik001/Sorofy" "--label=@sha256:") := by
  refine ⟨clis_documented, startVerification_naming _ _, request_pinned.contains, by decide +kernel,
    fun hread => ?_, startVerification_naming _ _, by decide, by decide +kernel, fun hread => ?_⟩
  · have hmeant := hread.clone _ _ rfl
    exact absurd hmeant (by decide +kernel)
  · have hmeant := hread.build
    exact absurd hmeant (by decide +kernel)

end Sample

end Api
end Sorofy
