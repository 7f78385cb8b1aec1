import Sorofy.Foundation.Fallible
import Sorofy.Foundation.Hex
import Sorofy.Foundation.Text
import Sorofy.Registry.ClaimDigest

/-!
# Reproducing a build

`crates/verifier-core`: a source and build metadata go in, a rebuilt wasm comes out, and its hash
is compared with the expected one.

What the engine does not compute itself is a parameter.  `Docker` is the daemon, as what it
answers to each command of one job; `Host` is the rest of the machine and the third-party code:
fetching the source, writing a file, reading a tar, hashing, hex, and the Unicode tables.
`HexCrate.Documented` is what the code relies on in the `hex` crate.

Timeouts are the daemon's to report, and times are not recorded.

The pipeline is `reproduce`, and `reproduce_eq_ok` says what a run that returned has done.
-/

namespace Sorofy
namespace VerifierCore

open Foundation

/-! ## Errors, requests, reports -/

/-- The failure modes of a job. -/
inductive VerifyError where
  | sourceFetch (reason : String)
  | sourceIntegrity (expected actual : String)
  | sourceLayout (found : ℕ)
  | unpinnedImage (bldimg : String)
  | buildFailed (code : ℤ) (log : String)
  | timeout (budget : ℕ)
  | noWasmProduced
  | ambiguousWasm (count : ℕ) (names : List String)
  | docker (reason : String)
  | io (reason : String)
  deriving DecidableEq

/-- Where the source comes from. -/
inductive SourceRef where
  | git (repo rev : String)
  | archive (uri sourceSha256 : String)
  deriving DecidableEq

/-- A source tree, as the tar that is staged and the hash of what was fetched. -/
structure SourceArchive where
  tar : List UInt8
  sha256 : String

/-- One job. -/
structure ReproductionRequest where
  source : SourceRef
  bldimg : String
  bldopt : List String
  expectedWasmSha256 : String
  allowUnpinnedImage : Bool
  emitWasm : Option String

/-- How a verification ended. -/
inductive VerificationResult where
  | verified
  | mismatch
  | pending
  | error
  deriving DecidableEq

/-- How far the build image is trusted. -/
inductive TrustLevel where
  | arbitrary
  | publiclyAuditable
  | sdfMaintained
  deriving DecidableEq

/-- The outcome of a reproduction, verified or not. -/
structure ReproductionReport where
  result : VerificationResult
  expectedWasmSha256 : String
  rebuiltWasmSha256 : String
  rebuiltWasmSize : ℕ
  artifact : String
  bldimg : String
  bldimgDigest : Option String
  bldopt : List String
  sourceSha256 : String
  trustLevel : TrustLevel
  buildLog : Option String
  deriving DecidableEq

/-! ## The machine a job runs on -/

/-- Whether a container reaches the network. -/
inductive Network where
  | bridge
  | none
  | named (name : String)
  deriving DecidableEq

/-- What a container may take from the machine. -/
structure ResourceLimits where
  memory : Option String
  memorySwap : Option String
  cpus : Option String
  pids : Option ℕ
  storageOptSize : Option String

/-- How a container is hardened. -/
structure SecurityOpts where
  capDropAll : Bool
  noNewPrivileges : Bool

/-- What a build container is created from. -/
structure ContainerSpec where
  image : String
  entrypoint : Option String
  argv : List String
  workdir : String
  env : List (String × String)
  volumes : List (String × String)
  network : Network
  limits : ResourceLimits
  security : SecurityOpts

/-- How a container ended, with its interleaved output. -/
structure RunOutput where
  exitCode : ℤ
  log : String

/-- The docker daemon: its answer to each command of a job.  A container is known by its id. -/
structure Docker where
  preflight : Except VerifyError Unit
  createVolume : String → Except VerifyError Unit
  create : ContainerSpec → Except VerifyError String
  putArchive : String → String → List UInt8 → Except VerifyError Unit
  runToCompletion : String → Except VerifyError RunOutput
  getArchive : String → String → Except VerifyError (List UInt8)
  /-- `docker image inspect`, with the image's `RepoDigests` parsed. -/
  repoDigests : String → Except VerifyError (List String)

/-- `Docker::image_digest`. -/
def Docker.imageDigest (docker : Docker) (image : String) : Except VerifyError (Option String) := do
  let digests ← docker.repoDigests image
  pure digests.head?

/-- The `hex` crate. -/
structure HexCrate where
  encode : List UInt8 → String
  decode : String → Except String (List UInt8)

/-- The string spells the bytes in hexadecimal, in either case. -/
def Spells (s : String) (bytes : List UInt8) : Prop :=
  Hex.decode (s.toList.map Char.toNat) = some bytes

instance (s : String) (bytes : List UInt8) : Decidable (Spells s bytes) :=
  inferInstanceAs (Decidable (_ = _))

/-- A string spells one byte string. -/
theorem Spells.unique {s : String} {bytes bytes' : List UInt8} (h : Spells s bytes)
    (h' : Spells s bytes') : bytes = bytes' :=
  Option.some.inj (h.symm.trans h')

/-- What the documentation of the `hex` crate promises: it writes lower case, and it reads
strings of an even number of digits, of either case, and nothing else. -/
structure HexCrate.Documented (hex : HexCrate) : Prop where
  encode_toList : ∀ bytes, (hex.encode bytes).toList.map Char.toNat = Hex.encode bytes
  decode_eq_ok : ∀ s bytes, hex.decode s = .ok bytes ↔ Spells s bytes

/-- An entry of a tar, with what reading its path and its contents gives. -/
structure TarEntry where
  isFile : Bool
  path : Except String String
  contents : Except String (List UInt8)

/-- The rest of the machine. -/
structure Host where
  hex : HexCrate
  sha256 : Sha256
  /-- The Unicode tables: the lower case of strings that are not ASCII. -/
  unicodeLower : String → String
  /-- `VERIFY_FETCH_NETWORK`. -/
  verifyFetchNetwork : Option String
  uniqueToken : String
  fetch : SourceRef → Except VerifyError SourceArchive
  /-- The entries of a tar, each read as far as it can be. -/
  tarEntries : List UInt8 → Except String (List (Except String TarEntry))
  writeFile : String → List UInt8 → Except VerifyError Unit

/-! ## Picking the wasm -/

/-- `str::ends_with`. -/
def endsWith (s suffix : String) : Prop :=
  suffix.toList <:+ s.toList

/-- `str::contains`. -/
def contains (s pat : String) : Prop :=
  (splitOnce pat.toList s.toList).isSome

instance (s suffix : String) : Decidable (endsWith s suffix) :=
  inferInstanceAs (Decidable (_ <:+ _))

instance (s pat : String) : Decidable (contains s pat) :=
  inferInstanceAs (Decidable (_ = _))

/-- How many non-empty components a path has. -/
def depth (path : String) : ℕ :=
  ((path.toList.splitOn '/').filter (· ≠ [])).length

/-- The wasm files at the root of the release directory. -/
def collectWasm : List (Except String TarEntry) →
    Except VerifyError (List (String × List UInt8))
  | [] => pure []
  | entry :: entries => do
    let entry ← entry.mapError fun e => .docker ("bad build-output entry: " ++ e)
    if entry.isFile = false then
      collectWasm entries
    else
      let path ← entry.path.mapError fun e => .docker ("bad build-output path: " ++ e)
      if ¬ endsWith path ".wasm" then
        collectWasm entries
      else if depth path ≠ 2 then
        collectWasm entries
      else
        let bytes ← entry.contents.mapError .io
        let found ← collectWasm entries
        pure ((path, bytes) :: found)

/-- The artifact among the files found: the only one, or the optimized one of a pair. -/
def pickWasm (found : List (String × List UInt8)) : Except VerifyError (String × List UInt8) :=
  match found with
  | [] => throw .noWasmProduced
  | [wasm] => pure wasm
  | found =>
    match found.filter fun file => endsWith file.1 ".optimized.wasm" with
    | [optimized] =>
      if found.length = 2 then pure optimized
      else throw (.ambiguousWasm found.length (found.map Prod.fst))
    | _ => throw (.ambiguousWasm found.length (found.map Prod.fst))

/-- `select_wasm_from_tar`. -/
def selectWasmFromTar (host : Host) (tar : List UInt8) :
    Except VerifyError (String × List UInt8) := do
  let entries ← (host.tarEntries tar).mapError fun e =>
    .docker ("build output is not a valid tar: " ++ e)
  let found ← collectWasm entries
  pickWasm found

/-- `is_missing_path`. -/
def isMissingPath (dockerError : String) : Bool :=
  let msg := String.ofList (dockerError.toList.map Char.toLower)
  contains msg "no such file or directory" ∨ contains msg "could not find the file" ∨
    contains msg "no such container:path"

/-- `STAGE_DIR`. -/
def stageDir : String := "/build"

/-- `STAGED_TOP_DIR`. -/
def stagedTopDir : String := "source"

/-- The directory the source is built in. -/
def workdir : String := stageDir ++ "/" ++ stagedTopDir

/-- `extract_wasm`: a missing release directory is the submitter's fault, any other failure to
copy it out is not. -/
def extractWasm (host : Host) (docker : Docker) (container : String) :
    Except VerifyError (String × List UInt8) :=
  match docker.getArchive container (workdir ++ "/target/wasm32v1-none/release") with
  | .ok tar => selectWasmFromTar host tar
  | .error (.docker msg) =>
    if isMissingPath msg then throw .noWasmProduced else throw (.docker msg)
  | .error e => throw e

/-! ## The pipeline -/

/-- `CARGO_HOME`. -/
def cargoHome : String := "/cargo-home"

/-- `str::to_lowercase`. -/
def toLowercase (host : Host) (s : String) : String :=
  if s.toList.all (fun c => c.toNat < 128) then String.ofList (s.toList.map Char.toLower)
  else host.unicodeLower s

/-- `sha256_hex`. -/
def sha256Hex (host : Host) (bytes : List UInt8) : String :=
  host.hex.encode (host.sha256 bytes).toList

/-- `char::is_whitespace`. -/
def isWhitespace (c : Char) : Prop :=
  9 ≤ c.toNat ∧ c.toNat ≤ 13 ∨ 0x2000 ≤ c.toNat ∧ c.toNat ≤ 0x200A ∨
    c.toNat ∈ [0x20, 0x85, 0xA0, 0x1680, 0x2028, 0x2029, 0x202F, 0x205F, 0x3000]

instance (c : Char) : Decidable (isWhitespace c) :=
  inferInstanceAs (Decidable (_ ∨ _))

/-- `str::trim`. -/
def trim (s : List Char) : List Char :=
  ((s.dropWhile fun c => isWhitespace c).reverse.dropWhile fun c => isWhitespace c).reverse

/-- `s.trim().is_empty()`. -/
def isBlank (s : String) : Prop :=
  ∀ c ∈ s.toList, isWhitespace c

instance (s : String) : Decidable (isBlank s) :=
  List.decidableBAll isWhitespace s.toList

/-- `network_for`. -/
def networkFor : Option String → Network
  | some name => if isBlank name then .bridge else .named name
  | none => .bridge

/-- `fetch_network`. -/
def fetchNetwork (host : Host) : Network :=
  networkFor (host.verifyFetchNetwork.filter fun name => ¬ isBlank name)

/-- The volume both phases share. -/
def cargoVolume (host : Host) : String :=
  "verify-cargo-" ++ host.uniqueToken

/-- `BUILD_LIMITS`. -/
def buildLimits : ResourceLimits where
  memory := some "3g"
  memorySwap := some "3g"
  cpus := some "2"
  pids := some 2048
  storageOptSize := none

/-- `BUILD_SECURITY`. -/
def buildSecurity : SecurityOpts where
  capDropAll := true
  noNewPrivileges := true

/-- The container that dependencies are fetched in. -/
def fetchSpec (host : Host) (request : ReproductionRequest) : ContainerSpec where
  image := request.bldimg
  entrypoint := some "cargo"
  argv := ["fetch", "--locked"]
  workdir := workdir
  env := [("CARGO_HOME", cargoHome)]
  volumes := [(cargoVolume host, cargoHome)]
  network := fetchNetwork host
  limits := buildLimits
  security := buildSecurity

/-- `fetch_dependencies`. -/
def fetchDependencies (host : Host) (docker : Docker) (request : ReproductionRequest)
    (source : SourceArchive) : Except VerifyError Unit := do
  let container ← docker.create (fetchSpec host request)
  docker.putArchive container stageDir source.tar
  let run ← docker.runToCompletion container
  ensure (run.exitCode = 0) (.buildFailed run.exitCode run.log)

/-- The container that the build runs in. -/
def buildSpec (host : Host) (request : ReproductionRequest) : ContainerSpec where
  image := request.bldimg
  entrypoint := none
  argv := ["contract", "build"] ++ request.bldopt
  workdir := workdir
  env := [("CARGO_HOME", cargoHome), ("CARGO_NET_OFFLINE", "true")]
  volumes := [(cargoVolume host, cargoHome)]
  network := .none
  limits := buildLimits
  security := buildSecurity

/-- The build proper: the container that has run, and what it logged. -/
def build (host : Host) (docker : Docker) (request : ReproductionRequest)
    (source : SourceArchive) : Except VerifyError (String × RunOutput) := do
  let container ← docker.create (buildSpec host request)
  docker.putArchive container stageDir source.tar
  let run ← docker.runToCompletion container
  ensure (run.exitCode = 0) (.buildFailed run.exitCode run.log)
  pure (container, run)

/-- The digest recorded for the build image.  A failure to resolve it does not fail the job. -/
def resolvedDigest (docker : Docker) (image : String) : Option String :=
  match docker.imageDigest image with
  | .ok digest => digest
  | .error _ => none

/-- The report on a finished build. -/
def finish (host : Host) (docker : Docker) (request : ReproductionRequest)
    (source : SourceArchive) (run : RunOutput) (artifact : String) (wasm : List UInt8) :
    ReproductionReport :=
  let rebuilt := sha256Hex host wasm
  let expected := toLowercase host request.expectedWasmSha256
  let result := if rebuilt = expected then VerificationResult.verified else .mismatch
  { result := result
    expectedWasmSha256 := expected
    rebuiltWasmSha256 := rebuilt
    rebuiltWasmSize := wasm.length
    artifact := artifact
    bldimg := request.bldimg
    bldimgDigest := resolvedDigest docker request.bldimg
    bldopt := request.bldopt
    sourceSha256 := source.sha256
    trustLevel := .arbitrary
    buildLog := if result = .mismatch then some run.log else none }

/-- Write the rebuilt wasm out, if that was asked for. -/
def emit (host : Host) (request : ReproductionRequest) (wasm : List UInt8) :
    Except VerifyError Unit :=
  match request.emitWasm with
  | some path => host.writeFile path wasm
  | none => pure ()

/-- `reproduce`. -/
def reproduce (host : Host) (docker : Docker) (request : ReproductionRequest) :
    Except VerifyError ReproductionReport := do
  ensure (request.allowUnpinnedImage = true ∨ contains request.bldimg "@sha256:")
    (.unpinnedImage request.bldimg)
  docker.preflight
  let source ← host.fetch request.source
  docker.createVolume (cargoVolume host)
  fetchDependencies host docker request source
  let (container, run) ← build host docker request source
  let (artifact, wasm) ← extractWasm host docker container
  emit host request wasm
  pure (finish host docker request source run artifact wasm)

/-- **A run returns exactly when every phase does**: the image is pinned unless that is waived,
the daemon answers, the source is fetched, dependencies are fetched and the build runs, it leaves
one wasm, and that is written out if it was asked for. -/
theorem reproduce_eq_ok {host : Host} {docker : Docker} {request : ReproductionRequest}
    {report : ReproductionReport} :
    reproduce host docker request = .ok report ↔
      (request.allowUnpinnedImage = true ∨ contains request.bldimg "@sha256:") ∧
        docker.preflight = .ok () ∧
        ∃ source, host.fetch request.source = .ok source ∧
          docker.createVolume (cargoVolume host) = .ok () ∧
          fetchDependencies host docker request source = .ok () ∧
          ∃ container run, build host docker request source = .ok (container, run) ∧
            ∃ artifact wasm, extractWasm host docker container = .ok (artifact, wasm) ∧
              emit host request wasm = .ok () ∧
              finish host docker request source run artifact wasm = report := by
  simp only [reproduce, bind_eq_ok, pure_eq_ok, ensure_eq_ok]
  constructor
  · rintro ⟨_, hpinned, _, hdaemon, source, hsource, _, hvolume, _, hdeps, ⟨container, run⟩, hrun,
      ⟨artifact, wasm⟩, hwasm, _, hemit, hreport⟩
    exact ⟨hpinned, hdaemon, source, hsource, hvolume, hdeps, container, run, hrun, artifact, wasm,
      hwasm, hemit, hreport⟩
  · rintro ⟨hpinned, hdaemon, source, hsource, hvolume, hdeps, container, run, hrun, artifact, wasm,
      hwasm, hemit, hreport⟩
    exact ⟨(), hpinned, (), hdaemon, source, hsource, (), hvolume, (), hdeps, (container, run),
      hrun, (artifact, wasm), hwasm, (), hemit, hreport⟩

/-- A report is the report on some finished build of a fetched source. -/
theorem finish_of_reproduce {host : Host} {docker : Docker} {request : ReproductionRequest}
    {report : ReproductionReport} (h : reproduce host docker request = .ok report) :
    ∃ source run artifact wasm, host.fetch request.source = .ok source ∧
      finish host docker request source run artifact wasm = report := by
  obtain ⟨-, -, source, hsource, -, -, -, run, -, artifact, wasm, -, -, hreport⟩ :=
    reproduce_eq_ok.1 h
  exact ⟨source, run, artifact, wasm, hsource, hreport⟩

/-- The report carries the first digest the daemon lists for the image. -/
theorem bldimgDigest_of_reproduce {host : Host} {docker : Docker} {request : ReproductionRequest}
    {report : ReproductionReport} {digests : List String}
    (h : reproduce host docker request = .ok report)
    (hlist : docker.repoDigests request.bldimg = .ok digests) :
    report.bldimgDigest = digests.head? := by
  obtain ⟨source, run, artifact, wasm, -, rfl⟩ := finish_of_reproduce h
  have hdigest : docker.imageDigest request.bldimg = .ok digests.head? := by
    simp [Docker.imageDigest, hlist]
  show resolvedDigest docker request.bldimg = digests.head?
  rw [resolvedDigest, hdigest]

theorem bldopt_of_reproduce {host : Host} {docker : Docker} {request : ReproductionRequest}
    {report : ReproductionReport} (h : reproduce host docker request = .ok report) :
    report.bldopt = request.bldopt := by
  obtain ⟨source, run, artifact, wasm, -, rfl⟩ := finish_of_reproduce h
  rfl

end VerifierCore
end Sorofy
