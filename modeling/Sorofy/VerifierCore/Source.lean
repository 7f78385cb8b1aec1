import Mathlib.Data.List.MinMax
import Sorofy.Foundation.Traced
import Sorofy.VerifierCore.Staging

/-!
# Fetching the source

`crates/verifier-core/src/source.rs`: a source is cloned with git, or downloaded, and staged.  Both
reach out to hosts that a stranger names, so a host is looked up first and refused where one of its
addresses is internal (`guardPublicUrl`).

The trace of a fetch is the addresses that were checked, the URLs that were requested and the hosts
that were connected to.  The
programs and crates that connect are a parameter, as the hosts they may connect to (`Programs`), and
so is everything that answers (`World`), which may take into account all that has happened.
-/

namespace Sorofy
namespace VerifierCore

open Foundation
open Foundation.Traced

/-! ## Addresses -/

/-- `Ipv4Addr`, by its octets. -/
structure Ipv4Addr where
  a : UInt8
  b : UInt8
  c : UInt8
  d : UInt8
  deriving DecidableEq

/-- `Ipv6Addr`, by its segments. -/
structure Ipv6Addr where
  segments : Vector UInt16 8
  deriving DecidableEq

/-- `IpAddr`. -/
inductive IpAddr where
  | v4 (ip : Ipv4Addr)
  | v6 (ip : Ipv6Addr)
  deriving DecidableEq

/-- `Ipv6Addr::to_ipv4_mapped`. -/
def Ipv6Addr.toIpv4Mapped (ip : Ipv6Addr) : Option Ipv4Addr :=
  match ip.segments.toList with
  | [0, 0, 0, 0, 0, 0xffff, ab, cd] =>
    some ⟨(ab >>> 8).toUInt8, ab.toUInt8, (cd >>> 8).toUInt8, cd.toUInt8⟩
  | _ => none

/-- `is_internal`, of an IPv4 address. -/
def Ipv4Addr.isInternal (ip : Ipv4Addr) : Bool :=
  -- loopback
  ip.a = 127 ∨
  -- private
  ip.a = 10 ∨ ip.a = 172 ∧ 16 ≤ ip.b ∧ ip.b ≤ 31 ∨ ip.a = 192 ∧ ip.b = 168 ∨
  -- link-local
  ip.a = 169 ∧ ip.b = 254 ∨
  -- broadcast
  ip = ⟨255, 255, 255, 255⟩ ∨
  -- documentation
  ip.a = 192 ∧ ip.b = 0 ∧ ip.c = 2 ∨ ip.a = 198 ∧ ip.b = 51 ∧ ip.c = 100 ∨
  ip.a = 203 ∧ ip.b = 0 ∧ ip.c = 113 ∨
  -- unspecified, and the rest of its network
  ip.a = 0 ∨
  -- carrier-grade NAT
  ip.a = 100 ∧ ip.b &&& 0xc0 = 0x40

/-- `is_internal`. -/
def isInternal : IpAddr → Bool
  | .v4 ip => ip.isInternal
  | .v6 ip =>
    let head := ip.segments[0]
    if ip.segments.toList = [0, 0, 0, 0, 0, 0, 0, 1] ∨ ip.segments.toList = List.replicate 8 0 then
      true
    else
      match ip.toIpv4Mapped with
      | some mapped => mapped.isInternal
      -- unique-local, or link-local
      | none => head &&& 0xfe00 = 0xfc00 ∨ head &&& 0xffc0 = 0xfe80

-- The addresses that the tests of the source call internal.
example :
    ([.v4 ⟨127, 0, 0, 1⟩, .v4 ⟨169, 254, 169, 254⟩, .v4 ⟨10, 1, 2, 3⟩, .v4 ⟨192, 168, 0, 5⟩,
      .v4 ⟨172, 16, 0, 1⟩, .v4 ⟨100, 64, 0, 1⟩, .v4 ⟨0, 0, 0, 0⟩, .v6 ⟨#v[0, 0, 0, 0, 0, 0, 0, 1]⟩,
      .v6 ⟨#v[0xfc00, 0, 0, 0, 0, 0, 0, 1]⟩, .v6 ⟨#v[0xfe80, 0, 0, 0, 0, 0, 0, 1]⟩,
      .v6 ⟨#v[0, 0, 0, 0, 0, 0xffff, 0x7f00, 1]⟩] : List IpAddr).all isInternal = true := by
  decide

/-- `Ipv4Addr`, as it is displayed. -/
def Ipv4Addr.display (ip : Ipv4Addr) : String :=
  ".".intercalate ([ip.a, ip.b, ip.c, ip.d].map fun octet => toString octet.toNat)

/-- Segments, in hexadecimal. -/
def displaySegments (segments : List UInt16) : String :=
  ":".intercalate (segments.map fun segment => String.ofList (Nat.toDigits 16 segment.toNat))

/-- How many of the segments from the one at a position on are zero. -/
def zerosAt (segments : List UInt16) (i : ℕ) : ℕ :=
  ((segments.drop i).takeWhile (· = 0)).length

/-- `Ipv6Addr`, as it is displayed: the first of its longest runs of zeros is left out. -/
def Ipv6Addr.display (ip : Ipv6Addr) : String :=
  match ip.toIpv4Mapped with
  | some mapped => "::ffff:" ++ mapped.display
  | none =>
    let segments := ip.segments.toList
    match (List.range 8).argmax (zerosAt segments) with
    | some start =>
      if 1 < zerosAt segments start then
        displaySegments (segments.take start) ++ "::" ++
          displaySegments (segments.drop (start + zerosAt segments start))
      else displaySegments segments
    | none => displaySegments segments

example : Ipv6Addr.display ⟨#v[0xfe80, 0, 0, 0, 1, 0, 0, 2]⟩ = "fe80::1:0:0:2" := by decide +kernel

/-- `IpAddr`, as it is displayed. -/
def IpAddr.display : IpAddr → String
  | .v4 ip => ip.display
  | .v6 ip => ip.display

/-! ## What is around -/

/-- A URL, as the `url` crate has read it. -/
structure Url where
  scheme : String
  hostStr : Option String
  portOrKnownDefault : Option ℕ
  /-- `Url::to_string`. -/
  serialization : String

/-- The `url` crate. -/
structure UrlCrate where
  parse : String → Except String Url
  join : Url → String → Except String Url

/-- What is looked up, requested and connected to. -/
inductive Event where
  /-- The host of a URL was looked up for the check, and these are its addresses. -/
  | checked (url host : String) (addrs : List IpAddr)
  /-- The HTTP client was asked for the URL. -/
  | requested (url : String)
  /-- A connection to the host was opened, for the URL. -/
  | dialed (url host : String)
  deriving DecidableEq

/-- The crates, the name of a scratch directory, and the hosts that a program may connect to. -/
structure Programs where
  url : UrlCrate
  tar : TarCrate
  tempDir : String
  uniqueToken : String
  /-- The HTTP client, asked to follow no redirects: the hosts it may connect to for a URL. -/
  httpDials : String → String → Prop
  /-- git: the URLs, and for each the hosts, that it may connect to when it is run with the
  arguments. -/
  gitDials : List String → String → String → Prop

/-- What the documentation of the HTTP client promises: it reads a URL with the `url` crate, and
connects to the host that it names. -/
structure Programs.Documented (programs : Programs) : Prop where
  httpDials_eq : ∀ raw url host, programs.url.parse raw = .ok url →
    (url.scheme = "http" ∨ url.scheme = "https") → programs.httpDials raw host →
    url.hostStr = some host

/-- How a program ended. -/
structure Output where
  success : Bool
  stdout : List UInt8
  stderr : List UInt8

/-- How a run of `gzip` ended. -/
inductive GzipRun where
  | notSpawned (error : String)
  | writeFailed (error : String)
  | waitFailed (error : String)
  | exited (output : Output)

/-- An HTTP response.  At most as many bytes of its body are read as asked for. -/
structure Response where
  status : ℕ
  location : Option String
  read : ℕ → Except String (List UInt8)

/-- Everything that answers.  What the network answers may depend on what has happened. -/
structure World (programs : Programs) where
  createDirAll : String → Except String Unit
  gzip : List UInt8 → GzipRun
  /-- The addresses of a host and port. -/
  toSocketAddrs : List Event → String → ℕ → Except String (List IpAddr)
  /-- The HTTP client: the hosts it connects to for a URL, and the response. -/
  get : List Event → String → List String × Except String Response
  /-- git: the URLs and hosts it connects to when run with the arguments, and how it ends. -/
  git : List Event → List String → List (String × String) × Except String Output
  get_dials : ∀ trace url, ∀ host ∈ (get trace url).1, programs.httpDials url host
  git_dials : ∀ trace args, ∀ dial ∈ (git trace args).1, programs.gitDials args dial.1 dial.2

/-! ## The guard -/

/-- `MAX_ARCHIVE_BYTES`. -/
def maxArchiveBytes : ℕ := 256 * 1024 * 1024

/-- `MAX_REDIRECTS`. -/
def maxRedirects : ℕ := 5

section Fetch

variable (host : Host) {programs : Programs} (world : World programs)

/-- `guard_public_url`. -/
def guardPublicUrl (raw : String) : Traced Event VerifyError Unit := do
  let url ← lift ((programs.url.parse raw).mapError fun e =>
    .sourceFetch ("invalid source URL `" ++ raw ++ "`: " ++ e))
  lift (ensure (url.scheme = "http" ∨ url.scheme = "https")
    (.sourceFetch ("source URL scheme `" ++ url.scheme ++ "` is not allowed; use https")))
  let host ← lift (okOr url.hostStr (.sourceFetch ("source URL `" ++ raw ++ "` has no host")))
  let answer ← observe fun trace =>
    world.toSocketAddrs trace host (url.portOrKnownDefault.getD 443)
  let addrs ← lift (answer.mapError fun e =>
    .sourceFetch ("cannot resolve source host `" ++ host ++ "`: " ++ e))
  record [.checked raw host addrs]
  match addrs.find? isInternal with
  | some addr =>
    throw (.sourceFetch ("source host `" ++ host ++ "` resolves to a non-public address (" ++
      addr.display ++ "); refusing (SSRF guard)"))
  | none =>
    lift (ensure (addrs ≠ [])
      (.sourceFetch ("source host `" ++ host ++ "` did not resolve to any address")))

/-! ## The archive path -/

/-- `resolve_redirect`. -/
def resolveRedirect (programs : Programs) (current location : String) :
    Except VerifyError String := do
  let base ← (programs.url.parse current).mapError fun e =>
    .sourceFetch ("invalid redirect base `" ++ current ++ "`: " ++ e)
  let next ← (programs.url.join base location).mapError fun e =>
    .sourceFetch ("invalid redirect target `" ++ location ++ "`: " ++ e)
  pure next.serialization

/-- One request. -/
def call (url : String) : Traced Event VerifyError Response := do
  record [.requested url]
  let (hosts, answer) ← observe fun trace => world.get trace url
  record (hosts.map (.dialed url))
  lift (answer.mapError fun e => .sourceFetch ("GET " ++ url ++ " failed: " ++ e))

/-- The requests for a URL and what it redirects to, with so many tries left. -/
def followRedirects : ℕ → String → Traced Event VerifyError Response
  | 0, _ => throw (.sourceFetch
      ("source URL redirected more than " ++ toString maxRedirects ++ " times; refusing"))
  | tries + 1, current => do
    guardPublicUrl world current
    let resp ← call world current
    if 300 ≤ resp.status ∧ resp.status < 400 then
      let location ← lift (okOr resp.location (.sourceFetch ("redirect from `" ++ current ++
        "` (status " ++ toString resp.status ++ ") had no Location header")))
      let next ← lift (resolveRedirect programs current location)
      followRedirects tries next
    else pure resp

/-- `get_with_guarded_redirects`. -/
def getWithGuardedRedirects (url : String) : Traced Event VerifyError Response :=
  followRedirects world (maxRedirects + 1) url

/-- `str::eq_ignore_ascii_case`. -/
def eqIgnoreAsciiCase (s s' : String) : Prop :=
  s.toList.map Char.toLower = s'.toList.map Char.toLower

instance (s s' : String) : Decidable (eqIgnoreAsciiCase s s') :=
  inferInstanceAs (Decidable (_ = _))

/-- `is_gzip`. -/
def isGzip (bytes : List UInt8) : Prop :=
  [0x1f, 0x8b] <+: bytes

instance (bytes : List UInt8) : Decidable (isGzip bytes) :=
  inferInstanceAs (Decidable (_ <+: _))

/-- What a program wrote to its error stream, trimmed. -/
def Output.reason (output : Output) : String :=
  String.ofList (trim (Utf8.lossy output.stderr).toList)

/-- `gunzip`. -/
def gunzip (bytes : List UInt8) : Except VerifyError (List UInt8) :=
  match world.gzip bytes with
  | .notSpawned e => throw (.sourceFetch ("could not run gzip: " ++ e))
  | .writeFailed e => throw (.io e)
  | .waitFailed e => throw (.sourceFetch ("gzip failed: " ++ e))
  | .exited output => do
    ensure (output.success = true)
      (.sourceFetch ("gunzip of source archive failed: " ++ output.reason))
    pure output.stdout

/-- The tar of a downloaded archive. -/
def unpack (bytes : List UInt8) : Except VerifyError (List UInt8) :=
  if isGzip bytes then gunzip world bytes else pure bytes

/-- What is made of a downloaded archive. -/
def acceptArchive (expectedSha256 : String) (bytes : List UInt8) :
    Except VerifyError SourceArchive := do
  ensure (bytes.length ≤ maxArchiveBytes)
    (.sourceFetch ("source archive exceeds the " ++ toString maxArchiveBytes ++ " byte limit"))
  ensure (eqIgnoreAsciiCase (sha256Hex host bytes) expectedSha256)
    (.sourceIntegrity (toLowercase host expectedSha256) (sha256Hex host bytes))
  let tar ← unpack world bytes
  let _ ← singleTopDir programs.tar tar
  let tar ← normalizeForStaging programs.tar tar
  pure { tar, sha256 := sha256Hex host bytes }

/-- `fetch_archive`. -/
def fetchArchive (uri expectedSha256 : String) : Traced Event VerifyError SourceArchive := do
  let resp ← getWithGuardedRedirects world uri
  let bytes ← lift ((resp.read (maxArchiveBytes + 1)).mapError fun e =>
    .sourceFetch ("reading " ++ uri ++ ": " ++ e))
  lift (acceptArchive host world expectedSha256 bytes)

/-! ## The git path -/

/-- `str::starts_with`. -/
def startsWith (s pre : String) : Prop :=
  pre.toList <+: s.toList

instance (s pre : String) : Decidable (startsWith s pre) :=
  inferInstanceAs (Decidable (_ <+: _))

/-- The repository is one that the guard is asked about. -/
def IsHttp (repo : String) : Prop :=
  startsWith repo "http://" ∨ startsWith repo "https://"

instance (repo : String) : Decidable (IsHttp repo) :=
  inferInstanceAs (Decidable (_ ∨ _))

/-- `Path::join`, of a name. -/
def joinPath (dir name : String) : String :=
  if dir = "" ∨ endsWith dir "/" then dir ++ name else dir ++ "/" ++ name

/-- The scratch directory of the clone. -/
def Programs.tmp (programs : Programs) : String :=
  joinPath programs.tempDir ("verify-src-" ++ programs.uniqueToken)

/-- The arguments of `git clone`. -/
def cloneArgs (tmp repo : String) : List String :=
  ["-c", "http.followRedirects=false", "clone", "--quiet", "--no-checkout", repo, tmp]

/-- The arguments of `git archive`. -/
def archiveArgs (tmp rev : String) : List String :=
  ["-C", tmp, "archive", "--format=tar", "--prefix=source/", rev]

/-- A run of git. -/
def runGit (args : List String) : Traced Event VerifyError (Except String Output) := do
  let (dials, answer) ← observe fun trace => world.git trace args
  record (dials.map fun dial => .dialed dial.1 dial.2)
  pure answer

/-- Clone at the revision, and export its tree. -/
def exportGit (repo rev : String) : Traced Event VerifyError SourceArchive := do
  lift ((world.createDirAll programs.tmp).mapError .io)
  let clone ← runGit world (cloneArgs programs.tmp repo)
  let clone ← lift (clone.mapError fun e => .sourceFetch ("could not run git: " ++ e))
  lift (ensure (clone.success = true)
    (.sourceFetch ("git clone of `" ++ repo ++ "` failed: " ++ clone.reason)))
  let archive ← runGit world (archiveArgs programs.tmp rev)
  let archive ← lift (archive.mapError fun e =>
    .sourceFetch ("could not run git archive: " ++ e))
  lift (ensure (archive.success = true)
    (.sourceFetch ("git archive of rev `" ++ rev ++ "` failed: " ++ archive.reason)))
  let tar ← lift (normalizeForStaging programs.tar archive.stdout)
  pure { tar, sha256 := sha256Hex host archive.stdout }

/-- `fetch_git`. -/
def fetchGit (repo rev : String) : Traced Event VerifyError SourceArchive :=
  if IsHttp repo then do
    guardPublicUrl world repo
    exportGit host world repo rev
  else exportGit host world repo rev

/-- `SourceRef::fetch`. -/
def fetch : SourceRef → Traced Event VerifyError SourceArchive
  | .git repo rev => fetchGit host world repo rev
  | .archive uri sourceSha256 => fetchArchive host world uri sourceSha256

/-- The machine, with this way to fetch a source. -/
def fetching : Host :=
  { host with fetch := fun source => ((fetch host world source).run []).1 }

end Fetch

section Integrity

variable {host : Host} {programs : Programs} {world : World programs} {uri expectedSha256 : String}

/-- An archive that was accepted has the hash that was asked for. -/
theorem sha256_of_acceptArchive {bytes : List UInt8} {archive : SourceArchive}
    (h : acceptArchive host world expectedSha256 bytes = .ok archive) :
    archive.sha256 = sha256Hex host bytes ∧ eqIgnoreAsciiCase archive.sha256 expectedSha256 := by
  simp only [acceptArchive, bind_eq_ok, ensure_eq_ok, pure_eq_ok] at h
  obtain ⟨-, -, -, hhash, tar, -, top, -, staged, -, rfl⟩ := h
  exact ⟨rfl, hhash⟩

/-- **Integrity**: so has every archive that was fetched. -/
theorem sha256_of_fetchArchive {t : List Event} :
    Ends (fetchArchive host world uri expectedSha256) t
      (fun archive _ => eqIgnoreAsciiCase archive.sha256 expectedSha256) (fun _ _ => True) := by
  unfold fetchArchive
  have hget : Ends (getWithGuardedRedirects world uri) t (fun _ _ => True) (fun _ _ => True) :=
    ends_true
  refine hget.bind (fun _ _ _ => trivial) fun resp t' _ => ?_
  refine Ends.lift_bind (fun _ => trivial) fun bytes _ => ?_
  rw [ends_lift]
  exact ⟨fun archive haccept => (sha256_of_acceptArchive haccept).2, fun _ _ => trivial⟩

/-- The report on an archive carries the hash that was asked for. -/
theorem sourceSha256_of_reproduce {docker : Docker} {request : ReproductionRequest}
    {report : ReproductionReport} (hsource : request.source = .archive uri expectedSha256)
    (h : reproduce (fetching host world) docker request = .ok report) :
    eqIgnoreAsciiCase report.sourceSha256 expectedSha256 := by
  obtain ⟨source, run, artifact, wasm, hfetch, rfl⟩ := finish_of_reproduce h
  rw [hsource] at hfetch
  exact sha256_of_fetchArchive.of_run_eq_ok hfetch

end Integrity

end VerifierCore
end Sorofy
