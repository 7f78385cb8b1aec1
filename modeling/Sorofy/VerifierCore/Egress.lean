import Sorofy.VerifierCore.Source

/-!
# What a fetch connects to

A host is cleared for a URL once it was looked up for it and none of its addresses was internal.
`Guarded` is the property of a trace that every host was cleared before it was connected to.

The archive path has it always: each request comes right after the guard on its URL.  The git path
asks the guard about `http://` and `https://` repositories only, so it has it exactly where git
connects to nothing but the host that the guard reads in such a URL (`fetch_guarded_iff`).
-/

namespace Sorofy
namespace VerifierCore

open Foundation
open Foundation.Traced

/-- The host was looked up for the URL, and none of its addresses was internal. -/
def Cleared (trace : List Event) (url host : String) : Prop :=
  ∃ addrs, .checked url host addrs ∈ trace ∧ ∀ addr ∈ addrs, isInternal addr = false

/-- What an event needs to have happened before it. -/
def Permitted (before : List Event) : Event → Prop
  | .checked _ _ _ => True
  | .requested _ => True
  | .dialed url host => Cleared before url host

/-- Every host was cleared for the URL before it was connected to. -/
abbrev Guarded (trace : List Event) : Prop :=
  Justified Permitted trace

/-- The host that the guard looks up for a URL. -/
def guardHost (programs : Programs) (raw : String) : Option String :=
  match programs.url.parse raw with
  | .ok url => if url.scheme = "http" ∨ url.scheme = "https" then url.hostStr else none
  | .error _ => none

theorem Cleared.append {trace : List Event} {url host : String} (h : Cleared trace url host)
    (after : List Event) : Cleared (trace ++ after) url host := by
  obtain ⟨addrs, hmem, hpublic⟩ := h
  exact ⟨addrs, List.mem_append_left after hmem, hpublic⟩

/-- What was looked up stays looked up. -/
theorem Permitted.append (before : List Event) (e : Event) (after : List Event)
    (h : Permitted before e) : Permitted (before ++ after) e := by
  cases e with
  | checked => trivial
  | requested => trivial
  | dialed url host => exact Cleared.append h after

section Steps

variable {programs : Programs} {world : World programs} {t : List Event}

/-- Looking up is always permitted. -/
theorem guarded_checked (h : Guarded t) (url host : String) (addrs : List IpAddr) :
    Guarded (t ++ [.checked url host addrs]) :=
  justified_snoc.2 ⟨h, trivial⟩

/-- Connecting is permitted to hosts that were cleared. -/
theorem guarded_dialed (h : Guarded t) {dials : List (String × String)}
    (hcleared : ∀ dial ∈ dials, Cleared t dial.1 dial.2) :
    Guarded (t ++ dials.map fun dial => .dialed dial.1 dial.2) := by
  refine h.append Permitted.append ?_
  intro e he
  obtain ⟨dial, hdial, rfl⟩ := List.mem_map.1 he
  exact hcleared dial hdial

/-- **The guard** either looks up the host of the URL and finds public addresses only, or fails, and
does nothing else. -/
theorem ends_guardPublicUrl (raw : String) :
    Ends (guardPublicUrl world raw) t
      (fun _ t' => ∃ host addrs, guardHost programs raw = some host ∧ addrs ≠ [] ∧
        (∀ addr ∈ addrs, isInternal addr = false) ∧ t' = t ++ [.checked raw host addrs])
      (fun _ t' => t' = t ∨ ∃ host addrs, t' = t ++ [.checked raw host addrs]) := by
  unfold guardPublicUrl
  refine Ends.lift_bind (fun _ => Or.inl rfl) fun url hparse => ?_
  refine Ends.lift_bind (fun _ => Or.inl rfl) fun _ hscheme => ?_
  refine Ends.lift_bind (fun _ => Or.inl rfl) fun host hhost => ?_
  rw [ends_bind, ends_observe]
  refine Ends.lift_bind (fun _ => Or.inl rfl) fun addrs _ => ?_
  rw [ends_bind, ends_record]
  split
  · rw [ends_throw]
    exact Or.inr ⟨host, addrs, rfl⟩
  · rename_i hnone
    have hlooked : guardHost programs raw = some host := by
      rw [guardHost, mapError_eq_ok.1 hparse]
      exact (if_pos (ensure_eq_ok.1 hscheme)).trans (okOr_eq_ok.1 hhost)
    rw [ends_lift]
    refine ⟨fun _ hne => ⟨host, addrs, hlooked, ensure_eq_ok.1 hne, ?_, rfl⟩,
      fun _ _ => Or.inr ⟨host, addrs, rfl⟩⟩
    exact fun addr haddr => by simpa using List.find?_eq_none.1 hnone addr haddr

/-- Behind the guard, the host it reads in the URL is cleared. -/
theorem guarded_guardPublicUrl (raw : String) (ht : Guarded t) :
    Ends (guardPublicUrl world raw) t
      (fun _ t' => Guarded t' ∧ ∃ host, guardHost programs raw = some host ∧ Cleared t' raw host)
      (fun _ => Guarded) := by
  refine (ends_guardPublicUrl raw).mono ?_ ?_
  · rintro _ _ ⟨host, addrs, hlooked, -, hpublic, rfl⟩
    exact ⟨guarded_checked ht raw host addrs, host, hlooked, addrs,
      List.mem_append_right t List.mem_cons_self, hpublic⟩
  · rintro _ _ (rfl | ⟨host, addrs, rfl⟩)
    · exact ht
    · exact guarded_checked ht raw host addrs

/-- A request connects to what the client may connect to. -/
theorem guarded_call (url : String) (ht : Guarded t)
    (hcleared : ∀ host, programs.httpDials url host → Cleared t url host) :
    Ends (call world url) t (fun _ => Guarded) (fun _ => Guarded) := by
  have hrequested : Guarded (t ++ [.requested url]) := justified_snoc.2 ⟨ht, trivial⟩
  have hdialed : Guarded (t ++ [.requested url] ++
      (world.get (t ++ [.requested url]) url).1.map (.dialed url)) := by
    refine hrequested.append Permitted.append ?_
    intro e he
    obtain ⟨host, hhost, rfl⟩ := List.mem_map.1 he
    exact (hcleared host (world.get_dials _ url host hhost)).append _
  rw [call, ends_bind, ends_record, ends_bind, ends_observe, ends_bind, ends_record, ends_lift]
  exact ⟨fun _ _ => hdialed, fun _ _ => hdialed⟩

/-- A run of git connects to what git may connect to. -/
theorem guarded_runGit (args : List String) (ht : Guarded t)
    (hcleared : ∀ url host, programs.gitDials args url host → Cleared t url host) :
    Ends (runGit world args) t (fun _ t' => Guarded t' ∧ t <+: t') (fun _ => Guarded) := by
  rw [runGit, ends_bind, ends_observe, ends_bind, ends_record, ends_pure]
  refine ⟨?_, List.prefix_append t _⟩
  refine guarded_dialed ht fun dial hdial => ?_
  exact hcleared dial.1 dial.2 (world.git_dials t args dial hdial)

/-- The client connects to the host that the guard reads. -/
theorem eq_guardHost (hdoc : programs.Documented) {raw host read : String}
    (hdials : programs.httpDials raw host) (hread : guardHost programs raw = some read) :
    host = read := by
  unfold guardHost at hread
  split at hread
  · rename_i url hparse
    split_ifs at hread with hscheme
    have hhost := hdoc.httpDials_eq raw url host hparse hscheme hdials
    exact Option.some.inj (hhost.symm.trans hread)
  · cases hread

/-- **The requests for a URL and what it redirects to**: whatever answers, each goes to a host that
was cleared. -/
theorem guarded_followRedirects (hdoc : programs.Documented) (tries : ℕ) (current : String)
    (ht : Guarded t) :
    Ends (followRedirects world tries current) t (fun _ => Guarded) (fun _ => Guarded) := by
  induction tries generalizing current t with
  | zero =>
    rw [followRedirects, ends_throw]
    exact ht
  | succ tries ih =>
    unfold followRedirects
    refine (guarded_guardPublicUrl current ht).bind (fun _ _ h => h) ?_
    rintro _ t₁ ⟨ht₁, read, hread, hcleared⟩
    refine (guarded_call current ht₁ ?_).bind (fun _ _ h => h) ?_
    · intro host hdials
      rwa [eq_guardHost hdoc hdials hread]
    · intro resp t₂ ht₂
      split
      · refine Ends.lift_bind (fun _ => ht₂) fun location _ => ?_
        refine Ends.lift_bind (fun _ => ht₂) fun next _ => ?_
        exact ih next ht₂
      · exact ht₂

/-- The archive path connects to hosts that were cleared, whatever the source. -/
theorem guarded_fetchArchive (host : Host) (hdoc : programs.Documented)
    (uri expectedSha256 : String) (ht : Guarded t) :
    Ends (fetchArchive host world uri expectedSha256) t (fun _ => Guarded) (fun _ => Guarded) := by
  unfold fetchArchive
  refine (guarded_followRedirects hdoc (maxRedirects + 1) uri ht).bind (fun _ _ h => h) ?_
  intro resp t' ht'
  refine Ends.lift_bind (fun _ => ht') fun bytes _ => ?_
  rw [ends_lift]
  exact ⟨fun _ _ => ht', fun _ _ => ht'⟩

/-- So does the git path, where everything git may connect to was cleared. -/
theorem guarded_exportGit (host : Host) (repo rev : String) (ht : Guarded t)
    (hcleared : ∀ url dialed, programs.gitDials (cloneArgs programs.tmp repo) url dialed ∨
      programs.gitDials (archiveArgs programs.tmp rev) url dialed → Cleared t url dialed) :
    Ends (exportGit host world repo rev) t (fun _ => Guarded) (fun _ => Guarded) := by
  unfold exportGit
  refine Ends.lift_bind (fun _ => ht) fun _ _ => ?_
  refine (guarded_runGit (cloneArgs programs.tmp repo) ht ?_).bind (fun _ _ h => h) ?_
  · exact fun url dialed hdials => hcleared url dialed (Or.inl hdials)
  rintro clone t₁ ⟨ht₁, after, rfl⟩
  refine Ends.lift_bind (fun _ => ht₁) fun clone _ => ?_
  refine Ends.lift_bind (fun _ => ht₁) fun _ _ => ?_
  refine (guarded_runGit (archiveArgs programs.tmp rev) ht₁ ?_).bind (fun _ _ h => h) ?_
  · exact fun url dialed hdials => (hcleared url dialed (Or.inr hdials)).append after
  rintro archive t₂ ⟨ht₂, -⟩
  refine Ends.lift_bind (fun _ => ht₂) fun archive _ => ?_
  refine Ends.lift_bind (fun _ => ht₂) fun _ _ => ?_
  refine Ends.lift_bind (fun _ => ht₂) fun tar _ => ?_
  exact ht₂

end Steps

/-! ## When it is guarded -/

/-- git may connect to a host for a URL, in one of its two runs on the repository. -/
def GitReaches (programs : Programs) (repo rev url dialed : String) : Prop :=
  programs.gitDials (cloneArgs programs.tmp repo) url dialed ∨
    programs.gitDials (archiveArgs programs.tmp rev) url dialed

/-- The source is an archive, or git, run on the repository, may connect to nothing, or it is an
`http://` or `https://` repository and git connects to it, at the host that the guard reads. -/
def StaysAtUrl (programs : Programs) : SourceRef → Prop
  | .archive _ _ => True
  | .git repo rev => ∀ url dialed, GitReaches programs repo rev url dialed →
      IsHttp repo ∧ ∀ host, guardHost programs repo = some host → url = repo ∧ dialed = host

/-- A world in which every address is public, and git, run with the arguments, connects to the host
and fails. -/
def dialing {programs : Programs} {args : List String} {url dialed : String}
    (h : programs.gitDials args url dialed) : World programs where
  createDirAll _ := .ok ()
  gzip _ := .notSpawned "no such file or directory"
  toSocketAddrs _ _ _ := .ok [.v4 ⟨8, 8, 8, 8⟩]
  get _ _ := ([], .error "connection refused")
  git _ args' :=
    if args' = args then ([(url, dialed)], .ok ⟨false, [], []⟩) else ([], .ok ⟨true, [], []⟩)
  get_dials _ _ _ hmem := absurd hmem List.not_mem_nil
  git_dials _ args' dial hmem := by
    split at hmem
    · rename_i hargs
      rw [List.mem_singleton.1 hmem, hargs]
      exact h
    · exact absurd hmem List.not_mem_nil

section Converse

variable {programs : Programs} {t : List Event} {P : List Event → Prop} {args : List String}
  {url dialed : String}

theorem ends_runGit_dialing (h : programs.gitDials args url dialed) {args' : List String}
    {Q : Except String Output → List Event → Prop} {E : VerifyError → List Event → Prop} :
    Ends (runGit (dialing h) args') t Q E ↔
      if args' = args then Q (.ok ⟨false, [], []⟩) (t ++ [.dialed url dialed])
      else Q (.ok ⟨true, [], []⟩) t := by
  have hgit : (dialing h).git t args' = if args' = args
      then ([(url, dialed)], .ok ⟨false, [], []⟩) else ([], .ok ⟨true, [], []⟩) := rfl
  show Q ((dialing h).git t args').2
    (t ++ ((dialing h).git t args').1.map fun dial => .dialed dial.1 dial.2) ↔ _
  rw [hgit]
  split_ifs
  · rfl
  · rw [List.map_nil, List.append_nil]

/-- There, cloning or exporting ends with that connection. -/
theorem dialed_of_exportGit (host : Host) {repo rev : String}
    (h : programs.gitDials args url dialed)
    (hargs : args = cloneArgs programs.tmp repo ∨ args = archiveArgs programs.tmp rev)
    (hends : Ends (exportGit host (dialing h) repo rev) t (fun _ => P) (fun _ => P)) :
    P (t ++ [.dialed url dialed]) := by
  simp only [exportGit, ends_bind, ends_lift, ends_runGit_dialing] at hends
  obtain ⟨hclone, -⟩ := hends
  have hclone := hclone () rfl
  by_cases hfirst : cloneArgs programs.tmp repo = args
  · rw [if_pos hfirst] at hclone
    obtain ⟨hfailed, -⟩ := hclone
    exact (hfailed _ rfl).2 _ rfl
  · have hsecond : archiveArgs programs.tmp rev = args :=
      (hargs.resolve_left fun heq => hfirst heq.symm).symm
    rw [if_neg hfirst] at hclone
    obtain ⟨hcloned, -⟩ := hclone
    obtain ⟨harchive, -⟩ := hcloned _ rfl
    have harchive := harchive () rfl
    rw [if_pos hsecond] at harchive
    obtain ⟨hfailed, -⟩ := harchive
    exact (hfailed _ rfl).2 _ rfl

/-- There, the guard lets every URL with a host pass. -/
theorem checked_of_guardPublicUrl (h : programs.gitDials args url dialed) {raw host : String}
    (hread : guardHost programs raw = some host) {Q : Unit → List Event → Prop}
    {E : VerifyError → List Event → Prop} (hends : Ends (guardPublicUrl (dialing h) raw) t Q E) :
    Q () (t ++ [.checked raw host [.v4 ⟨8, 8, 8, 8⟩]]) := by
  unfold guardHost at hread
  split at hread
  · rename_i parsed hparse
    split_ifs at hread with hscheme
    simp only [guardPublicUrl, ends_bind, ends_lift, ends_observe, ends_record] at hends
    have hpassed := (((hends.1 parsed (mapError_eq_ok.2 hparse)).1 ()
      (ensure_eq_ok.2 hscheme)).1 host (okOr_eq_ok.2 hread)).1 _ rfl
    exact (ends_lift _).1 hpassed |>.1 () rfl
  · cases hread

end Converse

/-- **A fetch connects to hosts that were cleared for the URL, whatever answers, exactly when git
stays at the host that the guard reads in it.** -/
theorem fetch_guarded_iff (host : Host) {programs : Programs} (hdoc : programs.Documented)
    (source : SourceRef) :
    (∀ world : World programs, Guarded (fetch host world source).trace) ↔
      StaysAtUrl programs source := by
  cases source with
  | archive uri sourceSha256 =>
    refine iff_of_true (fun world => ?_) trivial
    exact ends_trace.1 (guarded_fetchArchive host hdoc uri sourceSha256 justified_nil)
  | git repo rev =>
    constructor
    · intro hguarded url dialed hreaches
      obtain ⟨args, hargs, hdials⟩ : ∃ args,
          (args = cloneArgs programs.tmp repo ∨ args = archiveArgs programs.tmp rev) ∧
            programs.gitDials args url dialed := by
        rcases hreaches with hdials | hdials
        · exact ⟨_, Or.inl rfl, hdials⟩
        · exact ⟨_, Or.inr rfl, hdials⟩
      have hends := ends_trace.2 (hguarded (dialing hdials))
      simp only [fetch, fetchGit] at hends
      split_ifs at hends with hhttp
      · refine ⟨hhttp, fun read hread => ?_⟩
        rw [ends_bind] at hends
        have hdialed := dialed_of_exportGit host hdials hargs
          (checked_of_guardPublicUrl hdials hread hends)
        obtain ⟨addrs, hmem, -⟩ := (justified_snoc.1 hdialed).2
        simp only [List.nil_append, List.mem_singleton, Event.checked.injEq] at hmem
        exact ⟨hmem.1, hmem.2.1⟩
      · have hdialed := dialed_of_exportGit host hdials hargs hends
        obtain ⟨addrs, hmem, -⟩ := (justified_snoc.1 hdialed).2
        exact absurd hmem List.not_mem_nil
    · intro hstays world
      refine ends_trace.1 ?_
      simp only [fetch, fetchGit]
      split_ifs with hhttp
      · refine (guarded_guardPublicUrl repo justified_nil).bind (fun _ _ h => h) ?_
        rintro _ t ⟨ht, read, hread, hcleared⟩
        refine guarded_exportGit host repo rev ht fun url dialed hdials => ?_
        obtain ⟨rfl, rfl⟩ := (hstays url dialed hdials).2 read hread
        exact hcleared
      · refine guarded_exportGit host repo rev justified_nil fun url dialed hdials => ?_
        exact absurd (hstays url dialed hdials).1 hhttp

/-! ## A repository of another scheme -/

namespace Sample

/-- A crate that knows these two URLs. -/
def urlCrate : UrlCrate where
  parse raw :=
    if raw = "https://example.org/pkg.git" then
      .ok ⟨"https", some "example.org", some 443, "https://example.org/pkg.git"⟩
    else if raw = "git://169.254.169.254/pkg.git" then
      .ok ⟨"git", some "169.254.169.254", none, "git://169.254.169.254/pkg.git"⟩
    else .error "relative URL without a base"
  join _ _ := .error "relative URL without a base"

/-- Programs that connect to the hosts of these URLs: git where it clones one of them. -/
def programs : Programs where
  url := urlCrate
  tar := tarCrate "/Cargo.toml"
  tempDir := "/tmp"
  uniqueToken := "1-0"
  httpDials url host := url = "https://example.org/pkg.git" ∧ host = "example.org"
  gitDials args url host := args = cloneArgs "/tmp/verify-src-1-0" url ∧
    (url = "https://example.org/pkg.git" ∧ host = "example.org" ∨
      url = "git://169.254.169.254/pkg.git" ∧ host = "169.254.169.254")

theorem programs_documented : programs.Documented where
  httpDials_eq := by
    rintro raw url host hparse - ⟨rfl, rfl⟩
    cases hparse
    rfl

/-- A machine for them. -/
def fetchHost : Host where
  hex := ⟨fun _ => "", fun _ => .error "odd number of digits"⟩
  sha256 _ := ⟨List.replicate 32 0, rfl⟩
  unicodeLower := id
  verifyFetchNetwork := none
  uniqueToken := "1-1"
  fetch _ := .error (.sourceFetch "not a source")
  tarEntries _ := .ok []
  writeFile _ _ := .ok ()

/-- The host of an `https://` repository is always cleared. -/
theorem https_cleared :
    guardHost programs "https://example.org/pkg.git" = some "example.org" ∧
      ∀ world : World programs,
        Guarded (fetch fetchHost world (.git "https://example.org/pkg.git" "HEAD")).trace := by
  refine ⟨rfl, ?_⟩
  refine (fetch_guarded_iff fetchHost programs_documented _).2 ?_
  rintro url dialed (⟨hargs, hdials⟩ | ⟨hargs, -⟩)
  · have hurl : url = "https://example.org/pkg.git" := by
      have hargs' : cloneArgs "/tmp/verify-src-1-0" "https://example.org/pkg.git" =
        cloneArgs "/tmp/verify-src-1-0" url := hargs
      simp only [cloneArgs, List.cons.injEq] at hargs'
      exact hargs'.2.2.2.2.2.1.symm
    subst hurl
    refine ⟨by decide, fun host hread => ⟨rfl, ?_⟩⟩
    obtain ⟨-, rfl⟩ | ⟨hother, -⟩ := hdials
    · exact Option.some.inj hread
    · exact absurd hother (by decide)
  · exact absurd (congrArg List.head? hargs) (by simp [archiveArgs, cloneArgs])

/-- git connects to the metadata service. -/
def metadataWorld : World programs :=
  have hdials : programs.gitDials (cloneArgs "/tmp/verify-src-1-0" "git://169.254.169.254/pkg.git")
      "git://169.254.169.254/pkg.git" "169.254.169.254" := ⟨rfl, Or.inr ⟨rfl, rfl⟩⟩
  dialing hdials

/-- The host of a `git://` repository, which is internal here, is connected to without a check. -/
theorem git_scheme_dialed :
    programs.Documented ∧
      (fetch fetchHost metadataWorld (.git "git://169.254.169.254/pkg.git" "HEAD")).trace =
        [.dialed "git://169.254.169.254/pkg.git" "169.254.169.254"] ∧
      isInternal (.v4 ⟨169, 254, 169, 254⟩) = true ∧
      ¬ Guarded
        (fetch fetchHost metadataWorld (.git "git://169.254.169.254/pkg.git" "HEAD")).trace := by
  have htrace :
      (fetch fetchHost metadataWorld (.git "git://169.254.169.254/pkg.git" "HEAD")).trace =
        [.dialed "git://169.254.169.254/pkg.git" "169.254.169.254"] := by decide +kernel
  refine ⟨programs_documented, htrace, by decide, ?_⟩
  rw [htrace]
  intro hguarded
  obtain ⟨addrs, hmem, -⟩ := hguarded [] _ [] rfl
  exact absurd hmem List.not_mem_nil

end Sample

end VerifierCore
end Sorofy
