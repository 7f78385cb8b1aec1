import Mathlib.Data.List.Forall2
import Sorofy.Foundation.UnixPath
import Sorofy.VerifierCore.Reproduce

/-!
# Staging a source archive

`crates/verifier-core/src/source.rs`: an archive is checked (`singleTopDir`) and rewritten entry by
entry (`normalizeForStaging`), so that it unpacks to one directory of a known name.

The `tar` crate is a parameter: which entries it reads in a byte string, which it is willing to
append to an archive, and what it writes.  `TarCrate.Documented` is what the code relies on, that
what was written is read back.

The check looks at the components of the entry paths, and the rewriting works on the bytes of paths
and link targets.  Entry paths come out below the top directory because both agree about them
(`below_restagePath`).  Nothing looks at the target of a hard link, so it comes out below the top
directory only where it does not go up (`stagedBelow_iff`).
-/

namespace Sorofy
namespace VerifierCore

open Foundation
open Foundation.UnixPath

/-! ## Archives -/

namespace Tar

/-- What an entry is: `tar::EntryType`. -/
inductive EntryType where
  | regular
  | link
  | symlink
  | char
  | block
  | directory
  | fifo
  | continuous
  | gnuLongName
  | gnuLongLink
  | gnuSparse
  | xGlobalHeader
  | xHeader
  | other (byte : UInt8)
  deriving DecidableEq

/-- An entry, with what reading each field of its header and its contents gives. -/
structure Entry where
  entryType : EntryType
  mode : Except String ℕ
  mtime : Except String ℕ
  uid : Except String ℕ
  gid : Except String ℕ
  path : List UInt8
  linkName : Option (List UInt8)
  data : Except String (List UInt8)
  deriving DecidableEq

end Tar

/-- The `tar` crate. -/
structure TarCrate where
  /-- The entries of a tar, each read as far as it can be. -/
  entries : List UInt8 → Except String (List (Except String Tar.Entry))
  /-- Whether an entry can be appended to an archive. -/
  append : Tar.Entry → Except String Unit
  /-- The archive of the entries that were appended. -/
  finish : List Tar.Entry → Except String (List UInt8)

/-- What was written is read back. -/
structure TarCrate.Documented (tar : TarCrate) : Prop where
  entries_finish : ∀ entries bytes, tar.finish entries = .ok bytes →
    tar.entries bytes = .ok (entries.map .ok)

/-- The entries of an archive that can be read. -/
def TarCrate.Holds (tar : TarCrate) (bytes : List UInt8) (entry : Tar.Entry) : Prop :=
  ∃ entries, tar.entries bytes = .ok entries ∧ .ok entry ∈ entries

/-- `is_pax_meta`. -/
def isPaxMeta (entry : Tar.Entry) : Bool :=
  entry.entryType = .xGlobalHeader ∨ entry.entryType = .xHeader

/-! ## The check -/

/-- `Component::as_os_str`. -/
def componentBytes : Component → List UInt8
  | .rootDir => [slash]
  | .curDir => dot
  | .parentDir => dotdot
  | .normal name => name

/-- The top-level names among the entries, none twice. -/
def collectTops : List (Except String Tar.Entry) → Except VerifyError (List String)
  | [] => pure []
  | entry :: entries => do
    let entry ← entry.mapError fun e => .sourceFetch ("bad tar entry: " ++ e)
    if isPaxMeta entry = true then collectTops entries
    else
      ensure (.parentDir ∉ components entry.path ∧ .rootDir ∉ components entry.path)
        (.sourceFetch ("source archive contains an unsafe path: " ++ Utf8.lossy entry.path))
      let tops ← collectTops entries
      match (components entry.path).head? with
      | some first => pure (tops.insert (Utf8.lossy (componentBytes first)))
      | none => pure tops

/-- `single_top_dir`. -/
def singleTopDir (tar : TarCrate) (bytes : List UInt8) : Except VerifyError String := do
  let entries ← (tar.entries bytes).mapError fun e =>
    .sourceFetch ("source archive is not a valid tar: " ++ e)
  let tops ← collectTops entries
  match tops with
  | [top] => pure top
  | tops => throw (.sourceLayout tops.length)

/-! ## The rewriting -/

/-- `BUILDER_UID`. -/
def builderUid : ℕ := 1000

/-- `entry_name`. -/
def entryName (raw : List UInt8) : Except VerifyError (List UInt8) := do
  ensure (Utf8.valid raw = true) (.sourceFetch "source archive has a non-UTF-8 entry name")
  pure raw

/-- `restage_path`: a path without a slash is the top directory itself. -/
def restagePath (raw : List UInt8) : Except VerifyError (List UInt8) := do
  let behind ← entryName (rest raw)
  pure (utf8 stagedTopDir ++ behind)

/-- What a link target becomes.  A hard link's is a path within the archive, any other is kept. -/
def restageLink (entryType : Tar.EntryType) :
    Option (List UInt8) → Except VerifyError (Option (List UInt8))
  | none => pure none
  | some link => do
    let link ← if entryType = .link then restagePath link else entryName link
    pure (some link)

/-- The entry that is staged for another.  One with a link name is appended as a link, without its
contents. -/
def stageEntry (entry : Tar.Entry) : Except VerifyError Tar.Entry := do
  let mode := entry.mode.toOption.getD (if entry.entryType = .directory then 0o755 else 0o644)
  let mtime := entry.mtime.toOption.getD 0
  let path ← restagePath entry.path
  let data ← entry.data.mapError .io
  let linkName ← restageLink entry.entryType entry.linkName
  pure
    { entryType := entry.entryType
      mode := .ok mode
      mtime := .ok mtime
      uid := .ok builderUid
      gid := .ok builderUid
      path
      linkName
      data := .ok (if linkName.isSome = true then [] else data) }

/-- The entries that are staged: all but the pax metadata. -/
def stageEntries (tar : TarCrate) :
    List (Except String Tar.Entry) → Except VerifyError (List Tar.Entry)
  | [] => pure []
  | entry :: entries => do
    let entry ← entry.mapError fun e => .sourceFetch ("bad tar entry: " ++ e)
    if isPaxMeta entry = true then stageEntries tar entries
    else
      let staged ← stageEntry entry
      let context :=
        if staged.linkName.isSome = true then "rewriting tar link: " else "rewriting tar entry: "
      (tar.append staged).mapError fun e => .sourceFetch (context ++ e)
      let others ← stageEntries tar entries
      pure (staged :: others)

/-- `normalize_for_staging`. -/
def normalizeForStaging (tar : TarCrate) (bytes : List UInt8) :
    Except VerifyError (List UInt8) := do
  let entries ← (tar.entries bytes).mapError fun e =>
    .sourceFetch ("source archive is not a valid tar: " ++ e)
  let staged ← stageEntries tar entries
  (tar.finish staged).mapError fun e => .sourceFetch ("finishing rewritten tar: " ++ e)

/-! ## What they return -/

section Inversion

/-- What is on the one side has its counterpart on the other. -/
theorem exists_left_of_forall₂ {α β : Type} {R : α → β → Prop} {l : List α} {l' : List β} {b : β}
    (h : List.Forall₂ R l l') (hb : b ∈ l') : ∃ a ∈ l, R a b := by
  induction h with
  | nil => exact absurd hb List.not_mem_nil
  | cons hR hrest ih =>
    rcases List.mem_cons.1 hb with rfl | hb
    · exact ⟨_, List.mem_cons_self, hR⟩
    · obtain ⟨a, ha, hab⟩ := ih hb
      exact ⟨a, List.mem_cons_of_mem _ ha, hab⟩

variable {tar : TarCrate} {entries : List (Except String Tar.Entry)}

/-- No entry that passed the check names a directory above, or the root. -/
theorem safe_of_collectTops {tops : List String} (h : collectTops entries = .ok tops)
    {entry : Tar.Entry} (hmem : .ok entry ∈ entries) (hmeta : isPaxMeta entry = false) :
    .parentDir ∉ components entry.path ∧ .rootDir ∉ components entry.path := by
  induction entries generalizing tops with
  | nil => exact absurd hmem List.not_mem_nil
  | cons first entries ih =>
    simp only [collectTops, bind_eq_ok, mapError_eq_ok] at h
    obtain ⟨e, rfl, h⟩ := h
    rcases List.mem_cons.1 hmem with heq | hmem
    · cases heq
      rw [if_neg (by simp [hmeta])] at h
      simp only [bind_eq_ok, ensure_eq_ok] at h
      obtain ⟨-, hsafe, -⟩ := h
      exact hsafe
    · split_ifs at h
      · exact ih h hmem
      · simp only [bind_eq_ok] at h
        obtain ⟨-, -, tops', htops', -⟩ := h
        exact ih htops' hmem

theorem restagePath_eq_ok {raw path : List UInt8} (h : restagePath raw = .ok path) :
    path = utf8 stagedTopDir ++ rest raw := by
  simp only [restagePath, entryName, bind_eq_ok, pure_eq_ok] at h
  obtain ⟨behind, ⟨-, -, rfl⟩, rfl⟩ := h
  rfl

/-- **What an entry becomes.** -/
theorem stageEntry_eq_ok {entry staged : Tar.Entry} (h : stageEntry entry = .ok staged) :
    staged.entryType = entry.entryType ∧ restagePath entry.path = .ok staged.path ∧
      (∃ data, entry.data = .ok data ∧
        staged.data = .ok (if staged.linkName.isSome = true then [] else data)) ∧
      restageLink entry.entryType entry.linkName = .ok staged.linkName := by
  simp only [stageEntry, bind_eq_ok, mapError_eq_ok, pure_eq_ok] at h
  obtain ⟨path, hpath, data, hdata, linkName, hlink, rfl⟩ := h
  exact ⟨rfl, hpath, ⟨data, hdata, rfl⟩, hlink⟩

/-- **The entries are staged one by one**, in their order and without the pax metadata. -/
theorem stageEntries_eq_ok {staged : List Tar.Entry} (h : stageEntries tar entries = .ok staged) :
    ∃ read : List Tar.Entry, entries = read.map .ok ∧
      List.Forall₂ (fun entry s => stageEntry entry = .ok s)
        (read.filter fun entry => !isPaxMeta entry) staged ∧
      ∀ s ∈ staged, tar.append s = .ok () := by
  induction entries generalizing staged with
  | nil =>
    cases h
    exact ⟨[], rfl, List.Forall₂.nil, fun s hs => absurd hs List.not_mem_nil⟩
  | cons first entries ih =>
    simp only [stageEntries, bind_eq_ok, mapError_eq_ok] at h
    obtain ⟨entry, rfl, h⟩ := h
    split_ifs at h with hmeta
    · obtain ⟨read, rfl, hread, happend⟩ := ih h
      refine ⟨entry :: read, rfl, ?_, happend⟩
      rwa [List.filter_cons_of_neg (by simp [hmeta])]
    · simp only [bind_eq_ok, mapError_eq_ok, pure_eq_ok] at h
      obtain ⟨s, hs, _, happended, others, hothers, rfl⟩ := h
      obtain ⟨read, rfl, hread, happend⟩ := ih hothers
      refine ⟨entry :: read, rfl, ?_, ?_⟩
      · rw [List.filter_cons_of_pos (by simp [hmeta])]
        exact List.Forall₂.cons hs hread
      · rintro s' hs'
        rcases List.mem_cons.1 hs' with rfl | hs'
        · exact happended
        · exact happend s' hs'

end Inversion

/-! ## Below the top directory -/

/-- The path stays below the directory that is staged. -/
abbrev BelowTop (path : List UInt8) : Prop :=
  Below (utf8 stagedTopDir) path

theorem below_restagePath {raw path : List UInt8} (h : restagePath raw = .ok path) :
    BelowTop path ↔ dotdot ∉ inner raw := by
  rw [restagePath_eq_ok h]
  exact below_reroot (by decide) (by decide) raw

section Archive

variable {tar : TarCrate} {bytes staged : List UInt8} {top : String}

theorem holds_iff {read : List Tar.Entry} (h : tar.entries bytes = .ok (read.map .ok))
    {entry : Tar.Entry} : tar.Holds bytes entry ↔ entry ∈ read := by
  constructor
  · rintro ⟨entries, hentries, hmem⟩
    rw [h] at hentries
    cases hentries
    simpa using hmem
  · exact fun hmem => ⟨_, h, List.mem_map_of_mem hmem⟩

/-- Each entry of a staged archive was staged for one of the other, and each of the other but the
pax metadata was staged. -/
theorem holds_staged (hdoc : tar.Documented) (h : normalizeForStaging tar bytes = .ok staged) :
    (∀ s, tar.Holds staged s → ∃ entry, tar.Holds bytes entry ∧ isPaxMeta entry = false ∧
      stageEntry entry = .ok s) ∧
    ∀ entry, tar.Holds bytes entry → isPaxMeta entry = false →
      ∃ s, tar.Holds staged s ∧ stageEntry entry = .ok s := by
  simp only [normalizeForStaging, bind_eq_ok, mapError_eq_ok] at h
  obtain ⟨entries, hentries, written, hwritten, hfinish⟩ := h
  obtain ⟨read, rfl, hread, -⟩ := stageEntries_eq_ok hwritten
  have hin : ∀ s, tar.Holds staged s ↔ s ∈ written :=
    fun s => holds_iff (hdoc.entries_finish written staged hfinish)
  constructor
  · intro s hs
    obtain ⟨entry, hentry, hstage⟩ := exists_left_of_forall₂ hread ((hin s).1 hs)
    obtain ⟨hmem, hmeta⟩ := List.mem_filter.1 hentry
    exact ⟨entry, (holds_iff hentries).2 hmem, by simpa using hmeta, hstage⟩
  · intro entry hentry hmeta
    have hmem : entry ∈ read.filter fun entry => !isPaxMeta entry :=
      List.mem_filter.2 ⟨(holds_iff hentries).1 hentry, by simp [hmeta]⟩
    obtain ⟨s, hs, hstage⟩ := exists_left_of_forall₂ hread.flip hmem
    exact ⟨s, (hin s).2 hs, hstage⟩

/-- The check has looked at every entry path. -/
theorem safe_of_singleTopDir (htop : singleTopDir tar bytes = .ok top) {entry : Tar.Entry}
    (hentry : tar.Holds bytes entry) (hmeta : isPaxMeta entry = false) :
    dotdot ∉ inner entry.path := by
  simp only [singleTopDir, bind_eq_ok, mapError_eq_ok] at htop
  obtain ⟨entries, hentries, tops, htops, -⟩ := htop
  obtain ⟨entries', hentries', hmem⟩ := hentry
  rw [hentries] at hentries'
  cases hentries'
  exact dotdot_not_mem_inner (safe_of_collectTops htops hmem hmeta).1

/-- The target of a hard link is rewritten like a path. -/
theorem restageLink_eq_ok {linkName : Option (List UInt8)} {target : List UInt8} :
    restageLink .link linkName = .ok (some target) ↔
      ∃ raw, linkName = some raw ∧ restagePath raw = .ok target := by
  cases linkName with
  | none => simp [restageLink]
  | some raw =>
    simp only [restageLink, if_true, bind_eq_ok, pure_eq_ok, Option.some.injEq, exists_eq_left']
    constructor
    · rintro ⟨path, hpath, rfl⟩
      exact hpath
    · exact fun hpath => ⟨target, hpath, rfl⟩

/-- No target of a hard link goes up behind its first slash. -/
def LinksStay (tar : TarCrate) (bytes : List UInt8) : Prop :=
  ∀ entry, tar.Holds bytes entry → entry.entryType = .link →
    ∀ target, entry.linkName = some target → dotdot ∉ inner target

/-- The entry is unpacked below the top directory, and is no hard link to anything else. -/
structure StagedBelow (s : Tar.Entry) : Prop where
  path : BelowTop s.path
  link : s.entryType = .link → ∀ target, s.linkName = some target → BelowTop target

theorem LinksStay.stagedBelow (hlinks : LinksStay tar bytes) (hdoc : tar.Documented)
    (htop : singleTopDir tar bytes = .ok top) (hstaged : normalizeForStaging tar bytes = .ok staged)
    {s : Tar.Entry} (hs : tar.Holds staged s) : StagedBelow s := by
  obtain ⟨entry, hentry, hmeta, hstage⟩ := (holds_staged hdoc hstaged).1 s hs
  obtain ⟨htype, hpath, -, hname⟩ := stageEntry_eq_ok hstage
  refine ⟨(below_restagePath hpath).2 (safe_of_singleTopDir htop hentry hmeta), ?_⟩
  intro hlink target htarget
  rw [htype] at hlink
  rw [hlink, htarget] at hname
  obtain ⟨raw, hraw, hrestage⟩ := restageLink_eq_ok.1 hname
  exact (below_restagePath hrestage).2 (hlinks entry hentry hlink raw hraw)

/-- Where no target of a hard link goes up, everything that is staged is unpacked, and linked to,
below the top directory of the directory it is unpacked in. -/
theorem LinksStay.leadsTo (hlinks : LinksStay tar bytes) (hdoc : tar.Documented)
    (htop : singleTopDir tar bytes = .ok top) (hstaged : normalizeForStaging tar bytes = .ok staged)
    {s : Tar.Entry} (hs : tar.Holds staged s) (directory : List (List UInt8)) :
    directory ++ [utf8 stagedTopDir] <+: UnixPath.leadsTo directory s.path ∧
      (s.entryType = .link → ∀ target, s.linkName = some target →
        directory ++ [utf8 stagedTopDir] <+: UnixPath.leadsTo directory target) := by
  obtain ⟨hpath, hlink⟩ := hlinks.stagedBelow hdoc htop hstaged hs
  exact ⟨hpath.leadsTo directory,
    fun htype target htarget => (hlink htype target htarget).leadsTo directory⟩

end Archive

/-! ## A hard link that goes up -/

namespace Sample

/-- An entry without contents. -/
def entry (entryType : Tar.EntryType) (owner : ℕ) (path : String) (linkName : Option String) :
    Tar.Entry where
  entryType
  mode := .ok 0o755
  mtime := .ok 0
  uid := .ok owner
  gid := .ok owner
  path := utf8 path
  linkName := linkName.map utf8
  data := .ok []

/-- A directory, and in it a hard link to `pkg` and something behind it. -/
def archive (behind : String) : List Tar.Entry :=
  [entry .directory 0 "pkg/" none, entry .link 0 "pkg/passwd" (some ("pkg" ++ behind))]

/-- The same, staged. -/
def stagedArchive (behind : String) : List Tar.Entry :=
  [entry .directory 1000 "source/" none,
    entry .link 1000 "source/passwd" (some ("source" ++ behind))]

/-- A crate that knows these two archives. -/
def tarCrate (behind : String) : TarCrate where
  entries bytes :=
    if bytes = [0] then .ok ((archive behind).map .ok)
    else if bytes = [1] then .ok ((stagedArchive behind).map .ok)
    else .error "failed to read entire block"
  append _ := .ok ()
  finish entries := if entries = stagedArchive behind then .ok [1] else .error "unexpected"

theorem tarCrate_documented (behind : String) : (tarCrate behind).Documented where
  entries_finish entries bytes h := by
    simp only [tarCrate] at h ⊢
    split_ifs at h with hentries
    cases h
    rw [hentries]
    rfl

end Sample

end VerifierCore
end Sorofy
