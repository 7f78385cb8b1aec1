import Sorofy.Foundation.Text
import Sorofy.VerifierCore.Staging

/-!
# One canonical tree

What is staged for an archive is to be the same tree under a name of its own: each entry with its
type, mode, time and contents, and the builder's.  `RootedAt` is an archive of one tree, `Restaged`
what an entry of it should become, and `SameButTop` relates the entries of two archives that differ
in the name of the tree.

Link names are refused where they are not UTF-8, and an entry with a link name is staged without
its contents.  Apart from these two (`LinksOnly`) the whole tree is staged, and of two archives that
differ in the name of the tree the same one (`stages_tree`).
-/

namespace Sorofy
namespace VerifierCore

open Foundation
open Foundation.UnixPath

/-! ## Trees -/

/-- The bytes are the end of a path behind its first part. -/
def Behind (behind : List UInt8) : Prop :=
  ∀ b ∈ behind.head?, b = slash

instance (behind : List UInt8) : Decidable (Behind behind) :=
  inferInstanceAs (Decidable (∀ b ∈ behind.head?, b = slash))

/-- The path is called this, or something behind it. -/
def CalledBehind (first behind path : List UInt8) : Prop :=
  slash ∉ first ∧ Behind behind ∧ path = first ++ behind

/-- The second path is the first with its first part replaced. -/
def Renamed (path path' : List UInt8) : Prop :=
  ∃ first first' behind, CalledBehind first behind path ∧ CalledBehind first' behind path'

/-- The entries of an archive that are not pax metadata. -/
def nonPax (read : List Tar.Entry) : List Tar.Entry :=
  read.filter fun entry => !isPaxMeta entry

/-- The archive is of one tree of this name: each entry but the pax metadata can be read, and is
called by the name or something behind it, in UTF-8 and without going up. -/
structure RootedAt (top : List UInt8) (read : List Tar.Entry) : Prop where
  called : ∀ entry ∈ nonPax read, ∃ behind, CalledBehind top behind entry.path
  valid : ∀ entry ∈ nonPax read, Utf8.valid entry.path = true
  down : ∀ entry ∈ nonPax read, .parentDir ∉ components entry.path
  readable : ∀ entry ∈ nonPax read, ∃ data, entry.data = .ok data

/-- Entries with a link name have no contents, and what is staged of the name is UTF-8. -/
def LinksOnly (read : List Tar.Entry) : Prop :=
  ∀ entry ∈ nonPax read, ∀ target ∈ entry.linkName, entry.data = .ok [] ∧
    Utf8.valid (if entry.entryType = .link then rest target else target) = true

/-- What a link target is to become: of a hard link the first part is replaced. -/
def RestagedLink (entryType : Tar.EntryType) :
    Option (List UInt8) → Option (List UInt8) → Prop
  | none, target' => target' = none
  | some target, target' =>
    if entryType = .link then
      ∃ first behind, CalledBehind first behind target ∧
        target' = some (utf8 stagedTopDir ++ behind)
    else target' = some target

/-- What an entry of a tree of this name is to become. -/
structure Restaged (top : List UInt8) (entry staged : Tar.Entry) : Prop where
  entryType : staged.entryType = entry.entryType
  mode : ∀ mode, entry.mode = .ok mode → staged.mode = .ok mode
  mtime : ∀ mtime, entry.mtime = .ok mtime → staged.mtime = .ok mtime
  owner : staged.uid = .ok 1000 ∧ staged.gid = .ok 1000
  data : staged.data = entry.data
  path : ∃ behind, CalledBehind top behind entry.path ∧
    staged.path = utf8 stagedTopDir ++ behind
  link : RestagedLink entry.entryType entry.linkName staged.linkName

/-- The link targets agree, those of hard links behind their first part. -/
def SameLink (entryType : Tar.EntryType) : Option (List UInt8) → Option (List UInt8) → Prop
  | some target, some target' =>
    if entryType = .link then Renamed target target' else target = target'
  | target, target' => target = target'

/-- The entries agree in all but ownership and the names of their trees. -/
structure SameButTop (entry entry' : Tar.Entry) : Prop where
  entryType : entry.entryType = entry'.entryType
  mode : entry.mode.toOption = entry'.mode.toOption
  mtime : entry.mtime.toOption = entry'.mtime.toOption
  data : entry.data = entry'.data
  path : Renamed entry.path entry'.path
  link : SameLink entry.entryType entry.linkName entry'.linkName

/-- The crate appends entries below the directory they are unpacked in, and finishes the archive of
what is staged. -/
structure TarCrate.Writes (tar : TarCrate) (read : List Tar.Entry) : Prop where
  append_ok : ∀ entry, .parentDir ∉ components entry.path → .rootDir ∉ components entry.path →
    tar.append entry = .ok ()
  finish_ok : ∀ staged, stageEntries tar (read.map .ok) = .ok staged →
    ∃ bytes, tar.finish staged = .ok bytes

/-- The archive of these bytes holds the entries that the tree is to become, in their order and
under paths that are as distinct as they were. -/
def HoldsTree (tar : TarCrate) (top : List UInt8) (read : List Tar.Entry) (bytes : List UInt8) :
    Prop :=
  ∃ written, tar.entries bytes = .ok (written.map .ok) ∧
    List.Forall₂ (Restaged top) (nonPax read) written ∧
    ∀ p ∈ (nonPax read).zip written, ∀ p' ∈ (nonPax read).zip written,
      p.2.path = p'.2.path → p.1.path = p'.1.path

/-! ## Paths -/

section Paths

variable {top first behind path path' : List UInt8}

theorem CalledBehind.rest_eq (h : CalledBehind first behind path) : rest path = behind := by
  obtain ⟨hfirst, hbehind, rfl⟩ := h
  exact rest_append hfirst hbehind

/-- Every path is called something. -/
theorem calledBehind_rest (path : List UInt8) :
    CalledBehind (path.takeWhile (· ≠ slash)) (rest path) path := by
  refine ⟨fun hmem => by simpa using List.mem_takeWhile_imp hmem, fun b hb => ?_,
    (List.takeWhile_append_dropWhile).symm⟩
  have hhead := List.head?_dropWhile_not (· ≠ slash) path
  rw [rest] at hb
  rw [Option.mem_def.1 hb] at hhead
  simpa using hhead

theorem Renamed.rest_eq (h : Renamed path path') : rest path = rest path' := by
  obtain ⟨first, first', behind, hcalled, hcalled'⟩ := h
  rw [hcalled.rest_eq, hcalled'.rest_eq]

theorem valid_rest (h : Utf8.valid path = true) : Utf8.valid (rest path) = true := by
  obtain ⟨-, hbehind, hpath⟩ := calledBehind_rest path
  cases hrest : rest path with
  | nil => rfl
  | cons b behind =>
    rw [hrest] at hbehind hpath
    rw [hbehind b rfl] at hpath ⊢
    rw [hpath] at h
    exact Utf8.valid_of_append (by decide) _ behind h

theorem restagePath_of_valid (h : Utf8.valid (rest path) = true) :
    restagePath path = .ok (utf8 stagedTopDir ++ rest path) := by
  simp [restagePath, entryName, ensure, h]

theorem restagePath_congr (h : rest path = rest path') : restagePath path = restagePath path' := by
  rw [restagePath, restagePath, h]

end Paths

/-! ## Entry by entry -/

section Entries

variable {tar : TarCrate} {top top' : List UInt8} {entry entry' s : Tar.Entry}
  {read read' : List Tar.Entry}

/-- The header of a staged entry. -/
theorem stageEntry_header (h : stageEntry entry = .ok s) :
    s.mode = .ok (entry.mode.toOption.getD (if entry.entryType = .directory then 0o755 else 0o644)) ∧
      s.mtime = .ok (entry.mtime.toOption.getD 0) ∧ s.uid = .ok builderUid ∧
      s.gid = .ok builderUid := by
  simp only [stageEntry, bind_eq_ok, mapError_eq_ok, pure_eq_ok] at h
  obtain ⟨path, -, data, -, linkName, -, rfl⟩ := h
  exact ⟨rfl, rfl, rfl, rfl⟩

/-- A link target that is staged is what it should be. -/
theorem restagedLink_of_restageLink {entryType : Tar.EntryType} {link link' : Option (List UInt8)}
    (h : restageLink entryType link = .ok link') : RestagedLink entryType link link' := by
  cases link with
  | none => exact (pure_eq_ok.1 h).symm
  | some target =>
    by_cases hlink : entryType = .link
    · simp only [restageLink, if_pos hlink, bind_eq_ok, pure_eq_ok] at h
      obtain ⟨target', htarget, rfl⟩ := h
      rw [RestagedLink, if_pos hlink]
      exact ⟨_, _, calledBehind_rest target, by rw [restagePath_eq_ok htarget]⟩
    · simp only [restageLink, if_neg hlink, entryName, bind_eq_ok, pure_eq_ok] at h
      obtain ⟨target', ⟨-, -, rfl⟩, rfl⟩ := h
      rw [RestagedLink, if_neg hlink]

theorem restageLink_isSome {entryType : Tar.EntryType} {link link' : Option (List UInt8)}
    (h : restageLink entryType link = .ok link') : link'.isSome = link.isSome := by
  cases link with
  | none => rw [← pure_eq_ok.1 h]
  | some target =>
    rw [restageLink] at h
    split_ifs at h <;> simp only [bind_eq_ok, pure_eq_ok] at h <;>
      obtain ⟨target', -, rfl⟩ := h <;> rfl

theorem restageLink_of_valid {entryType : Tar.EntryType} {link : Option (List UInt8)}
    (h : ∀ target ∈ link, Utf8.valid (if entryType = .link then rest target else target) = true) :
    ∃ link', restageLink entryType link = .ok link' := by
  cases link with
  | none => exact ⟨none, rfl⟩
  | some target =>
    have hvalid := h target rfl
    by_cases hlink : entryType = .link
    · rw [if_pos hlink] at hvalid
      refine ⟨some (utf8 stagedTopDir ++ rest target), ?_⟩
      rw [restageLink, if_pos hlink, restagePath_of_valid hvalid]
      rfl
    · rw [if_neg hlink] at hvalid
      refine ⟨some target, ?_⟩
      rw [restageLink, if_neg hlink, entryName, hvalid]
      rfl

theorem restageLink_congr {entryType : Tar.EntryType} {link link' : Option (List UInt8)}
    (h : SameLink entryType link link') : restageLink entryType link = restageLink entryType link' := by
  cases link with
  | none =>
    cases link' with
    | none => rfl
    | some target' => cases h
  | some target =>
    cases link' with
    | none => cases h
    | some target' =>
      simp only [SameLink] at h
      by_cases hlink : entryType = .link
      · rw [if_pos hlink] at h
        rw [restageLink, restageLink, if_pos hlink, if_pos hlink, restagePath_congr h.rest_eq]
      · rw [if_neg hlink] at h
        rw [h]

/-- An entry that is staged with its contents becomes what it should. -/
theorem restaged_of_stageEntry (hcalled : ∃ behind, CalledBehind top behind entry.path)
    (hbare : ∀ target ∈ entry.linkName, entry.data = .ok []) (h : stageEntry entry = .ok s) :
    Restaged top entry s := by
  obtain ⟨htype, hpath, ⟨data, hdata, hstaged⟩, hlink⟩ := stageEntry_eq_ok h
  obtain ⟨hmode, hmtime, huid, hgid⟩ := stageEntry_header h
  refine ⟨htype, fun mode hm => ?_, fun mtime hm => ?_, ⟨huid, hgid⟩, ?_, ?_,
    restagedLink_of_restageLink hlink⟩
  · rw [hmode, hm]
    rfl
  · rw [hmtime, hm]
    rfl
  · rw [hstaged, hdata, restageLink_isSome hlink]
    split_ifs with hsome
    · obtain ⟨target, htarget⟩ := Option.isSome_iff_exists.1 hsome
      rw [← hdata, hbare target htarget]
    · rfl
  · obtain ⟨behind, hbehind⟩ := hcalled
    exact ⟨behind, hbehind, by rw [restagePath_eq_ok hpath, hbehind.rest_eq]⟩

/-- An entry with UTF-8 names that can be read is staged. -/
theorem exists_stageEntry (hpath : Utf8.valid entry.path = true)
    (hdata : ∃ data, entry.data = .ok data)
    (hlink : ∀ target ∈ entry.linkName,
      Utf8.valid (if entry.entryType = .link then rest target else target) = true) :
    ∃ s, stageEntry entry = .ok s := by
  obtain ⟨data, hdata⟩ := hdata
  obtain ⟨link', hlink⟩ := restageLink_of_valid hlink
  rw [stageEntry, restagePath_of_valid (valid_rest hpath), hdata, hlink]
  exact ⟨_, rfl⟩

theorem stageEntry_congr (h : SameButTop entry entry') : stageEntry entry = stageEntry entry' := by
  rw [stageEntry, stageEntry, restagePath_congr h.path.rest_eq, restageLink_congr h.link,
    h.entryType, h.mode, h.mtime, h.data]

theorem mem_nonPax : entry ∈ nonPax read ↔ entry ∈ read ∧ isPaxMeta entry = false := by
  simp [nonPax]

/-- The pax metadata is skipped. -/
theorem stageEntries_nonPax (read : List Tar.Entry) :
    stageEntries tar (read.map .ok) = stageEntries tar ((nonPax read).map .ok) := by
  induction read with
  | nil => rfl
  | cons entry read ih =>
    cases hmeta : isPaxMeta entry with
    | true =>
      rw [nonPax, List.filter_cons_of_neg (by simp [hmeta]), List.map_cons, stageEntries]
      simp only [Except.mapError, ok_bind, if_pos hmeta]
      exact ih
    | false =>
      rw [nonPax, List.filter_cons_of_pos (by simp [hmeta]), List.map_cons, List.map_cons,
        stageEntries, stageEntries, ih]
      rfl

/-- Entries that can each be staged, and are appended, are staged. -/
theorem exists_stageEntries
    (h : ∀ entry ∈ read, ∃ s, stageEntry entry = .ok s ∧ tar.append s = .ok ()) :
    ∃ staged, stageEntries tar (read.map .ok) = .ok staged := by
  induction read with
  | nil => exact ⟨[], rfl⟩
  | cons entry read ih =>
    obtain ⟨staged, hstaged⟩ := ih fun e he => h e (List.mem_cons_of_mem _ he)
    obtain ⟨s, hs, happend⟩ := h entry List.mem_cons_self
    rw [List.map_cons, stageEntries]
    simp only [Except.mapError, ok_bind, hs, happend, hstaged]
    split_ifs
    · exact ⟨staged, rfl⟩
    · exact ⟨s :: staged, rfl⟩

theorem isPaxMeta_congr (h : entry.entryType = entry'.entryType) :
    isPaxMeta entry = isPaxMeta entry' := by
  simp only [isPaxMeta, h]

theorem stageEntries_congr (h : List.Forall₂ SameButTop read read') :
    stageEntries tar (read.map .ok) = stageEntries tar (read'.map .ok) := by
  induction h with
  | nil => rfl
  | cons hsame _ ih =>
    have hmeta := isPaxMeta_congr hsame.entryType
    rw [List.map_cons, List.map_cons, stageEntries, stageEntries, ih]
    simp only [Except.mapError, ok_bind, hmeta, stageEntry_congr hsame]

end Entries

/-! ## The whole archive -/

section Archives

variable {tar : TarCrate} {top bytes : List UInt8} {read : List Tar.Entry}

theorem Restaged.path_inj {entry entry' s s' : Tar.Entry} (h : Restaged top entry s)
    (h' : Restaged top entry' s') (hpath : s.path = s'.path) : entry.path = entry'.path := by
  obtain ⟨behind, hcalled, hs⟩ := h.path
  obtain ⟨behind', hcalled', hs'⟩ := h'.path
  rw [hs, hs'] at hpath
  rw [hcalled.2.2, hcalled'.2.2, List.append_cancel_left hpath]

theorem normalizeForStaging_eq (hread : tar.entries bytes = .ok (read.map .ok)) :
    normalizeForStaging tar bytes = (do
      let staged ← stageEntries tar ((nonPax read).map .ok)
      (tar.finish staged).mapError fun e => .sourceFetch ("finishing rewritten tar: " ++ e)) := by
  rw [normalizeForStaging, hread, ← stageEntries_nonPax]
  rfl

/-- A tree is staged, each entry as what it should become. -/
theorem RootedAt.stages (htop : RootedAt top read) (hlinks : LinksOnly read)
    (hwrites : tar.Writes read) : ∃ staged bytes, stageEntries tar (read.map .ok) = .ok staged ∧
      tar.finish staged = .ok bytes ∧ List.Forall₂ (Restaged top) (nonPax read) staged := by
  have hentry : ∀ entry ∈ nonPax read, ∃ s, stageEntry entry = .ok s ∧ tar.append s = .ok () := by
    intro entry hmem
    obtain ⟨s, hs⟩ := exists_stageEntry (htop.valid entry hmem) (htop.readable entry hmem)
      fun target htarget => (hlinks entry hmem target htarget).2
    have hbelow : BelowTop s.path :=
      (below_restagePath (stageEntry_eq_ok hs).2.1).2 (dotdot_not_mem_inner (htop.down entry hmem))
    exact ⟨s, hs, hwrites.append_ok s hbelow.down hbelow.relative⟩
  obtain ⟨staged, hstaged⟩ := exists_stageEntries hentry
  rw [← stageEntries_nonPax] at hstaged
  obtain ⟨bytes, hbytes⟩ := hwrites.finish_ok staged hstaged
  obtain ⟨read', hread', hforall, -⟩ := stageEntries_eq_ok hstaged
  obtain rfl : read = read' := List.map_injective_iff.2 (fun _ _ h => Except.ok.inj h) hread'
  refine ⟨staged, bytes, hstaged, hbytes, List.forall₂_iff_zip.2 ⟨hforall.length_eq, ?_⟩⟩
  intro entry s hzip
  have hmem := (List.of_mem_zip hzip).1
  exact restaged_of_stageEntry (htop.called entry hmem)
    (fun target htarget => (hlinks entry hmem target htarget).1)
    ((List.forall₂_iff_zip.1 hforall).2 hzip)

end Archives

namespace Sample

/-- The global header that some archives start with. -/
def paxHeader : Tar.Entry :=
  { entry .xGlobalHeader 0 "pax_global_header" none with data := .ok (utf8 "52 comment=abc\n") }

/-- A script, with what its header has for a link name. -/
def script (owner : ℕ) (path : String) (linkName : Option (List UInt8)) : Tar.Entry :=
  { entry .regular owner path none with linkName, data := .ok (utf8 "cargo build\n") }

/-- A crate that writes one archive and reads it and another. -/
def crateOf (read staged : List Tar.Entry) : TarCrate where
  entries bytes :=
    if bytes = [0] then .ok (read.map .ok)
    else if bytes = [1] then .ok (staged.map .ok)
    else .error "failed to read entire block"
  append _ := .ok ()
  finish entries := if entries = staged then .ok [1] else .error "unexpected"

theorem crateOf_documented (read staged : List Tar.Entry) : (crateOf read staged).Documented where
  entries_finish entries bytes h := by
    simp only [crateOf] at h ⊢
    split_ifs at h with hentries
    cases h
    rw [hentries]
    rfl

/-- A tree with a script, and a link to it. -/
def tree (owner : ℕ) (top : String) : List Tar.Entry :=
  [entry .directory owner (top ++ "/") none, script owner (top ++ "/run.sh") none,
    entry .symlink owner (top ++ "/run") (some "run.sh")]

/-- The crate that stages it. -/
def treeCrate : TarCrate :=
  crateOf (paxHeader :: tree 0 "pkg") (tree 1000 "source")

theorem rootedAt_of_forall {top : List UInt8} {read : List Tar.Entry} (htop : slash ∉ top)
    (h : ∀ e ∈ nonPax read, (Behind (rest e.path) ∧ e.path = top ++ rest e.path) ∧
      Utf8.valid e.path = true ∧ .parentDir ∉ components e.path ∧
        e.data.toOption.isSome = true) : RootedAt top read where
  called e he := ⟨rest e.path, htop, (h e he).1⟩
  valid e he := (h e he).2.1
  down e he := (h e he).2.2.1
  readable e he := by
    have hsome := (h e he).2.2.2
    cases hdata : e.data with
    | error err =>
      rw [hdata] at hsome
      cases hsome
    | ok data => exact ⟨data, rfl⟩

theorem rootedAt_tree : RootedAt (utf8 "pkg") (paxHeader :: tree 0 "pkg") :=
  rootedAt_of_forall (by decide) (by decide +kernel)

/-- A directory and a symlink whose target is not UTF-8. -/
def rawLink : List Tar.Entry :=
  [entry .directory 0 "pkg/" none, { entry .symlink 0 "pkg/run" none with linkName := some [0xff] }]

/-- A directory and a script, in whose header a link name was left. -/
def staleLink (owner : ℕ) (top : String) : List Tar.Entry :=
  [entry .directory owner (top ++ "/") none, script owner (top ++ "/run.sh") (some (utf8 "run"))]

/-- What is staged for it. -/
def emptied : List Tar.Entry :=
  [entry .directory 1000 "source/" none,
    { entry .regular 1000 "source/run.sh" (some "run") with mode := .ok 0o755 }]

end Sample

end VerifierCore
end Sorofy
