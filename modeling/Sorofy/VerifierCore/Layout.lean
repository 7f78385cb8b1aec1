import Mathlib.Data.List.Nodup
import Sorofy.Foundation.FileTree
import Sorofy.VerifierCore.Canonical

/-!
# One top-level directory

An archive is to unpack to a tree with one directory in its root and nothing else
(`UnpacksToDirectory`, with `FileTree.unpack` for the unpacking).  `single_top_dir` compares the
first components of the entry paths instead: as strings, with a leading `.` for one of them, and
whatever the entries are.

So it accepts what is no directory, or is several of the same look, or does not unpack at all, and
it refuses a directory that is spelled with a leading `.` in one place and without it in another
(`Misjudged`).  On all other archives it is right (`accepts_iff`).
-/

namespace Sorofy
namespace VerifierCore

open Foundation
open Foundation.UnixPath

/-! ## What an archive unpacks to -/

/-- The names a path leads through, where it does not go up. -/
def names (path : List UInt8) : List (List UInt8) :=
  (components path).filterMap fun c =>
    match c with
    | .normal name => some name
    | _ => none

/-- A directory entry; in old archives that is a file whose path ends in a slash. -/
def kindOf (entry : Tar.Entry) : FileTree.Kind :=
  if entry.entryType = .directory ∨
      entry.entryType = .regular ∧ entry.path.getLast? = some slash then .directory
  else .file

/-- What is unpacked for an entry.  Links are unpacked as files, and not followed. -/
def item (entry : Tar.Entry) : FileTree.Item (List UInt8) where
  path := names entry.path
  kind := kindOf entry

/-- What is unpacked for an archive. -/
def items (read : List Tar.Entry) : List (FileTree.Item (List UInt8)) :=
  (nonPax read).map item

/-- No entry but the pax metadata goes up, or starts at the root. -/
def Safe (read : List Tar.Entry) : Prop :=
  ∀ entry ∈ nonPax read, .parentDir ∉ components entry.path ∧ .rootDir ∉ components entry.path

/-- The archive unpacks, to one directory. -/
def UnpacksToDirectory (read : List Tar.Entry) : Prop :=
  ∃ tree, FileTree.unpack (items read) = some tree ∧ FileTree.OneDirectory tree

/-! ## What the check gets wrong -/

/-- The path starts with a dot for the directory it is unpacked in. -/
def Dotted (entry : Tar.Entry) : Prop :=
  (components entry.path).head? = some .curDir

/-- The path starts with this name. -/
def Named (name : List UInt8) (entry : Tar.Entry) : Prop :=
  (components entry.path).head? = some (.normal name)

/-- All entries lead to one directory: it is called the same by all of them, some entry is the
directory or in it, and no path is that of a directory and of a file. -/
def OneDirectory (read : List Tar.Entry) : Prop :=
  ¬ FileTree.Clash (items read) ∧ ∃ name, FileTree.IsDirectory (items read) [name] ∧
    ∀ entry ∈ nonPax read, ∀ other ∈ (names entry.path).head?, other = name

/-- There are names that paths start with, and they look the same. -/
def LookAlike (read : List Tar.Entry) : Prop :=
  ∃ look, (∃ entry ∈ nonPax read, ∃ name, Named name entry ∧ Utf8.lossy name = look) ∧
    ∀ entry ∈ nonPax read, ∀ name, Named name entry → Utf8.lossy name = look

/-- The archives on which the check is wrong. -/
inductive Misjudged (read : List Tar.Entry) : Prop
  /-- All paths start with a dot, and do not lead to one directory. -/
  | dotted : (∃ entry ∈ nonPax read, Dotted entry) →
      (∀ entry ∈ nonPax read, ∀ name, ¬ Named name entry) → ¬ OneDirectory read → Misjudged read
  /-- They lead to one directory, some with a dot and some without. -/
  | mixed : (∃ entry ∈ nonPax read, Dotted entry) →
      (∃ entry ∈ nonPax read, ∃ name, Named name entry) → OneDirectory read → Misjudged read
  /-- All start with names of the same look, and do not lead to one directory. -/
  | alike : (∀ entry ∈ nonPax read, ¬ Dotted entry) → LookAlike read → ¬ OneDirectory read →
      Misjudged read

theorem unpacksToDirectory_iff {read : List Tar.Entry} :
    UnpacksToDirectory read ↔ OneDirectory read := by
  rw [UnpacksToDirectory, FileTree.unpack_oneDirectory_iff, OneDirectory]
  simp only [items, List.forall_mem_map, item]

/-! ## What the check looks at -/

section Check

variable {tar : TarCrate} {bytes : List UInt8} {read : List Tar.Entry}

/-- What the check sees of an entry: its first component, as a string. -/
def seen (entry : Tar.Entry) : Option String :=
  (components entry.path).head?.map fun first => Utf8.lossy (componentBytes first)

/-- One string is seen. -/
def SeenAlike (read : List Tar.Entry) : Prop :=
  ∃ look, (∃ entry ∈ nonPax read, seen entry = some look) ∧
    ∀ entry ∈ nonPax read, ∀ s ∈ seen entry, s = look

/-- The check collects what is seen of safe entries. -/
theorem collectTops_of_safe (h : Safe read) : ∃ tops, collectTops (read.map .ok) = .ok tops ∧
    tops.Nodup ∧ ∀ s, s ∈ tops ↔ ∃ entry ∈ nonPax read, seen entry = some s := by
  induction read with
  | nil => exact ⟨[], rfl, List.nodup_nil, fun s => by simp [nonPax]⟩
  | cons entry read ih =>
    rw [List.map_cons, collectTops]
    simp only [Except.mapError, ok_bind]
    cases hmeta : isPaxMeta entry with
    | true =>
      have hrest : nonPax (entry :: read) = nonPax read := by
        rw [nonPax, List.filter_cons_of_neg (by simp [hmeta])]
        rfl
      rw [Safe, hrest] at h
      rw [if_pos rfl, hrest]
      exact ih h
    | false =>
      have hrest : nonPax (entry :: read) = entry :: nonPax read := by
        rw [nonPax, List.filter_cons_of_pos (by simp [hmeta])]
        rfl
      rw [Safe, hrest] at h
      obtain ⟨tops, htops, hnodup, hmem⟩ := ih fun e he => h e (List.mem_cons_of_mem _ he)
      have hsafe := h entry List.mem_cons_self
      rw [if_neg (by simp), ensure, if_pos hsafe, htops, hrest]
      cases hfirst : (components entry.path).head? with
      | none =>
        refine ⟨tops, rfl, hnodup, fun s => ?_⟩
        rw [hmem s]
        simp [seen, hfirst]
      | some first =>
        refine ⟨_, rfl, List.Nodup.insert hnodup, fun s => ?_⟩
        rw [List.mem_insert_iff, hmem s]
        simp [seen, hfirst, eq_comm]

theorem singleTopDir_eq_ok (hread : tar.entries bytes = .ok (read.map .ok)) {top : String} :
    singleTopDir tar bytes = .ok top ↔ collectTops (read.map .ok) = .ok [top] := by
  rw [singleTopDir, hread]
  simp only [Except.mapError, ok_bind, bind_eq_ok]
  constructor
  · rintro ⟨tops, htops, hone⟩
    split at hone
    · cases hone
      exact htops
    · cases hone
  · intro htops
    exact ⟨[top], htops, rfl⟩

theorem singleTopDir_iff (hread : tar.entries bytes = .ok (read.map .ok)) :
    (∃ top, singleTopDir tar bytes = .ok top) ↔ Safe read ∧ SeenAlike read := by
  simp only [singleTopDir_eq_ok hread]
  constructor
  · rintro ⟨top, htops⟩
    have hsafe : Safe read := by
      intro entry hentry
      obtain ⟨hmem, hmeta⟩ := mem_nonPax.1 hentry
      exact safe_of_collectTops htops (List.mem_map_of_mem hmem) hmeta
    obtain ⟨tops', htops', -, hmem⟩ := collectTops_of_safe hsafe
    rw [htops] at htops'
    cases htops'
    refine ⟨hsafe, top, (hmem top).1 List.mem_cons_self, fun entry hentry s hs => ?_⟩
    exact List.mem_singleton.1 ((hmem s).2 ⟨entry, hentry, hs⟩)
  · rintro ⟨hsafe, look, ⟨entry, hentry, hlook⟩, hall⟩
    obtain ⟨tops, htops, hnodup, hmem⟩ := collectTops_of_safe hsafe
    have hone : tops = [look] := by
      refine List.perm_singleton.1 ((List.perm_ext_iff_of_nodup hnodup (by simp)).2 fun s => ?_)
      rw [hmem s, List.mem_singleton]
      constructor
      · rintro ⟨e, he, hs⟩
        exact hall e he s hs
      · rintro rfl
        exact ⟨entry, hentry, hlook⟩
    exact ⟨look, by rw [htops, hone]⟩

/-! ## Where it is right -/

theorem Dotted.seen {entry : Tar.Entry} (h : Dotted entry) : seen entry = some "." := by
  rw [VerifierCore.seen, h]
  decide +kernel

theorem Named.seen {name : List UInt8} {entry : Tar.Entry} (h : Named name entry) :
    seen entry = some (Utf8.lossy name) := by
  rw [VerifierCore.seen, h]
  rfl

/-- A path that starts with neither a name nor a dot has no components. -/
theorem Safe.cases (h : Safe read) {entry : Tar.Entry} (hentry : entry ∈ nonPax read) :
    Dotted entry ∨ (∃ name, Named name entry) ∨ seen entry = none := by
  obtain ⟨hup, hroot⟩ := h entry hentry
  cases hhead : (components entry.path).head? with
  | none =>
    refine Or.inr (Or.inr ?_)
    rw [VerifierCore.seen, hhead]
    rfl
  | some first =>
    have hmem := List.mem_of_head? hhead
    cases first with
    | rootDir => exact absurd hmem hroot
    | curDir => exact Or.inl hhead
    | parentDir => exact absurd hmem hup
    | normal name => exact Or.inr (Or.inl ⟨name, hhead⟩)

/-- A name does not look like a dot. -/
theorem Named.lossy_ne {name : List UInt8} {entry : Tar.Entry} (h : Named name entry) :
    Utf8.lossy name ≠ "." := by
  intro hdot
  have hname : name = dot := Utf8.lossy_eq_singleton (c := '.') (by decide) (by decide) hdot
  rw [hname] at h
  exact dot_not_mem_components entry.path (List.mem_of_head? h)

theorem Named.head?_names {name : List UInt8} {entry : Tar.Entry} (h : Named name entry) :
    (names entry.path).head? = some name := by
  rw [Named] at h
  cases hcs : components entry.path with
  | nil =>
    rw [hcs] at h
    cases h
  | cons c cs =>
    rw [hcs] at h
    cases h
    rw [names, hcs]
    rfl

theorem names_of_seen {entry : Tar.Entry} (h : seen entry = none) : names entry.path = [] := by
  rw [seen, Option.map_eq_none_iff, List.head?_eq_none_iff] at h
  rw [names, h, List.filterMap_nil]

/-- Some entry leads into the one directory. -/
theorem exists_of_isDirectory {name : List UInt8}
    (h : FileTree.IsDirectory (items read) [name]) :
    ∃ entry ∈ nonPax read, (names entry.path).head? = some name := by
  rcases h with hnil | ⟨i, hi, hopens, -⟩
  · cases hnil
  · obtain ⟨entry, hentry, rfl⟩ := List.mem_map.1 hi
    refine ⟨entry, hentry, ?_⟩
    obtain ⟨rest, hrest⟩ := hopens
    show (item entry).path.head? = some name
    rw [← hrest]
    rfl

/-- Where no path starts with a dot, the check looks for names of the same look. -/
theorem seenAlike_of_not_dotted (hsafe : Safe read)
    (hdotted : ∀ entry ∈ nonPax read, ¬ Dotted entry) : SeenAlike read ↔ LookAlike read := by
  constructor
  · rintro ⟨look, ⟨entry, hentry, hlook⟩, hall⟩
    refine ⟨look, ⟨entry, hentry, ?_⟩, fun e he name hname => hall e he _ hname.seen⟩
    rcases hsafe.cases hentry with hdot | ⟨name, hname⟩ | hnone
    · exact absurd hdot (hdotted entry hentry)
    · exact ⟨name, hname, Option.some.inj (hname.seen.symm.trans hlook)⟩
    · rw [hnone] at hlook
      cases hlook
  · rintro ⟨look, ⟨entry, hentry, name, hname, hlook⟩, hall⟩
    refine ⟨look, ⟨entry, hentry, by rw [hname.seen, hlook]⟩, fun e he s hs => ?_⟩
    rcases hsafe.cases he with hdot | ⟨name', hname'⟩ | hnone
    · exact absurd hdot (hdotted e he)
    · rw [Option.mem_def, hname'.seen] at hs
      rw [← Option.some.inj hs]
      exact hall e he name' hname'
    · rw [hnone] at hs
      cases hs

/-- Where some path starts with a dot, it looks whether all do. -/
theorem seenAlike_of_dotted (hsafe : Safe read) (hdotted : ∃ entry ∈ nonPax read, Dotted entry) :
    SeenAlike read ↔ ∀ entry ∈ nonPax read, ∀ name, ¬ Named name entry := by
  obtain ⟨dotted, hmem, hdot⟩ := hdotted
  constructor
  · rintro ⟨look, -, hall⟩ entry hentry name hname
    have hlook := hall dotted hmem _ hdot.seen
    exact hname.lossy_ne ((hall entry hentry _ hname.seen).trans hlook.symm)
  · intro hnone
    refine ⟨".", ⟨dotted, hmem, hdot.seen⟩, fun e he s hs => ?_⟩
    rcases hsafe.cases he with hdot' | ⟨name, hname⟩ | hseen
    · rw [Option.mem_def, hdot'.seen] at hs
      exact (Option.some.inj hs).symm
    · exact absurd hname (hnone e he name)
    · rw [hseen] at hs
      cases hs

/-- Names of one directory look the same. -/
theorem OneDirectory.lookAlike (h : OneDirectory read) (hsafe : Safe read)
    (hdotted : ∀ entry ∈ nonPax read, ¬ Dotted entry) : LookAlike read := by
  obtain ⟨-, name, hdirectory, hall⟩ := h
  obtain ⟨entry, hentry, hhead⟩ := exists_of_isDirectory hdirectory
  refine ⟨Utf8.lossy name, ⟨entry, hentry, name, ?_, rfl⟩, fun e he other hother => ?_⟩
  · rcases hsafe.cases hentry with hdot | ⟨name', hname'⟩ | hnone
    · exact absurd hdot (hdotted entry hentry)
    · rw [hname'.head?_names] at hhead
      rwa [← Option.some.inj hhead]
    · rw [names_of_seen hnone] at hhead
      cases hhead
  · rw [hall e he other hother.head?_names]

/-- **The check sees one string just in case there is one directory**, apart from the archives it
gets wrong. -/
theorem seenAlike_iff (hsafe : Safe read) :
    (SeenAlike read ↔ OneDirectory read) ↔ ¬ Misjudged read := by
  by_cases hdotted : ∃ entry ∈ nonPax read, Dotted entry
  · rw [seenAlike_of_dotted hsafe hdotted]
    constructor
    · rintro h (⟨-, hnone, hnot⟩ | ⟨-, ⟨entry, hentry, name, hname⟩, hone⟩ | ⟨hnot, -, -⟩)
      · exact hnot (h.1 hnone)
      · exact h.2 hone entry hentry name hname
      · obtain ⟨entry, hentry, hdot⟩ := hdotted
        exact hnot entry hentry hdot
    · intro h
      constructor
      · intro hnone
        by_contra hnot
        exact h (.dotted hdotted hnone hnot)
      · intro hone entry hentry name hname
        exact h (.mixed hdotted ⟨entry, hentry, name, hname⟩ hone)
  · push Not at hdotted
    rw [seenAlike_of_not_dotted hsafe hdotted]
    constructor
    · rintro h (⟨⟨entry, hentry, hdot⟩, -, -⟩ | ⟨⟨entry, hentry, hdot⟩, -, -⟩ | ⟨-, halike, hnot⟩)
      · exact hdotted entry hentry hdot
      · exact hdotted entry hentry hdot
      · exact hnot (h.1 halike)
    · intro h
      refine ⟨fun halike => ?_, fun hone => hone.lookAlike hsafe hdotted⟩
      by_contra hnot
      exact h (.alike hdotted halike hnot)

end Check

namespace Sample

/-- An archive of a file and nothing else. -/
def bareFile : List Tar.Entry :=
  [script 0 "run.sh" none]

end Sample

end VerifierCore
end Sorofy
