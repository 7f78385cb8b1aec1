import Mathlib.Data.List.Infix

/-!
# Unpacking to a tree of files

An archive lists items, each a directory or a file with its path from the root.  `unpack` places them
in a tree one after the other, with the directories above them.  A file replaces a file and a
directory is merged with a directory, but the one is not placed on the other, and nothing is placed
below a file.

So an item that cannot be placed is in the way of another, whichever came first: a list unpacks
exactly if none of its paths is to be a directory and a file (`exists_unpack_iff`), and what stands
where in the tree can be read off the list (`shows_of_unpack`).
-/

namespace Foundation
namespace FileTree

universe u

variable {α : Type u}

/-- What stands at a path. -/
inductive Kind where
  | directory
  | file
  deriving DecidableEq

/-- What an archive lists. -/
structure Item (α : Type u) where
  path : List α
  kind : Kind
  deriving DecidableEq

/-- What stands at each path. -/
abbrev Tree (α : Type u) : Type u :=
  List α → Option Kind

/-- The item is to make this path a directory: the path leads to it, or is that of a directory. -/
def Item.Opens (item : Item α) (p : List α) : Prop :=
  p <+: item.path ∧ (p = item.path → item.kind = .directory)

/-- The path is to be a directory.  The root is one. -/
def IsDirectory (items : List (Item α)) (p : List α) : Prop :=
  p = [] ∨ ∃ item ∈ items, item.Opens p

/-- The path is to be a file. -/
def IsFile (items : List (Item α)) (p : List α) : Prop :=
  ∃ item ∈ items, item.path = p ∧ item.kind = .file

/-- Some path is to be a directory and a file. -/
def Clash (items : List (Item α)) : Prop :=
  ∃ p, IsDirectory items p ∧ IsFile items p

/-- The tree is what the items are to be. -/
structure Shows (items : List (Item α)) (tree : Tree α) : Prop where
  directory : ∀ p, tree p = some .directory ↔ IsDirectory items p
  file : ∀ p, tree p = some .file ↔ IsFile items p

/-- There is one name in the root, and it is a directory. -/
def OneDirectory (tree : Tree α) : Prop :=
  ∃ name, tree [name] = some .directory ∧ ∀ other, tree [other] ≠ none → other = name

/-- The tree of a root and nothing else. -/
def root : Tree α :=
  fun p => if p = [] then some .directory else none

/-! ## What is to stand where -/

section Shows

variable {items : List (Item α)} {item : Item α} {tree : Tree α} {p : List α}

theorem isDirectory_snoc :
    IsDirectory (items ++ [item]) p ↔ IsDirectory items p ∨ item.Opens p := by
  simp only [IsDirectory, List.mem_append, List.mem_singleton]
  constructor
  · rintro (h | ⟨i, hi | rfl, hopens⟩)
    · exact Or.inl (Or.inl h)
    · exact Or.inl (Or.inr ⟨i, hi, hopens⟩)
    · exact Or.inr hopens
  · rintro ((h | ⟨i, hi, hopens⟩) | hopens)
    · exact Or.inl h
    · exact Or.inr ⟨i, Or.inl hi, hopens⟩
    · exact Or.inr ⟨item, Or.inr rfl, hopens⟩

theorem isFile_snoc :
    IsFile (items ++ [item]) p ↔ IsFile items p ∨ (item.path = p ∧ item.kind = .file) := by
  simp only [IsFile, List.mem_append, List.mem_singleton]
  constructor
  · rintro ⟨i, hi | rfl, hfile⟩
    · exact Or.inl ⟨i, hi, hfile⟩
    · exact Or.inr hfile
  · rintro (⟨i, hi, hfile⟩ | hfile)
    · exact ⟨i, Or.inl hi, hfile⟩
    · exact ⟨item, Or.inr rfl, hfile⟩

theorem Clash.snoc (h : Clash items) (item : Item α) : Clash (items ++ [item]) := by
  obtain ⟨p, hdirectory, hfile⟩ := h
  exact ⟨p, isDirectory_snoc.2 (Or.inl hdirectory), isFile_snoc.2 (Or.inl hfile)⟩

theorem Shows.not_clash (h : Shows items tree) : ¬ Clash items := by
  rintro ⟨p, hdirectory, hfile⟩
  have heq := ((h.directory p).2 hdirectory).symm.trans ((h.file p).2 hfile)
  cases heq

theorem shows_root : Shows [] (root : Tree α) := by
  constructor
  · intro p
    simp [root, IsDirectory]
  · intro p
    simp [root, IsFile]

/-- There is a name in the root for each item that is not the root itself. -/
theorem Shows.ne_none_iff (h : Shows items tree) (name : α) :
    tree [name] ≠ none ↔ ∃ item ∈ items, item.path.head? = some name := by
  have hhead : ∀ item : Item α, [name] <+: item.path ↔ item.path.head? = some name := by
    intro item
    cases item.path with
    | nil => simp
    | cons first rest => simp [eq_comm]
  constructor
  · intro hne
    obtain ⟨kind, hkind⟩ := Option.ne_none_iff_exists'.1 hne
    cases kind with
    | directory =>
      rcases (h.directory [name]).1 hkind with hnil | ⟨item, hitem, hopens⟩
      · cases hnil
      · exact ⟨item, hitem, (hhead item).1 hopens.1⟩
    | file =>
      obtain ⟨item, hitem, hpath, -⟩ := (h.file [name]).1 hkind
      exact ⟨item, hitem, by rw [hpath]; rfl⟩
  · rintro ⟨item, hitem, hfirst⟩ hnone
    by_cases hopens : item.Opens [name]
    · have hdirectory := (h.directory [name]).2 (Or.inr ⟨item, hitem, hopens⟩)
      rw [hnone] at hdirectory
      cases hdirectory
    · have hpath : [name] = item.path ∧ item.kind ≠ .directory := by
        by_contra hnot
        exact hopens ⟨(hhead item).2 hfirst, fun heq => by_contra fun hkind => hnot ⟨heq, hkind⟩⟩
      have hkind : item.kind = .file := by
        cases hitem : item.kind with
        | directory => exact absurd hitem hpath.2
        | file => rfl
      have hfile := (h.file [name]).2 ⟨item, hitem, hpath.1.symm, hkind⟩
      rw [hnone] at hfile
      cases hfile

end Shows

/-! ## Placing -/

variable [DecidableEq α]

/-- There is no file on the way to the item, and nothing of the other kind in its place. -/
def Fits (tree : Tree α) (item : Item α) : Prop :=
  ∀ p ∈ item.path.inits, ∀ kind ∈ tree p,
    kind = if p = item.path then item.kind else .directory

instance (tree : Tree α) (item : Item α) : Decidable (Fits tree item) :=
  List.decidableBAll _ _

/-- The tree with the item, and the directories on the way to it. -/
def put (tree : Tree α) (item : Item α) : Tree α :=
  fun p => if p = item.path then some item.kind
    else if p <+: item.path then some .directory else tree p

/-- The tree with the item, if that can be placed. -/
def place (tree : Tree α) (item : Item α) : Option (Tree α) :=
  if Fits tree item then some (put tree item) else none

/-- The tree of the items, if they can be placed. -/
def unpack (items : List (Item α)) : Option (Tree α) :=
  items.foldlM place root

/-! ## One item more -/

section Snoc

variable {items : List (Item α)} {item : Item α} {tree : Tree α}

theorem fits_iff : Fits tree item ↔ (∀ p, item.Opens p → tree p ≠ some .file) ∧
    (item.kind = .file → tree item.path ≠ some .directory) := by
  constructor
  · intro h
    constructor
    · rintro p ⟨habove, hkind⟩ hfile
      have hplace := h p ((List.mem_inits _ _).2 habove) .file hfile
      split_ifs at hplace with hp
      rw [hkind hp] at hplace
      cases hplace
    · intro hkind hdirectory
      have hplace := h item.path ((List.mem_inits _ _).2 List.prefix_rfl) .directory hdirectory
      rw [if_pos rfl, hkind] at hplace
      cases hplace
  · rintro ⟨hopens, hfile⟩ p hp kind hkind
    have habove := (List.mem_inits _ _).1 hp
    split_ifs with hpath
    · subst hpath
      cases hitem : item.kind with
      | directory =>
        cases kind with
        | directory => rfl
        | file => exact absurd hkind (hopens _ ⟨habove, fun _ => hitem⟩)
      | file =>
        cases kind with
        | directory => exact absurd hkind (hfile hitem)
        | file => rfl
    · cases kind with
      | directory => rfl
      | file => exact absurd hkind (hopens p ⟨habove, fun h => absurd h hpath⟩)

/-- **One item more**: where it fits, the tree with it shows the items with it. -/
theorem Shows.put (h : Shows items tree) (hfits : Fits tree item) :
    Shows (items ++ [item]) (put tree item) := by
  obtain ⟨hopens, hkind⟩ := fits_iff.1 hfits
  constructor
  · intro p
    rw [isDirectory_snoc, FileTree.put]
    split_ifs with hpath habove
    · subst hpath
      constructor
      · intro hitem
        exact Or.inr ⟨List.prefix_rfl, fun _ => Option.some.inj hitem⟩
      · rintro (hdirectory | ⟨-, hitem⟩)
        · cases hitem : item.kind with
          | directory => rfl
          | file => exact absurd ((h.directory _).2 hdirectory) (hkind hitem)
        · rw [hitem rfl]
    · exact iff_of_true rfl (Or.inr ⟨habove, fun heq => absurd heq hpath⟩)
    · rw [h.directory p]
      exact ⟨Or.inl, fun hor => hor.resolve_right fun hopen => habove hopen.1⟩
  · intro p
    rw [isFile_snoc, FileTree.put]
    split_ifs with hpath habove
    · subst hpath
      constructor
      · intro hitem
        exact Or.inr ⟨rfl, Option.some.inj hitem⟩
      · rintro (hfile | ⟨-, hitem⟩)
        · cases hitem : item.kind with
          | directory =>
            exact absurd ((h.file _).2 hfile) (hopens _ ⟨List.prefix_rfl, fun _ => hitem⟩)
          | file => rfl
        · rw [hitem]
    · refine iff_of_false (fun heq => by cases heq) ?_
      rintro (hfile | ⟨heq, -⟩)
      · exact hopens p ⟨habove, fun heq => absurd heq hpath⟩ ((h.file p).2 hfile)
      · exact hpath heq.symm
    · rw [h.file p]
      exact ⟨Or.inl, fun hor => hor.resolve_right fun heq => hpath heq.1.symm⟩

/-- An item that does not fit is in the way of another. -/
theorem Shows.clash (h : Shows items tree) (hfits : ¬ Fits tree item) :
    Clash (items ++ [item]) := by
  rw [fits_iff, not_and_or] at hfits
  rcases hfits with hopens | hkind
  · push Not at hopens
    obtain ⟨p, hopen, hfile⟩ := hopens
    exact ⟨p, isDirectory_snoc.2 (Or.inr hopen), isFile_snoc.2 (Or.inl ((h.file p).1 hfile))⟩
  · push Not at hkind
    obtain ⟨hfile, hdirectory⟩ := hkind
    exact ⟨item.path, isDirectory_snoc.2 (Or.inl ((h.directory _).1 hdirectory)),
      isFile_snoc.2 (Or.inr ⟨rfl, hfile⟩)⟩

end Snoc

/-! ## All items -/

section Unpack

variable {items : List (Item α)} {tree : Tree α}

theorem unpack_snoc (items : List (Item α)) (item : Item α) :
    unpack (items ++ [item]) = (unpack items).bind fun tree => place tree item := by
  simp [unpack, List.foldlM_append]

theorem shows_of_unpack (h : unpack items = some tree) : Shows items tree := by
  induction items using List.reverseRecOn generalizing tree with
  | nil =>
    rw [← Option.some.inj h]
    exact shows_root
  | append_singleton items item ih =>
    rw [unpack_snoc, Option.bind_eq_some_iff] at h
    obtain ⟨before, hbefore, hplace⟩ := h
    rw [place] at hplace
    split_ifs at hplace with hfits
    rw [← Option.some.inj hplace]
    exact (ih hbefore).put hfits

/-- **A list unpacks exactly if no path of it is to be a directory and a file.** -/
theorem exists_unpack_iff : (∃ tree, unpack items = some tree) ↔ ¬ Clash items := by
  constructor
  · rintro ⟨tree, htree⟩
    exact (shows_of_unpack htree).not_clash
  · induction items using List.reverseRecOn with
    | nil => exact fun _ => ⟨root, rfl⟩
    | append_singleton items item ih =>
      intro hclash
      obtain ⟨tree, htree⟩ := ih fun h => hclash (h.snoc item)
      have hfits : Fits tree item := by
        by_contra hnot
        exact hclash ((shows_of_unpack htree).clash hnot)
      exact ⟨put tree item, by rw [unpack_snoc, htree, Option.bind_some, place, if_pos hfits]⟩

/-- **Unpacking to one directory**, read off the list. -/
theorem unpack_oneDirectory_iff : (∃ tree, unpack items = some tree ∧ OneDirectory tree) ↔
    ¬ Clash items ∧ ∃ name, IsDirectory items [name] ∧
      ∀ item ∈ items, ∀ other ∈ item.path.head?, other = name := by
  constructor
  · rintro ⟨tree, htree, name, hname, hother⟩
    have hshows := shows_of_unpack htree
    refine ⟨hshows.not_clash, name, (hshows.directory _).1 hname, fun item hitem other hhead => ?_⟩
    exact hother other ((hshows.ne_none_iff other).2 ⟨item, hitem, hhead⟩)
  · rintro ⟨hclash, name, hname, hother⟩
    obtain ⟨tree, htree⟩ := exists_unpack_iff.2 hclash
    have hshows := shows_of_unpack htree
    refine ⟨tree, htree, name, (hshows.directory _).2 hname, fun other hne => ?_⟩
    obtain ⟨item, hitem, hhead⟩ := (hshows.ne_none_iff other).1 hne
    exact hother item hitem other hhead

end Unpack

end FileTree
end Foundation
