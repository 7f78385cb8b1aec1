import Mathlib.Data.List.TakeWhile
import Mathlib.Tactic.SplitIfs

/-!
# Paths of a Unix system

A path is a byte string, cut at its slashes.  `components` is what it names part by part: empty
parts and dots in its middle name nothing.

* `components_reroot`: the components of a path whose first part was replaced.
* `Below`: a path that stays below one name of the directory it is taken from, and
  `Below.leadsTo`: where it leads.
-/

namespace Foundation
namespace UnixPath

/-- The byte that separates. -/
def slash : UInt8 := 47

/-- The part that names the directory it is in. -/
def dot : List UInt8 := [46]

/-- The part that names the directory above. -/
def dotdot : List UInt8 := [46, 46]

/-- A component of a path. -/
inductive Component where
  | rootDir
  | curDir
  | parentDir
  | normal (name : List UInt8)
  deriving DecidableEq

/-- The component of a part, behind the first. -/
def component? (part : List UInt8) : Option Component :=
  if part = [] ∨ part = dot then none
  else if part = dotdot then some .parentDir
  else some (.normal part)

/-- The component of the first part. -/
def first? (part : List UInt8) : Option Component :=
  if part = [] then some .rootDir
  else if part = dot then some .curDir
  else component? part

/-- The components of a path: `Path::components`. -/
def components (path : List UInt8) : List Component :=
  if path = [] then []
  else
    match path.splitOn slash with
    | [] => []
    | part :: parts => (first? part).toList ++ parts.filterMap component?

/-- What is behind the first part of a path, with the slash it begins with. -/
def rest (path : List UInt8) : List UInt8 :=
  path.dropWhile (· ≠ slash)

/-- The parts behind the first slash. -/
def inner (path : List UInt8) : List (List UInt8) :=
  (path.splitOn slash).tail

/-! ## Parts -/

theorem component?_eq_parentDir {part : List UInt8} :
    component? part = some .parentDir ↔ part = dotdot := by
  unfold component?
  split_ifs with hempty hdotdot
  · refine ⟨fun h => (by cases h), fun h => ?_⟩
    rw [h] at hempty
    exact absurd hempty (by decide)
  · exact ⟨fun _ => hdotdot, fun _ => rfl⟩
  · refine ⟨fun h => ?_, fun h => absurd h hdotdot⟩
    cases h

theorem component?_ne_rootDir {part : List UInt8} : component? part ≠ some .rootDir := by
  unfold component?
  split_ifs <;> simp

theorem component?_ne_dot {part : List UInt8} : component? part ≠ some (.normal dot) := by
  unfold component?
  split_ifs with hempty hdotdot
  · simp
  · simp
  · exact fun h => hempty (Or.inr (Component.normal.inj (Option.some.inj h)))

/-- A dot is no name. -/
theorem dot_not_mem_components (path : List UInt8) : .normal dot ∉ components path := by
  unfold components
  split_ifs
  · exact List.not_mem_nil
  · split
    · exact List.not_mem_nil
    · rename_i part parts _
      rw [List.mem_append, Option.mem_toList, List.mem_filterMap]
      rintro (hfirst | ⟨part', -, hpart⟩)
      · unfold first? at hfirst
        split_ifs at hfirst
        · cases hfirst
        · cases hfirst
        · exact component?_ne_dot hfirst
      · exact component?_ne_dot hpart

theorem parentDir_mem_filterMap {parts : List (List UInt8)} :
    .parentDir ∈ parts.filterMap component? ↔ dotdot ∈ parts := by
  rw [List.mem_filterMap]
  constructor
  · rintro ⟨part, hmem, hpart⟩
    exact component?_eq_parentDir.1 hpart ▸ hmem
  · intro hmem
    exact ⟨dotdot, hmem, component?_eq_parentDir.2 rfl⟩

theorem rootDir_not_mem_filterMap {parts : List (List UInt8)} :
    .rootDir ∉ parts.filterMap component? := by
  rw [List.mem_filterMap]
  rintro ⟨part, -, hpart⟩
  exact component?_ne_rootDir hpart

/-- What begins with a slash is the rest behind a first part. -/
theorem rest_append {first behind : List UInt8} (hfirst : slash ∉ first)
    (hbehind : ∀ b ∈ behind.head?, b = slash) : rest (first ++ behind) = behind := by
  rw [rest, List.dropWhile_append_of_pos]
  · cases behind with
    | nil => rfl
    | cons b behind =>
      rw [hbehind b rfl, List.dropWhile_cons_of_neg (by simp)]
  · intro b hb
    simpa using fun hslash : b = slash => hfirst (hslash ▸ hb)

/-- Another first part, and the rest of the path. -/
theorem splitOn_reroot {top : List UInt8} (htop : slash ∉ top) (path : List UInt8) :
    (top ++ rest path).splitOn slash = top :: inner path := by
  by_cases hmem : slash ∈ path
  · obtain ⟨before, after, rfl, hbefore⟩ := List.eq_append_cons_of_mem hmem
    rw [rest_append hbefore (by simp), List.splitOn_append_cons_self_of_not_mem htop, inner,
      List.splitOn_append_cons_self_of_not_mem hbefore, List.tail_cons]
  · have hrest : rest path = [] := by
      have hnil : rest (path ++ []) = [] := rest_append hmem (by simp)
      rwa [List.append_nil] at hnil
    rw [hrest, List.append_nil, List.splitOn_eq_singleton htop, inner,
      List.splitOn_eq_singleton hmem, List.tail_cons]

/-- A path that starts at the top and has no part that goes up names no directory above. -/
theorem dotdot_not_mem_inner {path : List UInt8} (h : .parentDir ∉ components path) :
    dotdot ∉ inner path := by
  intro hmem
  by_cases hempty : path = []
  · rw [hempty] at hmem
    simp [inner] at hmem
  · refine h ?_
    cases hparts : path.splitOn slash with
    | nil => exact absurd hparts (List.splitOn_ne_nil slash path)
    | cons part parts =>
      rw [inner, hparts, List.tail_cons] at hmem
      simp only [components, if_neg hempty, hparts]
      exact List.mem_append_right _ (parentDir_mem_filterMap.2 hmem)

/-- The components of a path whose first part was replaced by a name. -/
theorem components_reroot {top : List UInt8} (htop : slash ∉ top)
    (hname : first? top = some (.normal top)) (path : List UInt8) :
    components (top ++ rest path) = .normal top :: (inner path).filterMap component? := by
  have hempty : top ++ rest path ≠ [] := by
    intro hnil
    rw [(List.append_eq_nil_iff.1 hnil).1] at hname
    cases hname
  simp only [components, if_neg hempty, splitOn_reroot htop, hname, Option.toList_some,
    List.singleton_append]

/-! ## Paths that stay below a name -/

/-- The path is relative, starts with this name, and never goes up. -/
structure Below (top path : List UInt8) : Prop where
  relative : .rootDir ∉ components path
  head : (components path).head? = some (.normal top)
  down : .parentDir ∉ components path

/-- A path whose first part was replaced stays below the name exactly when no other part goes
up. -/
theorem below_reroot {top : List UInt8} (htop : slash ∉ top)
    (hname : first? top = some (.normal top)) (path : List UInt8) :
    Below top (top ++ rest path) ↔ dotdot ∉ inner path := by
  have hcomponents := components_reroot htop hname path
  constructor
  · intro hbelow hmem
    refine hbelow.down ?_
    rw [hcomponents]
    exact List.mem_cons_of_mem _ (parentDir_mem_filterMap.2 hmem)
  · intro hinner
    refine ⟨?_, by rw [hcomponents, List.head?_cons], ?_⟩ <;> rw [hcomponents, List.mem_cons]
    · rintro (hroot | hroot)
      · cases hroot
      · exact rootDir_not_mem_filterMap hroot
    · rintro (hup | hup)
      · cases hup
      · exact hinner (parentDir_mem_filterMap.1 hup)

/-- One component further. -/
def walk (directory : List (List UInt8)) : Component → List (List UInt8)
  | .rootDir => []
  | .curDir => directory
  | .parentDir => directory.dropLast
  | .normal name => directory ++ [name]

/-- Where a path leads from a directory, both as the names from the root. -/
def leadsTo (directory : List (List UInt8)) (path : List UInt8) : List (List UInt8) :=
  (components path).foldl walk directory

/-- Components that do not go up lead further down. -/
theorem prefix_foldl_walk {directory : List (List UInt8)} {cs : List Component}
    (hroot : .rootDir ∉ cs) (hup : .parentDir ∉ cs) : directory <+: cs.foldl walk directory := by
  induction cs generalizing directory with
  | nil => exact List.prefix_refl directory
  | cons c cs ih =>
    have hrest := @ih (walk directory c) (fun h => hroot (List.mem_cons_of_mem c h))
      fun h => hup (List.mem_cons_of_mem c h)
    refine List.IsPrefix.trans ?_ hrest
    cases c with
    | rootDir => exact absurd List.mem_cons_self hroot
    | curDir => exact List.prefix_refl directory
    | parentDir => exact absurd List.mem_cons_self hup
    | normal name => exact List.prefix_append directory [name]

/-- **A path that stays below a name leads below it**, from any directory. -/
theorem Below.leadsTo {top path : List UInt8} (h : Below top path)
    (directory : List (List UInt8)) : directory ++ [top] <+: UnixPath.leadsTo directory path := by
  obtain ⟨hroot, hhead, hup⟩ := h
  cases hcs : components path with
  | nil =>
    rw [hcs] at hhead
    cases hhead
  | cons c cs =>
    rw [hcs] at hroot hhead hup
    cases hhead
    rw [UnixPath.leadsTo, hcs, List.foldl_cons]
    exact prefix_foldl_walk (fun h => hroot (List.mem_cons_of_mem _ h))
      fun h => hup (List.mem_cons_of_mem _ h)

end UnixPath
end Foundation
