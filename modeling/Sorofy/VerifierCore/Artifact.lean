import Sorofy.Foundation.Words
import Sorofy.VerifierCore.Reproduce

/-!
# The artifact of a build

`select_wasm_from_tar` picks the contract among the files of the release directory.  It should be
the only `release/<name>.wasm`, or of a pair `<n>.wasm` and `<n>.optimized.wasm` the optimized one
(`Chosen`), and where there is no such file nothing is to be picked (`PicksAsMeant`).

The code takes two files for a pair as soon as exactly one of them ends in `.optimized.wasm`,
whatever the other is called, so it does what it should exactly where that is the same as sharing
the name (`picks_iff`).
-/

namespace Sorofy
namespace VerifierCore

open Foundation

/-! ## Files of the release directory -/

/-- A file, by its path and its bytes. -/
abbrev File : Type :=
  String × List UInt8

/-- An entry of the tar that can be read. -/
structure BuildEntry where
  isFile : Bool
  path : String
  contents : List UInt8

/-- The entry as the tar crate reads it. -/
def BuildEntry.read (entry : BuildEntry) : Except String TarEntry :=
  .ok ⟨entry.isFile, .ok entry.path, .ok entry.contents⟩

/-- The parts of a path. -/
def parts (path : String) : List (List Char) :=
  path.toList.splitOn '/'

/-- The directories on the way to what the path names, where slashes may be repeated. -/
def directories (path : String) : List (List Char) :=
  (parts path).dropLast.filter (· ≠ [])

/-- What stands behind the last slash. -/
def fileName (path : String) : List Char :=
  (parts path).getLastD []

/-- What is called `release/<name>.wasm`, by the name. -/
def artifactName (path : String) : Option (List Char) :=
  if directories path = ["release".toList] ∧ ".wasm".toList <:+ fileName path then
    some ((fileName path).take ((fileName path).length - ".wasm".toList.length))
  else none

/-- The tar is that of the release directory: it is rooted at the directory. -/
def RootedAtRelease (entries : List BuildEntry) : Prop :=
  ∀ entry ∈ entries, (parts entry.path).head? = some "release".toList

instance (entries : List BuildEntry) : Decidable (RootedAtRelease entries) :=
  List.decidableBAll _ entries

/-- The regular files called `release/<name>.wasm`. -/
def artifacts (entries : List BuildEntry) : List File :=
  (entries.filter fun entry => entry.isFile && (artifactName entry.path).isSome).map
    fun entry => (entry.path, entry.contents)

/-! ## What is to be picked -/

/-- The files are called `<n>.wasm` and `<n>.optimized.wasm`. -/
def Sibling (plain optimized : File) : Prop :=
  ∃ n, artifactName plain.1 = some n ∧ artifactName optimized.1 = some (n ++ ".optimized".toList)

/-- The file to pick: the only one, or the optimized one of a pair. -/
def Chosen (found : List File) (file : File) : Prop :=
  found = [file] ∨ ∃ plain, Sibling plain file ∧ (found = [plain, file] ∨ found = [file, plain])

/-- The file to pick is picked, and where there is none nothing is. -/
structure PicksAsMeant (found : List File) (result : Except VerifyError File) : Prop where
  picks : ∀ file, result = .ok file ↔ Chosen found file
  none : found = [] → result = .error .noWasmProduced
  ambiguous : found ≠ [] → (∀ file, ¬ Chosen found file) →
    result = .error (.ambiguousWasm found.length (found.map Prod.fst))

/-- Exactly one of the two ends in `.optimized.wasm`. -/
def OneOptimized (file file' : File) : Prop :=
  ¬ (endsWith file.1 ".optimized.wasm" ↔ endsWith file'.1 ".optimized.wasm")

/-- Where there are two files, exactly one of them ends in `.optimized.wasm` just in case they are
`<n>.wasm` and `<n>.optimized.wasm`. -/
def PairsByName (found : List File) : Prop :=
  ∀ file file', found = [file, file'] →
    (OneOptimized file file' ↔ Sibling file file' ∨ Sibling file' file)

/-! ## Names -/

section Names

variable {path : String} {name : List Char}

theorem isWord_iff {w : List Char} : Words.IsWord (· == '/') w ↔ '/' ∉ w := by
  constructor
  · intro h hmem
    simpa using h '/' hmem
  · intro h c hc
    exact beq_eq_false_iff_ne.2 fun heq => h (heq ▸ hc)

/-- What has no slash is at the end of a path if it is at the end of its last part. -/
theorem suffix_getLastD_splitOn {k : List Char} (hk : '/' ∉ k) (text : List Char) :
    k <:+ (text.splitOn '/').getLastD [] ↔ k <:+ text := by
  induction text using Words.induction_words (· == '/') with
  | word w hw => rw [List.splitOn_eq_singleton (isWord_iff.1 hw)]; rfl
  | append_cons w s rest hw hs ih =>
    rw [beq_iff_eq] at hs
    subst hs
    rw [List.splitOn_append_cons_self_of_not_mem (isWord_iff.1 hw)]
    have hlast : (w :: rest.splitOn '/').getLastD [] = (rest.splitOn '/').getLastD [] := by
      obtain ⟨part, tail, htail⟩ := List.exists_cons_of_ne_nil (List.splitOn_ne_nil '/' rest)
      rw [htail, List.getLastD_cons, List.getLastD_cons, List.getLastD_cons]
    rw [hlast, ih]
    constructor
    · intro h
      exact h.trans ((List.suffix_cons '/' rest).trans (List.suffix_append w _))
    · rintro ⟨before, h⟩
      have heq : w ++ '/' :: rest = before ++ (k ++ []) := by rw [List.append_nil, h]
      rcases Words.append_cons_eq hk heq with ⟨after', hnil, -⟩ | ⟨before', -, hrest⟩
      · simp at hnil
      · exact ⟨before', by rw [hrest, List.append_nil]⟩

theorem suffix_fileName {k : List Char} (hk : '/' ∉ k) :
    k <:+ fileName path ↔ k <:+ path.toList :=
  suffix_getLastD_splitOn hk path.toList

theorem artifactName_eq_some : artifactName path = some name ↔
    directories path = ["release".toList] ∧ fileName path = name ++ ".wasm".toList := by
  unfold artifactName
  constructor
  · intro h
    split_ifs at h with hfile
    obtain ⟨hdirectories, stem, hstem⟩ := hfile
    refine ⟨hdirectories, ?_⟩
    rw [← Option.some.inj h, ← hstem, List.length_append, Nat.add_sub_cancel, List.take_left]
  · rintro ⟨hdirectories, hname⟩
    rw [if_pos ⟨hdirectories, name, hname.symm⟩, hname, List.length_append, Nat.add_sub_cancel,
      List.take_left]

/-- A path of the release directory names an artifact if it ends in `.wasm` and has two
components. -/
theorem isSome_artifactName (h : (parts path).head? = some "release".toList) :
    (artifactName path).isSome = true ↔ endsWith path ".wasm" ∧ depth path = 2 := by
  have hparts : (parts path).dropLast ++ [fileName path] = parts path := by
    have hne : parts path ≠ [] := List.splitOn_ne_nil '/' path.toList
    rw [fileName, List.getLastD_eq_getLast?, List.getLast?_eq_getLast_of_ne_nil hne,
      Option.getD_some, List.dropLast_append_getLast]
  have hdepth : depth path =
      (directories path).length + ([fileName path].filter (· ≠ [])).length := by
    rw [depth, ← parts, ← hparts, List.filter_append, List.length_append, directories]
  have hsome : (artifactName path).isSome = true ↔
      directories path = ["release".toList] ∧ ".wasm".toList <:+ fileName path := by
    unfold artifactName
    split_ifs with hfile
    · exact iff_of_true rfl hfile
    · exact iff_of_false (by simp) hfile
  rw [hsome, endsWith, ← suffix_fileName (by decide), and_comm]
  refine and_congr_right fun hwasm => ?_
  have hfile : fileName path ≠ [] := by
    intro hnil
    rw [hnil, List.suffix_nil] at hwasm
    exact absurd hwasm (by decide)
  rw [hdepth, List.filter_cons_of_pos (by simpa using hfile)]
  constructor
  · intro hdirectories
    simp [hdirectories]
  · intro htwo
    obtain ⟨directory, hdirectories⟩ := List.length_eq_one_iff.1
      (show (directories path).length = 1 by simpa using htwo)
    rw [hdirectories]
    cases hinit : (parts path).dropLast with
    | nil => simp [directories, hinit] at hdirectories
    | cons first rest =>
      rw [← hparts, hinit, List.cons_append, List.head?_cons, Option.some_inj] at h
      subst h
      rw [directories, hinit, List.filter_cons_of_pos (by decide)] at hdirectories
      rw [(List.cons.inj hdirectories).1]

theorem endsWith_optimized (h : artifactName path = some name) :
    endsWith path ".optimized.wasm" ↔ ".optimized".toList <:+ name := by
  rw [endsWith, ← suffix_fileName (by decide), (artifactName_eq_some.1 h).2]
  show ".optimized".toList ++ ".wasm".toList <:+ _ ↔ _
  exact List.suffix_append_self_iff

end Names

/-! ## What the code collects -/

theorem artifacts_cons (entry : BuildEntry) (entries : List BuildEntry) :
    artifacts (entry :: entries) = if entry.isFile && (artifactName entry.path).isSome then
      (entry.path, entry.contents) :: artifacts entries else artifacts entries := by
  rw [artifacts, List.filter_cons]
  split_ifs <;> rfl

/-- The code collects the artifacts. -/
theorem collectWasm_read {entries : List BuildEntry} (h : RootedAtRelease entries) :
    collectWasm (entries.map BuildEntry.read) = .ok (artifacts entries) := by
  induction entries with
  | nil => rfl
  | cons entry entries ih =>
    have htail := ih fun e he => h e (List.mem_cons_of_mem _ he)
    have hname := isSome_artifactName (h entry List.mem_cons_self)
    rw [List.map_cons, collectWasm, BuildEntry.read, htail, artifacts_cons]
    cases entry.isFile with
    | false => simp [Except.mapError]
    | true =>
      by_cases hwasm : endsWith entry.path ".wasm"
      · by_cases hdepth : depth entry.path = 2
        · simp [Except.mapError, hname.2 ⟨hwasm, hdepth⟩, hwasm, hdepth]
        · have hnone : (artifactName entry.path).isSome = false := by
            rw [← Bool.not_eq_true, hname]
            exact fun hboth => hdepth hboth.2
          simp [Except.mapError, hnone, hwasm, hdepth]
      · have hnone : (artifactName entry.path).isSome = false := by
          rw [← Bool.not_eq_true, hname]
          exact fun hboth => hwasm hboth.1
        simp [Except.mapError, hnone, hwasm]

theorem selectWasmFromTar_read {host : Host} {tar : List UInt8} {entries : List BuildEntry}
    (htar : host.tarEntries tar = .ok (entries.map BuildEntry.read))
    (h : RootedAtRelease entries) :
    selectWasmFromTar host tar = pickWasm (artifacts entries) := by
  rw [selectWasmFromTar, htar]
  show (collectWasm (entries.map BuildEntry.read) >>= pickWasm) = _
  rw [collectWasm_read h]
  rfl

/-! ## What the code picks -/

section Picking

variable {file file' : File} {found : List File}

/-- Of two files the code picks the one that ends in `.optimized.wasm`, if the other does not. -/
theorem pickWasm_pair (picked : File) : pickWasm [file, file'] = .ok picked ↔
    (picked = file ∧ endsWith file.1 ".optimized.wasm" ∧ ¬ endsWith file'.1 ".optimized.wasm") ∨
      picked = file' ∧ endsWith file'.1 ".optimized.wasm" ∧
        ¬ endsWith file.1 ".optimized.wasm" := by
  by_cases h : endsWith file.1 ".optimized.wasm" <;>
    by_cases h' : endsWith file'.1 ".optimized.wasm" <;>
      simp [pickWasm, h, h', pure_eq_ok, eq_comm (a := picked)]

/-- Of several files the code picks one or reports them all. -/
theorem pickWasm_many (h : 2 ≤ found.length) : (∃ picked, pickWasm found = .ok picked) ∨
    pickWasm found = .error (.ambiguousWasm found.length (found.map Prod.fst)) := by
  match found, h with
  | file :: file' :: rest, _ =>
    unfold pickWasm
    dsimp only
    split
    · split_ifs with hlength
      · exact Or.inl ⟨_, rfl⟩
      · exact Or.inr rfl
    · exact Or.inr rfl

/-- Of three files and more the code picks none. -/
theorem pickWasm_more (h : 2 < found.length) :
    pickWasm found = .error (.ambiguousWasm found.length (found.map Prod.fst)) := by
  match found, h with
  | file :: file' :: file'' :: rest, h =>
    unfold pickWasm
    dsimp only
    split
    · rw [if_neg (by simp)]
      rfl
    · rfl

theorem Sibling.endsWith (h : Sibling file file') : endsWith file'.1 ".optimized.wasm" := by
  obtain ⟨n, -, hname⟩ := h
  exact (endsWith_optimized hname).2 (List.suffix_append n _)

theorem chosen_pair (picked : File) : Chosen [file, file'] picked ↔
    (picked = file ∧ Sibling file' file) ∨ picked = file' ∧ Sibling file file' := by
  constructor
  · rintro (h | ⟨plain, hsibling, h | h⟩)
    · cases h
    · cases h
      exact Or.inr ⟨rfl, hsibling⟩
    · cases h
      exact Or.inl ⟨rfl, hsibling⟩
  · rintro (⟨rfl, hsibling⟩ | ⟨rfl, hsibling⟩)
    · exact Or.inr ⟨file', hsibling, Or.inr rfl⟩
    · exact Or.inr ⟨file, hsibling, Or.inl rfl⟩

/-- For a pair the code does what it should just in case the ending tells a pair from others. -/
theorem picksAsMeant_pair_iff : PicksAsMeant [file, file'] (pickWasm [file, file']) ↔
    (OneOptimized file file' ↔ Sibling file file' ∨ Sibling file' file) := by
  constructor
  · intro h
    constructor
    · intro hone
      have hpicked : ∃ picked, pickWasm [file, file'] = .ok picked := by
        by_cases hfile : endsWith file.1 ".optimized.wasm"
        · exact ⟨file, (pickWasm_pair file).2 (Or.inl ⟨rfl, hfile, fun h' => hone
            (iff_of_true hfile h')⟩)⟩
        · have hfile' : endsWith file'.1 ".optimized.wasm" :=
            not_not.1 fun h' => hone (iff_of_false hfile h')
          exact ⟨file', (pickWasm_pair file').2 (Or.inr ⟨rfl, hfile', hfile⟩)⟩
      obtain ⟨picked, hpicked⟩ := hpicked
      rcases (chosen_pair picked).1 ((h.picks picked).1 hpicked) with ⟨-, hs⟩ | ⟨-, hs⟩
      · exact Or.inr hs
      · exact Or.inl hs
    · intro hsibling
      have hchosen : ∃ picked, Chosen [file, file'] picked := by
        rcases hsibling with hs | hs
        · exact ⟨file', (chosen_pair file').2 (Or.inr ⟨rfl, hs⟩)⟩
        · exact ⟨file, (chosen_pair file).2 (Or.inl ⟨rfl, hs⟩)⟩
      obtain ⟨picked, hchosen⟩ := hchosen
      rcases (pickWasm_pair picked).1 ((h.picks picked).2 hchosen) with ⟨-, hyes, hno⟩ | ⟨-, hyes, hno⟩
      · exact fun hiff => hno (hiff.1 hyes)
      · exact fun hiff => hno (hiff.2 hyes)
  · intro h
    -- a name that ends in `.optimized.wasm` is the second of a pair, and the other is the first
    have hpick : ∀ picked, pickWasm [file, file'] = .ok picked ↔ Chosen [file, file'] picked := by
      intro picked
      rw [pickWasm_pair, chosen_pair]
      constructor
      · rintro (⟨rfl, hyes, hno⟩ | ⟨rfl, hyes, hno⟩)
        · rcases h.1 fun hiff => hno (hiff.1 hyes) with hs | hs
          · exact absurd hs.endsWith hno
          · exact Or.inl ⟨rfl, hs⟩
        · rcases h.1 fun hiff => hno (hiff.2 hyes) with hs | hs
          · exact Or.inr ⟨rfl, hs⟩
          · exact absurd hs.endsWith hno
      · rintro (⟨rfl, hs⟩ | ⟨rfl, hs⟩)
        · exact Or.inl ⟨rfl, hs.endsWith, fun h' => h.2 (Or.inr hs) (iff_of_true hs.endsWith h')⟩
        · exact Or.inr ⟨rfl, hs.endsWith, fun h' => h.2 (Or.inl hs) (iff_of_true h' hs.endsWith)⟩
    refine ⟨hpick, fun hnil => absurd hnil (List.cons_ne_nil file [file']), fun _ hnone => ?_⟩
    have htwo : 2 ≤ [file, file'].length := le_rfl
    rcases pickWasm_many htwo with ⟨picked, hpicked⟩ | herror
    · exact absurd ((hpick picked).1 hpicked) (hnone picked)
    · exact herror

theorem picksAsMeant_iff (found : List File) :
    PicksAsMeant found (pickWasm found) ↔ PairsByName found := by
  match found with
  | [] =>
    refine iff_of_true ⟨fun file => iff_of_false (fun h => by cases h) ?_, fun _ => rfl,
      fun h => absurd rfl h⟩ fun _ _ h => by cases h
    rintro (h | ⟨plain, -, h | h⟩) <;> cases h
  | [file] =>
    refine iff_of_true ⟨fun picked => ?_, fun h => (by cases h), fun _ hnone =>
      absurd (Or.inl rfl) (hnone file)⟩ fun _ _ h => by cases h
    constructor
    · intro h
      rw [pure_eq_ok.1 h]
      exact Or.inl rfl
    · rintro (h | ⟨plain, -, h | h⟩) <;> cases h
      rfl
  | [file, file'] =>
    rw [picksAsMeant_pair_iff]
    constructor
    · rintro h _ _ ⟨⟩
      exact h
    · intro h
      exact h file file' rfl
  | file :: file' :: file'' :: rest =>
    have hthree : 2 < (file :: file' :: file'' :: rest).length := by simp
    have herror := pickWasm_more hthree
    refine iff_of_true ⟨fun picked => iff_of_false ?_ ?_, fun h => (by cases h),
      fun _ _ => herror⟩ fun _ _ h => by cases h
    · rw [herror]
      exact fun h => by cases h
    · rintro (h | ⟨plain, -, h | h⟩) <;> cases h

end Picking

/-- **What is picked.**  In the tar of a release directory the code picks the contract, or nothing
where there is not one, exactly if two artifacts are a pair just in case one name of the two ends
in `.optimized.wasm`. -/
theorem picks_iff {host : Host} {tar : List UInt8} {entries : List BuildEntry}
    (htar : host.tarEntries tar = .ok (entries.map BuildEntry.read))
    (h : RootedAtRelease entries) :
    PicksAsMeant (artifacts entries) (selectWasmFromTar host tar) ↔
      PairsByName (artifacts entries) := by
  rw [selectWasmFromTar_read htar h]
  exact picksAsMeant_iff (artifacts entries)

namespace Sample

/-- A machine on which a tar lists these entries. -/
def releaseHost (entries : List BuildEntry) : Host where
  hex := ⟨fun _ => "", fun _ => .error "Odd number of digits"⟩
  sha256 _ := .fill 32 0
  unicodeLower := id
  verifyFetchNetwork := none
  uniqueToken := "1-0"
  fetch _ := .error (.sourceFetch "offline")
  tarEntries _ := .ok (entries.map BuildEntry.read)
  writeFile _ _ := .ok ()

/-- The release directory of a contract that was built with `--optimize`. -/
def paired : List BuildEntry :=
  [⟨false, "release/", []⟩, ⟨false, "release/deps/", []⟩, ⟨true, "release/deps/hello.wasm", [1]⟩,
    ⟨true, "release/hello.wasm", [1]⟩, ⟨true, "release/hello.optimized.wasm", [2]⟩,
    ⟨true, "release/hello.d", [3]⟩]

/-- The release directory of two contracts, one of which was optimized. -/
def unrelated : List BuildEntry :=
  [⟨false, "release/", []⟩, ⟨true, "release/one.wasm", [1]⟩,
    ⟨true, "release/two.optimized.wasm", [2]⟩]

theorem rooted_paired : RootedAtRelease paired := by decide +kernel

theorem artifacts_unrelated : artifacts unrelated =
    [("release/one.wasm", [1]), ("release/two.optimized.wasm", [2])] := by decide +kernel

theorem paired_picks_iff :
    PicksAsMeant (artifacts paired) (selectWasmFromTar (releaseHost paired) []) ↔
      PairsByName (artifacts paired) :=
  picks_iff rfl rooted_paired

/-- Of two contracts the optimized one is picked, although it is not of a pair. -/
theorem unrelated_picked : RootedAtRelease unrelated ∧
    selectWasmFromTar (releaseHost unrelated) [] = .ok ("release/two.optimized.wasm", [2]) ∧
    ¬ PicksAsMeant (artifacts unrelated) (selectWasmFromTar (releaseHost unrelated) []) := by
  have hpicked : selectWasmFromTar (releaseHost unrelated) [] =
      .ok ("release/two.optimized.wasm", [2]) := by decide +kernel
  refine ⟨by decide +kernel, hpicked, fun h => ?_⟩
  have hchosen := (h.picks _).1 hpicked
  rw [artifacts_unrelated, chosen_pair] at hchosen
  rcases hchosen with ⟨h, -⟩ | ⟨-, n, hone, htwo⟩
  · exact absurd h (by decide)
  · have hone' : artifactName "release/one.wasm" = some "one".toList := by decide +kernel
    have htwo' : artifactName "release/two.optimized.wasm" = some "two.optimized".toList := by
      decide +kernel
    rw [← Option.some.inj (hone'.symm.trans hone), htwo'] at htwo
    exact absurd htwo (by decide)

end Sample

end VerifierCore
end Sorofy
