import Sorofy.Foundation.TomlTree
import Sorofy.Gate.TomlLines

/-!
# What `parseToml` makes of a document

The objects that the loop has built are those for a part of what has been read (`Follows`): this is
so behind one line (`follows_step`) and behind all lines (`follows_run`).  What they are then is
right exactly if each value in them is read as it is meant (`agrees_built_iff`), and so the whole is
`parseToml_agrees`.
-/

namespace Sorofy
namespace Gate
namespace Toml

open Foundation Foundation.Toml

/-! ## Objects for tables -/

mutual

/-- The value for a tree, where each value of the tree is as `parseValue` reads it. -/
def built : Node Spelled → JsValue
  | .leaf v => readValue v
  | .table fields => .object (builtFields fields) .null
  | .tables entries => .array (builtEntries entries)

/-- The own properties of a table. -/
def builtFields : List (JsString × Node Spelled) → List (JsString × JsValue)
  | [] => []
  | (k, n) :: fields => (k, built n) :: builtFields fields

/-- The objects of an array of tables. -/
def builtEntries : List (List (JsString × Node Spelled)) → List JsValue
  | [] => []
  | fields :: entries => .object (builtFields fields) .null :: builtEntries entries

end

section Objects

variable {fields f g : Fields Spelled} {entries : List (Fields Spelled)} {n : Node Spelled}
  {k : JsString} {state : State} {scope : Scope Spelled}

theorem builtFields_eq (fields : Fields Spelled) :
    builtFields fields = fields.map fun b => (b.1, built b.2) := by
  induction fields with
  | nil => rfl
  | cons b fields ih =>
    rw [builtFields, ih, List.map_cons]

theorem builtEntries_eq (entries : List (Fields Spelled)) :
    builtEntries entries = entries.map fun fields => built (.table fields) := by
  induction entries with
  | nil => rfl
  | cons fields entries ih =>
    rw [builtEntries, ih, List.map_cons, built]

theorem lookup_builtFields : (builtFields fields).lookup k = (fields.lookup k).map built := by
  rw [builtFields_eq, Keyed.lookup_map]

/-- A property that is set is a field that is put. -/
theorem set_built (hname : k ≠ js "__proto__") :
    (built (.table fields)).set k (built n) = built (.table (Keyed.put Prod.fst fields (k, n))) := by
  rw [built, built, builtFields_eq, builtFields_eq, ← Keyed.put_map]
  exact if_neg hname

theorem built_append : built (.tables (entries ++ [fields])) =
    .array (builtEntries entries ++ [built (.table fields)]) := by
  show JsValue.array (builtEntries (entries ++ [fields])) = _
  rw [builtEntries_eq, List.map_append, List.map_singleton, ← builtEntries_eq]

/-- The object that is assigned to is the one for the table that the document is in. -/
inductive Aims (fields : Fields Spelled) : Target → List JsString → Prop
  | root : Aims fields .root []
  | table {k : JsString} {t : Fields Spelled} (hname : k ≠ js "__proto__")
      (hk : fields.lookup k = some (.table t)) : Aims fields (.table k) [k]
  | entry {k : JsString} {entries : List (Fields Spelled)} (hname : k ≠ js "__proto__")
      (hk : fields.lookup k = some (.tables entries)) : Aims fields (.entry k) [k]

/-- The objects are those for what has been read. -/
structure Reads (state : State) (scope : Scope Spelled) : Prop where
  root : state.root = built (.table scope.fields)
  shared : state.shared = emptyObject
  target : Aims scope.fields state.target scope.current

namespace Reads

theorem slot_of_none (h : Reads state scope) (hname : k ≠ js "__proto__")
    (hk : scope.fields.lookup k = none) : state.slot k = .undefined := by
  rw [State.slot, h.root, built]
  simp only [if_neg hname, JsValue.get, lookup_builtFields, hk, Option.map_none, h.shared,
    emptyObject, List.lookup_nil]

theorem slot_of_some (h : Reads state scope) (hname : k ≠ js "__proto__")
    (hk : scope.fields.lookup k = some n) (hn : built n ≠ .undefined) :
    state.slot k = built n := by
  rw [State.slot, h.root, built]
  simp only [if_neg hname, JsValue.get, lookup_builtFields, hk, Option.map_some]

/-- A value that is defined is assigned. -/
theorem assign {v : Spelled} {name : JsString} (h : Reads state scope)
    (hname : name ≠ js "__proto__")
    (hdef : within (define name v) scope.current scope.fields = some f) :
    Reads (state.assign name (readValue v)) { scope with fields := f } := by
  obtain ⟨root, shared, target⟩ := state
  obtain ⟨fields, current⟩ := scope
  have hroot : root = built (.table fields) := h.root
  have haims : Aims fields target current := h.target
  cases haims with
  | root =>
    obtain ⟨hk, rfl⟩ := define_eq_some hdef
    refine ⟨?_, h.shared, .root⟩
    show root.set name (built (.leaf v)) = _
    rw [hroot, set_built hname]
  | @table k t hkname hk =>
    have hslot := h.slot_of_some hkname hk (by rw [built]; simp)
    rcases within_eq_some hdef with ⟨t, t', ht, hin, rfl⟩ | ⟨es, t, t', ht, -, -⟩
    · rw [hk] at ht
      cases ht
      obtain ⟨-, rfl⟩ := define_eq_some hin
      refine ⟨?_, h.shared, .table hkname (by rw [Keyed.lookup_put, if_pos rfl])⟩
      show root.set k ((State.slot _ k).set name (built (.leaf v))) = _
      rw [hslot, hroot, set_built hname, set_built hkname]
    · rw [hk] at ht
      cases ht
  | @entry k es hkname hk =>
    have hslot := h.slot_of_some hkname hk (by rw [built]; simp)
    rcases within_eq_some hdef with ⟨t, t', ht, -, -⟩ | ⟨es, t, t', ht, hin, rfl⟩
    · rw [hk] at ht
      cases ht
    · rw [hk] at ht
      cases ht
      obtain ⟨-, rfl⟩ := define_eq_some hin
      rw [built_append] at hslot
      have hassign : State.assign ⟨root, shared, .entry k⟩ name (readValue v) =
          ⟨root.set k (built (.tables (es ++ [Keyed.put Prod.fst t (name, .leaf v)]))), shared,
            .entry k⟩ := by
        simp only [State.assign, hslot, List.getLast?_append, List.getLast?_singleton,
          Option.some_or, Option.getD_some, List.dropLast_concat]
        rw [built_append, ← set_built hname]
        rfl
      rw [hassign]
      refine ⟨?_, h.shared, .entry hkname (by rw [Keyed.lookup_put, if_pos rfl])⟩
      rw [hroot, set_built hkname]

theorem openTable (h : Reads state scope) (hname : k ≠ js "__proto__")
    (hopen : Foundation.Toml.openTable k scope.fields = some f) :
    Reads (state.openTable k) ⟨f, [k]⟩ := by
  rcases openTable_eq_some hopen with ⟨hk, rfl⟩ | ⟨rfl, t, hk⟩
  · rw [State.openTable, h.slot_of_none hname hk]
    refine ⟨?_, h.shared, .table hname (by rw [Keyed.lookup_put, if_pos rfl])⟩
    show state.root.set k (built (.table [])) = _
    rw [h.root, set_built hname]
  · have hslot := h.slot_of_some hname hk (by rw [built]; simp)
    rw [built] at hslot
    rw [State.openTable, hslot]
    exact ⟨h.root, h.shared, .table hname hk⟩

theorem openEntry (h : Reads state scope) (hname : k ≠ js "__proto__")
    (hopen : Foundation.Toml.openEntry k scope.fields = some f) :
    Reads (state.openEntry k) ⟨f, [k]⟩ := by
  obtain ⟨es, hes, rfl⟩ := openEntry_eq_some hopen
  have hroot : (built (.table scope.fields)).set k
      (.array (builtEntries es ++ [emptyObject])) =
        built (.table (Keyed.put Prod.fst scope.fields (k, .tables (es ++ [[]])))) := by
    rw [← set_built hname, built_append]
    rfl
  have haims : Aims (Keyed.put Prod.fst scope.fields (k, .tables (es ++ [[]]))) (.entry k) [k] :=
    .entry hname (by rw [Keyed.lookup_put, if_pos rfl])
  cases hk : scope.fields.lookup k with
  | none =>
    rw [hk] at hes
    cases hes
    rw [State.openEntry, h.slot_of_none hname hk]
    exact ⟨by rw [← hroot, ← h.root]; rfl, h.shared, haims⟩
  | some n =>
    rw [hk] at hes
    cases hes
    have hslot := h.slot_of_some hname hk (by rw [built]; simp)
    rw [built] at hslot
    rw [State.openEntry, hslot]
    exact ⟨by rw [← hroot, ← h.root], h.shared, haims⟩

end Reads

end Objects

/-! ## One line -/

/-- A value that is read, where the line with it is one that is. -/
def Seen (v : Spelled) : Statement → Prop
  | .pair key _ _ w => w = v ∧ bareName key ≠ none ∧ v.text.all isDot = true
  | _ => False

section Steps

variable {state : State} {scope scope' : Scope Spelled} {f : Fields Spelled} {line : Line}
  {name : JsString}

/-- The objects are those for some of what the statement means. -/
def Follows (state : State) (scope : Scope Spelled) (f' : Fields Spelled) : Prop :=
  Reads state { scope with fields := f' } ∧ Below (.table f') (.table scope.fields)

/-- What the statements with a bare name mean. -/
theorem eval_pair {key : Key} {before after : Blank} {v : Spelled} (hkey : bareName key = some name)
    (heval : (Statement.pair key before after v).eval scope = some scope') :
    within (define name v) scope.current scope.fields = some scope'.fields ∧
      scope'.current = scope.current := by
  obtain ⟨-, hpath, hlast, -, -⟩ := bareName_eq_some hkey
  obtain ⟨g, hg, heq⟩ := Option.bind_eq_some_iff.mp heval
  cases heq
  rw [hpath, hlast, List.append_nil] at hg
  exact ⟨hg, rfl⟩

theorem eval_table {key : Key} {before after : Blank} (hkey : bareName key = some name)
    (heval : (Statement.table before key after).eval scope = some scope') :
    openTable name scope.fields = some scope'.fields ∧ scope'.current = [name] := by
  obtain ⟨-, hpath, hlast, -, -⟩ := bareName_eq_some hkey
  obtain ⟨g, hg, heq⟩ := Option.bind_eq_some_iff.mp heval
  cases heq
  rw [hpath, hlast] at hg
  exact ⟨hg, by rw [Key.names, hpath, hlast, List.nil_append]⟩

theorem eval_entry {key : Key} {before after : Blank} (hkey : bareName key = some name)
    (heval : (Statement.entry before key after).eval scope = some scope') :
    openEntry name scope.fields = some scope'.fields ∧ scope'.current = [name] := by
  obtain ⟨-, hpath, hlast, -, -⟩ := bareName_eq_some hkey
  obtain ⟨g, hg, heq⟩ := Option.bind_eq_some_iff.mp heval
  cases heq
  rw [hpath, hlast] at hg
  exact ⟨hg, by rw [Key.names, hpath, hlast, List.nil_append]⟩

theorem follows_assign {key : Key} {before after : Blank} {v : Spelled}
    (h : Follows state scope f) (hkey : bareName key = some name) (hname : name ≠ js "__proto__")
    (heval : (Statement.pair key before after v).eval scope = some scope') :
    ∃ f', Follows (state.assign name (readValue v)) scope' f' ∧
      (Holds Exact (.table f') ↔ Holds Exact (.table f) ∧ Exact v) := by
  obtain ⟨f', hf', hbelow⟩ := h.2.eval heval
  obtain ⟨hdef, hcurrent⟩ := eval_pair hkey hf'
  have hassign := h.1.assign hname hdef
  rw [← hcurrent] at hassign
  exact ⟨f', ⟨hassign, hbelow⟩, holds_within_define hdef⟩

theorem follows_left_out {key : Key} {before after : Blank} {v : Spelled}
    (h : Follows state scope f)
    (heval : (Statement.pair key before after v).eval scope = some scope') :
    Follows state scope' f := by
  obtain ⟨hreads, hbelow⟩ := h
  obtain ⟨hcurrent, hbelow'⟩ := hbelow.eval_left_out heval
  refine ⟨?_, hbelow'⟩
  rw [hcurrent]
  exact hreads

theorem follows_table {key : Key} {before after : Blank} (h : Follows state scope f)
    (hkey : bareName key = some name) (hname : name ≠ js "__proto__")
    (heval : (Statement.table before key after).eval scope = some scope') :
    ∃ f', Follows (state.openTable name) scope' f' ∧
      (Holds Exact (.table f') ↔ Holds Exact (.table f)) := by
  obtain ⟨f', hf', hbelow⟩ := h.2.eval heval
  obtain ⟨hopen, hcurrent⟩ := eval_table hkey hf'
  have hreads := h.1.openTable hname hopen
  rw [← hcurrent] at hreads
  exact ⟨f', ⟨hreads, hbelow⟩, holds_openTable hopen⟩

theorem follows_entry {key : Key} {before after : Blank} (h : Follows state scope f)
    (hkey : bareName key = some name) (hname : name ≠ js "__proto__")
    (heval : (Statement.entry before key after).eval scope = some scope') :
    ∃ f', Follows (state.openEntry name) scope' f' ∧
      (Holds Exact (.table f') ↔ Holds Exact (.table f)) := by
  obtain ⟨f', hf', hbelow⟩ := h.2.eval heval
  obtain ⟨hopen, hcurrent⟩ := eval_entry hkey hf'
  have hreads := h.1.openEntry hname hopen
  rw [← hcurrent] at hreads
  exact ⟨f', ⟨hreads, hbelow⟩, holds_openEntry hopen⟩

/-- **One line**: the objects are still those for some of what has been read, and the values that
have been seen are added to their values. -/
theorem follows_step (fraction : JsString → JsValue) (h : Follows state scope f)
    (hreadable : Readable line.statement) (heval : line.statement.eval scope = some scope') :
    ∃ f', Follows (step fraction state line.text) scope' f' ∧
      (Holds Exact (.table f') ↔
        Holds Exact (.table f) ∧ ∀ v, Seen v line.statement → Exact v) := by
  cases hline : line.statement with
  | empty =>
    rw [hline] at heval
    cases heval
    rw [step_empty hline]
    exact ⟨f, h, by simp [Seen]⟩
  | table before key after =>
    rw [hline] at heval hreadable
    obtain ⟨name, hkey, hname⟩ := hreadable
    obtain ⟨f', hf', hholds⟩ := follows_table h hkey hname heval
    rw [step_table hline hkey]
    exact ⟨f', hf', by simp [hholds, Seen]⟩
  | entry before key after =>
    rw [hline] at heval hreadable
    obtain ⟨name, hkey, hname⟩ := hreadable
    obtain ⟨f', hf', hholds⟩ := follows_entry h hkey hname heval
    rw [step_entry hline hkey]
    exact ⟨f', hf', by simp [hholds, Seen]⟩
  | pair key before after v =>
    rw [hline] at heval hreadable
    obtain ⟨htracked, ⟨name, hkey, hname⟩ | hskip⟩ := hreadable
    · obtain ⟨f', hf', hholds⟩ := follows_assign h hkey hname heval
      have hleft := follows_left_out h heval
      rcases htracked with htracked | ⟨l, rfl⟩
      · rw [step_pair hline hkey htracked]
        split_ifs with hdots
        · have hseen : (∀ w, Seen w (.pair key before after v) → Exact w) ↔ Exact v := by
            constructor
            · intro hall
              exact hall v ⟨rfl, by simp [hkey], hdots⟩
            · rintro hexact w ⟨rfl, -, -⟩
              exact hexact
          exact ⟨f', hf', by rw [hholds, hseen]⟩
        · refine ⟨f, hleft, ?_⟩
          have hnone : ∀ w, ¬ Seen w (.pair key before after v) := by
            rintro w ⟨rfl, -, hall⟩
            exact hdots hall
          simp [hnone]
      · -- whether the line is read or not, a string in single quotes is read as it is meant
        have hexact : ∀ w, Seen w (.pair key before after (.literal l)) → Exact w := by
          rintro w ⟨rfl, -, -⟩
          trivial
        have hstep : step fraction state line.text = state.assign name (.string l.text) ∨
            step fraction state line.text = state := step_literal hline hkey
        rcases hstep with hstep | hstep
        · rw [hstep]
          have hliteral : Exact (.literal l) := trivial
          exact ⟨f', hf', by rw [hholds, and_iff_left hexact, and_iff_left hliteral]⟩
        · rw [hstep]
          exact ⟨f, hleft, by rw [and_iff_left hexact]⟩
    · rw [step_skip hline hskip]
      refine ⟨f, follows_left_out h heval, ?_⟩
      have hnone : ∀ w, ¬ Seen w (.pair key before after v) := by
        rintro w ⟨-, hkey, -⟩
        obtain ⟨name, hsome⟩ := Option.ne_none_iff_exists'.mp hkey
        obtain ⟨htext, -, -, -, hchars⟩ := bareName_eq_some hsome
        obtain ⟨u, hu, hnot⟩ := hskip
        rw [htext] at hu
        rw [hchars u hu] at hnot
        cases hnot
      simp [hnone]

/-- **All lines.** -/
theorem follows_run (fraction : JsString → JsValue) {lines : List Line}
    (h : Follows state scope f)
    (hreadable : ∀ line ∈ lines, Readable line.statement)
    (hrun : run scope (lines.map Line.statement) = some scope') :
    ∃ f', Follows ((lines.map Line.text).foldl (step fraction) state) scope' f' ∧
      (Holds Exact (.table f') ↔
        Holds Exact (.table f) ∧ ∀ line ∈ lines, ∀ v, Seen v line.statement → Exact v) := by
  induction lines generalizing state scope f with
  | nil =>
    cases hrun
    exact ⟨f, h, by simp⟩
  | cons line lines ih =>
    obtain ⟨between, hline, hrest⟩ := Option.bind_eq_some_iff.mp hrun
    obtain ⟨f₁, hf₁, hholds₁⟩ :=
      follows_step fraction h (hreadable line List.mem_cons_self) hline
    obtain ⟨f₂, hf₂, hholds₂⟩ :=
      ih hf₁ (fun l hl => hreadable l (List.mem_cons_of_mem line hl)) hrest
    refine ⟨f₂, hf₂, ?_⟩
    rw [hholds₂, hholds₁, List.forall_mem_cons, and_assoc]

end Steps

/-! ## Agreement -/

/-- A value has nothing in it that the tree does not have: what is under a key is what the tree has
there, be it the value that is meant, a table, or an array of tables of which none is missing.  A
key may be missing. -/
inductive Agrees : JsValue → Node Spelled → Prop
  | leaf {x : JsValue} {v : Spelled} (eq_meant : x = meant v.value) : Agrees x (.leaf v)
  | table {own : List (JsString × JsValue)} {fields : Fields Spelled}
      (there : ∀ k, fields.lookup k = none → own.lookup k = none)
      (agrees : ∀ k x n, own.lookup k = some x → fields.lookup k = some n → Agrees x n) :
      Agrees (.object own .null) (.table fields)
  | tables {elems : List JsValue} {entries : List (Fields Spelled)}
      (length_eq : elems.length = entries.length)
      (agrees : ∀ (i : ℕ) x fields, elems[i]? = some x → entries[i]? = some fields →
        Agrees x (.table fields)) : Agrees (.array elems) (.tables entries)

section Agreement

variable {x : JsValue} {own : List (JsString × JsValue)} {fields : Fields Spelled} {v : Spelled}
  {elems : List JsValue} {entries : List (Fields Spelled)} {n m : Node Spelled}

theorem agrees_leaf_iff : Agrees x (.leaf v) ↔ x = meant v.value :=
  ⟨fun h => by cases h with | leaf eq_meant => exact eq_meant, .leaf⟩

theorem agrees_table_iff : Agrees (.object own .null) (.table fields) ↔
    (∀ k, fields.lookup k = none → own.lookup k = none) ∧
      ∀ k x n, own.lookup k = some x → fields.lookup k = some n → Agrees x n :=
  ⟨fun h => by cases h with | table there agrees => exact ⟨there, agrees⟩,
    fun h => .table h.1 h.2⟩

theorem agrees_append_iff : Agrees (.array (elems ++ [x])) (.tables (entries ++ [fields])) ↔
    Agrees (.array elems) (.tables entries) ∧ Agrees x (.table fields) := by
  constructor
  · intro h
    cases h with
    | tables length_eq agrees =>
      have hlen : elems.length = entries.length := by simpa using length_eq
      refine ⟨.tables hlen fun i y t hy ht => agrees i y t ?_ ?_, ?_⟩
      · rw [List.getElem?_append_left (List.getElem?_eq_some_iff.mp hy).1, hy]
      · rw [List.getElem?_append_left (List.getElem?_eq_some_iff.mp ht).1, ht]
      · exact agrees elems.length x fields (by simp) (by simp [hlen])
  · rintro ⟨h, hlast⟩
    cases h with
    | tables length_eq agrees =>
      refine .tables (by simp [length_eq]) fun i y t hy ht => ?_
      rw [List.getElem?_append] at hy ht
      rw [← length_eq] at ht
      split_ifs at hy ht with hi
      · exact agrees i y t hy ht
      · rw [List.getElem?_singleton] at hy ht
        split_ifs at hy ht
        cases hy
        cases ht
        exact hlast

/-- **The objects agree with the document** exactly if each value in them is read as it is
meant. -/
theorem agrees_built_iff (h : Below n m) : Agrees (built n) m ↔ Holds Exact n := by
  induction h with
  | leaf v => rw [agrees_leaf_iff, holds_leaf_iff, built, readValue_eq_iff]
  | @table f g there below ih =>
    rw [built, agrees_table_iff, holds_table_iff]
    simp only [lookup_builtFields, Option.map_eq_none_iff, Option.map_eq_some_iff]
    rw [and_iff_right there]
    have hget : ∀ {k n m}, f.lookup k = some n → g.lookup k = some m →
        (Agrees (built n) m ↔ Holds Exact n) := by
      intro k n m hn hm
      have hih := ih k m hm
      rwa [hn, Option.getD_some] at hih
    constructor
    · intro hall k n hn
      cases hm : g.lookup k with
      | none =>
        rw [there k hm] at hn
        cases hn
      | some m => exact (hget hn hm).mp (hall k _ m ⟨n, hn, rfl⟩ hm)
    · rintro hall k _ m ⟨n, hn, rfl⟩ hm
      exact (hget hn hm).mpr (hall k n hn)
  | nil => exact iff_of_true (.tables rfl (by simp)) (.tables (by simp))
  | append init last ihinit ihlast =>
    rw [built_append, agrees_append_iff, holds_append, ← ihinit, ← ihlast]
    rfl

/-! ## Documents -/

/-- Every line is readable. -/
def IsReadable (doc : Document) : Prop :=
  ∀ line ∈ doc.lines, Readable line.statement

/-- Every line is readable, and every value that is read is spelled as `parseValue` knows it. -/
structure Clean (doc : Document) : Prop where
  readable : IsReadable doc
  exact : ∀ line ∈ doc.lines, ∀ v, Seen v line.statement → Exact v

variable {doc : Document} {tree : Fields Spelled}

theorem follows_start : Follows start ⟨[], []⟩ [] :=
  ⟨⟨rfl, rfl, .root⟩, Below.empty⟩

/-- **The whole of a readable document.** -/
theorem follows_finish (fraction : JsString → JsValue) (hreadable : IsReadable doc)
    (heval : doc.eval = some tree) :
    ∃ f, (finish fraction doc.text).root = built (.table f) ∧ Below (.table f) (.table tree) ∧
      (Holds Exact (.table f) ↔
        ∀ line ∈ doc.lines, ∀ v, Seen v line.statement → Exact v) := by
  obtain ⟨scope, hrun, rfl⟩ := Option.map_eq_some_iff.mp heval
  obtain ⟨f, ⟨hreads, hbelow⟩, hholds⟩ :=
    follows_run fraction follows_start hreadable hrun
  refine ⟨f, ?_, hbelow, ?_⟩
  · rw [finish, splitLines_text hreadable]
    exact hreads.root
  · rw [hholds, and_iff_right holds_empty]

/-- **Nothing is invented.**  What `parseToml` returns agrees with the document if this is clean,
and of the documents whose lines are all readable it does so for no other. -/
theorem parseToml_agrees (rt : Runtime) (fraction : JsString → JsValue) (doc : Document)
    (tree : Fields Spelled) (heval : doc.eval = some tree) :
    (Clean doc → Agrees (parseToml rt fraction (.string doc.text)) (.table tree)) ∧
    (IsReadable doc → Agrees (parseToml rt fraction (.string doc.text)) (.table tree) →
      Clean doc) := by
  have hiff : IsReadable doc → (Agrees (parseToml rt fraction (.string doc.text)) (.table tree) ↔
      ∀ line ∈ doc.lines, ∀ v, Seen v line.statement → Exact v) := by
    intro hreadable
    obtain ⟨f, hroot, hbelow, hholds⟩ := follows_finish fraction hreadable heval
    have hparse : parseToml rt fraction (.string doc.text) = built (.table f) := hroot
    rw [hparse, agrees_built_iff hbelow, hholds]
  constructor
  · intro hclean
    exact (hiff hclean.readable).mpr hclean.exact
  · intro hreadable hagrees
    exact ⟨hreadable, (hiff hreadable).mp hagrees⟩

end Agreement

namespace Sample

/-- No space. -/
def tight : Blank := ⟨[], by simp⟩

/-- One space. -/
def space : Blank := ⟨[32], by simp⟩

def bareKey (s : String) (hne : js s ≠ []) (h : (js s).all isBare = true) : Key :=
  ⟨[], .bare ⟨js s, hne, List.all_eq_true.mp h⟩⟩

/-- A string of one letter, in double quotes. -/
def letter (u : UInt16) (h : 35 ≤ u.toNat ∧ u ≠ 92 ∧ u ≠ 127) : Spelled :=
  .basic [.plain u (Or.inr ⟨by omega, h.2.2⟩) (by rintro rfl; simp at h) h.2.1]

def fraction (_ : JsString) : JsValue := .number 0

/-- The end of a line. -/
def lineEnd : Gap := ⟨[(tight, none, .lf)], tight⟩

/-- `["x",\n"y"]`, with a line for each of the strings. -/
def accountsValue : Spelled :=
  .array (.more lineEnd (letter 120 (by decide)) ⟨[], tight⟩
    (.last lineEnd (letter 121 (by decide)) lineEnd))

/-- `ACCOUNTS = [...]`. -/
def accounts : Document :=
  ⟨[], ⟨tight, .pair (bareKey "ACCOUNTS" (by decide) (by decide)) space space accountsValue, tight,
    none⟩⟩

/-- An array on several lines is returned as an empty one. -/
theorem accounts_emptied :
    accounts.text = js "ACCOUNTS = [\n\"x\",\n\"y\"\n]" ∧
    accounts.eval = some [(js "ACCOUNTS", .leaf accountsValue)] ∧
    parseToml Sample.runtime fraction (.string accounts.text) =
      .object [(js "ACCOUNTS", .array [])] .null ∧
    ¬ Agrees (parseToml Sample.runtime fraction (.string accounts.text))
      (.table [(js "ACCOUNTS", .leaf accountsValue)]) := by
  have hparse : parseToml Sample.runtime fraction (.string accounts.text) =
      .object [(js "ACCOUNTS", .array [])] .null := rfl
  refine ⟨by decide, rfl, hparse, ?_⟩
  rw [hparse, agrees_table_iff]
  rintro ⟨-, hagrees⟩
  have hleaf := agrees_leaf_iff.mp (hagrees (js "ACCOUNTS") (.array []) (.leaf accountsValue) rfl rfl)
  rw [accountsValue, Spelled.value, meant, JsValue.array.injEq] at hleaf
  cases hleaf

/-- The number -7. -/
def minusSeven : Integer where
  sign := .minus
  base := .decimal
  first := [55]
  more := []
  first_ne_nil := by simp
  more_ne_nil := by simp
  areDigits := fun u hu => ⟨7, by rw [List.mem_singleton.mp hu]; decide, by decide⟩
  unsigned := fun h => absurd rfl h
  no_zeros := fun _ => Or.inr (by decide)
  fits := Or.inl (by decide)

/-- `["a", -7]`. -/
def listValue : Spelled :=
  .array (.more ⟨[], tight⟩ (letter 97 (by decide)) ⟨[], tight⟩
    (.last ⟨[], space⟩ (.integer minusSeven) ⟨[], tight⟩))

/-- A value with a comment, a table and an array of tables. -/
def home : Document where
  ended := [
    (⟨tight, .pair (bareKey "HOME" (by decide) (by decide)) space space (letter 35 (by decide)),
      space, some ⟨js "seen", List.forall_iff_forall_mem.mp (by decide)⟩⟩, .lf),
    (⟨tight, .table tight (bareKey "DOCS" (by decide) (by decide)) tight, tight, none⟩, .crlf),
    (⟨space, .pair (bareKey "list" (by decide) (by decide)) tight tight listValue, tight, none⟩,
      .lf),
    (⟨tight, .entry space (bareKey "CURRENCIES" (by decide) (by decide)) tight, tight, none⟩, .lf)]
  last :=
    ⟨tight, .pair (bareKey "code" (by decide) (by decide)) space space (letter 99 (by decide)),
      tight, none⟩

theorem home_clean : Clean home := by
  constructor
  · refine List.forall_mem_cons.mpr ⟨⟨Or.inl trivial, Or.inl ⟨_, rfl, by decide⟩⟩, ?_⟩
    refine List.forall_mem_cons.mpr ⟨⟨_, rfl, by decide⟩, ?_⟩
    refine List.forall_mem_cons.mpr
      ⟨⟨Or.inl ⟨rfl, trivial, rfl, rfl, trivial, rfl⟩, Or.inl ⟨_, rfl, by decide⟩⟩, ?_⟩
    refine List.forall_mem_cons.mpr ⟨⟨_, rfl, by decide⟩, ?_⟩
    exact List.forall_mem_singleton.mpr ⟨Or.inl trivial, Or.inl ⟨_, rfl, by decide⟩⟩
  · have hletter : ∀ u h, Exact (letter u h) := fun u h =>
      List.forall_mem_singleton.mpr trivial
    have hlist : Exact listValue := ⟨hletter _ _, ⟨rfl, by decide, rfl⟩, by decide⟩
    refine List.forall_mem_cons.mpr ⟨?_, ?_⟩
    · rintro v ⟨rfl, -, -⟩
      exact hletter _ _
    refine List.forall_mem_cons.mpr ⟨fun v h => h.elim, ?_⟩
    refine List.forall_mem_cons.mpr ⟨?_, ?_⟩
    · rintro v ⟨rfl, -, -⟩
      exact hlist
    refine List.forall_mem_cons.mpr ⟨fun v h => h.elim, ?_⟩
    refine List.forall_mem_singleton.mpr ?_
    rintro v ⟨rfl, -, -⟩
    exact hletter _ _

/-- What is returned for it agrees with it. -/
theorem home_agrees :
    home.text = js "HOME = \"#\" #seen\n[DOCS]\r\n list=[\"a\", -7]\n" ++
      js "[[ CURRENCIES]]\ncode = \"c\"" ∧
    Agrees (parseToml Sample.runtime fraction (.string home.text))
      (.table [(js "HOME", .leaf (letter 35 (by decide))),
        (js "DOCS", .table [(js "list", .leaf listValue)]),
        (js "CURRENCIES", .tables [[(js "code", .leaf (letter 99 (by decide)))]])]) :=
  ⟨by decide, (parseToml_agrees Sample.runtime fraction home _ rfl).1 home_clean⟩

end Sample

end Toml
end Gate
end Sorofy
