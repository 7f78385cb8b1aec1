import Mathlib.Data.Int.Notation
import Mathlib.Data.List.Forall2
import Mathlib.Logic.Function.Basic
import Sorofy.Foundation.Durable

/-!
# Statements that build a schema

A database as SQLite has it: what its names stand for, the rows of its tables, and its
`user_version`.  The statements are those that only add: they create a table or an index, or add a
column to a table, which every row gets with a value.  Tables and indexes have their names in
common, and `IF NOT EXISTS` is satisfied with what has the name, whatever its definition, as long as
it is of the kind.

What a statement makes of the schema depends on the schema alone (`map_schema_exec`), and what was
there is kept (`exec_kept`).  Where a statement has been executed, it can only be executed again
without an effect (`exec_of_done`).
-/

namespace Foundation
namespace Ddl

open Durable

universe u

/-- A column: its name, and what is declared of it. -/
structure Column where
  name : String
  declaration : String
  deriving DecidableEq

/-- What a name stands for. -/
inductive Definition where
  | table (columns : List Column)
  | index (table : String) (columns : List String)
  deriving DecidableEq

/-- What a database has under a name, of which the rows of a table are a part. -/
inductive Entry (V : Type u) where
  | table (columns : List Column) (rows : List (List V))
  | index (table : String) (columns : List String)

/-- The part of an entry that is schema. -/
def Entry.definition {V : Type u} : Entry V → Definition
  | .table columns _ => .table columns
  | .index parent columns => .index parent columns

/-- A database with values from `V`. -/
structure Database (V : Type u) where
  entries : String → Option (Entry V)
  userVersion : ℤ

/-- What the names of a database stand for. -/
abbrev Schema : Type := String → Option Definition

namespace Database

variable {V : Type u}

/-- The database of a new file. -/
def empty : Database V :=
  ⟨fun _ => none, 0⟩

def schema (db : Database V) : Schema :=
  fun name => (db.entries name).map Entry.definition

/-- Another entry under a name. -/
def define (db : Database V) (name : String) (entry : Entry V) : Database V :=
  { db with entries := Function.update db.entries name (some entry) }

/-- `PRAGMA user_version = …`. -/
def setVersion (version : ℕ) (db : Database V) : Database V :=
  { db with userVersion := version }

variable {db : Database V} {name : String}

@[simp] theorem entries_define_self (entry : Entry V) :
    (db.define name entry).entries name = some entry := by
  simp only [define, Function.update_self]

theorem entries_define_of_ne {other : String} (entry : Entry V) (h : other ≠ name) :
    (db.define name entry).entries other = db.entries other := by
  simp only [define, Function.update_of_ne h]

@[simp] theorem schema_define (entry : Entry V) :
    (db.define name entry).schema = Function.update db.schema name (some entry.definition) := by
  funext other
  by_cases hother : other = name
  · subst hother
    simp only [schema, entries_define_self, Function.update_self, Option.map_some]
  · simp only [schema, entries_define_of_ne entry hother, Function.update_of_ne hother]

theorem schema_eq_none : db.schema name = none ↔ db.entries name = none :=
  Option.map_eq_none_iff

theorem schema_eq_table {columns : List Column} :
    db.schema name = some (.table columns) ↔ ∃ rows, db.entries name = some (.table columns rows) := by
  constructor
  · intro h
    obtain ⟨entry, hentry, hdefinition⟩ := Option.map_eq_some_iff.1 h
    cases entry with
    | table columns' rows =>
      cases hdefinition
      exact ⟨rows, hentry⟩
    | index table columns' => cases hdefinition
  · rintro ⟨rows, hrows⟩
    rw [schema, hrows]
    rfl

theorem schema_eq_index {table : String} {columns : List String} :
    db.schema name = some (.index table columns) ↔
      db.entries name = some (.index table columns) := by
  constructor
  · intro h
    obtain ⟨entry, hentry, hdefinition⟩ := Option.map_eq_some_iff.1 h
    cases entry with
    | table columns' rows => cases hdefinition
    | index table' columns' =>
      cases hdefinition
      exact hentry
  · intro h
    rw [schema, h]
    rfl

end Database

/-! ## Statements -/

/-- A statement that adds to a schema. -/
inductive Statement (V : Type u) where
  | createTable (ifNotExists : Bool) (name : String) (columns : List Column)
  | createIndex (ifNotExists : Bool) (name table : String) (columns : List String)
  | addColumn (table : String) (column : Column) (value : V)

variable {V : Type u}

/-- What a statement leaves, if it does not fail. -/
def Statement.exec : Statement V → Database V → Option (Database V)
  | .createTable ifNotExists name columns, db =>
    match db.schema name with
    | none =>
      if (columns.map Column.name).Nodup then some (db.define name (.table columns [])) else none
    | some (.table _) => if ifNotExists = true then some db else none
    | some (.index _ _) => none
  | .createIndex ifNotExists name table columns, db =>
    match db.schema table, db.schema name with
    | some (.table present), none =>
      if columns ⊆ present.map Column.name then some (db.define name (.index table columns))
      else none
    | some (.table _), some (.index _ _) => if ifNotExists = true then some db else none
    | _, _ => none
  | .addColumn table column value, db =>
    match db.entries table with
    | some (.table columns rows) =>
      if column.name ∈ columns.map Column.name then none
      else some (db.define table (.table (columns ++ [column]) (rows.map (· ++ [value]))))
    | _ => none

/-- A statement has had its effect on a schema: what it creates is there. -/
def Statement.Done : Statement V → Schema → Prop
  | .createTable _ name _, schema => ∃ columns, schema name = some (.table columns)
  | .createIndex _ name table _, schema =>
    (∃ columns, schema table = some (.table columns)) ∧
      ∃ table' columns, schema name = some (.index table' columns)
  | .addColumn table column _, schema =>
    ∃ columns, schema table = some (.table columns) ∧ column.name ∈ columns.map Column.name

/-- A statement may be executed again: it says `IF NOT EXISTS`. -/
def Statement.guarded : Statement V → Bool
  | .createTable ifNotExists _ _ => ifNotExists
  | .createIndex ifNotExists _ _ _ => ifNotExists
  | .addColumn _ _ _ => false

section Exec

variable {statement : Statement V} {db db' : Database V}

/-- What a statement does: nothing where it is done; else it makes a new entry, or gives a table a
column. -/
def Statement.Effect (statement : Statement V) (db db' : Database V) : Prop :=
  (statement.Done db.schema ∧ db' = db) ∨
    ¬ statement.Done db.schema ∧ statement.Done db'.schema ∧
      ((∃ name entry, db.entries name = none ∧ db' = db.define name entry) ∨
        ∃ name columns rows column value, db.entries name = some (.table columns rows) ∧
          db' = db.define name (.table (columns ++ [column]) (rows.map (· ++ [value]))))

theorem createTable_effect {ifNotExists : Bool} {name : String} {columns : List Column}
    (h : (Statement.createTable ifNotExists name columns).exec db = some db') :
    (Statement.createTable ifNotExists name columns).Effect db db' := by
  simp only [Statement.exec] at h
  split at h
  · next hnone =>
    split_ifs at h with hnodup
    cases h
    refine Or.inr ⟨?_, ⟨columns, ?_⟩, Or.inl ⟨name, _, Database.schema_eq_none.1 hnone, rfl⟩⟩
    · rintro ⟨columns', hthere⟩
      rw [hnone] at hthere
      cases hthere
    · rw [Database.schema_define, Function.update_self]
      rfl
  · next columns' hthere =>
    split_ifs at h
    cases h
    exact Or.inl ⟨⟨columns', hthere⟩, rfl⟩
  · cases h

theorem createIndex_effect {ifNotExists : Bool} {name table : String} {columns : List String}
    (h : (Statement.createIndex ifNotExists name table columns).exec db = some db') :
    (Statement.createIndex ifNotExists name table columns).Effect db db' := by
  simp only [Statement.exec] at h
  split at h
  · next present htable hnone =>
    split_ifs at h with hsubset
    cases h
    have hother : table ≠ name := by
      rintro rfl
      rw [htable] at hnone
      cases hnone
    refine Or.inr ⟨?_, ⟨⟨present, ?_⟩, table, columns, ?_⟩,
      Or.inl ⟨name, _, Database.schema_eq_none.1 hnone, rfl⟩⟩
    · rintro ⟨-, table', columns', hthere⟩
      rw [hnone] at hthere
      cases hthere
    · rw [Database.schema_define, Function.update_of_ne hother, htable]
    · rw [Database.schema_define, Function.update_self]
      rfl
  · next present table' columns' htable hthere =>
    split_ifs at h
    cases h
    exact Or.inl ⟨⟨⟨present, htable⟩, table', columns', hthere⟩, rfl⟩
  · cases h

theorem addColumn_effect {table : String} {column : Column} {value : V}
    (h : (Statement.addColumn table column value).exec db = some db') :
    (Statement.addColumn table column value).Effect db db' := by
  simp only [Statement.exec] at h
  split at h
  · next columns rows hthere =>
    split_ifs at h with hmem
    cases h
    refine Or.inr ⟨?_, ⟨columns ++ [column], ?_, ?_⟩,
      Or.inr ⟨table, columns, rows, column, value, hthere, rfl⟩⟩
    · rintro ⟨columns', hcolumns', hmem'⟩
      rw [Database.schema_eq_table.2 ⟨rows, hthere⟩] at hcolumns'
      cases hcolumns'
      exact hmem hmem'
    · rw [Database.schema_define, Function.update_self]
      rfl
    · rw [List.map_append]
      exact List.mem_append_right _ (List.mem_singleton_self column.name)
  · cases h

/-- **Every statement has its effect, and no other.** -/
theorem exec_cases (h : statement.exec db = some db') : statement.Effect db db' := by
  cases statement with
  | createTable ifNotExists name columns => exact createTable_effect h
  | createIndex ifNotExists name table columns => exact createIndex_effect h
  | addColumn table column value => exact addColumn_effect h

theorem done_of_exec (h : statement.exec db = some db') : statement.Done db'.schema := by
  rcases exec_cases h with ⟨hdone, rfl⟩ | ⟨-, hdone, -⟩
  · exact hdone
  · exact hdone

/-- **What is done is not done again.** -/
theorem exec_of_done (hdone : statement.Done db.schema) (h : statement.exec db = some db') :
    db' = db := by
  rcases exec_cases h with ⟨-, rfl⟩ | ⟨hnot, -⟩
  · rfl
  · exact absurd hdone hnot

/-- What says `IF NOT EXISTS` does not fail where it is done. -/
theorem exec_of_guarded (hguarded : statement.guarded = true) (hdone : statement.Done db.schema) :
    statement.exec db = some db := by
  cases statement with
  | createTable ifNotExists name columns =>
    obtain ⟨columns', hthere⟩ := hdone
    simp only [Statement.exec, hthere]
    exact if_pos hguarded
  | createIndex ifNotExists name table columns =>
    obtain ⟨⟨present, htable⟩, table', columns', hthere⟩ := hdone
    simp only [Statement.exec, htable, hthere]
    exact if_pos hguarded
  | addColumn table column value => cases hguarded

/-- **The schema decides** whether a statement fails, and what it makes of the schema. -/
theorem map_schema_exec (statement : Statement V) {other : Database V}
    (h : db.schema = other.schema) :
    (statement.exec db).map Database.schema = (statement.exec other).map Database.schema := by
  cases statement with
  | createTable ifNotExists name columns =>
    simp only [Statement.exec, h]
    split
    · split_ifs <;> simp [h]
    · split_ifs <;> simp [h]
    · rfl
  | createIndex ifNotExists name table columns =>
    simp only [Statement.exec, h]
    split
    · split_ifs <;> simp [h]
    · split_ifs <;> simp [h]
    · rfl
  | addColumn table column value =>
    have htable := congrFun h table
    simp only [Statement.exec]
    cases hentry : db.entries table with
    | none =>
      rw [Database.schema_eq_none.2 hentry] at htable
      rw [Database.schema_eq_none.1 htable.symm]
    | some entry =>
      cases entry with
      | table columns rows =>
        rw [Database.schema_eq_table.2 ⟨rows, hentry⟩] at htable
        obtain ⟨rows', hentry'⟩ := Database.schema_eq_table.1 htable.symm
        simp only [hentry']
        split_ifs <;> simp [h, Entry.definition]
      | index table' columns =>
        rw [Database.schema_eq_index.2 hentry] at htable
        simp only [Database.schema_eq_index.1 htable.symm]

end Exec

/-! ## What is kept -/

/-- The rows that are kept: as many, in their order, and each with what it had. -/
def RowsKept (rows rows' : List (List V)) : Prop :=
  List.Forall₂ (· <+: ·) rows rows'

theorem RowsKept.refl (rows : List (List V)) : RowsKept rows rows :=
  List.forall₂_same.2 fun _ _ => List.prefix_rfl

theorem RowsKept.trans {rows rows' rows'' : List (List V)} (h : RowsKept rows rows')
    (h' : RowsKept rows' rows'') : RowsKept rows rows'' := by
  induction h generalizing rows'' with
  | nil =>
    cases h'
    exact List.Forall₂.nil
  | cons hrow _ ih =>
    cases h' with
    | cons hrow' hrest' => exact List.Forall₂.cons (hrow.trans hrow') (ih hrest')

/-- Every row gets one value more. -/
theorem rowsKept_map (rows : List (List V)) (value : V) :
    RowsKept rows (rows.map (· ++ [value])) := by
  rw [RowsKept, List.forall₂_map_right_iff, List.forall₂_same]
  exact fun row _ => List.prefix_append row [value]

/-- Whatever a database has, another has, too: the indexes as they were, and the tables with their
columns and rows, of which each may have got longer. -/
structure Kept (db db' : Database V) : Prop where
  tables : ∀ name columns rows, db.entries name = some (.table columns rows) →
    ∃ more rows', db'.entries name = some (.table (columns ++ more) rows') ∧ RowsKept rows rows'
  indexes : ∀ name table columns, db.entries name = some (.index table columns) →
    db'.entries name = some (.index table columns)

section Keep

variable {db db' db'' : Database V} {statement : Statement V}

theorem Kept.of_entries (h : db'.entries = db.entries) : Kept db db' where
  tables name columns rows hrows :=
    ⟨[], rows, by rw [h, hrows, List.append_nil], RowsKept.refl rows⟩
  indexes name table columns hindex := by rw [h, hindex]

theorem Kept.refl (db : Database V) : Kept db db :=
  Kept.of_entries rfl

theorem Kept.trans (h : Kept db db') (h' : Kept db' db'') : Kept db db'' where
  tables name columns rows hrows := by
    obtain ⟨more, rows', hrows', hlonger⟩ := h.tables name columns rows hrows
    obtain ⟨more', rows'', hrows'', hlonger'⟩ := h'.tables name (columns ++ more) rows' hrows'
    exact ⟨more ++ more', rows'', by rw [hrows'', List.append_assoc], hlonger.trans hlonger'⟩
  indexes name table columns hindex :=
    h'.indexes name table columns (h.indexes name table columns hindex)

theorem Kept.setVersion (version : ℕ) : Kept db (db.setVersion version) :=
  Kept.of_entries rfl

/-- A new name takes nothing away. -/
theorem Kept.define {name : String} (entry : Entry V) (hnone : db.entries name = none) :
    Kept db (db.define name entry) := by
  have hrest : ∀ other found, db.entries other = some found →
      (db.define name entry).entries other = some found := by
    intro other found hfound
    have hother : other ≠ name := by
      rintro rfl
      rw [hnone] at hfound
      cases hfound
    rw [Database.entries_define_of_ne entry hother, hfound]
  constructor
  · intro other columns rows hrows
    exact ⟨[], rows, by rw [hrest other _ hrows, List.append_nil], RowsKept.refl rows⟩
  · intro other table columns hindex
    exact hrest other _ hindex

/-- A new column makes each row of its table longer. -/
theorem Kept.addColumn {name : String} {columns : List Column} {rows : List (List V)}
    (column : Column) (value : V) (hthere : db.entries name = some (.table columns rows)) :
    Kept db (db.define name (.table (columns ++ [column]) (rows.map (· ++ [value])))) := by
  constructor
  · intro other columns' rows' hrows'
    by_cases hother : other = name
    · subst hother
      rw [hthere] at hrows'
      cases hrows'
      exact ⟨[column], _, Database.entries_define_self _, rowsKept_map rows value⟩
    · refine ⟨[], rows', ?_, RowsKept.refl rows'⟩
      rw [Database.entries_define_of_ne _ hother, hrows', List.append_nil]
  · intro other table columns' hindex
    have hother : other ≠ name := by
      rintro rfl
      rw [hthere] at hindex
      cases hindex
    rw [Database.entries_define_of_ne _ hother, hindex]

/-- **A statement keeps what was there.** -/
theorem exec_kept (h : statement.exec db = some db') : Kept db db' := by
  rcases exec_cases h with ⟨-, rfl⟩ | ⟨-, -, ⟨name, entry, hnone, rfl⟩ |
    ⟨name, columns, rows, column, value, hthere, rfl⟩⟩
  · exact Kept.refl db'
  · exact Kept.define entry hnone
  · exact Kept.addColumn column value hthere

/-- What is done stays done. -/
theorem Kept.done (hkept : Kept db db') (hdone : statement.Done db.schema) :
    statement.Done db'.schema := by
  have htable : ∀ name columns, db.schema name = some (.table columns) →
      ∃ more, db'.schema name = some (.table (columns ++ more)) := by
    intro name columns hcolumns
    obtain ⟨rows, hrows⟩ := Database.schema_eq_table.1 hcolumns
    obtain ⟨more, rows', hrows', -⟩ := hkept.tables name columns rows hrows
    exact ⟨more, Database.schema_eq_table.2 ⟨rows', hrows'⟩⟩
  cases statement with
  | createTable ifNotExists name columns =>
    obtain ⟨columns', hthere⟩ := hdone
    obtain ⟨more, hthere'⟩ := htable name columns' hthere
    exact ⟨_, hthere'⟩
  | createIndex ifNotExists name table columns =>
    obtain ⟨⟨present, hpresent⟩, table', columns', hthere⟩ := hdone
    obtain ⟨more, hpresent'⟩ := htable table present hpresent
    have hthere' := hkept.indexes name table' columns' (Database.schema_eq_index.1 hthere)
    exact ⟨⟨_, hpresent'⟩, table', columns', Database.schema_eq_index.2 hthere'⟩
  | addColumn table column value =>
    obtain ⟨columns, hcolumns, hmem⟩ := hdone
    obtain ⟨more, hcolumns'⟩ := htable table columns hcolumns
    refine ⟨_, hcolumns', ?_⟩
    rw [List.map_append]
    exact List.mem_append_left _ hmem

end Keep

/-! ## Scripts -/

/-- The statements of a script, one after the other. -/
def run (script : List (Statement V)) : Database V → Option (Database V) :=
  runAll (script.map Statement.exec)

section Run

variable {script : List (Statement V)} {db db' : Database V}

theorem run_cons (statement : Statement V) (script : List (Statement V)) (db : Database V) :
    run (statement :: script) db = (statement.exec db).bind (run script) := rfl

/-- **A script keeps what was there.** -/
theorem run_kept (h : run script db = some db') : Kept db db' := by
  refine runAll_invariant ?_ (Kept.refl db) h
  intro f hf t t' ht hstep
  obtain ⟨statement, -, rfl⟩ := List.mem_map.1 hf
  exact ht.trans (exec_kept hstep)

/-- The schema decides what a script makes of it, too. -/
theorem map_schema_run (script : List (Statement V)) {other : Database V}
    (h : db.schema = other.schema) :
    (run script db).map Database.schema = (run script other).map Database.schema := by
  induction script generalizing db other with
  | nil => exact congrArg some h
  | cons statement script ih =>
    have hexec := map_schema_exec statement h
    rw [run_cons, run_cons]
    cases hdb : statement.exec db with
    | none =>
      rw [hdb, Option.map_none] at hexec
      rw [Option.map_eq_none_iff.1 hexec.symm]
    | some db' =>
      rw [hdb, Option.map_some] at hexec
      obtain ⟨other', hother, hschema⟩ := Option.map_eq_some_iff.1 hexec.symm
      rw [hother]
      exact ih hschema.symm

/-- A script that was run is done. -/
theorem done_of_run (h : run script db = some db') :
    ∀ statement ∈ script, statement.Done db'.schema := by
  induction script generalizing db with
  | nil =>
    intro statement hstatement
    cases hstatement
  | cons first script ih =>
    obtain ⟨t, ht, hrest⟩ := Option.bind_eq_some_iff.1 h
    intro statement hstatement
    rcases List.mem_cons.1 hstatement with rfl | hlater
    · exact (run_kept hrest).done (done_of_exec ht)
    · exact ih hrest statement hlater

/-- **A script that is done changes nothing** when it is run again, if it does not fail. -/
theorem run_of_done (hdone : ∀ statement ∈ script, statement.Done db.schema)
    (h : run script db = some db') : db' = db := by
  induction script generalizing db with
  | nil =>
    cases h
    rfl
  | cons first script ih =>
    obtain ⟨t, ht, hrest⟩ := Option.bind_eq_some_iff.1 h
    obtain rfl := exec_of_done (hdone first List.mem_cons_self) ht
    exact ih (fun statement hlater => hdone statement (List.mem_cons_of_mem first hlater)) hrest

/-- It does not fail where each statement says `IF NOT EXISTS`. -/
theorem run_of_guarded (hguarded : ∀ statement ∈ script, statement.guarded = true)
    (hdone : ∀ statement ∈ script, statement.Done db.schema) : run script db = some db := by
  induction script with
  | nil => rfl
  | cons first script ih =>
    rw [run_cons, exec_of_guarded (hguarded first List.mem_cons_self)
      (hdone first List.mem_cons_self), Option.bind_some]
    exact ih (fun statement hlater => hguarded statement (List.mem_cons_of_mem first hlater))
      fun statement hlater => hdone statement (List.mem_cons_of_mem first hlater)

end Run

end Ddl
end Foundation
