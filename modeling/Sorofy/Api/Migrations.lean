import Sorofy.Foundation.Ddl
import Sorofy.Foundation.History

/-!
# Migrations

`crates/api/src/db.rs`: `MIGRATIONS`, `migrate`, and what `Db::open` does to the file of a database.

A migration is a script of statements that add to the schema.  The list of them only ever gets
longer, so all is said of any list; that of the service is `serviceMigrations`.

An open has a budget: it fails, or the process is gone, after so many commands, of which reading the
version is the first.  Either way the connection is gone and with it what was not committed.  So a
file is always at a version, or still without one (`Stands`), and each migration takes it to the
next (`Stands.next`), wherever the opens before were interrupted.
-/

namespace Sorofy
namespace Api

open Foundation
open History Durable Ddl

universe u

variable {V : Type u}

/-! ## The migrations -/

/-- The columns of `verifications`. -/
def verificationColumns : List Column :=
  [⟨"id", "INTEGER PRIMARY KEY"⟩,
    ⟨"contract_id", "TEXT"⟩,
    ⟨"wasm_hash", "TEXT NOT NULL"⟩,
    ⟨"source", "TEXT NOT NULL"⟩,
    ⟨"bldimg", "TEXT NOT NULL"⟩,
    ⟨"status", "TEXT NOT NULL"⟩,
    ⟨"report", "TEXT"⟩,
    ⟨"error", "TEXT"⟩,
    ⟨"created_at", "TEXT NOT NULL DEFAULT (strftime('%Y-%m-%dT%H:%M:%SZ','now'))"⟩,
    ⟨"updated_at", "TEXT NOT NULL DEFAULT (strftime('%Y-%m-%dT%H:%M:%SZ','now'))"⟩]

/-- Migration 1: the initial schema. -/
def initialSchema : List (Statement V) :=
  [.createTable true "verifications" verificationColumns,
    .createIndex true "idx_verifications_wasm_hash" "verifications" ["wasm_hash"],
    .createIndex true "idx_verifications_contract_id" "verifications" ["contract_id"]]

/-- The columns of `attestations`. -/
def attestationColumns : List Column :=
  [⟨"id", "INTEGER PRIMARY KEY"⟩,
    ⟨"verification_id", "INTEGER NOT NULL UNIQUE REFERENCES verifications(id)"⟩,
    ⟨"wasm_hash", "TEXT NOT NULL"⟩,
    ⟨"input_digest", "TEXT NOT NULL"⟩,
    ⟨"rebuilt_hash", "TEXT NOT NULL"⟩,
    ⟨"status", "TEXT NOT NULL"⟩,
    ⟨"tx_hash", "TEXT"⟩,
    ⟨"attempts", "INTEGER NOT NULL DEFAULT 0"⟩,
    ⟨"last_error", "TEXT"⟩,
    ⟨"next_attempt_at", "TEXT NOT NULL DEFAULT (strftime('%Y-%m-%dT%H:%M:%SZ','now'))"⟩,
    ⟨"created_at", "TEXT NOT NULL DEFAULT (strftime('%Y-%m-%dT%H:%M:%SZ','now'))"⟩,
    ⟨"updated_at", "TEXT NOT NULL DEFAULT (strftime('%Y-%m-%dT%H:%M:%SZ','now'))"⟩]

/-- Migration 2: the attestation outbox. -/
def attestationOutbox : List (Statement V) :=
  [.createTable true "attestations" attestationColumns,
    .createIndex true "idx_attestations_due" "attestations" ["status", "next_attempt_at"]]

/-- `MIGRATIONS`. -/
def serviceMigrations : List (List (Statement V)) :=
  [initialSchema, attestationOutbox]

/-- Why a version is refused. -/
def newerSchema (applied target : ℕ) : String :=
  "database schema version " ++ toString applied ++ " is newer than this build understands (" ++
    toString target ++ "); run the newer build or restore a compatible backup"

/-- `read_user_version`: a version is not negative. -/
def readUserVersion (db : Database V) : Except String ℕ :=
  if 0 ≤ db.userVersion then .ok db.userVersion.toNat else .error "reading schema version"

/-- One migration and the version it leads to, as one batch. -/
def migrationBatch (script : List (Statement V)) (version : ℕ) : List (Command (Database V)) :=
  transaction (script.map Statement.exec ++ [fun db => some (db.setVersion version)])

/-- The migrations that are pending, each with its index. -/
def applyPending : ℕ → List (List (Statement V) × ℕ) → Connection (Database V) →
    Connection (Database V) × Except String Unit
  | _, [], conn => (conn, .ok ())
  | budget, (script, idx) :: pending, conn =>
    let version := idx + 1
    match executeBatch budget (migrationBatch script version) conn with
    | (conn, some budget) => applyPending budget pending conn
    | (conn, none) => (conn, .error ("applying schema migration " ++ toString version))

/-- `migrate`. -/
def migrate (migrations : List (List (Statement V))) :
    ℕ → Connection (Database V) → Connection (Database V) × Except String Unit
  | 0, conn => (conn, .error "reading schema version")
  | budget + 1, conn =>
    match readUserVersion conn.file with
    | .error why => (conn, .error why)
    | .ok applied =>
      if applied ≤ migrations.length then
        applyPending budget (migrations.zipIdx.drop applied) conn
      else (conn, .error (newerSchema applied migrations.length))

/-- `Db::open`, and what it leaves of the file. -/
def openFile (migrations : List (List (Statement V))) (budget : ℕ) (db : Database V) :
    Database V × Except String Unit :=
  let (conn, opened) := migrate migrations budget (idle db)
  (conn.file, opened)

/-! ## Where a file stands -/

/-- The migrations, once each and in order. -/
def applyAll (migrations : List (List (Statement V))) : Database V → Option (Database V) :=
  runAll (migrations.map run)

/-- The file has the schema that these migrations make of an empty one. -/
def HasSchemaOf (migrations : List (List (Statement V))) (db : Database V) : Prop :=
  ∃ fresh, applyAll migrations .empty = some fresh ∧ db.schema = fresh.schema

/-- The file is at a version, and has the schema of the migrations up to it; or it has the schema of
the first from before there were versions. -/
def Stands (migrations : List (List (Statement V))) (version : ℕ) (db : Database V) : Prop :=
  db.userVersion = version ∧
    (HasSchemaOf (migrations.take version) db ∨ version = 0 ∧ HasSchemaOf (migrations.take 1) db)

/-- The file stands at a version that the migrations lead up to. -/
def Upgradable (migrations : List (List (Statement V))) (db : Database V) : Prop :=
  ∃ version ≤ migrations.length, Stands migrations version db

section Stand

variable {migrations : List (List (Statement V))} {script : List (Statement V)} {version : ℕ}
  {db db' : Database V}

/-- The file that is new stands at version 0. -/
theorem stands_empty : Stands migrations 0 (.empty : Database V) :=
  ⟨rfl, Or.inl ⟨.empty, rfl, rfl⟩⟩

theorem applyAll_take_succ (h : migrations[version]? = some script) (fresh : Database V) :
    applyAll (migrations.take (version + 1)) fresh =
      (applyAll (migrations.take version) fresh).bind (run script) := by
  have htake : migrations.take (version + 1) = migrations.take version ++ [script] := by
    rw [List.take_add_one, h, Option.toList_some]
  have hlast : runAll [run script] = run script := by
    funext t
    exact Option.bind_fun_some (run script t)
  rw [applyAll, htake, List.map_append, List.map_singleton, runAll_append, hlast, applyAll]

/-- A migration that was run on such a file has made what it makes of an empty one. -/
theorem HasSchemaOf.run (h : HasSchemaOf (migrations.take version) db)
    (hscript : migrations[version]? = some script) (hrun : Ddl.run script db = some db') :
    HasSchemaOf (migrations.take (version + 1)) db' := by
  obtain ⟨fresh, hfresh, hschema⟩ := h
  have hmap := map_schema_run script hschema
  rw [hrun, Option.map_some] at hmap
  obtain ⟨fresh', hrun', hschema'⟩ := Option.map_eq_some_iff.1 hmap.symm
  exact ⟨fresh', by rw [applyAll_take_succ hscript, hfresh, Option.bind_some, hrun'],
    hschema'.symm⟩

/-- A file that has the schema of the first migration has all that it creates. -/
theorem HasSchemaOf.done (h : HasSchemaOf (migrations.take 1) db)
    (hscript : migrations[0]? = some script) : ∀ statement ∈ script, statement.Done db.schema := by
  obtain ⟨fresh, hfresh, hschema⟩ := h
  rw [applyAll_take_succ hscript] at hfresh
  rw [hschema]
  exact done_of_run hfresh

/-- **Each migration takes a file to the next version.** -/
theorem Stands.next (h : Stands migrations version db)
    (hscript : migrations[version]? = some script)
    (hrun : runAll (script.map Statement.exec ++ [fun t => some (t.setVersion (version + 1))]) db =
      some db') : Stands migrations (version + 1) db' ∧ Kept db db' := by
  rw [runAll_append] at hrun
  obtain ⟨t, ht, hversion⟩ := Option.bind_eq_some_iff.1 hrun
  cases hversion
  have hkept : Kept db (t.setVersion (version + 1)) := (run_kept ht).trans (Kept.setVersion _)
  refine ⟨⟨rfl, Or.inl ?_⟩, hkept⟩
  rcases h.2 with hschema | ⟨rfl, hfirst⟩
  · have hnext : HasSchemaOf (migrations.take (version + 1)) t := hschema.run hscript ht
    exact hnext
  · -- the first migration finds what it creates, and is only counted
    obtain rfl := run_of_done (hfirst.done hscript) ht
    exact hfirst

/-- A file at the last version has the schema of all migrations. -/
theorem Stands.hasSchemaOf (h : Stands migrations migrations.length db) :
    HasSchemaOf migrations db := by
  rcases h.2 with hschema | ⟨hnone, hfirst⟩
  · rwa [List.take_length] at hschema
  · rw [List.length_eq_zero_iff] at hnone
    rwa [hnone] at hfirst ⊢

end Stand

/-! ## Opens -/

/-- What an open may leave: after one that has succeeded all migrations are applied, after one that
has not some more may be. -/
def Upgrades (migrations : List (List (Statement V))) (db db' : Database V) :
    Except String Unit → Prop
  | .ok _ => Stands migrations migrations.length db' ∧ Kept db db'
  | .error _ => Upgradable migrations db' ∧ Kept db db'

section Open

variable {migrations : List (List (Statement V))} {version : ℕ} {db db' db'' : Database V}

theorem Upgrades.of_kept {opened : Except String Unit} (hkept : Kept db db')
    (h : Upgrades migrations db' db'' opened) : Upgrades migrations db db'' opened := by
  cases opened with
  | ok _ => exact ⟨h.1, hkept.trans h.2⟩
  | error _ => exact ⟨h.1, hkept.trans h.2⟩

/-- The first of the migrations that are pending, and the others. -/
theorem drop_eq_cons {script : List (Statement V)} {pending : List (List (Statement V))}
    (h : migrations.drop version = script :: pending) :
    migrations[version]? = some script ∧ migrations.drop (version + 1) = pending := by
  constructor
  · rw [← List.head?_drop, h, List.head?_cons]
  · rw [← List.tail_drop, h, List.tail_cons]

theorem upgrades_applyPending (pending : List (List (Statement V))) :
    ∀ budget version db, migrations.drop version = pending → Stands migrations version db →
      version ≤ migrations.length →
      Upgrades migrations db (applyPending budget (pending.zipIdx version) (idle db)).1.file
        (applyPending budget (pending.zipIdx version) (idle db)).2 := by
  induction pending with
  | nil =>
    intro budget version db hdrop hstands hle
    have hlast : version = migrations.length :=
      hle.antisymm (List.drop_eq_nil_iff.1 hdrop)
    subst hlast
    exact ⟨hstands, Kept.refl db⟩
  | cons script pending ih =>
    intro budget version db hdrop hstands hle
    obtain ⟨hscript, hpending⟩ := drop_eq_cons hdrop
    have hlt : version < migrations.length := (List.getElem?_eq_some_iff.1 hscript).1
    have hatomic := atomic_transaction
      (script.map Statement.exec ++ [fun t => some (t.setVersion (version + 1))]) budget db
    rw [List.zipIdx_cons]
    simp only [applyPending, migrationBatch]
    split
    · next conn left hbatch =>
      rw [hbatch] at hatomic
      obtain ⟨t, hrun, rfl⟩ := hatomic
      obtain ⟨hnext, hkept⟩ := hstands.next hscript hrun
      exact (ih left (version + 1) t hpending hnext hlt).of_kept hkept
    · next conn hbatch =>
      rw [hbatch] at hatomic
      rcases hatomic with hsame | hdone
      · rw [hsame]
        exact ⟨⟨version, hle, hstands⟩, Kept.refl db⟩
      · obtain ⟨hnext, hkept⟩ := hstands.next hscript hdone
        exact ⟨⟨version + 1, hlt, hnext⟩, hkept⟩

theorem drop_zipIdx {α : Type*} (l : List α) (k : ℕ) : l.zipIdx.drop k = (l.drop k).zipIdx k := by
  ext i : 1
  rw [List.getElem?_drop, List.getElem?_zipIdx, List.getElem?_zipIdx, List.getElem?_drop,
    Nat.zero_add]

/-- The pending migrations are those after the version of the file. -/
theorem openFile_succ (hversion : db.userVersion = version) (budget : ℕ) :
    openFile migrations (budget + 1) db =
      if version ≤ migrations.length then
        ((applyPending budget ((migrations.drop version).zipIdx version) (idle db)).1.file,
          (applyPending budget ((migrations.drop version).zipIdx version) (idle db)).2)
      else (db, .error (newerSchema version migrations.length)) := by
  have hread : readUserVersion db = .ok version := by
    rw [readUserVersion, hversion, if_pos (Int.natCast_nonneg version), Int.toNat_natCast]
  simp only [openFile, migrate, idle_file, hread, drop_zipIdx]
  split_ifs <;> rfl

/-- **An open upgrades**, however far it gets. -/
theorem upgrades_openFile (h : Upgradable migrations db) (budget : ℕ) :
    Upgrades migrations db (openFile migrations budget db).1 (openFile migrations budget db).2 := by
  cases budget with
  | zero => exact ⟨h, Kept.refl db⟩
  | succ budget =>
    obtain ⟨version, hle, hstands⟩ := h
    rw [openFile_succ hstands.1, if_pos hle]
    exact upgrades_applyPending _ budget version db rfl hstands hle

/-- An open that has failed, or was interrupted. -/
def FailedOpen (migrations : List (List (Statement V))) (db : Database V) (budget : ℕ)
    (db' : Database V) : Prop :=
  ∃ why, openFile migrations budget db = (db', .error why)

/-- After any number of them, the file is still one that can be upgraded. -/
theorem upgradable_of_failed {h : List (Transition (Database V) ℕ)}
    (hdb : Upgradable migrations db) (hpath : Path (FailedOpen migrations) db h db') :
    Upgradable migrations db' ∧ Kept db db' := by
  refine hpath.state_invariant (P := fun t => Upgradable migrations t ∧ Kept db t) ?_
    ⟨hdb, Kept.refl db⟩
  rintro t budget u ⟨hupgradable, hkept⟩ ⟨why, hopen⟩
  have hupgrades := upgrades_openFile hupgradable budget
  rw [hopen] at hupgrades
  exact ⟨hupgrades.1, hkept.trans hupgrades.2⟩

/-- A file at the last version is left as it is. -/
theorem openFile_last (hversion : db.userVersion = migrations.length) (budget : ℕ) :
    openFile migrations (budget + 1) db = (db, .ok ()) := by
  rw [openFile_succ hversion, if_pos le_rfl, List.drop_length]
  rfl

/-- A file at a version from a newer build is refused, and left as it is. -/
theorem openFile_newer (hnewer : migrations.length < db.userVersion) (budget : ℕ) :
    openFile migrations (budget + 1) db =
      (db, .error (newerSchema db.userVersion.toNat migrations.length)) := by
  have hversion : db.userVersion = db.userVersion.toNat := by omega
  rw [openFile_succ hversion, if_neg (by omega)]

/-- Migrations that can all be applied to an empty file can be applied as far as one likes. -/
theorem exists_applyAll_take {fresh : Database V} (hall : applyAll migrations .empty = some fresh)
    (k : ℕ) : ∃ t, applyAll (migrations.take k) .empty = some t := by
  rw [← List.take_append_drop k migrations, applyAll, List.map_append, runAll_append] at hall
  obtain ⟨t, ht, -⟩ := Option.bind_eq_some_iff.1 hall
  exact ⟨t, ht⟩

/-- Then the next migration does not fail on a file, either, if the first says `IF NOT EXISTS`. -/
theorem Stands.exists_next {script : List (Statement V)} {fresh : Database V}
    (hall : applyAll migrations .empty = some fresh)
    (hguarded : ∀ first ∈ migrations.head?, ∀ statement ∈ first, statement.guarded = true)
    (h : Stands migrations version db) (hscript : migrations[version]? = some script) :
    ∃ db', runAll (script.map Statement.exec ++ [fun t => some (t.setVersion (version + 1))]) db =
      some db' := by
  have hrun : ∃ t, run script db = some t := by
    rcases h.2 with ⟨start, hstart, hschema⟩ | ⟨rfl, hfirst⟩
    · obtain ⟨t, ht⟩ := exists_applyAll_take hall (version + 1)
      rw [applyAll_take_succ hscript, hstart, Option.bind_some] at ht
      have hmap := map_schema_run script hschema
      rw [ht, Option.map_some] at hmap
      obtain ⟨t', ht', -⟩ := Option.map_eq_some_iff.1 hmap
      exact ⟨t', ht'⟩
    · have hhead : script ∈ migrations.head? := by
        rw [List.head?_eq_getElem?, hscript]
        exact rfl
      exact ⟨db, run_of_guarded (hguarded script hhead) (hfirst.done hscript)⟩
  obtain ⟨t, ht⟩ := hrun
  refine ⟨t.setVersion (version + 1), ?_⟩
  rw [runAll_append]
  exact Option.bind_eq_some_iff.2 ⟨t, ht, rfl⟩

theorem exists_applyPending {fresh : Database V} (hall : applyAll migrations .empty = some fresh)
    (hguarded : ∀ first ∈ migrations.head?, ∀ statement ∈ first, statement.guarded = true)
    (pending : List (List (Statement V))) :
    ∀ version db, migrations.drop version = pending → Stands migrations version db →
      ∃ budget conn, applyPending budget (pending.zipIdx version) (idle db) = (conn, .ok ()) := by
  induction pending with
  | nil =>
    intro version db _ _
    exact ⟨0, idle db, rfl⟩
  | cons script pending ih =>
    intro version db hdrop hstands
    obtain ⟨hscript, hpending⟩ := drop_eq_cons hdrop
    obtain ⟨t, ht⟩ := hstands.exists_next hall hguarded hscript
    obtain ⟨left, conn, hconn⟩ := ih (version + 1) t hpending (hstands.next hscript ht).1
    obtain ⟨budget, hbatch⟩ : ∃ budget,
        executeBatch budget (migrationBatch script (version + 1)) (idle db) = (idle t, some left) :=
      ⟨_, executeBatch_transaction ht left⟩
    refine ⟨budget, conn, ?_⟩
    rw [List.zipIdx_cons, applyPending]
    simp only [hbatch, hconn]

/-- **An open that is not interrupted succeeds.** -/
theorem exists_openFile {fresh : Database V} (hall : applyAll migrations .empty = some fresh)
    (hguarded : ∀ first ∈ migrations.head?, ∀ statement ∈ first, statement.guarded = true)
    (h : Upgradable migrations db) :
    ∃ budget last, openFile migrations budget db = (last, .ok ()) := by
  obtain ⟨version, hle, hstands⟩ := h
  obtain ⟨budget, conn, hconn⟩ :=
    exists_applyPending hall hguarded (migrations.drop version) version db rfl hstands
  exact ⟨budget + 1, conn.file, by rw [openFile_succ hstands.1, if_pos hle, hconn]⟩

/-- **Every upgrade ends in the same schema**, from wherever it has started and however often it was
interrupted; and what is newer is refused. -/
theorem upgrades_converge (migrations : List (List (Statement V))) :
    (∀ (db db' last : Database V) (h : List (Transition (Database V) ℕ)) (budget : ℕ),
      Upgradable migrations db → Path (FailedOpen migrations) db h db' →
      openFile migrations budget db' = (last, .ok ()) →
        HasSchemaOf migrations last ∧ last.userVersion = migrations.length ∧ Kept db last ∧
          ∀ again, (openFile migrations again last).1 = last ∧
            openFile migrations (again + 1) last = (last, .ok ())) ∧
    ∀ (db : Database V), migrations.length < db.userVersion → ∀ budget,
      ∃ why, openFile migrations budget db = (db, .error why) := by
  constructor
  · intro db db' last h budget hdb hpath hopen
    obtain ⟨hupgradable, hkept⟩ := upgradable_of_failed hdb hpath
    have hupgrades := upgrades_openFile hupgradable budget
    rw [hopen] at hupgrades
    obtain ⟨hstands, hkept'⟩ := hupgrades
    refine ⟨hstands.hasSchemaOf, hstands.1, hkept.trans hkept', fun again => ⟨?_, ?_⟩⟩
    · cases again with
      | zero => rfl
      | succ again => rw [openFile_last hstands.1]
    · exact openFile_last hstands.1 again
  · intro db hnewer budget
    cases budget with
    | zero => exact ⟨_, rfl⟩
    | succ budget => exact ⟨_, openFile_newer hnewer budget⟩

end Open

namespace Sample

/-- A file from before there were versions: the initial schema, and a row. -/
def unversioned : Database String :=
  ((Database.empty.define "verifications" (.table verificationColumns
    [["1", "COLD", "dead", "git", "img", "verified", "", "", "2026", "2026"]])).define
      "idx_verifications_wasm_hash" (.index "verifications" ["wasm_hash"])).define
      "idx_verifications_contract_id" (.index "verifications" ["contract_id"])

theorem unversioned_stands : Stands serviceMigrations 0 unversioned := by
  refine ⟨rfl, Or.inr ⟨rfl, _, rfl, ?_⟩⟩
  simp only [unversioned, Database.schema_define, Entry.definition]

/-- It is upgraded by the second open, when the first was interrupted in the middle of a migration. -/
theorem unversioned_upgraded : ∃ last : Database String,
    HasSchemaOf serviceMigrations last ∧ last.userVersion = 2 ∧ Kept unversioned last := by
  have hstart : Upgradable serviceMigrations unversioned := ⟨0, Nat.zero_le _, unversioned_stands⟩
  have hfailed : FailedOpen serviceMigrations unversioned 4 unversioned := ⟨_, rfl⟩
  have hguarded : ∀ first ∈ (serviceMigrations (V := String)).head?,
      ∀ statement ∈ first, statement.guarded = true := by
    rintro _ ⟨⟩
    decide
  obtain ⟨budget, last, hopen⟩ := exists_openFile rfl hguarded hstart
  obtain ⟨hschema, hversion, hkept, -⟩ :=
    (upgrades_converge serviceMigrations).1 _ _ last _ budget hstart (Path.single hfailed) hopen
  exact ⟨last, hschema, hversion, hkept⟩

end Sample

end Api
end Sorofy
