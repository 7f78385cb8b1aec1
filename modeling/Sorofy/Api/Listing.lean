import Sorofy.Api.Db
import Sorofy.Api.PinnedImage
import Sorofy.Foundation.Paging

/-!
# The listing

`GET /verifications`, and a client that pages through it: it asks for the pages at offset
`0, k, 2k, …`, where `k` is the limit the response reports, until a page is empty.  Jobs may be
inserted between any two of its reads.

A page is a page of `Foundation.Paging`, since a job that is inserted becomes the newest row
(`items_eq_page`).  So the client misses no row that was there when it began, sees a row twice only
if a job came in, and sees every row once if none did (`Visit.pages_spec`).  It comes to an end
when the jobs do, as long as the offsets it needs are `u32`s (`Visit.exists_completed`).
-/

namespace Sorofy
namespace Api

open Foundation VerifierCore
open Paging

/-- `DEFAULT_PAGE`. -/
def defaultPage : ℕ := 24

/-- `ListQuery`. -/
structure ListQuery where
  limit : Option UInt32
  offset : Option UInt32

/-- What the handler answers. -/
structure ListResponse where
  total : ℕ
  limit : ℕ
  offset : ℕ
  items : List (ℕ × VerificationRow)

/-- `list_verifications`.  The count is read after the page, of the database as it is then. -/
def listVerifications (db later : Db) (query : ListQuery) : ListResponse :=
  let limit := min ((query.limit.map UInt32.toNat).getD defaultPage) maxPage
  let offset := (query.offset.map UInt32.toNat).getD 0
  { total := later.count, limit, offset, items := db.recent limit offset }

/-! ## A client that pages -/

/-- What `insert_pending` is given. -/
structure NewJob where
  now : ℕ
  contractId : Option String
  wasmHash : String
  source : SourceRef
  bldimg : String

/-- The database after a batch of jobs has been inserted. -/
def insertAll (host : Host) (db : Db) (batch : List NewJob) : Db :=
  batch.foldl (fun db job =>
    db.insertPending job.now host job.contractId job.wasmHash job.source job.bldimg) db

/-- A client's visit: the limit it asks for, the database at its first read, and the jobs inserted
between one read and the next.  Each response's count is read of a database of its own. -/
structure Visit where
  host : Host
  limit : Option UInt32
  db : Db
  batches : ℕ → List NewJob
  counted : ℕ → Db

namespace Visit

variable (visit : Visit)

/-- The database at a read. -/
def dbAt : ℕ → Db
  | 0 => visit.db
  | i + 1 => insertAll visit.host (dbAt i) (visit.batches i)

/-- The limit the responses report. -/
def pageSize : ℕ := min ((visit.limit.map UInt32.toNat).getD defaultPage) maxPage

/-- The response to the `i`-th request, which is for the offset `i * k`. -/
def response (i : ℕ) : ListResponse :=
  listVerifications (visit.dbAt i) (visit.counted i)
    ⟨visit.limit, some (UInt32.ofNat (i * visit.pageSize))⟩

/-- The visit ends with its `n`-th response, the first that is empty; until then, every offset was
one that can be asked for. -/
structure Completed (n : ℕ) : Prop where
  offsets_fit : n * visit.pageSize < 2 ^ 32
  nonempty : ∀ i < n, (visit.response i).items ≠ []
  last_empty : (visit.response n).items = []

variable {visit} {n i j : ℕ}

/-- A limit of at least one stays one when it is clamped. -/
theorem pageSize_pos (hlimit : ∀ limit ∈ visit.limit, 1 ≤ limit.toNat) : 0 < visit.pageSize := by
  have hrequested : 1 ≤ (visit.limit.map UInt32.toNat).getD defaultPage := by
    cases hvisit : visit.limit with
    | none => decide
    | some limit => exact hlimit limit hvisit
  exact le_min hrequested (by decide)

theorem limit_response (i : ℕ) : (visit.response i).limit = visit.pageSize := rfl

variable (visit) in
/-- The rows a read finds, newest first. -/
def log (i : ℕ) : List (ℕ × VerificationRow) := (visit.dbAt i).verifications.numbered.reverse

/-- **A response holds a page.**  Clamping the limit once more changes nothing. -/
theorem items_eq_page (hfit : i * visit.pageSize < 2 ^ 32) :
    (visit.response i).items = page visit.pageSize visit.log i := by
  have hclamped : min visit.pageSize maxPage = visit.pageSize := min_eq_left (min_le_right ..)
  have hoffset : (UInt32.ofNat (i * visit.pageSize)).toNat = i * visit.pageSize :=
    UInt32.toNat_ofNat_of_lt' hfit
  show (visit.dbAt i).recent visit.pageSize _ = _
  rw [Db.recent, hclamped, Option.map_some, Option.getD_some, hoffset]
  rfl

/-! ## What inserting does -/

/-- Jobs that are inserted become the newest rows. -/
theorem exists_fresh (host : Host) (db : Db) (batch : List NewJob) :
    ∃ fresh, (insertAll host db batch).verifications.numbered.reverse =
      fresh ++ db.verifications.numbered.reverse := by
  induction batch generalizing db with
  | nil => exact ⟨[], rfl⟩
  | cons job batch ih =>
    obtain ⟨fresh, hfresh⟩ := ih
      (db.insertPending job.now host job.contractId job.wasmHash job.source job.bldimg)
    rw [Db.insertPending, Table.numbered_insert, List.reverse_append, ← List.append_assoc] at hfresh
    exact ⟨_, hfresh⟩

/-- The rows are numbered from the newest down. -/
theorem sorted_log (i : ℕ) : (visit.log i).Pairwise fun row row' => row'.1 < row.1 := by
  rw [log, List.pairwise_reverse]
  exact Table.pairwise_numbered _

/-- No two rows of one read have the same number. -/
theorem nodup_log (i : ℕ) : ((visit.log i).map Prod.fst).Nodup := by
  rw [List.Nodup, List.pairwise_map]
  exact (sorted_log i).imp fun h => h.ne'

/-- Without jobs, the next read finds what this one did. -/
theorem log_succ_of_nil (h : visit.batches i = []) : visit.log (i + 1) = visit.log i := by
  rw [log, log, dbAt, h]
  rfl

/-! ## What the client sees -/

/-- **Paging.**  Of a visit that has come to its end: every row that was there at the first read is
in some response; each response is in strictly decreasing order of the ids; a row is in two
responses only if a job was inserted between them; and if none was inserted, the responses are
together the rows, each once, newest first. -/
theorem pages_spec (visit : Visit) (hlimit : ∀ limit ∈ visit.limit, 1 ≤ limit.toNat)
    (hdone : visit.Completed n) :
    (∀ i, (visit.response i).limit = visit.pageSize) ∧
    (∀ row ∈ visit.db.verifications.numbered, ∃ i < n, row ∈ (visit.response i).items) ∧
    (∀ i ≤ n, (visit.response i).items.Pairwise fun row row' => row'.1 < row.1) ∧
    (∀ i j, i < j → j ≤ n → ∀ row ∈ (visit.response i).items, ∀ row' ∈ (visit.response j).items,
      row.1 = row'.1 → ∃ m, i ≤ m ∧ m < j ∧ visit.batches m ≠ []) ∧
    ((∀ m < n, visit.batches m = []) →
      ((List.range n).map fun i => (visit.response i).items).flatten =
        visit.db.verifications.numbered.reverse) := by
  have hk := pageSize_pos hlimit
  have hfit : ∀ i ≤ n, i * visit.pageSize < 2 ^ 32 := fun i hi =>
    (Nat.mul_le_mul_right _ hi).trans_lt hdone.offsets_fit
  have hitems : ∀ i ≤ n, (visit.response i).items = page visit.pageSize visit.log i :=
    fun i hi => items_eq_page (hfit i hi)
  have hend : page visit.pageSize visit.log n = [] := (hitems n le_rfl).symm.trans hdone.last_empty
  have hgrown : ∀ i, ∃ fresh, visit.log (i + 1) = fresh ++ visit.log i := fun i =>
    exists_fresh visit.host (visit.dbAt i) (visit.batches i)
  choose fresh hfresh using hgrown
  refine ⟨limit_response, ?_, ?_, ?_, ?_⟩
  · intro row hrow
    obtain ⟨i, hi, hmem⟩ := exists_mem_page hfresh hk hend
      (List.mem_reverse.mpr hrow)
    exact ⟨i, hi, by rwa [hitems i hi.le]⟩
  · intro i hi
    rw [hitems i hi, page]
    exact ((sorted_log i).sublist (List.drop_sublist ..)).sublist (List.take_sublist ..)
  · intro i j hij hj row hrow row' hrow' hid
    have hmem : row.1 ∈ page visit.pageSize (fun i => (visit.log i).map Prod.fst) i := by
      rw [page_map, ← hitems i (hij.le.trans hj)]
      exact List.mem_map_of_mem hrow
    have hmem' : row.1 ∈ page visit.pageSize (fun i => (visit.log i).map Prod.fst) j := by
      rw [page_map, ← hitems j hj, hid]
      exact List.mem_map_of_mem hrow'
    obtain ⟨m, him, hmj, hchanged⟩ := changed_of_mem_page (nodup_log j) hij hmem hmem'
    exact ⟨m, him, hmj, fun hnil => hchanged (by rw [log_succ_of_nil hnil])⟩
  · intro hnone
    have hsame : ∀ i ≤ n, visit.log i = visit.log 0 := by
      intro i
      induction i with
      | zero => intro _; rfl
      | succ i ih =>
        intro hi
        rw [log_succ_of_nil (hnone i (by omega)), ih (by omega)]
    have hmap : (List.range n).map (fun i => (visit.response i).items) =
        (List.range n).map (page visit.pageSize visit.log) :=
      List.map_congr_left fun i hi => hitems i (List.mem_range.mp hi).le
    rw [hmap, flatten_pages hk hsame hend]
    rfl

/-- **The client comes to an end**, when there are never more rows than its offsets can pass. -/
theorem exists_completed (visit : Visit) (hlimit : ∀ limit ∈ visit.limit, 1 ≤ limit.toNat)
    {bound : ℕ} (hbound : ∀ i, (visit.dbAt i).count ≤ bound)
    (hfit : bound + visit.pageSize ≤ 2 ^ 32) : ∃ n, visit.Completed n := by
  have hk := pageSize_pos hlimit
  have hlength : ∀ i, (visit.log i).length ≤ bound := by
    intro i
    rw [log, List.length_reverse, Table.length_numbered]
    exact hbound i
  obtain ⟨n, hend, hfull, hoffset⟩ := exists_first_empty hk hlength
  have hlt : n * visit.pageSize < 2 ^ 32 := by
    rcases hoffset with rfl | hoffset
    · omega
    · exact hoffset.trans_le hfit
  have hitems : ∀ i ≤ n, (visit.response i).items = page visit.pageSize visit.log i :=
    fun i hi => items_eq_page ((Nat.mul_le_mul_right _ hi).trans_lt hlt)
  refine ⟨n, hlt, fun i hi => ?_, (hitems n le_rfl).trans hend⟩
  rw [hitems i hi.le]
  exact hfull i hi

end Visit

namespace Sample

/-- A job of the sample request. -/
def newJob : NewJob := ⟨0, none, "aa00", request.source, request.bldimg⟩

/-- Three rows, read in pages of two, and a job that comes in after the first read. -/
def visit : Visit where
  host := host
  limit := some 2
  db := insertAll host .empty [newJob, newJob, newJob]
  batches i := if i = 0 then [newJob] else []
  counted _ := .empty

theorem visit_completed : visit.Completed 2 where
  offsets_fit := by decide
  nonempty := by decide +kernel
  last_empty := by decide +kernel

theorem visit_skips_nothing : visit.pageSize = 2 ∧
    ∀ row ∈ visit.db.verifications.numbered, ∃ i < 2, row ∈ (visit.response i).items :=
  ⟨rfl, (visit.pages_spec (fun limit h => by cases h; decide) visit_completed).2.1⟩

/-- The row that was the last of the first page is the first of the next. -/
example : (List.range 3).map (fun i => (visit.response i).items.map Prod.fst) =
    [[3, 2], [2, 1], []] := by decide +kernel

end Sample
end Api
end Sorofy
