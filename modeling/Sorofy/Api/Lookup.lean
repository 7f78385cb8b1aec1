import Sorofy.Api.PinnedImage
import Sorofy.Api.Service

/-!
# Looking a verification up

`GET /verify/{key}` takes a job's id, a contract id or a wasm hash, and one string for all three.

A contract id is accepted only if it is one, and a hash that was resolved on chain is hexadecimal.
A hash the caller wrote is not looked at.  It may read as a number, and then the key means the job
of that number; or it may be a contract id in lower case, and then it answers for the contract.
`answers_iff` says that nothing else goes wrong: the lookups are right after every run exactly when
no accepted job has such a hash.
-/

namespace Sorofy
namespace Api

open Foundation VerifierCore
open History

/-- What a job was submitted for. -/
structure Target where
  contractId : Option String
  wasmHash : String
  deriving DecidableEq

section Lower

variable {host : Host} {s : String} {n : ℤ}

theorem toLowercase_of_ascii (h : ∀ c ∈ s.toList, c.toNat < 128) :
    toLowercase host s = String.ofList (s.toList.map Char.toLower) := by
  rw [toLowercase, if_pos]
  exact List.all_eq_true.2 fun c hc => decide_eq_true (h c hc)

theorem toLowercase_of_lower (h : ∀ c ∈ s.toList, c.toNat < 128 ∧ c.toLower = c) :
    toLowercase host s = s := by
  rw [toLowercase_of_ascii fun c hc => (h c hc).1, List.map_congr_left fun c hc => (h c hc).2,
    List.map_id', String.ofList_toList]

/-- Only capital letters have a lower case of their own. -/
theorem toLower_of_not_capital {c : Char} (h : c.toNat < 65 ∨ 90 < c.toNat) : c.toLower = c := by
  unfold Char.toLower
  rw [dif_neg]
  rintro ⟨hge, hle⟩
  have hge' : 65 ≤ c.toNat := UInt32.le_iff_toNat_le.1 hge
  have hle' : c.toNat ≤ 90 := UInt32.le_iff_toNat_le.1 hle
  omega

/-- A digit is its own lower case. -/
theorem toLower_of_isDigit {c : Char} (h : c.isDigit = true) : c.toNat < 128 ∧ c.toLower = c := by
  simp only [Char.isDigit, Bool.and_eq_true, decide_eq_true_eq] at h
  have hle : c.toNat ≤ 57 := UInt32.le_iff_toNat_le.1 h.2
  exact ⟨by omega, toLower_of_not_capital (by omega)⟩

/-- A number has no letters. -/
theorem toLowercase_of_parseI64 (h : parseI64 s = some n) : toLowercase host s = s := by
  refine toLowercase_of_lower fun c hc => ?_
  rcases Decimal.char_of_parseInt h hc with hdigit | rfl | rfl
  · exact toLower_of_isDigit hdigit
  · exact ⟨by decide, by decide⟩
  · exact ⟨by decide, by decide⟩

theorem parseI64_toString {i : ℕ} (h : i ≤ i64Max) : parseI64 (toString i) = some (i : ℤ) := by
  refine Decimal.parseInt_toString ?_ ?_
  · exact le_trans (by decide) (Int.natCast_nonneg i)
  · unfold i64Max at h
    omega

end Lower

section Shapes

variable {cfg : Config} {s hash : String} {n : ℤ}

/-- A contract id does not read as a number. -/
theorem parseI64_of_isContractId (hdoc : cfg.soroban.Documented)
    (h : cfg.soroban.IsContractId s) : parseI64 s = none := by
  obtain ⟨id, hid⟩ := h
  obtain ⟨-, hhead, -⟩ := hdoc.shape s id hid
  cases hparse : parseI64 s with
  | none => rfl
  | some n =>
    have hmem : 'C' ∈ s.toList := List.mem_of_mem_head? hhead
    rcases Decimal.char_of_parseInt hparse hmem with hdigit | hsign | hsign
    · exact absurd hdigit (by decide)
    · exact absurd hsign (by decide)
    · exact absurd hsign (by decide)

theorem length_toLowercase_of_ascii {host : Host} (h : ∀ c ∈ s.toList, c.toNat < 128) :
    (toLowercase host s).toList.length = s.toList.length := by
  rw [toLowercase_of_ascii h, String.toList_ofList, List.length_map]

theorem isBase32_lt {c : Char} (h : isBase32 c = true) : c.toNat < 128 := by
  simp only [isBase32, decide_eq_true_eq] at h
  rcases h with hupper | ⟨-, hle⟩
  · have hrange : c.val ≥ 65 ∧ c.val ≤ 90 := of_decide_eq_true hupper
    have hnat : c.val.toNat ≤ 90 := UInt32.le_iff_toNat_le.1 hrange.2
    exact lt_of_le_of_lt hnat (by decide)
  · omega

/-- A contract id in lower case is no hash that was resolved on chain: it is too short. -/
theorem lower_contractId_ne (hdoc : cfg.soroban.Documented) (hhex : cfg.host.hex.Documented)
    (h : cfg.soroban.IsContractId s) (bytes : Registry.Bytes32) :
    toLowercase cfg.host (cfg.host.hex.encode bytes.toList) ≠ toLowercase cfg.host s := by
  obtain ⟨id, hid⟩ := h
  obtain ⟨hlen, -, hall⟩ := hdoc.shape s id hid
  have hchars := hhex.encode_toList bytes.toList
  have hlen' : (cfg.host.hex.encode bytes.toList).toList.length = 64 := by
    have h64 := congrArg List.length hchars
    rwa [List.length_map, Hex.length_encode, bytes.length_toList] at h64
  intro heq
  have hsame := congrArg (fun t : String => t.toList.length) heq
  rw [length_toLowercase_of_ascii, length_toLowercase_of_ascii, hlen, hlen'] at hsame
  · omega
  · exact fun c hc => isBase32_lt (List.all_eq_true.1 hall c hc)
  · intro c hc
    have hmem : c.toNat ∈ Hex.encode bytes.toList := hchars ▸ List.mem_map_of_mem hc
    have hrange := Hex.range_of_mem_encode hmem
    omega

end Shapes

/-! ## The jobs of a run -/

section Jobs

variable (cfg : Config)

/-- What a request that is accepted is a job for. -/
def Input.target : Input → Option Target
  | .accept req =>
    match expectedHash cfg.host cfg.soroban req with
    | .ok hash => some ⟨req.contractId, hash⟩
    | .error _ => none
  | _ => none

/-- The jobs that were accepted, in their order. -/
def jobsOf (h : List (Transition Service Input)) : Table Target :=
  ⟨h.filterMap fun e => e.label.target cfg⟩

/-- What is stored of a target. -/
def Target.stored (t : Target) : Target :=
  ⟨t.contractId, toLowercase cfg.host t.wasmHash⟩

/-- What a row was stored for. -/
def VerificationRow.target (row : VerificationRow) : Target :=
  ⟨row.contractId, row.wasmHash⟩

/-- The rows are those of the jobs, and what was resolved on chain has its shape. -/
structure Records (jobs : Table Target) (db : Db) : Prop where
  rows : db.verifications.map VerificationRow.target = jobs.map (Target.stored cfg)
  fits : jobs.count ≤ i64Max
  resolved : ∀ t ∈ jobs.rows, ∀ contractId, t.contractId = some contractId →
    cfg.soroban.IsContractId contractId ∧
      ∃ bytes : Registry.Bytes32, t.wasmHash = cfg.host.hex.encode bytes.toList

end Jobs

section Runs

variable {cfg : Config} {s s' : Service} {input : Input} {h h' : List (Transition Service Input)}

/-- A step that accepts nothing leaves what the rows were stored for. -/
theorem Step.rows_eq (hstep : Step cfg s input s') (hnone : input.target cfg = none) :
    s'.db.verifications.map VerificationRow.target =
      s.db.verifications.map VerificationRow.target := by
  cases hstep with
  | accept now req db job hrunning hid hstart =>
    obtain ⟨source, hash, -, hhash, -⟩ := startVerification_eq_ok hstart
    simp [Input.target, hhash] at hnone
  | finish now id job docker report recorded hjob hrun =>
    cases recorded with
    | false => rfl
    | true => exact Table.map_modify fun row => rfl
  | queue now id report recorded written hjob =>
    cases written with
    | false => rfl
    | true => exact congrArg (Table.map _) enqueue_verifications
  | fail now id job reason recorded hjob =>
    cases recorded with
    | false => rfl
    | true => exact Table.map_modify fun row => rfl
  | pick now id row hrunning hidle hdue => rfl
  | settle now id row run recorded hbusy =>
    cases recorded with
    | false => rfl
    | true => exact congrArg (Table.map _) recordOutcome_verifications
  | crash => rfl
  | restart now hdown => exact Table.map_modifyWhere fun row => rfl

theorem jobsOf_snoc_none {t u : Service} (hnone : input.target cfg = none) :
    jobsOf cfg (h ++ [⟨t, input, u⟩]) = jobsOf cfg h := by
  simp [jobsOf, List.filterMap_append, hnone]

theorem jobsOf_snoc_some {t u : Service} {target : Target}
    (hsome : input.target cfg = some target) :
    jobsOf cfg (h ++ [⟨t, input, u⟩]) = (jobsOf cfg h).insert target := by
  simp [jobsOf, List.filterMap_append, hsome, Table.insert]

/-- **Every run records its jobs.** -/
theorem Run.records (hrun : Run cfg h s) : Records cfg (jobsOf cfg h) s.db := by
  refine hrun.invariant (P := fun h s => Records cfg (jobsOf cfg h) s.db)
    ⟨rfl, Nat.zero_le _, fun t ht => absurd ht List.not_mem_nil⟩ ?_
  intro h t input u _ ih hstep
  cases htarget : input.target cfg with
  | none =>
    rw [jobsOf_snoc_none htarget]
    exact ⟨(hstep.rows_eq htarget).trans ih.rows, ih.fits, ih.resolved⟩
  | some target =>
    rw [jobsOf_snoc_some htarget]
    cases hstep with
    | accept now req db job hrunning hid hstart =>
      obtain ⟨source, hash, -, hhash, rfl, -⟩ := startVerification_eq_ok hstart
      simp only [Input.target, hhash, Option.some.injEq] at htarget
      subst htarget
      have hnext : t.db.verifications.nextId = (jobsOf cfg h).nextId := by
        rw [← Table.nextId_map VerificationRow.target, ih.rows, Table.nextId_map]
      refine ⟨?_, ?_, ?_⟩
      · rw [Table.map_insert, ← ih.rows]
        exact Table.map_insert _
      · rw [Table.count_insert]
        rw [hnext] at hid
        exact hid
      · intro target htarget contractId hcontract
        rcases List.mem_append.1 htarget with hold | hnew
        · exact ih.resolved target hold contractId hcontract
        · rw [List.mem_singleton.1 hnew] at hcontract ⊢
          exact isContractId_of_expectedHash hcontract hhash
    | _ => cases htarget

end Runs



/-! ## What is answered -/

section Answers

variable {cfg : Config} {jobs : Table Target} {db : Db}

/-- **The lookups are right**: an id gives the job of that number, a contract id the newest job
that was submitted for it, and a hash, in any case, the newest job that has it for its target. -/
structure Answers (cfg : Config) (jobs : Table Target) (db : Db) : Prop where
  byId : ∀ i t, jobs.get? i = some t →
    ∃ row, getVerification cfg.host db (toString i) = some (i, row)
  byContract : ∀ contractId, cfg.soroban.IsContractId contractId →
    (getVerification cfg.host db contractId).map Prod.fst =
      (jobs.last? fun t => t.contractId = some contractId).map Prod.fst
  byHash : ∀ t ∈ jobs.rows, ∀ hash,
    toLowercase cfg.host hash = toLowercase cfg.host t.wasmHash →
      (getVerification cfg.host db hash).map Prod.fst =
        (jobs.last? fun t =>
          toLowercase cfg.host t.wasmHash = toLowercase cfg.host hash).map Prod.fst

/-- The hash of the job of this number is taken neither for another job's number nor for a contract
id. -/
structure Unmistakable (cfg : Config) (i : ℕ) (t : Target) : Prop where
  number : ∀ n, parseI64 (toLowercase cfg.host t.wasmHash) = some n → n = i
  contract : ∀ contractId, cfg.soroban.IsContractId contractId →
    toLowercase cfg.host t.wasmHash ≠ toLowercase cfg.host contractId

theorem Records.exists_row (hrec : Records cfg jobs db) {i : ℕ} {t : Target}
    (ht : jobs.get? i = some t) : ∃ row, db.verifications.get? i = some row := by
  have hmap : (db.verifications.get? i).map VerificationRow.target =
      some (Target.stored cfg t) := by
    rw [← Table.get?_map, hrec.rows, Table.get?_map, ht]
    rfl
  obtain ⟨row, hrow, -⟩ := Option.map_eq_some_iff.1 hmap
  exact ⟨row, hrow⟩

/-- The query finds the newest job whose contract or whose hash the key is. -/
theorem Records.lookup_eq (hrec : Records cfg jobs db) (key : String) :
    (db.lookup cfg.host key).map Prod.fst =
      (jobs.last? fun t => t.contractId = some key ∨
        toLowercase cfg.host t.wasmHash = toLowercase cfg.host key).map Prod.fst := by
  let p : Target → Bool := fun t =>
    t.contractId = some key ∨ t.wasmHash = toLowercase cfg.host key
  have hrows : (db.verifications.map VerificationRow.target).last? p =
      (jobs.map (Target.stored cfg)).last? p := by rw [hrec.rows]
  rw [Table.last?_map, Table.last?_map] at hrows
  have hfst := congrArg (Option.map Prod.fst) hrows
  rwa [Option.map_map, Option.map_map] at hfst

/-- A key that is no number is looked up. -/
theorem getVerification_of_none {host : Host} {key : String} (h : parseI64 key = none) :
    getVerification host db key = db.lookup host key := by
  rw [getVerification, h]

variable (hdoc : cfg.soroban.Documented) (hhex : cfg.host.hex.Documented)

include hdoc

/-- Where no hash can be mistaken, the lookups are right. -/
theorem Records.answers (hrec : Records cfg jobs db)
    (hall : ∀ i t, jobs.get? i = some t → Unmistakable cfg i t) : Answers cfg jobs db where
  byId i t ht := by
    obtain ⟨row, hrow⟩ := hrec.exists_row ht
    have hle := (Table.get?_eq_some_bounds ht).2.trans hrec.fits
    refine ⟨row, ?_⟩
    rw [getVerification, parseI64_toString hle]
    show (db.verifications.get? i).map _ = _
    rw [hrow]
    rfl
  byContract contractId hid := by
    rw [getVerification_of_none (parseI64_of_isContractId hdoc hid), hrec.lookup_eq]
    congr 1
    refine Table.last?_congr fun t ht => ?_
    obtain ⟨i, hi⟩ := Table.exists_get?_of_mem ht
    have hne := (hall i t hi).contract contractId hid
    simp [hne]
  byHash t ht hash hsame := by
    obtain ⟨i, hi⟩ := Table.exists_get?_of_mem ht
    cases hparse : parseI64 hash with
    | none =>
      rw [getVerification_of_none hparse, hrec.lookup_eq]
      congr 1
      refine Table.last?_congr fun t' ht' => ?_
      have hne : t'.contractId ≠ some hash := by
        intro hcontract
        have hid := (hrec.resolved t' ht' hash hcontract).1
        exact (hall i t hi).contract hash hid hsame.symm
      simp [hne]
    | some n =>
      -- the hash is the number of the only job that has it
      have hlower : toLowercase cfg.host hash = hash := toLowercase_of_parseI64 hparse
      have hown : ∀ j t', jobs.get? j = some t' →
          toLowercase cfg.host t'.wasmHash = toLowercase cfg.host hash → n = j := by
        intro j t' hj hsame'
        refine (hall j t' hj).number n ?_
        rw [hsame', hlower, hparse]
      have hn := hown i t hi hsame.symm
      obtain ⟨row, hrow⟩ := hrec.exists_row hi
      have hget : getVerification cfg.host db hash = some (i, row) := by
        rw [getVerification, hparse]
        show (db.verifications.get? n.toNat).map _ = _
        rw [hn, Int.toNat_natCast, hrow]
        rfl
      obtain ⟨j, t', hlast⟩ := Table.exists_last? ht
        (p := fun t' => toLowercase cfg.host t'.wasmHash = toLowercase cfg.host hash)
        (decide_eq_true hsame.symm)
      obtain ⟨hj, hsame'⟩ := Table.get?_of_last? hlast
      have hij := hown j t' hj (of_decide_eq_true hsame')
      rw [hget, hlast, Option.map_some, Option.map_some, Option.some.injEq]
      show i = j
      omega

/-- Where the lookups are right, the hash of the newest job cannot be mistaken. -/
theorem Records.unmistakable {t : Target} (hrec : Records cfg (jobs.insert t) db)
    (hhex : cfg.host.hex.Documented) (hans : Answers cfg (jobs.insert t) db) :
    Unmistakable cfg jobs.nextId t where
  number n hn := by
    have hmem : t ∈ (jobs.insert t).rows := List.mem_append_right _ (List.mem_singleton_self t)
    have hlower : toLowercase cfg.host (toLowercase cfg.host t.wasmHash) =
        toLowercase cfg.host t.wasmHash := toLowercase_of_parseI64 hn
    have hnewest := hans.byHash t hmem (toLowercase cfg.host t.wasmHash) hlower
    rw [Table.last?_insert, if_pos (decide_eq_true hlower.symm), getVerification, hn] at hnewest
    obtain ⟨row, hrow, hid⟩ := Option.map_eq_some_iff.1 hnewest
    obtain ⟨row', hget, rfl⟩ := Option.map_eq_some_iff.1 hrow
    have hpos := (Table.get?_eq_some_bounds hget).1
    have hnat : n.toNat = jobs.nextId := hid
    omega
  contract contractId hid hsame := by
    have hnewest := hans.byContract contractId hid
    rw [getVerification_of_none (parseI64_of_isContractId hdoc hid), hrec.lookup_eq,
      Table.last?_insert, if_pos (decide_eq_true (Or.inr hsame)), Table.last?_insert] at hnewest
    split_ifs at hnewest with hcontract
    · -- the hash of a job for a contract is too long
      have hmem : t ∈ (jobs.insert t).rows := List.mem_append_right _ (List.mem_singleton_self t)
      obtain ⟨-, bytes, hbytes⟩ := hrec.resolved t hmem contractId (of_decide_eq_true hcontract)
      rw [hbytes] at hsame
      exact lower_contractId_ne hdoc hhex hid bytes hsame
    · obtain ⟨⟨j, t'⟩, hlast, hj⟩ := Option.map_eq_some_iff.1 hnewest.symm
      have hle := (Table.get?_eq_some_bounds (Table.get?_of_last? hlast).1).2
      have hnat : j = jobs.count + 1 := hj
      omega

end Answers

/-- **When the lookups are right.**  They are right in every state of a run exactly when no job
that was accepted has a hash that can be mistaken. -/
theorem answers_iff {cfg : Config} {h : List (Transition Service Input)} {s : Service}
    (hdoc : cfg.soroban.Documented) (hhex : cfg.host.hex.Documented) (hrun : Run cfg h s) :
    (∀ before after t, h = before ++ after → Run cfg before t →
      Answers cfg (jobsOf cfg before) t.db) ↔
        ∀ i target, (jobsOf cfg h).get? i = some target → Unmistakable cfg i target := by
  constructor
  · refine hrun.invariant (P := fun h _ => (∀ before after t, h = before ++ after →
        Run cfg before t → Answers cfg (jobsOf cfg before) t.db) →
      ∀ i target, (jobsOf cfg h).get? i = some target → Unmistakable cfg i target) ?_ ?_
    · intro _ i target htarget
      cases i with
      | zero => cases htarget
      | succ i => cases htarget
    · intro h t input u hpath ih hstep hall i target hget
      have hrest := ih fun before after t' hsplit =>
        hall before (after ++ [⟨t, input, u⟩]) t' (by rw [hsplit, List.append_assoc])
      cases htarget : input.target cfg with
      | none =>
        rw [jobsOf_snoc_none htarget] at hget
        exact hrest i target hget
      | some accepted =>
        rw [jobsOf_snoc_some htarget, Table.get?_insert] at hget
        split_ifs at hget with hi
        · cases hget
          have hnow : Run cfg (h ++ [⟨t, input, u⟩]) u := hpath.snoc hstep
          have hrec := hnow.records
          have hans := hall _ [] u (List.append_nil _).symm hnow
          rw [jobsOf_snoc_some htarget] at hrec hans
          rw [hi]
          exact hrec.unmistakable hdoc hhex hans
        · exact hrest i target hget
  · intro hall before after t hsplit hbefore
    refine hbefore.records.answers hdoc fun i target hget => hall i target ?_
    -- the earlier jobs keep their numbers
    cases i with
    | zero => cases hget
    | succ i =>
      have hrows : (before.filterMap fun e => e.label.target cfg)[i]? = some target := hget
      have hlt := (List.getElem?_eq_some_iff.1 hrows).1
      show (h.filterMap fun e => e.label.target cfg)[i]? = some target
      rw [hsplit, List.filterMap_append, List.getElem?_append_left hlt, hrows]

/-! ## A hash that is a contract id -/

namespace Sample

/-- The contract of the VRFY token. -/
def contractId : String := "CCM2LLD2TAFOMQQUQK62DHCEWNO7UEYOWDXL52GF3KTDK4NMBT6HKEDW"

/-- A network with this one contract. -/
def soroban : Soroban where
  strkey s := if s = contractId then .ok (.fill 32 0x99) else .error "invalid"
  instanceOf _ := .ok (some (.wasm wasmHash))

theorem soroban_documented : soroban.Documented where
  shape s id h := by
    by_cases hs : s = contractId
    · rw [hs]
      decide
    · have herror : soroban.strkey s = .error "invalid" := if_neg hs
      rw [herror] at h
      cases h

theorem isContractId : soroban.IsContractId contractId := by
  refine ⟨.fill 32 0x99, ?_⟩
  simp [soroban]

/-- The service on this network. -/
def config : Config where
  host := host
  soroban := soroban
  allowUnpinnedImage := false
  cli := "stellar"

/-- A request to verify a contract, or a hash the caller wrote. -/
def verifyRequest (contractId wasmHash : Option String) : VerifyRequest where
  contractId
  wasmHash
  repo := some "https://github.com/erdemasik001/Sorofy"
  rev := some "main"
  sourceUri := none
  sourceSha256 := none
  bldimg := request.bldimg
  bldopt := request.bldopt

/-- The hash of the contract. -/
def contractHash : String := hexCrate.encode wasmHash.toList

theorem expectedHash_contract :
    expectedHash host soroban (verifyRequest (some contractId) none) = .ok contractHash := by
  rfl

theorem expectedHash_written (hash : String) :
    expectedHash host soroban (verifyRequest none (some hash)) = .ok (toLowercase host hash) := by
  rfl

/-- The service has started. -/
def started : Service := ⟨.empty, true, fun _ => none, none⟩

theorem run_started : Run config [⟨.new, .restart, started⟩] started :=
  Path.single (Step.restart .new 0 rfl)

/-- A request is accepted. -/
theorem exists_accept {s : Service} {req : VerifyRequest} {hash : String}
    (hrunning : s.running = true) (hid : s.db.verifications.nextId ≤ i64Max)
    (hsource : parseSource req = .ok request.source)
    (hhash : expectedHash host soroban req = .ok hash) :
    ∃ t, Step config s (.accept req) t ∧
      t.db = s.db.insertPending 0 host req.contractId hash request.source req.bldimg ∧
      t.running = true := by
  have hstart : startVerification host soroban false 0 s.db req =
      .ok (s.db.insertPending 0 host req.contractId hash request.source req.bldimg,
        ⟨request.source, req.bldimg, req.bldopt, hash, false, none⟩) := by
    simp only [startVerification, hsource, hhash, ok_bind]
    rfl
  exact ⟨_, Step.accept s 0 req _ _ hrunning hid hstart, rfl, hrunning⟩

/-- The contract is accepted. -/
theorem run_contract : ∃ s, Run config [⟨.new, .restart, started⟩,
      ⟨started, .accept (verifyRequest (some contractId) none), s⟩] s ∧
    s.db = Db.insertPending 0 .empty host (some contractId) contractHash request.source
      request.bldimg ∧ s.running = true := by
  obtain ⟨s, hstep, hdb, hrunning⟩ := exists_accept (s := started) rfl
    (show 1 ≤ i64Max by decide) rfl expectedHash_contract
  exact ⟨s, run_started.snoc hstep, hdb, hrunning⟩

/-- A contract is found under its id. -/
theorem contract_found : ∃ h s, Run config h s ∧
    jobsOf config h = ⟨[⟨some contractId, contractHash⟩]⟩ ∧
    Answers config (jobsOf config h) s.db := by
  obtain ⟨s, hrun, -⟩ := run_contract
  refine ⟨_, s, hrun, rfl, ?_⟩
  refine (answers_iff soroban_documented hexCrate_documented hrun).2 ?_ _ [] s
    (List.append_nil _).symm hrun
  intro i target hget
  have hmem : target ∈ [Target.mk (some contractId) contractHash] := Table.mem_rows_of_get? hget
  rw [List.mem_singleton.1 hmem]
  constructor
  · intro n hn
    have hnone : parseI64 (toLowercase host contractHash) = none := by decide +kernel
    have hn' : parseI64 (toLowercase host contractHash) = some n := hn
    rw [hnone] at hn'
    cases hn'
  · intro id hid
    exact lower_contractId_ne soroban_documented hexCrate_documented hid wasmHash

/-- A job for a hash that is written like the contract's id hides the contract's job. -/
theorem hash_hides_contract : ∃ h s, Run config h s ∧
    jobsOf config h = ⟨[⟨some contractId, contractHash⟩, ⟨none, toLowercase host contractId⟩]⟩ ∧
    soroban.IsContractId contractId ∧
    (getVerification host s.db contractId).map Prod.fst = some 2 ∧
    ((jobsOf config h).last? fun t => t.contractId = some contractId).map Prod.fst = some 1 := by
  obtain ⟨s, hrun, hdb, hrunning⟩ := run_contract
  have hnext : s.db.verifications.nextId ≤ i64Max := by
    rw [hdb]
    show 2 ≤ i64Max
    decide
  obtain ⟨s', hstep, hdb', -⟩ := @exists_accept s (verifyRequest none (some contractId)) _
    hrunning hnext rfl (expectedHash_written contractId)
  have hrun' : Run config _ s' := hrun.snoc hstep
  have hlookup := hrun'.records.lookup_eq contractId
  refine ⟨_, s', hrun', rfl, isContractId, ?_, rfl⟩
  have hnone : parseI64 contractId = none := by decide +kernel
  have hnewest : ((⟨[⟨some contractId, contractHash⟩, ⟨none, toLowercase host contractId⟩]⟩ :
      Table Target).last? fun t => t.contractId = some contractId ∨
        toLowercase host t.wasmHash = toLowercase host contractId).map Prod.fst = some 2 := by
    decide +kernel
  rw [getVerification_of_none hnone]
  exact hlookup.trans hnewest

end Sample

end Api
end Sorofy
