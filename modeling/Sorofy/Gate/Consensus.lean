import Sorofy.Foundation.Ranking
import Sorofy.Gate.Value

/-!
# What the registry's answer means

`web/gate/lib/consensus.js`: the answer is normalized (`normalizeConsensus`), judged (`decide`),
and of several judged answers the most favourable is taken (`bestOf`).

`Answers` says what a value of one of the three decoded shapes answers, and
`normalizeConsensus_eq_ok` that these are the values which are not refused.  `bestOf` is the
library's `best` for the order in `State.rank`, so what it decides depends on which states there
are, and on nothing else.
-/

namespace Sorofy
namespace Gate

open Foundation

/-! ## Normalizing -/

/-- `STATES`. -/
inductive State where
  | noClaim
  | open
  | insufficient
  | verified
  | mismatch
  | disputed
  deriving DecidableEq, Repr

/-- The name of a state. -/
def State.name : State → JsString
  | .noClaim => js "NoClaim"
  | .open => js "Open"
  | .insufficient => js "Insufficient"
  | .verified => js "Verified"
  | .mismatch => js "Mismatch"
  | .disputed => js "Disputed"

/-- The states, in the order the registry defines them. -/
def states : List State :=
  [.noClaim, .open, .insufficient, .verified, .mismatch, .disputed]

/-- The counts around a claim, as far as they were numbers. -/
structure Tally where
  distinct : Option ℤ
  top : Option ℤ
  total : Option ℤ
  deriving DecidableEq, Repr

/-- `{ state, tally }`. -/
structure Reading where
  state : State
  tally : Option Tally
  deriving DecidableEq, Repr

/-- `assertState`. -/
def assertState (name : JsString) : Except JsString State :=
  okOr (states.find? fun s => s.name = name) (js "unknown consensus state: " ++ name.take 40)

/-- `num`. -/
def num : JsValue → Option ℤ
  | .bigint n => some n
  | .number n => some n
  | _ => none

/-- `normalizeTally`. -/
def normalizeTally (t : JsValue) : Option Tally :=
  if t.isObject then
    let distinct := num (t.get (js "distinct"))
    let top := num ((t.get (js "top_count")).orElse (t.get (js "topCount")))
    let total := num (t.get (js "total"))
    if distinct = none ∧ top = none ∧ total = none then none
    else some { distinct, top, total }
  else none

/-- The error for a value of no known shape. -/
def unrecognised (rt : Runtime) (raw : JsValue) : Except JsString Reading := do
  let text ← rt.stringify raw
  throw (js "unrecognised consensus value: " ++
    match text with
    | some s => s.take 120
    | none => js "undefined")

/-- The reading of a single-key object. -/
def normalizeObject (rt : Runtime) (raw : JsValue) : Except JsString Reading :=
  match raw.keys with
  | [key] => do
    let state ← assertState key
    pure { state, tally := normalizeTally (raw.get key) }
  | _ => unrecognised rt raw

/-- `normalizeConsensus`. -/
def normalizeConsensus (rt : Runtime) (raw : JsValue) : Except JsString Reading :=
  match raw with
  | .array (.string name :: rest) => do
    let state ← assertState name
    pure { state, tally := normalizeTally (rest.headD .undefined) }
  | .string name => do
    let state ← assertState name
    pure { state, tally := none }
  | .array elems => normalizeObject rt (.array elems)
  | .object own proto => normalizeObject rt (.object own proto)
  | raw => unrecognised rt raw

/-! ## Deciding -/

/-- How a decision is presented. -/
inductive Tone where
  | ok
  | blocked
  | waiting
  | danger
  | unknown
  deriving DecidableEq, Repr

/-- A decision. -/
structure Decision where
  allow : Bool
  tone : Tone
  headline : JsString
  detail : JsString
  deriving DecidableEq

/-- A count, or what stands for a missing one. -/
def count (missing : String) : Option ℤ → String
  | some n => toString n
  | none => missing

/-- `decide`. -/
def decide (reading : Reading) : Decision :=
  let n := reading.tally.getD ⟨none, none, none⟩
  let counted := count "no" n.total
  match reading.state with
  | .verified =>
    { allow := true
      tone := .ok
      headline := js "Verified"
      detail := js ("Every verifier that attested this build rebuilt the exact bytes deployed on " ++
        "chain, the attestation window has closed, and they are staked against being wrong.") }
  | .noClaim =>
    { allow := false
      tone := .blocked
      headline := js "Not verified"
      detail := js ("No staked verifier has attested this contract. That is not an accusation — " ++
        "it is the absence of evidence. Nothing is known about whether the deployed bytes match " ++
        "any published source.") }
  | .open =>
    { allow := false
      tone := .waiting
      headline := js "Still being attested"
      detail := js ("The attestation window is still open with " ++ counted ++
        " attestation(s) so far. A result is only green once the window has closed, so that a " ++
        "late dissent cannot arrive after someone has already acted on it.") }
  | .insufficient =>
    { allow := false
      tone := .waiting
      headline := js "Not enough verifiers"
      detail := js ("Only " ++ counted ++ " verifier(s) attested before the window closed, short " ++
        "of the quorum this registry requires. One verifier agreeing with itself is not a " ++
        "consensus.") }
  | .mismatch =>
    { allow := false
      tone := .danger
      headline := js "Does not match its source"
      detail := js ("Verifiers rebuilt the published source and got different bytes from the " ++
        "ones deployed. This is the failure the whole system exists to catch.") }
  | .disputed =>
    { allow := false
      tone := .danger
      headline := js "Verifiers disagree"
      detail := js (counted ++ " verifier(s) attested and they did not all rebuild the same " ++
        "hash (" ++ count "?" n.distinct ++ " distinct results, the most common held by " ++
        count "?" n.top ++ "). Any dissent at all blocks a green result, and whoever is outvoted " ++
        "can be slashed.") }

/-! ## The most favourable answer -/

/-- `rank`. -/
def State.rank : State → ℕ
  | .noClaim => 0
  | .open => 1
  | .insufficient => 2
  | .disputed => 3
  | .mismatch => 4
  | .verified => 5

/-- What the gate shows: a decision, the state it was made on, and the claim it is about. -/
structure Verdict (ρ : Type) where
  decision : Decision
  state : State
  tally : Option Tally
  claim : Option ρ

/-- `bestOf`, on the readings of some claims. -/
def bestOf {ρ : Type} (results : List (Reading × ρ)) : Verdict ρ :=
  match results with
  | [] =>
    { decision := decide ⟨.noClaim, none⟩
      state := .noClaim
      tally := none
      claim := none }
  | first :: rest =>
    let chosen := best (fun result => result.1.state.rank) first rest
    { decision := decide chosen.1
      state := chosen.1.state
      tally := chosen.1.tally
      claim := some chosen.2 }

/-! ## The shapes of an answer -/

theorem assertState_eq_ok {name : JsString} {state : State} :
    assertState name = .ok state ↔ state.name = name := by
  have hmem : ∀ s : State, s ∈ states := by
    intro s
    cases s <;> decide
  have hinj : ∀ s t : State, s.name = t.name → s = t := by
    intro s t
    cases s <;> cases t <;> decide
  rw [assertState, okOr_eq_ok]
  constructor
  · intro h
    simpa using List.find?_some h
  · rintro rfl
    cases hfind : states.find? fun s => s.name = state.name with
    | none =>
      have hno := List.find?_eq_none.1 hfind state (hmem state)
      simp at hno
    | some s =>
      have hname := List.find?_some hfind
      rw [hinj s state (by simpa using hname)]

/-- A value of one of the three shapes answers a state with a payload. -/
inductive Answers (state : State) : JsValue → JsValue → Prop where
  /-- `[name, payload]`, or `[name]` without one. -/
  | array (rest : List JsValue) :
      Answers state (.array (.string state.name :: rest)) (rest.headD .undefined)
  /-- `name`. -/
  | string : Answers state (.string state.name) .undefined
  /-- `{ name: payload }`. -/
  | object (payload proto : JsValue) :
      Answers state (.object [(state.name, payload)] proto) payload

theorem unrecognised_ne_ok {rt : Runtime} {raw : JsValue} {reading : Reading} :
    unrecognised rt raw ≠ .ok reading := by
  intro h
  rw [unrecognised, bind_eq_ok] at h
  obtain ⟨text, -, hthrow⟩ := h
  cases hthrow

/-- No state has the name of an index. -/
theorem name_ne_indexName (state : State) (i : ℕ) : state.name ≠ JsValue.indexName i := by
  intro h
  have hdigits : ∀ u ∈ JsValue.indexName i, u.toNat < 58 := by
    intro u hu
    have hascii : ∀ c ∈ (toString i).toList, c.toNat < 58 := by
      intro c hc
      have hdigit := Nat.isDigit_of_mem_toDigits (b := 10) (by decide) (by decide) (show
        c ∈ Nat.toDigits 10 i by simpa [Nat.repr] using hc)
      simp only [Char.isDigit, Bool.and_eq_true, decide_eq_true_eq] at hdigit
      have hle : c.toNat ≤ 57 := hdigit.2
      omega
    rw [JsValue.indexName, js, Utf16.encode_of_ascii fun c hc => by
      have := hascii c hc
      omega] at hu
    obtain ⟨c, hc, rfl⟩ := List.mem_map.1 hu
    have hlt := hascii c hc
    rw [UInt16.toNat_ofNat_of_lt' (show c.toNat < 65536 by omega)]
    exact hlt
  rw [← h] at hdigits
  cases state <;> exact absurd (hdigits _ List.mem_cons_self) (by decide)

theorem normalizeObject_eq_ok {rt : Runtime} {raw : JsValue} {reading : Reading} :
    normalizeObject rt raw = .ok reading ↔
      raw.keys = [reading.state.name] ∧
        reading.tally = normalizeTally (raw.get reading.state.name) := by
  obtain ⟨state, tally⟩ := reading
  unfold normalizeObject
  split
  · rename_i key hkeys
    simp only [bind_eq_ok, assertState_eq_ok, pure_eq_ok, Reading.mk.injEq, hkeys,
      List.cons.injEq, and_true]
    constructor
    · rintro ⟨s, rfl, rfl, rfl⟩
      exact ⟨rfl, rfl⟩
    · rintro ⟨rfl, rfl⟩
      exact ⟨state, rfl, rfl, rfl⟩
  · rename_i hkeys
    constructor
    · intro h
      exact absurd h unrecognised_ne_ok
    · rintro ⟨hone, -⟩
      exact absurd hone (hkeys _)

/-- An array is no single-key object that names a state. -/
theorem normalizeObject_array {rt : Runtime} {elems : List JsValue} {reading : Reading} :
    normalizeObject rt (.array elems) ≠ .ok reading := by
  intro h
  have hmem : reading.state.name ∈ (List.range elems.length).map JsValue.indexName := by
    have hkeys : (JsValue.array elems).keys = [reading.state.name] := (normalizeObject_eq_ok.1 h).1
    rw [show (List.range elems.length).map JsValue.indexName = [reading.state.name] from hkeys]
    exact List.mem_singleton_self _
  obtain ⟨i, -, hi⟩ := List.mem_map.1 hmem
  exact name_ne_indexName reading.state i hi.symm

/-- **What is not refused.**  A value is read as a state exactly when it is of one of the three
shapes and names it; the payload gives the tally. -/
theorem normalizeConsensus_eq_ok {rt : Runtime} {raw : JsValue} {reading : Reading} :
    normalizeConsensus rt raw = .ok reading ↔
      ∃ payload, Answers reading.state raw payload ∧ reading.tally = normalizeTally payload := by
  constructor
  · intro h
    unfold normalizeConsensus at h
    split at h
    · simp only [bind_eq_ok, assertState_eq_ok, pure_eq_ok] at h
      obtain ⟨s, rfl, rfl⟩ := h
      exact ⟨_, .array _, rfl⟩
    · simp only [bind_eq_ok, assertState_eq_ok, pure_eq_ok] at h
      obtain ⟨s, rfl, rfl⟩ := h
      exact ⟨_, .string, rfl⟩
    · exact absurd h normalizeObject_array
    · obtain ⟨hkeys, htally⟩ := normalizeObject_eq_ok.1 h
      obtain ⟨⟨name, payload⟩, rfl, rfl⟩ := List.map_eq_singleton_iff.1 hkeys
      exact ⟨payload, .object payload _, by simpa [JsValue.get] using htally⟩
    · exact absurd h unrecognised_ne_ok
  · obtain ⟨state, tally⟩ := reading
    rintro ⟨payload, hanswers, rfl⟩
    have hstate : assertState state.name = .ok state := assertState_eq_ok.2 rfl
    cases hanswers with
    | array rest => simp [normalizeConsensus, hstate]
    | string => simp [normalizeConsensus, hstate, normalizeTally, JsValue.isObject]
    | object payload proto =>
      simp [normalizeConsensus, normalizeObject, JsValue.keys, hstate, JsValue.get]

/-! ## What the best answer is -/

@[simp] theorem decide_allow (reading : Reading) :
    (decide reading).allow = true ↔ reading.state = .verified := by
  obtain ⟨state, tally⟩ := reading
  cases state <;> simp [decide]

theorem State.rank_injective : Function.Injective State.rank := by
  intro s t h
  cases s <;> cases t <;> first | rfl | cases h

section Best

variable {ρ : Type} {results results' : List (Reading × ρ)}

@[simp] theorem bestOf_allow :
    (bestOf results).decision.allow = true ↔ (bestOf results).state = .verified := by
  cases results <;> simp [bestOf]

/-- The state shown is that of one of the readings, if there is one. -/
theorem exists_state_eq (hne : results ≠ []) :
    ∃ result ∈ results, result.1.state = (bestOf results).state := by
  cases results with
  | nil => exact absurd rfl hne
  | cons first rest =>
    exact ⟨best (fun result => result.1.state.rank) first rest, best_mem, rfl⟩

/-- No reading ranks higher than the state shown. -/
theorem rank_le_bestOf {result : Reading × ρ} (h : result ∈ results) :
    result.1.state.rank ≤ (bestOf results).state.rank := by
  cases results with
  | nil => cases h
  | cons first rest =>
    let rank : Reading × ρ → ℕ := fun result => result.1.state.rank
    have hle : rank result ≤ rank (best rank first rest) := le_rank_best h
    exact hle

/-- More readings do not lower the rank of the state shown. -/
theorem rank_bestOf_mono (h : ∀ result ∈ results, result ∈ results') :
    (bestOf results).state.rank ≤ (bestOf results').state.rank := by
  cases results with
  | nil => exact Nat.zero_le _
  | cons first rest =>
    obtain ⟨result, hmem, hstate⟩ := exists_state_eq (List.cons_ne_nil first rest)
    rw [← hstate]
    exact rank_le_bestOf (h result hmem)

/-- Two lists with the same readings show the same state. -/
theorem bestOf_state_eq (h : ∀ result, result ∈ results ↔ result ∈ results') :
    (bestOf results).state = (bestOf results').state :=
  State.rank_injective (le_antisymm (rank_bestOf_mono fun r hr => (h r).1 hr)
    (rank_bestOf_mono fun r hr => (h r).2 hr))

/-- The gate opens exactly when one of the readings is green. -/
theorem bestOf_allow_iff :
    (bestOf results).decision.allow = true ↔ ∃ result ∈ results, result.1.state = .verified := by
  rw [bestOf_allow]
  constructor
  · intro h
    have hne : results ≠ [] := by
      rintro rfl
      cases h
    obtain ⟨result, hmem, hstate⟩ := exists_state_eq hne
    exact ⟨result, hmem, hstate.trans h⟩
  · rintro ⟨result, hmem, hstate⟩
    have hle := rank_le_bestOf hmem
    rw [hstate] at hle
    cases hbest : (bestOf results).state <;> rw [hbest] at hle <;>
      first | rfl | exact absurd hle (by decide)

/-- Nothing but the absence of claims ranks lowest. -/
theorem bestOf_noClaim_iff :
    (bestOf results).state = .noClaim ↔ ∀ result ∈ results, result.1.state = .noClaim := by
  constructor
  · intro h result hmem
    have hle := rank_le_bestOf hmem
    rw [h] at hle
    exact State.rank_injective (Nat.le_zero.1 hle)
  · intro h
    by_cases hne : results = []
    · rw [hne]
      rfl
    · obtain ⟨result, hmem, hstate⟩ := exists_state_eq hne
      rw [← hstate]
      exact h result hmem

end Best

end Gate
end Sorofy
