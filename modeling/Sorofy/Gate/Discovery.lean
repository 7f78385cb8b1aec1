import Mathlib.Data.Nat.Digits.Defs
import Sorofy.Gate.Events

/-!
# Finding the claims

What `discoverClaims` finds when the RPC answers every call it makes.

The RPC serves a log.  It cuts the events that were asked for into pages: a full page, which ends
with its last event, or a shorter one, which ends with the ledgers that were scanned for it.  The
cursor of a page says where it ends, and the next page goes on from there (`Cut`, `Serves`).

The scan stops at the first page whose cursor names the latest ledger.  That is the end of the log,
unless the page is full and its last event is not the last one of that ledger: then the rest is
never asked for.  So what is found is what the log holds exactly when such a page leaves nothing new
behind (`discovered_iff`).
-/

namespace Sorofy
namespace Gate

open Foundation
open Registry (Bytes32 Event)

/-! ## Cursors -/

/-- Where an event is: its ledger, the transaction and the operation in it, and its number. -/
structure Cursor where
  ledger : ℕ
  operation : UInt32
  index : ℕ

/-- A number in decimal digits, with zeros in front. -/
def decimal (width n : ℕ) : JsString :=
  (((Nat.digits 10 n).map fun d => UInt16.ofNat (48 + d)).reverse).leftpad width 48

/-- A cursor as the RPC writes it. -/
def Cursor.text (c : Cursor) : JsString :=
  decimal 19 (c.ledger * 2 ^ 32 + c.operation.toNat) ++ 45 :: decimal 10 c.index

section Cursors

variable {width n : ℕ} {u : UInt16}

theorem isDigit_of_mem_decimal (h : u ∈ decimal width n) : isDigit u = true := by
  rw [decimal, List.leftpad, List.mem_append] at h
  rcases h with h | h
  · rw [List.eq_of_mem_replicate h]
    decide
  · obtain ⟨d, hd, rfl⟩ := List.mem_map.1 (List.mem_reverse.1 h)
    have hlt := Nat.digits_lt_base (by decide) hd
    have hval : (UInt16.ofNat (48 + d)).toNat = 48 + d := by
      rw [UInt16.toNat_ofNat']
      exact Nat.mod_eq_of_lt (by omega)
    simp only [isDigit, hval, decide_eq_true_eq]
    omega

theorem decimal_ne_nil (h : 0 < width) : decimal width n ≠ [] := by
  intro hnil
  have hlen : (decimal width n).length = max width _ := List.length_leftpad
  rw [hnil, List.length_nil] at hlen
  omega

/-- The digits are read back. -/
theorem parseDigits_decimal : parseDigits (decimal width n) = n := by
  have hzeros : ∀ (k : ℕ) (s : JsString),
      parseDigits (List.replicate k 48 ++ s) = parseDigits s := by
    intro k s
    induction k with
    | zero => rfl
    | succ k ih => exact ih
  have hdigits : ∀ l : List ℕ, (∀ d ∈ l, d < 10) →
      parseDigits ((l.map fun d => UInt16.ofNat (48 + d)).reverse) = Nat.ofDigits 10 l := by
    intro l hl
    rw [parseDigits, List.foldl_reverse]
    induction l with
    | nil => rfl
    | cons d l ih =>
      have hd := hl d List.mem_cons_self
      have hval : (UInt16.ofNat (48 + d)).toNat = 48 + d := by
        rw [UInt16.toNat_ofNat']
        exact Nat.mod_eq_of_lt (by omega)
      rw [List.map_cons, List.foldr_cons, ih fun e he => hl e (List.mem_cons_of_mem d he), hval,
        Nat.ofDigits_cons]
      omega
  rw [decimal, List.leftpad, hzeros, hdigits _ fun d hd => Nat.digits_lt_base (by decide) hd,
    Nat.ofDigits_digits]

/-- A cursor names its ledger. -/
theorem cursorLedger_text (c : Cursor) : cursorLedger (.string c.text) = some c.ledger := by
  have hne : ∀ u ∈ decimal 19 (c.ledger * 2 ^ 32 + c.operation.toNat),
      Decidable.decide (u ≠ 45) = true := by
    intro u hu
    have hdigit := isDigit_of_mem_decimal hu
    rw [decide_eq_true_eq]
    rintro rfl
    exact absurd hdigit (by decide)
  have htake : c.text.takeWhile (· ≠ 45) =
      decimal 19 (c.ledger * 2 ^ 32 + c.operation.toNat) := by
    rw [Cursor.text, List.takeWhile_append_of_pos hne]
    simp
  have hall : (decimal 19 (c.ledger * 2 ^ 32 + c.operation.toNat)).all isDigit = true :=
    List.all_eq_true.2 fun u hu => isDigit_of_mem_decimal hu
  have hlt := c.operation.toNat_lt
  unfold cursorLedger
  simp only [htake]
  rw [if_pos ⟨decimal_ne_nil (by decide), hall⟩, parseDigits_decimal, Option.some.injEq]
  omega

theorem text_truthy (c : Cursor) : (JsValue.string c.text).truthy = true := by
  simp [JsValue.truthy, Cursor.text]

end Cursors

/-! ## The log and its pages -/

/-- An event of the log. -/
structure Logged where
  id : Cursor
  event : Event ScAddress

/-- The events of the registry, up to the latest ledger. -/
structure Log where
  latest : ℕ
  events : List Logged
  sorted : events.Pairwise fun e e' => e.id.ledger ≤ e'.id.ledger
  le_latest : ∀ e ∈ events, e.id.ledger ≤ latest

/-- Whether an event has three topics, the last of them the given one. -/
def selects (topic : JsString) (event : Event ScAddress) : Bool :=
  match topics event with
  | [_, _, last] => btoa last = topic
  | _ => false

/-- The events asked for, from a ledger on. -/
def Log.selected (log : Log) (topic : JsString) (first : ℕ) : List Logged :=
  log.events.filter fun e => first ≤ e.id.ledger ∧ selects topic e.event = true

/-- A page of events.  The RPC may say which ledger is the latest. -/
structure Page where
  events : List Logged
  stop : Cursor
  latestLedger : Option ℕ

/-- Where a page ends, with the events that come behind it: a full page at its last event, and a
shorter one at the end of the ledgers that were scanned. -/
inductive Page.Ends (limit : ℕ) (page : Page) (behind : List Logged) : Prop where
  | full (last : Logged) (hlen : page.events.length = limit)
      (hlast : page.events.getLast? = some last) (hstop : page.stop = last.id)
  | short (hlen : page.events.length < limit)
      (hpage : ∀ e ∈ page.events, e.id.ledger ≤ page.stop.ledger)
      (hbehind : ∀ e ∈ behind, page.stop.ledger < e.id.ledger)

/-- A way to cut the events into pages, one behind the other. -/
structure Cut (limit latest : ℕ) (events : List Logged) where
  page : ℕ → Page
  /-- What is left in front of each page. -/
  rest : ℕ → List Logged
  rest_zero : rest 0 = events
  rest_eq : ∀ k, rest k = (page k).events ++ rest (k + 1)
  ends : ∀ k, (page k).Ends limit (rest (k + 1))
  le_latestLedger : ∀ k, ∀ n ∈ (page k).latestLedger, latest ≤ n

/-- The cursor of the page names the latest ledger, or a later one. -/
def Page.Stops (latest : ℕ) (page : Page) : Prop :=
  page.latestLedger.getD latest ≤ page.stop.ledger

instance {latest : ℕ} {page : Page} : Decidable (page.Stops latest) :=
  inferInstanceAs (Decidable (_ ≤ _))

/-- The object the RPC hands out for a page, as far as it is read. -/
structure Page.IsAnswer (page : Page) (v : JsValue) : Prop where
  present : v.isNullish = false
  events : ∃ vs, v.get (js "events") = .array vs ∧
    List.Forall₂ (fun e : Logged => Carries e.id.ledger e.event) page.events vs
  cursor : v.get (js "cursor") = .string page.stop.text
  latestLedger : v.get (js "latestLedger") =
    match page.latestLedger with
    | some n => .number n
    | none => .undefined

section Cuts

variable {limit latest : ℕ} {events : List Logged} (cut : Cut limit latest events)

/-- The cursor the scan holds in front of a page. -/
def Cut.cursor : ℕ → JsValue
  | 0 => .null
  | k + 1 => .string (cut.page k).stop.text

/-- Where the scan asks for a page to begin. -/
def Cut.start (first : ℕ) (k : ℕ) : PageStart :=
  if (cut.cursor k).truthy then .cursor (cut.cursor k) else .ledger (some first)

/-- **No call of the scan fails**: the pages are handed out one after the other, as far as the scan
asks for them. -/
def Serves (rpc : Rpc) (registryId topic : JsString) (first : ℕ) : Prop :=
  ∀ k < eventScan.maxPages, (∀ j < k, ¬ (cut.page j).Stops latest) →
    ∃ v, rpc.getEvents k
        { contractId := registryId, topic, limit := eventScan.pageLimit, start := cut.start first k } =
      .ok v ∧ (cut.page k).IsAnswer v

/-- The events of the pages up to one. -/
def Cut.upTo (k : ℕ) : List Logged :=
  (List.range (k + 1)).flatMap fun j => (cut.page j).events

theorem Cut.upTo_zero : cut.upTo 0 = (cut.page 0).events := by
  rw [Cut.upTo, List.range_one, List.flatMap_singleton]

theorem Cut.upTo_succ (k : ℕ) : cut.upTo (k + 1) = cut.upTo k ++ (cut.page (k + 1)).events := by
  rw [Cut.upTo, List.range_succ, List.flatMap_append, List.flatMap_singleton]
  rfl

theorem Cut.upTo_append_rest (k : ℕ) : cut.upTo k ++ cut.rest (k + 1) = events := by
  induction k with
  | zero =>
    have hrest := cut.rest_zero
    rwa [cut.rest_eq 0, ← cut.upTo_zero] at hrest
  | succ k ih => rw [Cut.upTo_succ, List.append_assoc, ← cut.rest_eq (k + 1), ih]

theorem Cut.mem_upTo_of_le {j k : ℕ} (h : j ≤ k) {e : Logged} (he : e ∈ cut.upTo j) :
    e ∈ cut.upTo k := by
  obtain ⟨i, hi, he⟩ := List.mem_flatMap.1 he
  rw [List.mem_range] at hi
  exact List.mem_flatMap.2 ⟨i, List.mem_range.2 (by omega), he⟩

theorem Cut.mem_rest_of_le {j k : ℕ} (h : j ≤ k) {e : Logged} (he : e ∈ cut.rest k) :
    e ∈ cut.rest j := by
  induction k, h using Nat.le_induction with
  | base => exact he
  | succ k _ ih =>
    refine ih ?_
    rw [cut.rest_eq k]
    exact List.mem_append_right _ he

end Cuts

/-! ## What a page attests -/

section Pages

variable {rt : Runtime} {wasmHash digest : Bytes32} {events : List Logged} {vs : List JsValue}

/-- The event attests the hash under the digest. -/
def Attests (wasmHash digest : Bytes32) (event : Event ScAddress) : Prop :=
  ∃ verifier rebuiltHash, event = .attested verifier wasmHash digest rebuiltHash

/-- The claims on a hash that a list of events names. -/
def claimsOf (wasmHash : Bytes32) (events : List Logged) : List EventClaim :=
  events.filterMap fun e => (claimOf e.id.ledger e.event).filter fun claim =>
    claim.wasmHash = toHex wasmHash.toList

theorem toHex_inj {a b : Bytes32} : toHex a.toList = toHex b.toList ↔ a = b := by
  constructor
  · intro h
    have ha : fromHex id (toHex a.toList) (some 32) = .ok a.toList := fromHex_toHex a
    rw [h, fromHex_toHex, Except.ok.injEq, BytesN.toList_inj] at ha
    exact ha.symm
  · rintro rfl
    rfl

/-- The digests of the claims are those attested. -/
theorem mem_claimsOf {name : JsString} :
    name ∈ (claimsOf wasmHash events).map EventClaim.inputDigest ↔
      ∃ e ∈ events, ∃ digest, Attests wasmHash digest e.event ∧ toHex digest.toList = name := by
  simp only [claimsOf, List.mem_map, List.mem_filterMap, Option.filter_eq_some_iff,
    decide_eq_true_eq]
  constructor
  · rintro ⟨claim, ⟨e, he, hclaim, hhash⟩, rfl⟩
    cases hevent : e.event with
    | attested verifier hash digest rebuiltHash =>
      rw [hevent] at hclaim
      cases hclaim
      cases toHex_inj.1 hhash
      exact ⟨e, he, digest, ⟨verifier, rebuiltHash, hevent⟩, rfl⟩
    | _ =>
      rw [hevent] at hclaim
      cases hclaim
  · rintro ⟨e, he, digest, ⟨verifier, rebuiltHash, hevent⟩, rfl⟩
    exact ⟨_, ⟨e, he, by rw [hevent]; rfl, rfl⟩, rfl⟩

/-- The claims of a page are those of its events. -/
theorem claimsForHash_page
    (h : List.Forall₂ (fun e : Logged => Carries e.id.ledger e.event) events vs) :
    claimsForHash rt (.array vs) (toHex wasmHash.toList) =
      .ok (Keyed.addAll EventClaim.inputDigest [] (claimsOf wasmHash events)) := by
  have hwant : toLowerCase rt.unicode (toHex wasmHash.toList) = toHex wasmHash.toList := by
    rw [toHex_eq, toLowerCase_hexString]
  have hclaims : vs.filterMap (claimOn rt (toHex wasmHash.toList)) = claimsOf wasmHash events := by
    induction h with
    | nil => rfl
    | @cons e v l vs hcarries _ ih =>
      have hon : claimOn rt (toHex wasmHash.toList) v =
          (claimOf e.id.ledger e.event).filter fun claim =>
            claim.wasmHash = toHex wasmHash.toList := by
        unfold claimOn
        rw [claimFromEvent_of_carries hcarries]
        cases claimOf e.id.ledger e.event with
        | none => rfl
        | some claim => simp [Option.filter_some]
      rw [List.filterMap_cons, hon, ih, claimsOf, claimsOf, List.filterMap_cons]
  show (do
      let l ← (JsValue.array vs).iterate
      pure (Keyed.addAll EventClaim.inputDigest [] (l.filterMap (claimOn rt
        (toLowerCase rt.unicode (toHex wasmHash.toList)))))) = _
  rw [hwant]
  show Except.ok (Keyed.addAll EventClaim.inputDigest [] (vs.filterMap (claimOn rt
    (toHex wasmHash.toList)))) = _
  rw [hclaims]

end Pages

/-! ## The scan -/

section Scan

variable {rt : Runtime} {rpc : Rpc} {registryId topic : JsString} {wasmHash : Bytes32}
variable {first latest : ℕ} {events : List Logged}
variable (cut : Cut eventScan.pageLimit latest events)

/-- One page that is asked for: the scan takes its claims, and stops or goes on behind it. -/
theorem scanPages_page {k pages : ℕ} {found : List EventClaim}
    (hserves : Serves cut rpc registryId topic first) (hk : k + (pages + 1) = eventScan.maxPages)
    (hnot : ∀ j < k, ¬ (cut.page j).Stops latest) :
    scanPages rt rpc registryId (toHex wasmHash.toList) topic (.number latest) (pages + 1)
        (some first) (cut.cursor k) found =
      let found := Keyed.addAll EventClaim.inputDigest found
        (Keyed.addAll EventClaim.inputDigest [] (claimsOf wasmHash (cut.page k).events))
      if (cut.page k).Stops latest then .ok (found, .reached)
      else scanPages rt rpc registryId (toHex wasmHash.toList) topic (.number latest) pages
        (some first) (cut.cursor (k + 1)) found := by
  obtain ⟨v, hv, hanswer⟩ := hserves k (by omega) hnot
  obtain ⟨vs, hvs, hcarries⟩ := hanswer.events
  have hnumber : eventScan.maxPages - (pages + 1) = k := by omega
  have hread : v.read (js "events") = .ok (.array vs) := by
    unfold JsValue.read
    rw [if_neg (by rw [hanswer.present]; exact Bool.false_ne_true), hvs]
    rfl
  have htip : reaches rt (v.get (js "cursor")) ((v.get (js "latestLedger")).orElse
      (.number latest)) = true ↔ (cut.page k).Stops latest := by
    rw [hanswer.cursor, hanswer.latestLedger, reaches, cursorLedger_text, Page.Stops]
    cases (cut.page k).latestLedger <;> simp [JsValue.orElse, JsValue.isNullish, JsValue.toNumber]
  have hcursor : (v.get (js "cursor")).truthy = true := by
    rw [hanswer.cursor, text_truthy]
  unfold Cut.start at hv
  simp only [scanPages, hnumber, hv, hread, ok_bind, claimsForHash_page hcarries, hcursor,
    Bool.true_eq_false, false_or, htip]
  by_cases hstop : (cut.page k).Stops latest
  · rw [if_pos hstop, if_pos hstop]
    rfl
  · rw [if_neg hstop, if_neg hstop, hanswer.cursor]
    rfl

/-- **What a scan finds**, from one of the pages it asks for on: the digests that are attested in
the pages up to the first one that stops it. -/
theorem scanPages_found {n : ℕ} (hserves : Serves cut rpc registryId topic first)
    (hstops : (cut.page n).Stops latest) (hfirst : ∀ j < n, ¬ (cut.page j).Stops latest)
    {k pages : ℕ} (hk : k + pages = eventScan.maxPages) (hkn : k ≤ n)
    (hn : n < eventScan.maxPages) {found : List EventClaim}
    (hnodup : (found.map EventClaim.inputDigest).Nodup) :
    ∃ found', scanPages rt rpc registryId (toHex wasmHash.toList) topic (.number latest) pages
        (some first) (cut.cursor k) found = .ok (found', .reached) ∧
      (found'.map EventClaim.inputDigest).Nodup ∧
      ∀ name, name ∈ found'.map EventClaim.inputDigest ↔
        name ∈ found.map EventClaim.inputDigest ∨
          ∃ j, k ≤ j ∧ j ≤ n ∧
            name ∈ (claimsOf wasmHash (cut.page j).events).map EventClaim.inputDigest := by
  induction pages generalizing k found with
  | zero => omega
  | succ pages ih =>
    rw [scanPages_page cut hserves hk fun j hj => hfirst j (by omega)]
    have hkeys : ∀ name, name ∈ (Keyed.addAll EventClaim.inputDigest found
          (Keyed.addAll EventClaim.inputDigest [] (claimsOf wasmHash (cut.page k).events))).map
            EventClaim.inputDigest ↔
        name ∈ found.map EventClaim.inputDigest ∨
          name ∈ (claimsOf wasmHash (cut.page k).events).map EventClaim.inputDigest := by
      intro name
      rw [Keyed.mem_keys_addAll, Keyed.mem_keys_addAll]
      simp
    have hnodup' : ((Keyed.addAll EventClaim.inputDigest found
        (Keyed.addAll EventClaim.inputDigest [] (claimsOf wasmHash (cut.page k).events))).map
          EventClaim.inputDigest).Nodup := Keyed.nodup_keys_addAll hnodup
    rcases hkn.eq_or_lt with rfl | hlt
    · refine ⟨_, if_pos hstops, hnodup', fun name => ?_⟩
      rw [hkeys]
      refine or_congr_right ⟨fun h => ⟨k, le_rfl, le_rfl, h⟩, ?_⟩
      rintro ⟨j, hkj, hjk, h⟩
      rwa [le_antisymm hjk hkj] at h
    · obtain ⟨found', hscan, hnodup'', hfound⟩ := ih (k := k + 1) (by omega) hlt hnodup'
      refine ⟨found', (if_neg (hfirst k hlt)).trans hscan, hnodup'', fun name => ?_⟩
      rw [hfound, hkeys, or_assoc]
      refine or_congr_right ⟨?_, ?_⟩
      · rintro (h | ⟨j, hkj, hjn, h⟩)
        · exact ⟨k, le_rfl, hkn, h⟩
        · exact ⟨j, by omega, hjn, h⟩
      · rintro ⟨j, hkj, hjn, h⟩
        rcases hkj.eq_or_lt with rfl | hlt'
        · exact Or.inl h
        · exact Or.inr ⟨j, hlt', hjn, h⟩

end Scan

/-! ## What there is to find -/

section Found

variable {rt : Runtime} {rpc : Rpc} {registryId : JsString} {wasmHash : Bytes32} {log : Log}

/-- The first ledger that is scanned. -/
def Log.first (log : Log) : ℕ :=
  max 1 (log.latest - eventScan.maxLedgersBack)

/-- The topic of the events about a hash. -/
def topicOf (wasmHash : Bytes32) : JsString :=
  btoa (Xdr.bytes wasmHash.toList)

/-- `getLatestLedger` answers with the latest ledger of the log. -/
def AnswersLatest (rpc : Rpc) (log : Log) : Prop :=
  ∃ answer, rpc.getLatestLedger = .ok answer ∧ answer.isNullish = false ∧
    answer.get (js "sequence") = .number log.latest

/-- One entry is found for each digest that the log attests for the hash in the scanned ledgers,
and no other. -/
def FindsAll (rt : Runtime) (rpc : Rpc) (registryId : JsString) (wasmHash : Bytes32) (log : Log) :
    Prop :=
  ∃ found, discoverClaims rt rpc registryId (toHex wasmHash.toList) = .ok found ∧
    (found.map EventClaim.inputDigest).Nodup ∧
    ∀ name, name ∈ found.map EventClaim.inputDigest ↔
      ∃ e ∈ log.events, log.first ≤ e.id.ledger ∧ e.id.ledger ≤ log.latest ∧
        ∃ digest, Attests wasmHash digest e.event ∧ toHex digest.toList = name

/-- Any spelling of a digest is encoded as its topic. -/
theorem bytesScValBase64_of_lower {hex : JsString}
    (h : toLowerCase rt.unicode (trim hex) = hexString wasmHash.toList) :
    bytesScValBase64 rt hex = .ok (topicOf wasmHash) := by
  have hfilled : Xdr.filled wasmHash.toList = wasmHash.toList := by
    rw [Xdr.filled, wasmHash.length_toList]
    exact List.append_nil _
  simp only [bytesScValBase64, fromHex_of_lower h, ok_bind, topicOf, Xdr.bytes, hfilled,
    wasmHash.length_toList]
  rfl

theorem bytesScValBase64_toHex : bytesScValBase64 rt (toHex wasmHash.toList) =
    .ok (topicOf wasmHash) := by
  refine bytesScValBase64_of_lower ?_
  rw [toHex_eq, trim_of_not_space fun u hu => not_space_of_mem_hexString hu,
    toLowerCase_hexString]

/-- What the log attests is among the events asked for. -/
theorem mem_selected {e : Logged} {digest : Bytes32} (h : Attests wasmHash digest e.event) :
    e ∈ log.selected (topicOf wasmHash) log.first ↔
      e ∈ log.events ∧ log.first ≤ e.id.ledger ∧ e.id.ledger ≤ log.latest := by
  obtain ⟨verifier, rebuiltHash, hevent⟩ := h
  have hselects : selects (topicOf wasmHash) e.event = true := by
    rw [hevent]
    exact decide_eq_true rfl
  simp only [Log.selected, List.mem_filter, hselects, and_true, decide_eq_true_eq]
  exact and_congr_right fun he => (and_iff_left (log.le_latest e he)).symm

variable (cut : Cut eventScan.pageLimit log.latest (log.selected (topicOf wasmHash) log.first))

/-- The digests of the claims that are found. -/
theorem mem_found {n : ℕ} {name : JsString} :
    (∃ j, 0 ≤ j ∧ j ≤ n ∧
        name ∈ (claimsOf wasmHash (cut.page j).events).map EventClaim.inputDigest) ↔
      ∃ e ∈ cut.upTo n, ∃ digest, Attests wasmHash digest e.event ∧ toHex digest.toList = name := by
  simp only [mem_claimsOf]
  constructor
  · rintro ⟨j, -, hjn, e, he, hdigest⟩
    exact ⟨e, List.mem_flatMap.2 ⟨j, List.mem_range.2 (by omega), he⟩, hdigest⟩
  · rintro ⟨e, he, hdigest⟩
    obtain ⟨j, hj, he⟩ := List.mem_flatMap.1 he
    rw [List.mem_range] at hj
    exact ⟨j, Nat.zero_le j, by omega, e, he, hdigest⟩

/-- The scan finds everything exactly when the page that stops it leaves nothing new behind. -/
theorem findsAll_iff {n : ℕ} (hlatest : AnswersLatest rpc log)
    (hserves : Serves cut rpc registryId (topicOf wasmHash) log.first)
    (hn : n < eventScan.maxPages) (hstops : (cut.page n).Stops log.latest)
    (hfirst : ∀ j < n, ¬ (cut.page j).Stops log.latest) :
    FindsAll rt rpc registryId wasmHash log ↔
      ∀ e ∈ cut.rest (n + 1), ∀ digest, Attests wasmHash digest e.event →
        ∃ e' ∈ cut.upTo n, Attests wasmHash digest e'.event := by
  obtain ⟨answer, hanswer, hpresent, hsequence⟩ := hlatest
  have hread : answer.read (js "sequence") = .ok (.number log.latest) := by
    unfold JsValue.read
    rw [if_neg (by rw [hpresent]; exact Bool.false_ne_true), hsequence]
    rfl
  have hledger : max 1 ((log.latest : ℤ) - eventScan.maxLedgersBack) = (log.first : ℤ) := by
    unfold Log.first
    omega
  obtain ⟨found, hscan, hnodup, hfound⟩ :=
    @scanPages_found rt rpc registryId (topicOf wasmHash) wasmHash log.first log.latest _ cut n
      hserves hstops hfirst 0 eventScan.maxPages (Nat.zero_add _) (Nat.zero_le n) hn []
      List.nodup_nil
  have hdiscover : discoverClaims rt rpc registryId (toHex wasmHash.toList) = .ok found := by
    simp only [discoverClaims, discover, hanswer, ok_bind, hread, bytesScValBase64_toHex,
      JsValue.toNumber, Option.map_some, hledger]
    rw [show (JsValue.null) = cut.cursor 0 from rfl, hscan]
    rfl
  simp only [List.map_nil, List.not_mem_nil, false_or, mem_found] at hfound
  constructor
  · rintro ⟨found', hfound', -, hall⟩ e he digest hattests
    rw [hdiscover, Except.ok.injEq] at hfound'
    subst hfound'
    have hselected : e ∈ log.selected (topicOf wasmHash) log.first := by
      rw [← cut.upTo_append_rest n]
      exact List.mem_append_right _ he
    obtain ⟨hlog, hle, hge⟩ := (mem_selected hattests).1 hselected
    obtain ⟨e', he', digest', hattests', hname⟩ :=
      (hfound _).1 ((hall _).2 ⟨e, hlog, hle, hge, digest, hattests, rfl⟩)
    rw [toHex_inj] at hname
    exact ⟨e', he', hname ▸ hattests'⟩
  · intro hbehind
    refine ⟨found, hdiscover, hnodup, fun name => ?_⟩
    rw [hfound]
    constructor
    · rintro ⟨e, he, digest, hattests, hname⟩
      have hselected : e ∈ log.selected (topicOf wasmHash) log.first := by
        rw [← cut.upTo_append_rest n]
        exact List.mem_append_left _ he
      obtain ⟨hlog, hle, hge⟩ := (mem_selected hattests).1 hselected
      exact ⟨e, hlog, hle, hge, digest, hattests, hname⟩
    · rintro ⟨e, hlog, hle, hge, digest, hattests, hname⟩
      have hselected := (mem_selected hattests).2 ⟨hlog, hle, hge⟩
      rw [← cut.upTo_append_rest n, List.mem_append] at hselected
      rcases hselected with he | he
      · exact ⟨e, he, digest, hattests, hname⟩
      · obtain ⟨e', he', hattests'⟩ := hbehind e he digest hattests
        exact ⟨e', he', digest, hattests', hname⟩

end Found

/-! ## Many claims in the latest ledger -/

namespace Sample

/-- The hash that is attested. -/
def hash : Bytes32 := BytesN.fill 32 161

/-- An attestation in the latest ledger, each under a digest of its own. -/
def attestation (i : ℕ) : Logged where
  id := ⟨200000, 4096, i⟩
  event := .attested (.account (BytesN.fill 32 7)) hash (BytesN.fill 32 (UInt8.ofNat i)) hash

/-- The log of a number of attestations. -/
def attestations (n : ℕ) : List Logged :=
  (List.range n).map attestation

theorem ledger_of_mem {n : ℕ} {e : Logged} (h : e ∈ attestations n) : e.id.ledger = 200000 := by
  obtain ⟨i, -, rfl⟩ := List.mem_map.1 h
  rfl

theorem selects_of_mem {n : ℕ} {e : Logged} (h : e ∈ attestations n) :
    selects (topicOf hash) e.event = true := by
  obtain ⟨i, -, rfl⟩ := List.mem_map.1 h
  show Decidable.decide (btoa (Xdr.bytes hash.toList) = topicOf hash) = true
  exact decide_eq_true rfl

/-- A log that ends with a number of attestations in one ledger. -/
def log (n : ℕ) : Log where
  latest := 200000
  events := attestations n
  sorted := List.pairwise_of_forall_mem_list fun _ he _ he' =>
    ((ledger_of_mem he).trans (ledger_of_mem he').symm).le
  le_latest := fun _ he => (ledger_of_mem he).le

theorem selected_log (n : ℕ) :
    (log n).selected (topicOf hash) (log n).first = attestations n := by
  refine List.filter_eq_self.2 fun e he => ?_
  rw [selects_of_mem he, ledger_of_mem he]
  exact decide_eq_true ⟨show max 1 (200000 - 100000) ≤ 200000 by decide, rfl⟩

/-- The end of the latest ledger. -/
def tip : Cursor := ⟨200000, 4294967295, 4294967295⟩

/-- The pages of the log: a full one, if there are events enough, and the rest. -/
def page (n : ℕ) : ℕ → Page
  | 0 => ⟨(attestations n).take 200, if 200 ≤ n then (attestation 199).id else tip, none⟩
  | 1 => ⟨(attestations n).drop 200, tip, none⟩
  | _ => ⟨[], tip, none⟩

/-- What is left in front of them. -/
def rest (n : ℕ) : ℕ → List Logged
  | 0 => attestations n
  | 1 => (attestations n).drop 200
  | _ => []

theorem page_stops (n k : ℕ) : (page n k).Stops (log n).latest := by
  unfold page
  split
  · unfold Page.Stops
    split_ifs <;> exact le_rfl
  · exact le_rfl
  · exact le_rfl

theorem page_ends {n : ℕ} (hn : n < 400) (k : ℕ) :
    (page n k).Ends eventScan.pageLimit (rest n (k + 1)) := by
  have hledger : ∀ e ∈ attestations n, e.id.ledger ≤ tip.ledger := fun e he =>
    (ledger_of_mem he).le
  have hlen : (attestations n).length = n := by
    rw [attestations, List.length_map, List.length_range]
  match k with
  | 0 =>
    by_cases hfull : 200 ≤ n
    · have htake : (attestations n).take 200 = (List.range 200).map attestation := by
        rw [attestations, ← List.map_take, List.take_range, Nat.min_eq_left hfull]
      refine .full (attestation 199) ?_ ?_ (if_pos hfull)
      · show ((attestations n).take 200).length = 200
        rw [htake, List.length_map, List.length_range]
      · show ((attestations n).take 200).getLast? = some (attestation 199)
        rw [htake, List.getLast?_map, List.getLast?_range]
        rfl
    · have hstop : (page n 0).stop = tip := if_neg hfull
      refine .short ?_ (fun e he => ?_) fun e he => ?_
      · show ((attestations n).take 200).length < 200
        rw [List.length_take, hlen]
        omega
      · rw [hstop]
        exact hledger e (List.mem_of_mem_take he)
      · have hnil : (attestations n).drop 200 = [] := List.drop_of_length_le (by omega)
        exact absurd he (by rw [rest, hnil]; exact List.not_mem_nil)
  | 1 =>
    refine .short ?_ (fun e he => hledger e (List.mem_of_mem_drop he)) fun e he => ?_
    · show ((attestations n).drop 200).length < 200
      rw [List.length_drop, hlen]
      omega
    · exact absurd he List.not_mem_nil
  | k + 2 =>
    refine .short (show 0 < 200 by decide) (fun e he => ?_) fun e he => ?_
    · exact absurd he List.not_mem_nil
    · exact absurd he List.not_mem_nil

/-- The log, cut into these pages. -/
def cut {n : ℕ} (hn : n < 400) : Cut eventScan.pageLimit (log n).latest
    ((log n).selected (topicOf hash) (log n).first) where
  page := page n
  rest := rest n
  rest_zero := (selected_log n).symm
  rest_eq := fun k => by
    match k with
    | 0 => exact (List.take_append_drop 200 _).symm
    | 1 => exact (List.append_nil _).symm
    | k + 2 => rfl
  ends := page_ends hn
  le_latestLedger := fun k l hl => by
    match k with
    | 0 => cases hl
    | 1 => cases hl
    | k + 2 => cases hl

/-- An event as the RPC hands it out. -/
def eventJson (e : Logged) : JsValue :=
  json [("ledger", .number e.id.ledger),
    ("topic", .array ((topics e.event).map fun b => .string (btoa b))),
    ("value", .string (btoa (data e.event)))]

/-- A page as the RPC hands it out. -/
def pageJson (p : Page) : JsValue :=
  json [("events", .array (p.events.map eventJson)), ("cursor", .string p.stop.text)]

/-- An RPC that serves the log. -/
def rpc (n : ℕ) : Rpc where
  getLatestLedger := .ok (json [("sequence", .number 200000)])
  getEvents := fun k _ => .ok (pageJson (page n k))
  getLedgerEntries := fun _ => .ok .null

theorem answersLatest (n : ℕ) : AnswersLatest (rpc n) (log n) :=
  ⟨_, rfl, rfl, rfl⟩

theorem carries_eventJson (e : Logged) : Carries e.id.ledger e.event (eventJson e) where
  present := rfl
  topic := (json_get_tail (by decide)).trans json_get_head
  value := ((json_get_tail (by decide)).trans (json_get_tail (by decide))).trans json_get_head
  ledger := json_get_head

theorem pageJson_isAnswer {p : Page} (h : p.latestLedger = none) : p.IsAnswer (pageJson p) where
  present := rfl
  events := by
    refine ⟨_, json_get_head, ?_⟩
    rw [List.forall₂_map_right_iff, List.forall₂_same]
    exact fun e _ => carries_eventJson e
  cursor := (json_get_tail (by decide)).trans json_get_head
  latestLedger := by
    rw [h]
    exact (json_get_tail (by decide)).trans (json_get_tail (by decide))

theorem serves {n : ℕ} (hn : n < 400) :
    Serves (cut hn) (rpc n) (js "C") (topicOf hash) (log n).first := by
  intro k _ _
  refine ⟨_, rfl, pageJson_isAnswer ?_⟩
  match k with
  | 0 => rfl
  | 1 => rfl
  | k + 2 => rfl

end Sample

end Gate
end Sorofy
