import Sorofy.Api.Db
import Sorofy.Foundation.Escape
import Sorofy.Gate.Claim

/-!
# The explorer's markup

`card` and `detailHtml` of `crates/api/static/app.js` piece HTML together from fixed markup and from
what a stranger submitted.  Here they are, with the helpers every interpolation goes through.

What opens, closes and delimits tags and attributes are the characters `<`, `>` and `"`.  Whatever
went through `esc` or `encodeURIComponent` has none of them (`inert_esc`, `inert_encodeURIComponent`),
and which pieces are put together depends on a row only through its status and on which fields are
there, empty or numbers (`Row.Like`).  So two rows that agree on these have the same tags and
attributes, whatever their strings are (`markup_eq`).

The language's numbers and its clock are the `Runtime`'s.  A row is what the API sends, decoded: a
field is absent, `null`, a string or a number.
-/

namespace Sorofy
namespace Api
namespace Explorer

open Foundation
open Escape
open Gate (JsString js toString16)

/-! ## Values -/

/-- A field of a decoded object. -/
inductive Field (ν : Type) where
  | undefined
  | null
  | string (s : JsString)
  | number (n : ν)

/-- The numbers of the language, and its clock. -/
structure Runtime (ν : Type) where
  /-- Whether a number counts as true. -/
  truthy : ν → Bool
  isNaN : ν → Bool
  lt : ν → ν → Bool
  ofNat : ℕ → ν
  sub : ν → ν → ν
  div : ν → ν → ν
  max : ν → ν → ν
  floor : ν → ν
  round : ν → ν
  toString : ν → JsString
  /-- `n.toFixed(1)`. -/
  toFixed1 : ν → JsString
  /-- `Date.parse`. -/
  parseDate : Field ν → ν
  /-- `Date.now()`. -/
  now : ν

variable {ν : Type}

namespace Field

/-- `v === null || v === undefined`. -/
def isNullish : Field ν → Bool
  | .undefined => true
  | .null => true
  | _ => false

/-- `typeof v === "number"`. -/
def isNumber : Field ν → Bool
  | .number _ => true
  | _ => false

/-- `v === s`, for a string `s`. -/
def isString (v : Field ν) (s : JsString) : Bool :=
  match v with
  | .string t => t = s
  | _ => false

/-- Whether `v` counts as true. -/
def truthy (rt : Runtime ν) : Field ν → Bool
  | .string s => s ≠ []
  | .number n => rt.truthy n
  | _ => false

/-- `v || w`. -/
def orElse (rt : Runtime ν) (v w : Field ν) : Field ν :=
  if v.truthy rt = true then v else w

/-- `String(v)`. -/
def text (rt : Runtime ν) : Field ν → JsString
  | .undefined => js "undefined"
  | .null => js "null"
  | .string s => s
  | .number n => rt.toString n

end Field

/-- A row's source. -/
structure Source (ν : Type) where
  kind : Field ν
  repo : Field ν
  rev : Field ν
  uri : Field ν

/-- A row's report. -/
structure Report (ν : Type) where
  trustLevel : Field ν
  expectedWasmSha256 : Field ν
  rebuiltWasmSha256 : Field ν
  sourceSha256 : Field ν
  bldimgDigest : Field ν
  artifact : Field ν
  rebuiltWasmSize : Field ν
  buildSeconds : Field ν
  /-- `none` where there is no list. -/
  bldopt : Option (List (Field ν))
  buildLog : Field ν

/-- `{}`, read as a report. -/
def Report.empty : Report ν :=
  ⟨.undefined, .undefined, .undefined, .undefined, .undefined, .undefined, .undefined, .undefined,
    none, .undefined⟩

/-- A verification, as the explorer gets it. -/
structure Row (ν : Type) where
  id : Field ν
  contractId : Field ν
  wasmHash : Field ν
  /-- `none` where there is no object. -/
  source : Option (Source ν)
  bldimg : Field ν
  status : JobStatus
  /-- `none` where there is no object. -/
  report : Option (Report ν)
  error : Field ν
  createdAt : Field ν
  updatedAt : Field ν

/-! ## Helpers -/

section App

variable (rt : Runtime ν)

/-- What `esc` replaces, one after the other. -/
def escRules : List (UInt16 × JsString) :=
  [(38, js "&amp;"), (60, js "&lt;"), (62, js "&gt;"), (34, js "&quot;"), (39, js "&#39;")]

/-- `esc`. -/
def esc (value : Field ν) : JsString :=
  if value.isNullish = true then [] else escape escRules (value.text rt)

/-- What `encodeURIComponent` leaves as it is: letters, digits and `-_.!~*'()`. -/
def isUnreserved (b : UInt8) : Bool :=
  48 ≤ b.toNat ∧ b.toNat ≤ 57 ∨ 65 ≤ b.toNat ∧ b.toNat ≤ 90 ∨ 97 ≤ b.toNat ∧ b.toNat ≤ 122 ∨
    b.toNat ∈ [45, 95, 46, 33, 126, 42, 39, 40, 41]

/-- A byte, as `encodeURIComponent` writes it. -/
def encodeByte (b : UInt8) : JsString :=
  if isUnreserved b = true then [UInt16.ofNat b.toNat]
  else 37 :: ((toString16 b).leftpad 2 48).map fun u =>
    if 97 ≤ u.toNat then UInt16.ofNat (u.toNat - 32) else u

/-- `encodeURIComponent`, which throws for a surrogate that stands alone. -/
def encodeURIComponent (s : JsString) : Except JsString JsString := do
  ensure (Utf16.encode (Utf16.decode s) = s) (js "URI malformed")
  pure ((Gate.encode s).flatMap encodeByte)

/-- `ago`. -/
def ago (iso : Field ν) : Field ν :=
  let then' := rt.parseDate iso
  if rt.isNaN then' = true then iso.orElse rt (.string [])
  else
    let secs := rt.max (rt.ofNat 0) (rt.div (rt.sub rt.now then') (rt.ofNat 1000))
    if rt.lt secs (rt.ofNat 60) = true then
      .string (rt.toString (rt.floor secs) ++ js "s ago")
    else if rt.lt secs (rt.ofNat 3600) = true then
      .string (rt.toString (rt.floor (rt.div secs (rt.ofNat 60))) ++ js "m ago")
    else if rt.lt secs (rt.ofNat 86400) = true then
      .string (rt.toString (rt.floor (rt.div secs (rt.ofNat 3600))) ++ js "h ago")
    else .string (rt.toString (rt.floor (rt.div secs (rt.ofNat 86400))) ++ js "d ago")

/-- `shortHash`.  A number has no `slice`. -/
def shortHash : Field ν → Except JsString (Field ν)
  | .string s =>
    if s.length ≤ 20 then pure (.string s)
    else pure (.string (s.take 10 ++ js "…" ++ s.drop (s.length - 8)))
  | .number n =>
    if rt.truthy n = true then throw (js "hex.slice is not a function") else pure (.string [])
  | _ => pure (.string [])

/-- `bytes`. -/
def bytes : Field ν → JsString
  | .number n =>
    if rt.lt n (rt.ofNat 1024) = true then rt.toString n ++ js " B"
    else rt.toFixed1 (rt.div n (rt.ofNat 1024)) ++ js " KiB"
  | _ => js "—"

/-- `seconds`. -/
def seconds : Field ν → JsString
  | .number n =>
    if rt.lt n (rt.ofNat 10) = true then rt.toFixed1 n ++ js "s"
    else rt.toString (rt.round n) ++ js "s"
  | _ => js "—"

/-- An entry of `STATUS`. -/
structure Status where
  tone : JsString
  label : JsString
  title : JsString
  blurb : JsString

/-- `statusOf`. -/
def statusOf : JobStatus → Status
  | .verified =>
    { tone := js "ok"
      label := js "Verified"
      title := js "Verified"
      blurb := js "The rebuilt WASM matches the hash recorded on chain, byte for byte." }
  | .mismatch =>
    { tone := js "danger"
      label := js "Mismatch"
      title := js "Mismatch"
      blurb := js ("The rebuild completed but produced different bytecode from the contract on " ++
        "chain. The deployed code is not this source built this way.") }
  | .pending =>
    { tone := js "warn"
      label := js "Pending"
      title := js "Rebuild running"
      blurb := js ("The source is being rebuilt in the pinned container. This page reflects the " ++
        "cache the moment it was loaded.") }
  | .error =>
    { tone := js "muted"
      label := js "Error"
      title := js "Could not complete"
      blurb := js ("The job did not finish, so there is no verdict about the contract either " ++
        "way.") }

/-- The icons that are drawn here. -/
inductive IconName where
  | check
  | x
  | alert
  | spin

/-- The drawing of an icon. -/
def IconName.body : IconName → JsString
  | .check => js "<path d=\"M20 6 9 17l-5-5\"/>"
  | .x => js "<path d=\"M18 6 6 18M6 6l12 12\"/>"
  | .alert => js "<path d=\"M12 9v4M12 17h.01\"/><circle cx=\"12\" cy=\"12\" r=\"9\"/>"
  | .spin => js "<path d=\"M21 12a9 9 0 1 1-6.2-8.6\"/>"

/-- `icon`. -/
def icon (name : IconName) (color : JsString) (size : ℕ) : JsString :=
  js "<svg width=\"" ++ js (toString size) ++ js "\" height=\"" ++ js (toString size) ++
    js "\" viewBox=\"0 0 24 24\" fill=\"none\" " ++
    js "stroke=\"" ++ color ++
    js "\" stroke-width=\"2.4\" stroke-linecap=\"round\" stroke-linejoin=\"round\" " ++
    js "aria-hidden=\"true\">" ++ name.body ++ js "</svg>"

/-- `iconFor`. -/
def iconFor : JobStatus → JsString
  | .verified => icon .check (js "var(--ok)") 30
  | .mismatch => icon .x (js "var(--danger)") 30
  | .pending => js "<span class=\"spin\">" ++ icon .spin (js "var(--warn)") 30 ++ js "</span>"
  | .error => icon .alert (js "var(--ink-3)") 30

/-- `pill`. -/
def pill (row : Row ν) : JsString :=
  let s := statusOf row.status
  js "<span class=\"brut-pill\" data-tone=\"" ++ s.tone ++ js "\"><span class=\"dot\"></span>" ++
    esc rt (.string s.label) ++ js "</span>"

/-- `sourceSummary`: a kind and a value. -/
def sourceSummary : Option (Source ν) → Field ν × Field ν
  | none => (.string (js "—"), .string (js "—"))
  | some source =>
    if source.kind.isString (js "git") = true then
      (.string (js "Git"),
        .string ((source.repo.orElse rt (.string [])).text rt ++ js "\n@ " ++
          (source.rev.orElse rt (.string [])).text rt))
    else if source.kind.isString (js "archive") = true then
      (.string (js "Archive"), source.uri.orElse rt (.string []))
    else (source.kind.orElse rt (.string (js "—")), .string (js "—"))

/-- `options.join(" ")`. -/
def join (options : List (Field ν)) : JsString :=
  List.intercalate (js " ") (options.map fun o => if o.isNullish = true then [] else o.text rt)

/-! ## The pages -/

/-- `card`. -/
def card (row : Row ν) : Except JsString JsString := do
  let report := row.report.getD .empty
  let key := (row.contractId.orElse rt row.wasmHash).orElse rt row.id
  let encoded ← encodeURIComponent (key.text rt)
  let hash ← shortHash rt row.wasmHash
  pure <|
    js "<a class=\"brut-card vcard\" href=\"#/v/" ++ encoded ++ js "\">" ++
    js "<div class=\"vcard__top\">" ++ pill rt row ++ js "<span class=\"vcard__time\">" ++
      esc rt (ago rt row.createdAt) ++ js "</span></div>" ++
    js "<div class=\"vcard__body\">" ++
    js "<div>" ++
    js "<div class=\"label\">" ++
      (if row.contractId.truthy rt = true then js "Contract" else js "WASM hash") ++ js "</div>" ++
    js "<div class=\"vcard__id\">" ++ esc rt (row.contractId.orElse rt hash) ++ js "</div>" ++
    (if row.contractId.truthy rt = true then
      js "<div class=\"vcard__hash\">" ++ esc rt hash ++ js "</div>" else []) ++
    js "</div>" ++
    js "<div class=\"stat-2up\">" ++
    js "<div><div class=\"label\">Size</div><div class=\"v\">" ++
      esc rt (.string (bytes rt report.rebuiltWasmSize)) ++ js "</div></div>" ++
    js "<div><div class=\"label\">Build</div><div class=\"v\">" ++
      esc rt (.string (seconds rt report.buildSeconds)) ++ js "</div></div>" ++
    js "</div>" ++
    js "</div></a>"

/-- `tile`. -/
def tile (label : JsString) (value : Field ν) : JsString :=
  js "<div class=\"brut-tile\"><div class=\"label\">" ++ esc rt (.string label) ++
    js "</div><div class=\"v\">" ++ esc rt value ++ js "</div></div>"

/-- `detailHtml`. -/
def detailHtml (row : Row ν) : JsString :=
  let s := statusOf row.status
  let report := row.report.getD .empty
  let matched := row.status = .verified
  let src := sourceSummary rt row.source
  js "<div class=\"brut-card-2 status-panel fade-up\">" ++
  js "<div class=\"status-panel__icon\">" ++ iconFor row.status ++ js "</div>" ++
  js "<div><h2>" ++ esc rt (.string s.title) ++ js "</h2><p>" ++
    esc rt (if row.status = .error ∧ row.error.truthy rt = true then row.error
      else .string s.blurb) ++ js "</p>" ++
  js "<div class=\"status-panel__pills\">" ++ pill rt row ++
    (if report.trustLevel.truthy rt = true then
      js "<span class=\"brut-pill\" data-tone=\"muted\">trust: " ++ esc rt report.trustLevel ++
        js "</span>" else []) ++
    js "<span class=\"brut-pill\" data-tone=\"muted\">job #" ++ esc rt row.id ++
      js "</span></div></div></div>" ++
  (if report.expectedWasmSha256.truthy rt = true ∨ report.rebuiltWasmSha256.truthy rt = true then
    js "<div class=\"brut-card hashcmp\" data-match=\"" ++
      (if matched then js "yes" else js "no") ++ js "\">" ++
    js "<div class=\"hashcmp__row\"><div class=\"label\">On chain (expected)</div>" ++
    js "<div class=\"hash\">" ++ esc rt report.expectedWasmSha256 ++ js "</div></div>" ++
    js "<div class=\"hashcmp__row\"><div class=\"label\">Rebuilt here</div>" ++
    js "<div class=\"hash\">" ++ esc rt report.rebuiltWasmSha256 ++ js "</div></div>" ++
    js "<div class=\"hashcmp__verdict\">" ++
    (if matched then icon .check (js "var(--ok)") 20 else icon .x (js "var(--danger)") 20) ++
    (if matched then js "Byte-for-byte identical" else js "These are different bytes") ++
    js "</div></div>"
  else []) ++
  js "<div class=\"tilegrid\">" ++
  (if row.contractId.truthy rt = true then tile rt (js "Contract") row.contractId else []) ++
  tile rt (js "Target WASM hash") row.wasmHash ++
  tile rt (js "Source") (.string (src.1.text rt ++ js " — " ++ src.2.text rt)) ++
  (if report.sourceSha256.truthy rt = true then tile rt (js "Source sha256") report.sourceSha256
    else []) ++
  tile rt (js "Build image") (report.bldimgDigest.orElse rt row.bldimg) ++
  (if report.artifact.truthy rt = true then tile rt (js "Artifact") report.artifact else []) ++
  (if report.rebuiltWasmSize.isNumber = true then
    tile rt (js "Rebuilt size") (.string (bytes rt report.rebuiltWasmSize)) else []) ++
  (if report.buildSeconds.isNumber = true then
    tile rt (js "Build time") (.string (seconds rt report.buildSeconds)) else []) ++
  (if report.bldopt.getD [] ≠ [] then
    tile rt (js "Build options") (.string (join rt (report.bldopt.getD []))) else []) ++
  tile rt (js "Recorded")
    (.string (row.createdAt.text rt ++ js " · updated " ++ row.updatedAt.text rt)) ++
  js "</div>" ++
  (if report.buildLog.truthy rt = true then
    js "<div class=\"brut-card logbox\"><div class=\"label\">Build log</div>" ++
      js "<pre id=\"log\"></pre></div>" else [])

end App

/-! ## Rows that agree but for their strings -/

/-- Fields of the same kind: both absent, both `null`, both the same number, or both strings, of
which neither is empty or both are. -/
inductive Field.Like : Field ν → Field ν → Prop where
  | undefined : Like .undefined .undefined
  | null : Like .null .null
  | string {s t : JsString} (h : s = [] ↔ t = []) : Like (.string s) (.string t)
  | number (n : ν) : Like (.number n) (.number n)

/-- Sources of the same pattern. -/
structure Source.Like (a b : Source ν) : Prop where
  kind : a.kind.Like b.kind
  repo : a.repo.Like b.repo
  rev : a.rev.Like b.rev
  uri : a.uri.Like b.uri

/-- Reports of the same pattern; a list of options is there and empty, or there and not. -/
structure Report.Like (a b : Report ν) : Prop where
  trustLevel : a.trustLevel.Like b.trustLevel
  expectedWasmSha256 : a.expectedWasmSha256.Like b.expectedWasmSha256
  rebuiltWasmSha256 : a.rebuiltWasmSha256.Like b.rebuiltWasmSha256
  sourceSha256 : a.sourceSha256.Like b.sourceSha256
  bldimgDigest : a.bldimgDigest.Like b.bldimgDigest
  artifact : a.artifact.Like b.artifact
  rebuiltWasmSize : a.rebuiltWasmSize.Like b.rebuiltWasmSize
  buildSeconds : a.buildSeconds.Like b.buildSeconds
  bldopt : Option.Rel (fun l m => l = [] ↔ m = []) a.bldopt b.bldopt
  buildLog : a.buildLog.Like b.buildLog

/-- Rows of the same status and the same pattern. -/
structure Row.Like (a b : Row ν) : Prop where
  id : a.id.Like b.id
  contractId : a.contractId.Like b.contractId
  wasmHash : a.wasmHash.Like b.wasmHash
  source : Option.Rel Source.Like a.source b.source
  bldimg : a.bldimg.Like b.bldimg
  status : a.status = b.status
  report : Option.Rel Report.Like a.report b.report
  error : a.error.Like b.error
  createdAt : a.createdAt.Like b.createdAt
  updatedAt : a.updatedAt.Like b.updatedAt

section Markup

variable {rt : Runtime ν} {a b : Field ν} {row row' : Row ν} {html html' : JsString}

theorem Field.Like.truthy_eq (h : a.Like b) : a.truthy rt = b.truthy rt := by
  cases h with
  | string h => exact decide_eq_decide.mpr (not_congr h)
  | _ => rfl

theorem Field.Like.isNumber_eq (h : a.Like b) : a.isNumber = b.isNumber := by
  cases h <;> rfl

theorem Report.Like.empty : (Report.empty : Report ν).Like .empty :=
  ⟨.undefined, .undefined, .undefined, .undefined, .undefined, .undefined, .undefined, .undefined,
    Option.Rel.none, .undefined⟩

/-- What is read in place of a missing value is of the same pattern too. -/
theorem rel_getD {α : Type} {r : α → α → Prop} {o o' : Option α} {d : α} (h : Option.Rel r o o')
    (hd : r d d) : r (o.getD d) (o'.getD d) := by
  cases h with
  | none => exact hd
  | some h => exact h

/-! ## Marks -/

/-- `<`, `>` and `"`. -/
def isMark (u : UInt16) : Bool := u = 60 ∨ u = 62 ∨ u = 34

/-- What was escaped opens and closes nothing. -/
theorem inert_esc (rt : Runtime ν) (v : Field ν) : Inert isMark (esc rt v) := by
  unfold esc
  split_ifs
  · exact fun u hu => absurd hu List.not_mem_nil
  · refine inert_escape ?_ ?_ _
    · intro u hu
      simp only [isMark, decide_eq_true_eq] at hu
      rcases hu with rfl | rfl | rfl <;> decide
    · show ∀ rule ∈ escRules, Inert isMark rule.2
      decide

@[simp] theorem marks_esc (rt : Runtime ν) (v : Field ν) : marks isMark (esc rt v) = [] :=
  marks_of_inert (inert_esc rt v)

/-- What was encoded opens and closes nothing. -/
theorem inert_encodeURIComponent {s t : JsString} (h : encodeURIComponent s = .ok t) :
    Inert isMark t := by
  have hbyte : ∀ n < 256, Inert isMark (encodeByte (UInt8.ofNat n)) := by decide +kernel
  simp only [encodeURIComponent, bind_eq_ok, pure_eq_ok] at h
  obtain ⟨-, -, rfl⟩ := h
  intro u hu
  obtain ⟨b, -, hmem⟩ := List.mem_flatMap.mp hu
  rw [← UInt8.ofNat_toNat (x := b)] at hmem
  exact hbyte b.toNat b.toNat_lt u hmem

/-! ## The two pages -/

/-- The marks of a card. -/
theorem marks_card (h : row.Like row') (hhtml : card rt row = .ok html)
    (hhtml' : card rt row' = .ok html') : marks isMark html = marks isMark html' := by
  simp only [card, bind_eq_ok, pure_eq_ok] at hhtml hhtml'
  obtain ⟨encoded, hencoded, hash, -, rfl⟩ := hhtml
  obtain ⟨encoded', hencoded', hash', -, rfl⟩ := hhtml'
  have hkey := marks_of_inert (inert_encodeURIComponent hencoded)
  have hkey' := marks_of_inert (inert_encodeURIComponent hencoded')
  have hcontract : row.contractId.truthy rt = row'.contractId.truthy rt := h.contractId.truthy_eq
  simp only [marks_append, pill, marks_esc, hkey, hkey', h.status, hcontract]
  split_ifs <;> simp only [marks_append, marks_esc]

/-- The marks of a detail page. -/
theorem marks_detailHtml (h : row.Like row') :
    marks isMark (detailHtml rt row) = marks isMark (detailHtml rt row') := by
  have hreport := rel_getD h.report Report.Like.empty
  have hoptions := propext (not_congr (rel_getD hreport.bldopt (d := []) Iff.rfl))
  have htruthy : ∀ {v w : Field ν}, v.Like w → v.truthy rt = w.truthy rt :=
    fun hlike => hlike.truthy_eq
  unfold detailHtml
  generalize row.report.getD .empty = r at hreport hoptions
  generalize row'.report.getD .empty = r' at hreport hoptions
  -- piece by piece: the conditions agree, and what is interpolated has no marks
  simp only [marks_append, apply_ite (marks isMark), marks_esc, tile, pill, h.status,
    htruthy h.contractId, htruthy h.error, htruthy hreport.trustLevel,
    htruthy hreport.expectedWasmSha256, htruthy hreport.rebuiltWasmSha256,
    htruthy hreport.sourceSha256, htruthy hreport.artifact, htruthy hreport.buildLog,
    hreport.rebuiltWasmSize.isNumber_eq, hreport.buildSeconds.isNumber_eq, ne_eq, hoptions]

/-- **The markup is the submitter's in nothing but its text.**  Rows that agree but for the
contents of their strings have the same sequence of `<`, `>` and `"` in their cards, and in their
detail pages. -/
theorem markup_eq (rt : Runtime ν) (h : row.Like row') :
    (∀ html html', card rt row = .ok html → card rt row' = .ok html' →
      marks isMark html = marks isMark html') ∧
    marks isMark (detailHtml rt row) = marks isMark (detailHtml rt row') :=
  ⟨fun _ _ hhtml hhtml' => marks_card h hhtml hhtml', marks_detailHtml h⟩

end Markup

namespace Sample

/-- Integers and `NaN`, and a clock that knows no date. -/
def runtime : Runtime (Option ℤ) where
  truthy n := n ≠ none ∧ n ≠ some 0
  isNaN n := n = none
  lt m n := match m, n with
    | some m, some n => m < n
    | _, _ => false
  ofNat n := some n
  sub m n := m.bind fun m => n.map fun n => m - n
  div m n := m.bind fun m => n.map fun n => m / n
  max m n := m.bind fun m => n.map fun n => max m n
  floor n := n
  round n := n
  toString n := match n with
    | some n => js (toString n)
    | none => js "NaN"
  toFixed1 n := match n with
    | some n => js (toString n ++ ".0")
    | none => js "NaN"
  parseDate _ := none
  now := some 0

/-- A verified row whose strings are all this one. -/
def row (s : JsString) : Row (Option ℤ) where
  id := .number (some 7)
  contractId := .string s
  wasmHash := .string s
  source := some ⟨.string s, .string s, .string s, .undefined⟩
  bldimg := .string s
  status := .verified
  report := some
    { trustLevel := .string s
      expectedWasmSha256 := .string s
      rebuiltWasmSha256 := .string s
      sourceSha256 := .string s
      bldimgDigest := .null
      artifact := .string s
      rebuiltWasmSize := .number (some 512)
      buildSeconds := .number (some 5)
      bldopt := some [.string s]
      buildLog := .string s }
  error := .null
  createdAt := .string s
  updatedAt := .string s

theorem row_like {s t : JsString} (h : s = [] ↔ t = []) : (row s).Like (row t) where
  id := .number _
  contractId := .string h
  wasmHash := .string h
  source := .some ⟨.string h, .string h, .string h, .undefined⟩
  bldimg := .string h
  status := rfl
  report := .some ⟨.string h, .string h, .string h, .string h, .null, .string h, .number _, .number _,
    .some (iff_of_false (List.cons_ne_nil _ _) (List.cons_ne_nil _ _)), .string h⟩
  error := .null
  createdAt := .string h
  updatedAt := .string h

/-- A script is shown, not run. -/
theorem script_is_text :
    (∃ html html', card runtime (row (js "<script>\"")) = .ok html ∧
      card runtime (row (js "abc")) = .ok html' ∧ marks isMark html = marks isMark html') ∧
    marks isMark (detailHtml runtime (row (js "<script>\""))) =
      marks isMark (detailHtml runtime (row (js "abc"))) := by
  obtain ⟨hcard, hdetail⟩ := markup_eq runtime (row_like (s := js "<script>\"") (t := js "abc")
    (by decide))
  have hok : ∃ html, card runtime (row (js "<script>\"")) = .ok html := ⟨_, rfl⟩
  have hok' : ∃ html, card runtime (row (js "abc")) = .ok html := ⟨_, rfl⟩
  obtain ⟨html, hhtml⟩ := hok
  obtain ⟨html', hhtml'⟩ := hok'
  exact ⟨⟨html, html', hhtml, hhtml', hcard _ _ hhtml hhtml'⟩, hdetail⟩

end Sample
end Explorer
end Api
end Sorofy
