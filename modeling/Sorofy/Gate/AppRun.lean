import Sorofy.Gate.Signing

/-!
# Runs of the page

Every handler keeps the discipline of `Gate.Signing` (`keeps_handler`), so that every run does:
events arrive at any time, several flows may be under way at once, the selection and the wallet may
change while they wait, and the wallet, the anchor and the network answer what they please.

What follows is about all these runs.  Money moves only through the gate (`AppRun.send`), nothing
else than deposits, challenges of the anchor and trustlines is ever signed (`AppRun.sign`), and what
the page shows is what some handler was told (`AppRun.check_panel`, `AppRun.deposit_panel`).

A target that was selected after an order was given changes nothing about what is supplied, since
the order and the gate's reading of its pool are made before the handler first waits.  It does change
the names that stand in the panel when the deposit is over: these are read then.
-/

namespace Sorofy
namespace Gate

open Foundation
open Foundation.Async (Does.throw Does.bind Does.ask Does.get Does.modify Does.tryCatch)

namespace App

variable {p p' : App}

theorem reasons_eq_nil : p.reasons = [] ↔ p.wallet.isSome = true ∧ p.verdict.isSome = true ∧
    p.target.noDeposit = false ∧ p.target.unimplemented = false ∧ p.asset.suppliable = true := by
  unfold reasons
  cases p.wallet <;> cases p.verdict <;> simp

/-- The page without what the other fields do not depend on. -/
def quiet (p : App) : App :=
  { p with
    anchor := none
    token := .null
    amount := []
    custom := []
    anchorName := []
    anchorNote := []
    steps := fun _ => ⟨none, []⟩
    opened := [] }

theorem consistent_quiet : p.quiet.Consistent ↔ p.Consistent :=
  ⟨fun h => ⟨h.target, h.asset, h.disabled, h.note, h.described, h.connected, h.shown⟩,
    fun h => ⟨h.target, h.asset, h.disabled, h.note, h.described, h.connected, h.shown⟩⟩

theorem Consistent.congr (h : p.Consistent) (hquiet : p'.quiet = p.quiet) : p'.Consistent := by
  rw [← consistent_quiet, hquiet]
  exact consistent_quiet.2 h

/-- Refreshing the button makes it right. -/
theorem Consistent.refresh (target : ∃ key, p.target = protocols key)
    (asset : ∃ key, p.asset = assets key)
    (described : p.targetNote = p.target.contractId ++ js " — " ++ p.target.note ∧
      p.poolName = p.target.label)
    (connected : p.anchorRunDisabled = false → p.wallet.isSome = true)
    (shown : ∀ shown, p.verdictPanel = .verdict shown →
      ∃ contractId verdict, p.verdict = some verdict ∧ shown = checkShown contractId verdict) :
    p.refreshDepositButton.Consistent :=
  ⟨target, asset, rfl, rfl, described, connected, shown⟩

/-- The script leaves the page consistent. -/
theorem boot_consistent : boot.Consistent :=
  .refresh ⟨.blendV2Pool, rfl⟩ ⟨.native, rfl⟩ ⟨rfl, rfl⟩ (fun h => nomatch h)
    fun _ h => nomatch h

end App

section Handlers

open Async (Point Does)

variable {lib : Library} {p : Point App Answer}

/-- A write that leaves the page consistent. -/
theorem reaches_write (page : App) (hp : (discipline lib).Yields p) (hpage : page.Consistent)
    (hlater : p.now.Later page)
    (hcheck : page.verdictPanel = p.now.verdictPanel ∨ CheckShown p.told page.verdictPanel)
    (hdeposit : page.depositResult = p.now.depositResult ∨
      DepositShown lib p.told page.depositResult) :
    (discipline lib).Reaches p { p with now := page } where
  yields :=
    { admissible := hpage
      rely := (discipline lib).rely_trans _ _ _ hp.rely hlater
      guarantee :=
        { verdictPanel := by
            rcases hcheck with hsame | hshown
            · rw [hsame]
              exact hp.guarantee.verdictPanel
            · exact Or.inr hshown
          depositResult := by
            rcases hdeposit with hsame | hshown
            · rw [hsame]
              exact hp.guarantee.depositResult
            · exact Or.inr hshown } }
  rely := hlater
  told := List.prefix_refl _

/-- A write that the other fields do not depend on. -/
theorem reaches_quiet (page : App) (hp : (discipline lib).Yields p)
    (hquiet : page.quiet = p.now.quiet)
    (hanchor : p.now.anchor.isSome = true → page.anchor.isSome = true) :
    (discipline lib).Reaches p { p with now := page } := by
  have hwallet : page.wallet = p.now.wallet := (congrArg App.wallet hquiet :)
  have hverdict : page.verdictPanel = p.now.verdictPanel := (congrArg App.verdictPanel hquiet :)
  have hdeposit : page.depositResult = p.now.depositResult :=
    (congrArg App.depositResult hquiet :)
  refine reaches_write page hp (App.Consistent.congr hp.admissible hquiet) ⟨?_, hanchor⟩
    (Or.inl hverdict) (Or.inl hdeposit)
  rw [hwallet]
  exact id

/-- A write that the other fields do not depend on, and what follows. -/
theorem quiet_does {α : Type} {f : App → App} {k : Unit → Program App α} {P : α → Told → Prop}
    {E : Thrown → Told → Prop} (hp : (discipline lib).Yields p)
    (hk : (discipline lib).Yields { p with now := f p.now } →
      Does (discipline lib) (k ()) { p with now := f p.now } P E)
    (hquiet : (f p.now).quiet = p.now.quiet := by rfl)
    (hanchor : p.now.anchor.isSome = true → (f p.now).anchor.isSome = true := by exact fun h => h) :
    Does (discipline lib) (Async.modify f >>= k) p P E :=
  Does.modify (reaches_quiet _ hp hquiet hanchor)
    (hk (reaches_quiet _ hp hquiet hanchor).yields)

/-- The last write, where the other fields do not depend on it. -/
theorem quiet_done {f : App → App} (hp : (discipline lib).Yields p)
    (hquiet : (f p.now).quiet = p.now.quiet := by rfl)
    (hanchor : p.now.anchor.isSome = true → (f p.now).anchor.isSome = true := by exact fun h => h) :
    Does (discipline lib) (Async.modify f : Handler) p (fun _ _ => True) (fun _ _ => True) :=
  ⟨reaches_quiet _ hp hquiet hanchor, trivial⟩

theorem theWallet_does {α : Type} {k : Wallet → Program App α} {P : α → Told → Prop}
    {E : Thrown → Told → Prop} (hp : (discipline lib).Yields p)
    (hE : ∀ message, E ⟨message, none⟩ p.told)
    (hk : ∀ wallet, p.now.wallet = some wallet → Does (discipline lib) (k wallet) p P E) :
    Does (discipline lib) (theWallet >>= k) p P E := by
  unfold Does theWallet
  simp only [Async.always_bind, Async.always_get]
  cases h : p.now.wallet with
  | some wallet => exact hk wallet h
  | none => exact ⟨.refl hp, hE _⟩

theorem theAnchor_does {α : Type} {field : String} {k : Anchor → Program App α}
    {P : α → Told → Prop} {E : Thrown → Told → Prop} (hp : (discipline lib).Yields p)
    (hE : ∀ message, E ⟨message, none⟩ p.told)
    (hk : ∀ anchor, p.now.anchor = some anchor → Does (discipline lib) (k anchor) p P E) :
    Does (discipline lib) (theAnchor field >>= k) p P E := by
  unfold Does theAnchor
  simp only [Async.always_bind, Async.always_get]
  cases h : p.now.anchor with
  | some anchor => exact hk anchor h
  | none => exact ⟨.refl hp, hE _⟩

/-! ### The anchor -/

theorem pollDeposit_does {depositId : JsValue} {polls : ℕ} (hp : (discipline lib).Yields p) :
    Does (discipline lib) (pollDeposit lib depositId polls) p (fun _ _ => True) (fun _ _ => True) := by
  induction polls generalizing p with
  | zero => exact quiet_done hp
  | succ polls ih =>
    refine theAnchor_does hp (fun _ => trivial) fun anchor _ => Does.get ?_
    refine Does.bind (depositStatus_does hp) (fun _ _ _ => trivial) fun status p₁ h₁ _ => ?_
    refine quiet_does h₁.yields fun h₂ => ?_
    split_ifs with hsettled hfailed
    · have hc := h₂.admissible
      refine ⟨reaches_write _ h₂ (.refresh hc.target hc.asset hc.described hc.connected hc.shown)
        ⟨id, id⟩ (Or.inl rfl) (Or.inl rfl), trivial⟩
    · exact quiet_done h₂
    · exact Does.ask (discipline_lazy lib) h₂ trivial fun _ p₃ h₃ _ => ih h₃.yields

/-- After its session the flow goes on with whatever the page has become. -/
theorem useAnchor_does {anchor : Anchor} (hread : AnchorRead lib p.told anchor)
    (husable : anchor.usable = true) (hanchor : p.now.anchor = some anchor)
    (hp : (discipline lib).Yields p) :
    Does (discipline lib) (useAnchor lib) p (fun _ _ => True) (fun _ _ => True) := by
  refine quiet_does hp fun h₁ => ?_
  refine theWallet_does h₁ (fun _ => trivial) fun wallet _ => ?_
  refine theAnchor_does h₁ (fun _ => trivial) fun anchor' hanchor' => ?_
  cases hanchor.symm.trans hanchor'
  refine Does.bind (authenticate_does hread husable h₁) (fun _ _ _ => trivial)
    fun token p₂ h₂ _ => ?_
  refine quiet_does h₂.yields fun h₃ => quiet_does h₃ fun h₄ => quiet_does h₄ fun h₅ => Does.get ?_
  refine theWallet_does h₅ (fun _ => trivial) fun wallet _ => ?_
  refine Does.bind (ensureTrustline_does h₅.admissible.asset h₅) (fun _ _ _ => trivial)
    fun trust p₆ h₆ _ => ?_
  refine quiet_does h₆.yields fun h₇ => quiet_does h₇ fun h₈ => Does.get ?_
  refine theWallet_does h₈ (fun _ => trivial) fun wallet _ => ?_
  refine theAnchor_does h₈ (fun _ => trivial) fun anchor _ => ?_
  refine Does.bind (startInteractiveDeposit_does h₈) (fun _ _ _ => trivial)
    fun interactive p₉ h₉ _ => ?_
  exact quiet_does h₉.yields fun h₁₀ => pollDeposit_does h₁₀

theorem tryAnchor_does (hp : (discipline lib).Yields p) (htold : p.told = []) :
    Does (discipline lib) (tryAnchor lib) p (fun _ _ => True) (fun _ _ => True) := by
  refine quiet_does hp fun h₁ => ?_
  refine Does.bind (fetchStellarToml_does h₁ htold) (fun _ _ _ => trivial)
    fun anchor p₂ h₂ hread => ?_
  have h₃ := reaches_quiet { p₂.now with anchor := some anchor } h₂.yields rfl fun _ => rfl
  refine Does.modify h₃ ?_
  split_ifs with husable
  · exact quiet_done h₃.yields
  · rw [Bool.not_eq_false] at husable
    exact quiet_does h₃.yields fun h₄ => useAnchor_does hread husable rfl h₄

theorem flowFailed_does (e : Thrown) (hp : (discipline lib).Yields p) :
    Does (discipline lib) (Async.modify (flowFailed e) : Handler) p (fun _ _ => True)
      (fun _ _ => True) := by
  refine quiet_done hp ?_ ?_
  · unfold flowFailed
    cases p.now.activeStep <;> rfl
  · unfold flowFailed
    cases p.now.activeStep <;> exact id

/-- The flow is run with a wallet, and when it is over there is one. -/
theorem runAnchorFlow_does (hp : (discipline lib).Yields p) (htold : p.told = [])
    (hwallet : p.now.wallet.isSome = true) :
    Does (discipline lib) (runAnchorFlow lib) p (fun _ _ => True) (fun _ _ => True) := by
  have hc := hp.admissible
  have hstart := reaches_write { p.now with anchorRunDisabled := true } hp
    ⟨hc.target, hc.asset, hc.disabled, hc.note, hc.described, (fun h => nomatch h), hc.shown⟩
    ⟨id, id⟩ (Or.inl rfl) (Or.inl rfl)
  have hflow := Does.tryCatch (tryAnchor_does hstart.yields htold)
    fun e _ h₁ _ => flowFailed_does e h₁.yields
  refine Does.modify hstart (Does.bind hflow (fun _ _ _ => trivial) fun _ p₁ h₁ _ => ?_)
  have hc₁ := h₁.yields.admissible
  have hstill : p₁.now.wallet.isSome = true := h₁.rely.wallet hwallet
  exact ⟨reaches_write _ h₁.yields ⟨hc₁.target, hc₁.asset, hc₁.disabled, hc₁.note, hc₁.described,
    fun _ => hstill, hc₁.shown⟩ ⟨id, id⟩ (Or.inl rfl) (Or.inl rfl), trivial⟩

/-! ### The other handlers -/

theorem runCheck_does {contractId : JsString} (hp : (discipline lib).Yields p)
    (htold : p.told = []) :
    Does (discipline lib) (runCheck contractId) p (fun _ _ => True) (fun _ _ => True) := by
  have hc := hp.admissible
  have hstart := reaches_write
    { p.now with verdictPanel := .notice (js "Reading the ledger…") } hp
    ⟨hc.target, hc.asset, hc.disabled, hc.note, hc.described, hc.connected, fun _ h => nomatch h⟩
    ⟨id, id⟩ (Or.inr .reading) (Or.inl rfl)
  refine Does.modify hstart ?_
  refine Does.ask (discipline_lazy lib) hstart.yields trivial fun browser p₁ h₁ ht₁ => ?_
  have hc₁ := h₁.yields.admissible
  refine ⟨reaches_write _ h₁.yields (.refresh hc₁.target hc₁.asset hc₁.described hc₁.connected ?_)
    ⟨id, id⟩ (Or.inr ?_) (Or.inl rfl), trivial⟩
  · rintro shown ⟨⟩
    exact ⟨contractId, _, rfl, rfl⟩
  · refine .verdict ?_
    rw [ht₁]
    exact congrArg (· ++ _) htold

theorem connectWallet_does (hp : (discipline lib).Yields p) :
    Does (discipline lib) connectWallet p (fun _ _ => True) (fun _ _ => True) := by
  refine quiet_does hp fun h₁ => ?_
  refine Does.tryCatch (E := fun _ _ => True) ?_ fun e p₂ h₂ _ => quiet_done h₂.yields
  refine Does.bind (connect_does h₁) (fun _ _ _ => trivial) fun wallet p₂ h₂ _ => ?_
  have hc := h₂.yields.admissible
  exact ⟨reaches_write _ h₂.yields (.refresh hc.target hc.asset hc.described (fun _ => rfl) hc.shown)
    ⟨fun _ => rfl, id⟩ (Or.inl rfl) (Or.inl rfl), trivial⟩

/-- The deposit that is ordered by a click is one that the page offers. -/
theorem offered_of_enabled {page : App} {wallet : Wallet} (hpage : page.Consistent)
    (henabled : page.depositDisabled = false) (amount : JsString) :
    (Order.mk page.target page.asset amount wallet.address).Offered := by
  rw [hpage.disabled, Bool.not_eq_false', List.isEmpty_iff, App.reasons_eq_nil] at henabled
  obtain ⟨-, -, hdeposit, himplemented, hsuppliable⟩ := henabled
  exact ⟨hpage.target, hpage.asset, hdeposit, himplemented, hsuppliable⟩

/-- A write to the panel of the deposit, of what the handler has been told. -/
theorem reaches_depositResult {panel : Panel} (hp : (discipline lib).Yields p)
    (hpanel : DepositShown lib p.told panel) :
    (discipline lib).Reaches p { p with now := { p.now with depositResult := panel } } := by
  have hc := hp.admissible
  exact reaches_write _ hp ⟨hc.target, hc.asset, hc.disabled, hc.note, hc.described, hc.connected,
    hc.shown⟩ ⟨id, id⟩ (Or.inl rfl) (Or.inr hpanel)

/-- A deposit that throws with a verdict is one that the gate has refused, and nothing but the gate
was asked. -/
theorem tryDeposit_does (hp : (discipline lib).Yields p) (htold : p.told = [])
    (henabled : p.now.depositDisabled = false) :
    Does (discipline lib) (tryDeposit lib) p (fun _ _ => True) (fun e t =>
      ∀ verdict, e.blocked = some verdict → ∃ (o : Order) (browser : Browser), o.Offered ∧
        verdict = o.verdict browser ∧ verdict.allow = false ∧
        t = [⟨.check o.pool.contractId, browser⟩]) := by
  refine Does.get (theWallet_does hp ?_ fun wallet _ => ?_)
  · rintro message verdict ⟨⟩
  have hoffered : (Order.mk p.now.target p.now.asset p.now.amount wallet.address).Offered :=
    offered_of_enabled hp.admissible henabled _
  have hsupply := supply_does hoffered hp rfl htold
  refine Does.bind hsupply ?_ ?_
  · intro e t h verdict hverdict
    obtain ⟨browser, h⟩ := h verdict hverdict
    exact ⟨_, browser, hoffered, h⟩
  · rintro ⟨hash, settled, verdict⟩ p₁ h₁ ⟨browser, t₀, polls, hsent, hpolled, rfl, ht⟩
    exact ⟨reaches_depositResult h₁.yields (.submitted p₁.now hoffered hsent hpolled ht), trivial⟩

/-- The panel of the deposit says what came of the order. -/
theorem runDeposit_does (hp : (discipline lib).Yields p) (htold : p.told = [])
    (henabled : p.now.depositDisabled = false) :
    Does (discipline lib) (runDeposit lib) p (fun _ _ => True) (fun _ _ => True) := by
  have hstart := reaches_depositResult hp .rereading
  refine Does.modify hstart (Does.tryCatch (tryDeposit_does hstart.yields htold henabled) ?_)
  rintro ⟨message, blocked⟩ p₁ h₁ hblocked
  refine ⟨reaches_depositResult h₁.yields ?_, trivial⟩
  cases blocked with
  | some verdict =>
    obtain ⟨o, browser, hoffered, rfl, hrefused, ht⟩ := hblocked verdict rfl
    exact .refused p₁.now hoffered ht hrefused
  | none => exact .failed message

/-! ## All of them -/

/-- **Every handler keeps the discipline.** -/
theorem keeps_handler (lib : Library) (event : Event) :
    Async.Keeps (discipline lib) (event.handler lib) := by
  refine Async.Keeps.of_does fun page hpage => ?_
  have hp : (discipline lib).Yields (.turn page []) :=
    ⟨hpage, (discipline lib).rely_refl page, discipline_lazy lib page []⟩
  cases event with
  | typeAmount text => exact quiet_done hp
  | typeCustom text => exact quiet_done hp
  | selectTarget key =>
    exact ⟨reaches_write _ hp (.refresh ⟨key, rfl⟩ hpage.asset ⟨rfl, rfl⟩ hpage.connected
      fun _ h => nomatch h) ⟨id, id⟩ (Or.inr .hidden) (Or.inl rfl), trivial⟩
  | selectAsset key =>
    exact ⟨reaches_write _ hp (.refresh hpage.target ⟨key, rfl⟩ hpage.described hpage.connected
      hpage.shown) ⟨id, id⟩ (Or.inl rfl) (Or.inl rfl), trivial⟩
  | check => exact Does.get (runCheck_does hp rfl)
  | checkCustom =>
    refine Does.get ?_
    split_ifs
    · exact runCheck_does hp rfl
    · exact Async.Does.pure hp trivial
  | connect => exact connectWallet_does hp
  | anchorRun =>
    refine Does.get ?_
    split_ifs with hdisabled
    · exact Async.Does.pure hp trivial
    · rw [Bool.not_eq_true] at hdisabled
      exact runAnchorFlow_does hp rfl (hpage.connected hdisabled)
  | deposit =>
    refine Does.get ?_
    split_ifs with hdisabled
    · exact Async.Does.pure hp trivial
    · rw [Bool.not_eq_true] at hdisabled
      exact runDeposit_does hp rfl hdisabled

end Handlers

/-! ## The gate -/

/-- The contract runs wasm, and the registry answered `Verified` about one of the claims on it. -/
def RegistryVerified (browser : Browser) (contractId : JsString) : Prop :=
  ∃ wasmHash, executableOf browser.rt browser.rpc browser.sdk contractId =
      .ok (some (.wasm wasmHash)) ∧
    ∃ candidate ∈ claimsFor browser activeRegistry wasmHash,
      Answered browser activeRegistry wasmHash candidate .verified

section Allow

variable {browser : Browser} {contractId : JsString}

theorem allow_iff : (checkContract browser activeRegistry contractId).allow = true ↔
    RegistryVerified browser contractId := by
  constructor
  · intro h
    have hok : (checkContract browser activeRegistry contractId).ok = true := by
      unfold checkContract at h ⊢
      split at h
      · cases h
      · cases h
      · cases h
      · rfl
    obtain ⟨wasmHash, hexe⟩ := wasm_of_ok hok
    obtain ⟨-, hallow, -⟩ := checkContract_of_wasm activeRegistry hexe
    refine ⟨wasmHash, hexe, judge_allow_iff.1 ?_⟩
    rw [← hallow]
    exact h
  · rintro ⟨wasmHash, hexe, hverified⟩
    obtain ⟨-, hallow, -⟩ := checkContract_of_wasm activeRegistry hexe
    rw [hallow]
    exact judge_allow_iff.2 hverified

theorem decide_tone (reading : Reading) :
    (decide reading).tone = .ok ↔ (decide reading).allow = true := by
  unfold decide
  cases reading.state <;> simp

theorem bestOf_decision {ρ : Type} (results : List (Reading × ρ)) :
    ∃ reading, (bestOf results).decision = decide reading := by
  cases results with
  | nil => exact ⟨⟨.noClaim, none⟩, rfl⟩
  | cons first rest => exact ⟨_, rfl⟩

/-- A verdict is green exactly when it allows a deposit. -/
theorem checkContract_tone : (checkContract browser activeRegistry contractId).tone = .ok ↔
    (checkContract browser activeRegistry contractId).allow = true := by
  unfold checkContract
  split
  · simp [unavailable]
  · simp [unavailable]
  · simp [unavailable]
  · obtain ⟨reading, hreading⟩ := bestOf_decision (List.map (ask browser activeRegistry _) _)
    show (judge browser activeRegistry _ _).decision.tone = _ ↔
      (judge browser activeRegistry _ _).decision.allow = _
    unfold judge
    rw [hreading]
    exact decide_tone reading

end Allow

/-! ## Runs -/

/-- The page with its handlers. -/
abbrev AppPool : Type := Tasks.Pool App (Async.Handler App Answer Thrown)

/-- What a run has been through. -/
abbrev AppHistory : Type :=
  List (History.Transition AppPool (Option (Option (Exchange Answer))))

/-- A run of the page from where its script has left it: events arrive whenever they like, and the
handlers they start take turns in any order. -/
def AppRun (lib : Library) (h : AppHistory) (p : AppPool) : Prop :=
  History.Path (Async.Step fun x => ∃ event : Event, x = event.handler lib) ⟨App.boot, []⟩ h p

namespace AppRun

variable {lib : Library} {h : AppHistory} {p : AppPool}

theorem arrives_keeps (lib : Library) (x : Handler)
    (hx : ∃ event : Event, x = event.handler lib) : Async.Keeps (discipline lib) x := by
  obtain ⟨event, rfl⟩ := hx
  exact keeps_handler lib event

theorem good_boot (lib : Library) :
    Async.Good (ε := Thrown) (discipline lib) ⟨App.boot, []⟩ :=
  ⟨App.boot_consistent, fun _ hx => nomatch hx⟩

theorem good (hrun : AppRun lib h p) : Async.Good (discipline lib) p :=
  Async.Path.kept (arrives_keeps lib) (good_boot lib) hrun

variable {x : Async.Handler App Answer Thrown} {t : Told}

/-- **What the wallet is asked to sign.**  Whatever happens on the page and in whatever order, the
wallet is asked to sign one of three things, and always for the network of the page: the prepared
transaction of a deposit that the page offers, after the gate has allowed it; a challenge that is
valid under the key the anchor publishes and is for the account that signs; or a trustline that the
account lacks. -/
theorem sign (hrun : AppRun lib h p) (hx : x ∈ p.tasks) {xdr : JsValue}
    {address networkPassphrase : JsString}
    (hasked : x.Asked t (.call (.sign xdr address networkPassphrase))) :
    networkPassphrase = Network.passphrase ∧
      ((∃ (o : Order) (browser : Browser) (prepared : JsString), o.Offered ∧ o.account = address ∧
          xdr = .string prepared ∧ o.Prepared lib browser t prepared) ∨
        Challenged lib t xdr address ∨ ∃ tx, xdr = .string tx ∧ Lacking lib t tx address) := by
  have hsign : MaySign lib t xdr address networkPassphrase := (hrun.good.tasks x hx).asked hasked
  cases hsign with
  | deposit hoffered hprepared =>
    exact ⟨rfl, Or.inl ⟨_, _, _, hoffered, rfl, rfl, hprepared⟩⟩
  | challenge hchallenged => exact ⟨rfl, Or.inr (Or.inl hchallenged)⟩
  | trustline hlacking => exact ⟨rfl, Or.inr (Or.inr ⟨_, rfl, hlacking⟩)⟩

/-- **Money moves only through the gate.**  Whatever happens on the page and in whatever order,
what is sent to the network is a deposit the page offers, and the handler that sends it has been
through this and nothing else: it has read the gate on that very pool, where the registry answered
`Verified` about the bytes that the pool runs; it has loaded the account; it has had the deposit
prepared; and it sends what the wallet returned for it. -/
theorem send (hrun : AppRun lib h p) (hx : x ∈ p.tasks) {signed : JsString}
    (hasked : x.Asked t (.call (.sendTransaction signed))) :
    ∃ (o : Order) (browser : Browser) (stroops : ℤ) (source result : JsValue)
      (envelope prepared : JsString),
      o.Offered ∧
      RegistryVerified browser o.pool.contractId ∧
      toStroops o.amount o.asset.decimals = .ok stroops ∧
      lib.build (supplyTransaction o.pool o.asset stroops o.account source) = .ok envelope ∧
      signedEnvelope result = .ok signed ∧
      t = [⟨.check o.pool.contractId, browser⟩, returned .loadSdk (),
        returned (.getAccount o.account) source,
        returned (.prepareTransaction envelope) prepared,
        returned (.sign (.string prepared) o.account Network.passphrase) result] := by
  have hreason : ∃ (o : Order) (browser : Browser), o.Offered ∧ o.Signed lib browser t signed :=
    (hrun.good.tasks x hx).asked hasked
  obtain ⟨o, browser, hoffered, ⟨⟨hallow, hstroops, hbuild⟩, hsigned⟩⟩ := hreason
  exact ⟨o, browser, _, _, _, _, _, hoffered, allow_iff.1 hallow, hstroops, hbuild, hsigned,
    rfl⟩

/-! ### What is shown -/

/-- **The buttons.**  In every state the button of the deposit can be pressed exactly when there is
a wallet and a verdict, and the target and the asset are ones that can be supplied; its note says
what is missing or what the verdict is.  The flow with the anchor can only be started with a
wallet.  The target that is described is the one that is selected. -/
theorem buttons (hrun : AppRun lib h p) :
    (p.shared.depositDisabled = false ↔
      p.shared.wallet.isSome = true ∧ p.shared.verdict.isSome = true ∧
        p.shared.target.noDeposit = false ∧ p.shared.target.unimplemented = false ∧
        p.shared.asset.suppliable = true) ∧
    p.shared.depositNote = p.shared.supplyNote ∧
    (p.shared.anchorRunDisabled = false → p.shared.wallet.isSome = true) ∧
    p.shared.targetNote = p.shared.target.contractId ++ js " — " ++ p.shared.target.note ∧
    p.shared.poolName = p.shared.target.label := by
  have hpage := hrun.good.shared
  refine ⟨?_, hpage.note, hpage.connected, hpage.described⟩
  rw [hpage.disabled, Bool.not_eq_false', List.isEmpty_iff, App.reasons_eq_nil]

/-- **The panel of the check.**  A verdict that is shown is the one the page goes by, and it is what
some handler made of its own reading of that contract.  It is green exactly when the registry
answered `Verified` there, and exactly then the sentence stands under it that a verified contract is
not a safe one. -/
theorem check_panel (hrun : AppRun lib h p) {shown : Shown}
    (hshown : p.shared.verdictPanel = .verdict shown) :
    (∃ contractId verdict, p.shared.verdict = some verdict ∧
      shown = checkShown contractId verdict) ∧
    ∃ x ∈ p.tasks, ∃ contractId browser, [⟨.check contractId, browser⟩] <+: x.told ∧
      shown = checkShown contractId (checkContract browser activeRegistry contractId) ∧
      (shown.tone = .ok ↔ RegistryVerified browser contractId) ∧
      (shown.caveat = some VERIFIED_IS_NOT_SAFE ↔ RegistryVerified browser contractId) := by
  refine ⟨hrun.good.shared.shown shown hshown, ?_⟩
  have hexplained := Async.Path.explained App.verdictPanel (W := CheckShown)
    (fun _ _ _ (hdid : App.Did lib _ _ _) => hdid.verdictPanel) (arrives_keeps lib) (good_boot lib) hrun
  rw [hshown] at hexplained
  rcases hexplained with hboot | ⟨x, hx, t, ht, hw⟩
  · cases hboot
  · cases hw with
    | verdict hcheck =>
      subst hcheck
      refine ⟨x, hx, _, _, ht, rfl, ?_, ?_⟩
      · rw [← allow_iff]
        exact checkContract_tone
      · rw [← allow_iff]
        simp [checkShown]

theorem Polled.succeeded {hash : JsValue} {attempts : ℕ} {polls : Told} {settled : Settled}
    (hpolled : Polled hash attempts polls settled) (hsettled : settled.succeeded = some true) :
    ∃ before result status, polls = before ++ [returned (.getTransaction hash) result] ∧
      before.length + 2 ≤ 2 * attempts ∧ result.read (js "status") = .ok status ∧
      status.is (js "SUCCESS") = true := by
  induction hpolled with
  | pending => cases hsettled
  | settled hstatus hfound =>
    exact ⟨[], _, _, rfl, by simp, hstatus, Option.some.inj hsettled⟩
  | again hstatus hmissing _ ih =>
    obtain ⟨before, result, status, rfl, hlength, hread, hsuccess⟩ := ih hsettled
    exact ⟨_ :: _ :: before, result, status, rfl, by simp only [List.length_cons]; omega, hread,
      hsuccess⟩

/-- Only a deposit that succeeded is shown as supplied. -/
theorem supplied_of_headline {t : Told} {shown : Shown} (hw : DepositShown lib t (.verdict shown))
    (hheadline : shown.headline = js "Supplied") :
    ∃ (o : Order) (browser : Browser) (t₀ polls : Told) (hash : JsValue) (settled : Settled)
      (page : App), o.Offered ∧ o.Sent lib browser t₀ hash ∧ Polled hash 30 polls settled ∧
      settled.succeeded = some true ∧ t = t₀ ++ polls ∧
      shown = suppliedShown lib page ⟨hash, settled, o.verdict browser⟩ := by
  cases hw with
  | refused p hoffered ht hrefused =>
    have hhead := congrArg List.head? hheadline
    rw [show (refusedShown p _).headline = js "Deposit refused — " ++ _ from rfl,
      List.head?_append] at hhead
    cases hhead
  | failed message =>
    have hne : js "Deposit failed" ≠ js "Supplied" := by decide
    exact absurd hheadline hne
  | submitted p hoffered hsent hpolled ht =>
    refine ⟨_, _, _, _, _, _, p, hoffered, hsent, hpolled, ?_, ht, rfl⟩
    by_contra hnot
    have hthird := congrArg (fun s => s[2]?) hheadline
    simp only [suppliedShown, if_neg hnot] at hthird
    rw [List.getElem?_append_left (by decide)] at hthird
    cases hthird

end AppRun

/-! ## A deposit -/

namespace Sample

/-- The account of the wallet. -/
def account : JsString := js "GAUNIN5OOJJDWPLCIINMXHKUKIAUGQZZ3YQMWOTHULFB2VFVOPSIDCHD"

/-- A library for which every identifier is one. -/
def library : Library where
  rt := runtime
  fraction := fun _ => .undefined
  parseUrl := fun url => .ok ⟨url, anchorDomain, []⟩
  encodeURIComponent := .ok
  address := fun _ => .ok ()
  toScVal := fun _ => .ok ()
  build := fun _ => .ok (js "AAAAAgAAAAA=")
  fromXdr := fun _ => .ok ()
  readChallengeTx := fun _ _ _ _ _ => .ok account

/-- A wallet that signs, and a network that takes what was signed. -/
def reply : (c : Call) → c.Reply
  | .loadSdk => ()
  | .loadKit => ()
  | .openModal => js "freighter"
  | .getAddress => account
  | .sign _ _ _ => .string (js "AAAAAgAAAAE=")
  | .getAccount _ => json [("sequence", .string (js "1"))]
  | .loadAccount _ => json [("balances", .array [])]
  | .prepareTransaction envelope => envelope
  | .sendTransaction _ => json [("status", .string (js "PENDING")), ("hash", .string (js "ab12"))]
  | .submitTransaction _ => json [("hash", .string (js "ab12"))]
  | .getTransaction _ => json [("status", .string (js "SUCCESS"))]
  | .fetch _ => ⟨true, 200⟩
  | .json => json []
  | .text => []

/-- The registry answers `Verified`. -/
def answer (_ : Told) : (q : Ask) → Answer q
  | .check _ => browser (.ok (.array [.string (js "Verified")]))
  | .sleep _ => ()
  | .call c => .ok (reply c)

/-- The page, when an event has been handled for some turns. -/
def handle (p : AppPool) (event : Event) (turns : ℕ) : AppPool :=
  let next := Async.Handler.nexts answer turns p.shared ⟨.ready (event.handler library), []⟩
  ⟨next.1, p.tasks ++ [next.2]⟩

theorem handle_run {h : AppHistory} {p : AppPool} (hrun : AppRun library h p) (event : Event)
    (turns : ℕ) : ∃ h', AppRun library h' (handle p event turns) := by
  obtain ⟨h', hpath⟩ := Async.exists_path_handle
    (fun x => ∃ event : Event, x = event.handler library) answer ⟨event, rfl⟩ turns p.tasks p.shared
  exact ⟨_, hrun.trans hpath⟩

/-- A wallet was connected, the pool was checked, and a deposit was ordered: all is over. -/
def supplied : AppPool :=
  handle (handle (handle ⟨App.boot, []⟩ .connect 4) .check 2) .deposit 8

theorem supplied_run : ∃ h, AppRun library h supplied := by
  obtain ⟨h₁, hconnect⟩ := handle_run (h := []) (p := ⟨App.boot, []⟩) .nil .connect 4
  obtain ⟨h₂, hcheck⟩ := handle_run hconnect .check 2
  exact handle_run hcheck .deposit 8

/-- Something that the handler has been told. -/
def asked (test : Ask → Bool) (p : AppPool) : Bool :=
  p.tasks.any fun x => x.told.any fun e => test e.1

theorem exists_asked {test : Ask → Bool} {p : AppPool} (h : asked test p = true) :
    ∃ x ∈ p.tasks, ∃ t q, test q = true ∧ x.Asked t q := by
  obtain ⟨x, hx, htold⟩ := List.any_eq_true.1 h
  obtain ⟨⟨q, a⟩, he, hq⟩ := List.any_eq_true.1 htold
  obtain ⟨before, after, hsplit⟩ := List.append_of_mem he
  exact ⟨x, hx, before, q, hq, Or.inl ⟨a, after, hsplit⟩⟩

/-- A question to the wallet, to sign. -/
def isSign : Ask → Bool
  | .call (.sign _ _ _) => true
  | _ => false

/-- A transaction that is sent. -/
def isSend : Ask → Bool
  | .call (.sendTransaction _) => true
  | _ => false

/-- What the panel shows is this. -/
def shows (test : Shown → Bool) : Panel → Bool
  | .verdict shown => test shown
  | _ => false

theorem exists_shown {test : Shown → Bool} {panel : Panel} (h : shows test panel = true) :
    ∃ shown, panel = .verdict shown ∧ test shown = true := by
  cases panel with
  | verdict shown => exact ⟨shown, rfl, h⟩
  | hidden => cases h
  | notice text => cases h

/-- The wallet was asked and a transaction sent, the check is green, the deposit supplied, and
another one can be ordered. -/
theorem supplied_facts :
    (asked isSign supplied && asked isSend supplied &&
      shows (fun shown => Decidable.decide (shown.tone = .ok)) supplied.shared.verdictPanel &&
      shows (fun shown => Decidable.decide (shown.headline = js "Supplied"))
        supplied.shared.depositResult && !supplied.shared.depositDisabled) = true := by
  decide +kernel

/-- The wallet was asked to sign for the network of the page. -/
theorem supplied_sign : ∃ x ∈ supplied.tasks, ∃ t xdr address networkPassphrase,
    x.Asked t (.call (.sign xdr address networkPassphrase)) ∧
      networkPassphrase = Network.passphrase := by
  have hfacts := supplied_facts
  simp only [Bool.and_eq_true] at hfacts
  obtain ⟨h, hrun⟩ := supplied_run
  obtain ⟨x, hx, t, q, hq, hasked⟩ := exists_asked hfacts.1.1.1.1
  unfold isSign at hq
  split at hq
  · exact ⟨x, hx, t, _, _, _, hasked, (hrun.sign hx hasked).1⟩
  · cases hq

/-- What was sent is a deposit into a pool about which the registry answered `Verified`. -/
theorem supplied_send : ∃ x ∈ supplied.tasks, ∃ t signed, ∃ (o : Order) (browser : Browser),
    x.Asked t (.call (.sendTransaction signed)) ∧ o.Offered ∧
      RegistryVerified browser o.pool.contractId := by
  have hfacts := supplied_facts
  simp only [Bool.and_eq_true] at hfacts
  obtain ⟨h, hrun⟩ := supplied_run
  obtain ⟨x, hx, t, q, hq, hasked⟩ := exists_asked hfacts.1.1.1.2
  unfold isSend at hq
  split at hq
  · obtain ⟨o, browser, -, -, -, -, -, hoffered, hverified, -⟩ := hrun.send hx hasked
    exact ⟨x, hx, t, _, o, browser, hasked, hoffered, hverified⟩
  · cases hq

/-- With a wallet and a verdict the button can be pressed. -/
theorem supplied_buttons :
    supplied.shared.wallet.isSome = true ∧ supplied.shared.verdict.isSome = true := by
  have hfacts := supplied_facts
  simp only [Bool.and_eq_true, Bool.not_eq_true'] at hfacts
  obtain ⟨h, hrun⟩ := supplied_run
  have hbuttons := hrun.buttons.1.1 hfacts.2
  exact ⟨hbuttons.1, hbuttons.2.1⟩

/-- The panel of the check is green. -/
theorem supplied_check : ∃ shown, supplied.shared.verdictPanel = .verdict shown ∧
    ∃ browser contractId, RegistryVerified browser contractId := by
  have hfacts := supplied_facts
  simp only [Bool.and_eq_true] at hfacts
  obtain ⟨h, hrun⟩ := supplied_run
  obtain ⟨shown, hshown, hgreen⟩ := exists_shown hfacts.1.1.2
  obtain ⟨-, x, -, contractId, browser, -, -, htone, -⟩ := hrun.check_panel hshown
  exact ⟨shown, hshown, browser, contractId, htone.1 (of_decide_eq_true hgreen)⟩

end Sample

end Gate
end Sorofy
