import Sorofy.Gate.App

/-!
# What the wallet is asked to sign

What every handler of the page owes the others, `discipline`, and that the parts of the handlers keep
it.

A question that can do harm needs a reason: the wallet may be asked to sign only what `MaySign`
lists, and what is sent is what it returned for that.  The reasons are about what the handler has
been told itself.  For a deposit this is all it has been told: `Order.Prepared` lists the exchanges
from the first on, and the first is the reading of the gate.

Between two waits a handler may write to the page.  The page is `App.Consistent` wherever a handler
waits, and the two panels show only what the handler was told (`CheckShown`, `DepositShown`).
-/

namespace Sorofy
namespace Gate

open Foundation
open Foundation.Async (Does.pure Does.throw Does.bind Does.ask)

/-- What a handler has been told. -/
abbrev Told : Type := List (Exchange Answer)

/-! ## Deposits -/

/-- A deposit, as it was ordered. -/
structure Order where
  pool : Protocol
  asset : Asset
  amount : JsString
  account : JsString

namespace Order

/-- The deposit is one that the page offers. -/
structure Offered (o : Order) : Prop where
  pool : ∃ key, o.pool = protocols key
  asset : ∃ key, o.asset = assets key
  deposit : o.pool.noDeposit = false
  implemented : o.pool.unimplemented = false
  suppliable : o.asset.suppliable = true

/-- What the gate says of the pool, where this is what can be read. -/
def verdict (o : Order) (browser : Browser) : CheckResult :=
  checkContract browser activeRegistry o.pool.contractId

variable (lib : Library)

/-- What a handler has been told when the transaction of the deposit is prepared. -/
inductive Prepared (o : Order) (browser : Browser) : Told → JsString → Prop
  | mk {stroops : ℤ} {source : JsValue} {envelope prepared : JsString}
    (hallow : (o.verdict browser).allow = true)
    (hstroops : toStroops o.amount o.asset.decimals = .ok stroops)
    (hbuild : lib.build (supplyTransaction o.pool o.asset stroops o.account source) =
      .ok envelope) :
    o.Prepared browser
      [⟨.check o.pool.contractId, browser⟩, returned .loadSdk (),
        returned (.getAccount o.account) source,
        returned (.prepareTransaction envelope) prepared] prepared

/-- What it has been told when the wallet has signed that transaction. -/
inductive Signed (o : Order) (browser : Browser) : Told → JsString → Prop
  | mk {t : Told} {prepared signed : JsString} {result : JsValue}
    (h : o.Prepared lib browser t prepared) (hsigned : signedEnvelope result = .ok signed) :
    o.Signed browser
      (t ++ [returned (.sign (.string prepared) o.account Network.passphrase) result]) signed

/-- What it has been told when the network has taken that transaction, under a hash. -/
inductive Sent (o : Order) (browser : Browser) : Told → JsValue → Prop
  | mk {t : Told} {signed : JsString} {sent status : JsValue}
    (h : o.Signed lib browser t signed) (hstatus : sent.read (js "status") = .ok status)
    (herror : status.is (js "ERROR") = false) :
    o.Sent browser (t ++ [returned (.sendTransaction signed) sent]) (sent.get (js "hash"))

/-- The gate has allowed a deposit that was sent. -/
theorem Sent.allowed {lib : Library} {o : Order} {browser : Browser} {t : Told} {hash : JsValue}
    (h : o.Sent lib browser t hash) : (o.verdict browser).allow = true := by
  obtain ⟨⟨⟨hallow, -, -⟩, -⟩, -, -⟩ := h
  exact hallow

end Order

/-- What a handler is told while it polls, with the polls it may make, and what it makes of it. -/
inductive Polled (hash : JsValue) : ℕ → Told → Settled → Prop
  | pending : Polled hash 0 [] ⟨.string (js "PENDING"), none⟩
  | settled {attempts : ℕ} {result status : JsValue}
    (hstatus : result.read (js "status") = .ok status)
    (hfound : status.is (js "NOT_FOUND") = false) :
    Polled hash (attempts + 1) [returned (.getTransaction hash) result]
      ⟨status, some (status.is (js "SUCCESS"))⟩
  | again {attempts : ℕ} {result status : JsValue} {t : Told} {settled : Settled}
    (hstatus : result.read (js "status") = .ok status)
    (hmissing : status.is (js "NOT_FOUND") = true) (h : Polled hash attempts t settled) :
    Polled hash (attempts + 1)
      (returned (.getTransaction hash) result :: ⟨.sleep 1000, ()⟩ :: t) settled

/-! ## The anchor -/

section Anchor

variable (lib : Library)

/-- Where the anchor's `stellar.toml` is. -/
def tomlUrl : JsString := js "https://" ++ anchorDomain ++ js "/.well-known/stellar.toml"

/-- What a handler has been told when it has read the anchor's `stellar.toml`. -/
inductive AnchorRead : Told → Anchor → Prop
  | mk {res : Response} {text : JsString} {anchor : Anchor} (hok : res.ok = true)
    (hanchor : describeAnchor lib.rt (parseToml lib.rt lib.fraction (.string text)) anchorDomain =
      .ok anchor) :
    AnchorRead [returned (.fetch (getRequest (.text tomlUrl))) res, returned .text text] anchor

/-- Where the anchor is asked for a challenge. -/
def challengeUrl (parsed : Url) (anchor : Anchor) (account : JsString) : Url :=
  (parsed.set (js "account") account).set (js "home_domain") anchor.homeDomain

/-- What a handler has been told when the anchor has sent a challenge for the account, which is
valid under the key that the anchor publishes. -/
inductive Challenged : Told → JsValue → JsString → Prop
  | mk {t : Told} {anchor : Anchor} {parsed : Url} {res : Response}
    {answer transaction : JsValue} {account : JsString}
    (hread : AnchorRead lib t anchor) (husable : anchor.usable = true)
    (hparsed : lib.parseUrl (anchor.webAuth.toString lib.rt) = .ok parsed) (hok : res.ok = true)
    (htransaction : answer.read (js "transaction") = .ok transaction)
    (hnetwork : (((answer.get (js "network_passphrase")).orElse anchor.networkPassphrase).orElse
      (.string Network.passphrase)).is Network.passphrase = true)
    (hvalid : lib.readChallengeTx transaction anchor.signingKey Network.passphrase anchorDomain
      parsed.hostname = .ok account) :
    Challenged (t ++ [returned .loadSdk (),
      returned (.fetch (getRequest (.url (challengeUrl parsed anchor account)))) res,
      returned .json answer]) transaction account

/-- What a handler has been told when it has found that the account lacks a trustline to an asset
of the page. -/
inductive Lacking : Told → JsString → JsString → Prop
  | mk {t : Told} {key : AssetKey} {issuer account tx : JsString} {loaded : JsValue}
    (hissuer : (assets key).issuer = some issuer)
    (hlacking : hasTrustline (assets key).code issuer loaded = .ok false)
    (hbuild : lib.build (trustlineTransaction (assets key) issuer loaded) = .ok tx) :
    Lacking (t ++ [returned .loadSdk (), returned (.loadAccount account) loaded]) tx account

end Anchor

/-! ## The discipline of the page -/

section Discipline

variable (lib : Library)

/-- Why the wallet may be asked to sign. -/
inductive MaySign (t : Told) : JsValue → JsString → JsString → Prop
  | deposit {o : Order} {browser : Browser} {prepared : JsString} (hoffered : o.Offered)
    (h : o.Prepared lib browser t prepared) :
    MaySign t (.string prepared) o.account Network.passphrase
  | challenge {transaction : JsValue} {account : JsString}
    (h : Challenged lib t transaction account) : MaySign t transaction account Network.passphrase
  | trustline {tx account : JsString} (h : Lacking lib t tx account) :
    MaySign t (.string tx) account Network.passphrase

/-- Why something may be asked. -/
def reason (t : Told) : Ask → Prop
  | .call (.sign xdr address networkPassphrase) => MaySign lib t xdr address networkPassphrase
  | .call (.sendTransaction signed) =>
    ∃ (o : Order) (browser : Browser), o.Offered ∧ o.Signed lib browser t signed
  | .call (.submitTransaction signed) =>
    ∃ t₀ tx account result, Lacking lib t₀ tx account ∧ signedEnvelope result = .ok signed ∧
      t = t₀ ++ [returned (.sign (.string tx) account Network.passphrase) result]
  | _ => True

/-- What the panel of the check may show. -/
inductive CheckShown (t : Told) : Panel → Prop
  | hidden : CheckShown t .hidden
  | reading : CheckShown t (.notice (js "Reading the ledger…"))
  | verdict {contractId : JsString} {browser : Browser}
    (ht : t = [⟨.check contractId, browser⟩]) :
    CheckShown t (.verdict (checkShown contractId
      (checkContract browser activeRegistry contractId)))

/-- What the panel of the deposit may show. -/
inductive DepositShown (t : Told) : Panel → Prop
  | rereading : DepositShown t (.notice (js "Re-reading consensus, then building…"))
  | refused {o : Order} {browser : Browser} (p : App) (hoffered : o.Offered)
    (ht : t = [⟨.check o.pool.contractId, browser⟩])
    (hrefused : (o.verdict browser).allow = false) :
    DepositShown t (.verdict (refusedShown p (o.verdict browser)))
  | submitted {o : Order} {browser : Browser} {t₀ polls : Told} {hash : JsValue}
    {settled : Settled} (p : App) (hoffered : o.Offered) (hsent : o.Sent lib browser t₀ hash)
    (hpolled : Polled hash 30 polls settled) (ht : t = t₀ ++ polls) :
    DepositShown t (.verdict (suppliedShown lib p ⟨hash, settled, o.verdict browser⟩))
  | failed (message : JsString) : DepositShown t (.verdict (failedShown message))

/-- What holds of the page wherever a handler waits. -/
structure App.Consistent (p : App) : Prop where
  target : ∃ key, p.target = protocols key
  asset : ∃ key, p.asset = assets key
  disabled : p.depositDisabled = !p.reasons.isEmpty
  note : p.depositNote = p.supplyNote
  described : p.targetNote = p.target.contractId ++ js " — " ++ p.target.note ∧
    p.poolName = p.target.label
  connected : p.anchorRunDisabled = false → p.wallet.isSome = true
  shown : ∀ shown, p.verdictPanel = .verdict shown →
    ∃ contractId verdict, p.verdict = some verdict ∧ shown = checkShown contractId verdict

/-- What stays once it is there. -/
structure App.Later (p p' : App) : Prop where
  wallet : p.wallet.isSome = true → p'.wallet.isSome = true
  anchor : p.anchor.isSome = true → p'.anchor.isSome = true

/-- What a handler may do to the page, with what it has been told. -/
structure App.Did (p p' : App) (t : Told) : Prop where
  verdictPanel : p'.verdictPanel = p.verdictPanel ∨ CheckShown t p'.verdictPanel
  depositResult : p'.depositResult = p.depositResult ∨ DepositShown lib t p'.depositResult

/-- The discipline that every handler keeps. -/
def discipline : Async.Discipline App Answer where
  admissible := App.Consistent
  rely := App.Later
  rely_refl _ := ⟨id, id⟩
  rely_trans _ _ _ h h' := ⟨h'.wallet ∘ h.wallet, h'.anchor ∘ h.anchor⟩
  guarantee := App.Did lib
  reason := reason lib

theorem discipline_lazy : (discipline lib).Lazy :=
  fun _ _ => ⟨Or.inl rfl, Or.inl rfl⟩

end Discipline

/-! ## What each part does -/

section Parts

open Async (Point Does)

variable {lib : Library} {p : Point App Answer}

/-- The gate is read on the target that the page has when it is read. -/
theorem recheck_does {α : Type} {k : CheckResult → Program App α} {P : α → Told → Prop}
    {E : Thrown → Told → Prop} (hp : (discipline lib).Yields p)
    (hk : ∀ browser p', (discipline lib).Reaches p p' →
      p'.told = p.told ++ [⟨.check p.now.target.contractId, browser⟩] →
      Does (discipline lib) (k (checkContract browser activeRegistry p.now.target.contractId)) p'
        P E) :
    Does (discipline lib) (recheck >>= k) p P E :=
  Does.ask (discipline_lazy lib) hp trivial hk

/-- The wallet is asked, and what it returns is an envelope. -/
theorem signWith_does {α : Type} {address networkPassphrase : JsString} {xdr : JsValue}
    {k : JsString → Program App α} {P : α → Told → Prop} {E : Thrown → Told → Prop}
    (hp : (discipline lib).Yields p) (hsign : MaySign lib p.told xdr address networkPassphrase)
    (hE : ∀ message t, E ⟨message, none⟩ t)
    (hk : ∀ result signed p', (discipline lib).Reaches p p' → signedEnvelope result = .ok signed →
      p'.told = p.told ++ [returned (.sign xdr address networkPassphrase) result] →
      Does (discipline lib) (k signed) p' P E) :
    Does (discipline lib) (signWith address xdr networkPassphrase >>= k) p P E := by
  have hsigned : Does (discipline lib) (signWith address xdr networkPassphrase) p
      (fun signed t => ∃ result, signedEnvelope result = .ok signed ∧
        t = p.told ++ [returned (.sign xdr address networkPassphrase) result])
      (fun e _ => e.blocked = none) := by
    refine Does.call (discipline_lazy lib) hp hsign (fun _ => rfl) fun result p' hreach htold => ?_
    exact Does.attempted hreach.yields (fun _ => rfl) fun signed hsigned =>
      ⟨result, hsigned, htold⟩
  refine Does.bind hsigned ?_ ?_
  · rintro ⟨message, blocked⟩ t rfl
    exact hE message t
  · rintro signed p' hreach ⟨result, hsigned, htold⟩
    exact hk result signed p' hreach hsigned htold

/-- Polling ends with what the last poll says. -/
theorem waitForTransaction_does {hash : JsValue} {attempts : ℕ} (hp : (discipline lib).Yields p) :
    Does (discipline lib) (waitForTransaction hash 1000 attempts) p
      (fun settled t => ∃ polls, Polled hash attempts polls settled ∧ t = p.told ++ polls)
      (fun e _ => e.blocked = none) := by
  induction attempts generalizing p with
  | zero => exact Does.pure hp ⟨[], .pending, (List.append_nil _).symm⟩
  | succ attempts ih =>
    refine Does.call (discipline_lazy lib) hp trivial (fun _ => rfl) fun result p₁ h₁ ht₁ => ?_
    refine Does.attempt h₁.yields (fun _ => rfl) fun status hstatus => ?_
    split_ifs with hfound
    · exact Does.pure h₁.yields ⟨_, .settled hstatus hfound, ht₁⟩
    · rw [Bool.not_eq_false] at hfound
      refine Does.ask (discipline_lazy lib) h₁.yields trivial fun _ p₂ h₂ ht₂ => ?_
      refine (ih h₂.yields).mono (fun settled p₃ h => ⟨h.1, ?_⟩) fun _ _ h => h
      obtain ⟨polls, hpolls, ht₃⟩ := h.2
      refine ⟨_, .again hstatus hfound hpolls, ?_⟩
      rw [ht₃, ht₂, ht₁, List.append_assoc, List.append_assoc]
      rfl

/-- A deposit: the gate is read on its pool first, and only if it allows the deposit is anything
else asked.  What is signed is the prepared transaction of the deposit, what is sent is what the
wallet returned, and what is reported is what the network says of that. -/
theorem supply_does {o : Order} (hoffered : o.Offered) (hp : (discipline lib).Yields p)
    (htarget : p.now.target = o.pool) (htold : p.told = []) :
    Does (discipline lib)
      (supply lib o.pool o.asset o.amount o.account (signWith o.account) recheck) p
      (fun r t => ∃ browser t₀ polls, o.Sent lib browser t₀ r.hash ∧
        Polled r.hash 30 polls r.settled ∧ r.verdict = o.verdict browser ∧ t = t₀ ++ polls)
      (fun e t => ∀ verdict, e.blocked = some verdict → ∃ browser, verdict = o.verdict browser ∧
        verdict.allow = false ∧ t = [⟨.check o.pool.contractId, browser⟩]) := by
  have hlazy := discipline_lazy lib
  refine recheck_does hp fun browser p₁ h₁ ht₁ => ?_
  rw [htold, htarget, List.nil_append] at ht₁
  rw [htarget]
  split_ifs with hallow
  · refine Does.throw h₁.yields ?_
    rintro verdict hverdict
    cases hverdict
    exact ⟨browser, rfl, hallow, ht₁⟩
  rw [Bool.not_eq_false] at hallow
  -- an error without a verdict says nothing of the gate
  have hE : ∀ message (t : Told) verdict, (⟨message, none⟩ : Thrown).blocked = some verdict →
      ∃ browser, verdict = o.verdict browser ∧ verdict.allow = false ∧
        t = [⟨.check o.pool.contractId, browser⟩] := by
    intro message t verdict hverdict
    cases hverdict
  refine Does.call hlazy h₁.yields trivial (fun _ => hE _ _) fun _ p₂ h₂ ht₂ => ?_
  refine Does.attempt h₂.yields (fun _ => hE _ _) fun stroops hstroops => ?_
  refine Does.attempt h₂.yields (fun _ => hE _ _) fun _ _ => ?_
  refine Does.attempt h₂.yields (fun _ => hE _ _) fun _ _ => ?_
  refine Does.attempt h₂.yields (fun _ => hE _ _) fun _ _ => ?_
  refine Does.attempt h₂.yields (fun _ => hE _ _) fun _ _ => ?_
  refine Does.call hlazy h₂.yields trivial (fun _ => hE _ _) fun source p₃ h₃ ht₃ => ?_
  refine Does.attempt h₃.yields (fun _ => hE _ _) fun envelope hbuild => ?_
  refine Does.call hlazy h₃.yields trivial (fun _ => hE _ _) fun prepared p₄ h₄ ht₄ => ?_
  have hprepared : o.Prepared lib browser p₄.told prepared := by
    rw [ht₄, ht₃, ht₂, ht₁]
    exact .mk hallow hstroops hbuild
  refine signWith_does h₄.yields (.deposit hoffered hprepared) hE
    fun result signed p₅ h₅ hsigned ht₅ => ?_
  have hdone : o.Signed lib browser p₅.told signed := by
    rw [ht₅]
    exact .mk hprepared hsigned
  refine Does.attempt h₅.yields (fun _ => hE _ _) fun _ _ => ?_
  refine Does.call hlazy h₅.yields ⟨o, browser, hoffered, hdone⟩ (fun _ => hE _ _)
    fun sent p₆ h₆ ht₆ => ?_
  refine Does.attempt h₆.yields (fun _ => hE _ _) fun status hstatus => ?_
  split_ifs with herror
  · refine Does.attempt h₆.yields (fun _ => hE _ _) fun _ _ => ?_
    exact Does.fail h₆.yields (hE _ _)
  rw [Bool.not_eq_true] at herror
  refine Does.bind (waitForTransaction_does h₆.yields) ?_ fun settled p₇ h₇ hpolled => ?_
  · rintro ⟨message, blocked⟩ t rfl
    exact hE message t
  · obtain ⟨polls, hpolls, ht₇⟩ := hpolled
    refine Does.pure h₇.yields ⟨browser, _, polls, .mk hdone hstatus herror, hpolls, rfl, ?_⟩
    rw [ht₇, ht₆]

theorem describeAnchor_homeDomain {rt : Runtime} {toml : JsValue} {homeDomain : JsString}
    {anchor : Anchor} (h : describeAnchor rt toml homeDomain = .ok anchor) :
    anchor.homeDomain = homeDomain := by
  simp only [describeAnchor, bind_eq_ok, pure_eq_ok] at h
  obtain ⟨webAuth, -, currencies, -, rfl⟩ := h
  rfl

theorem AnchorRead.homeDomain {t : Told} {anchor : Anchor} (h : AnchorRead lib t anchor) :
    anchor.homeDomain = anchorDomain := by
  obtain ⟨hok, hanchor⟩ := h
  exact describeAnchor_homeDomain hanchor

theorem fetchStellarToml_does (hp : (discipline lib).Yields p) (htold : p.told = []) :
    Does (discipline lib) (fetchStellarToml lib anchorDomain) p
      (fun anchor t => AnchorRead lib t anchor) (fun _ _ => True) := by
  have hlazy := discipline_lazy lib
  refine Does.call hlazy hp trivial (fun _ => trivial) fun res p₁ h₁ ht₁ => ?_
  split_ifs with hok
  · exact Does.fail h₁.yields trivial
  rw [Bool.not_eq_false] at hok
  refine Does.call hlazy h₁.yields trivial (fun _ => trivial) fun text p₂ h₂ ht₂ => ?_
  refine Does.attempted h₂.yields (fun _ => trivial) fun anchor hanchor => ?_
  rw [ht₂, ht₁, htold]
  exact .mk hok hanchor

/-- A challenge is signed only if it is one: valid under the key that the anchor publishes, for
this network and this account. -/
theorem authenticate_does {anchor : Anchor} {account : JsString}
    (hread : AnchorRead lib p.told anchor) (husable : anchor.usable = true)
    (hp : (discipline lib).Yields p) :
    Does (discipline lib) (authenticate lib anchor account (signWith account)) p
      (fun _ _ => True) (fun _ _ => True) := by
  have hlazy := discipline_lazy lib
  refine Does.call hlazy hp trivial (fun _ => trivial) fun _ p₁ h₁ ht₁ => ?_
  refine Does.attempt h₁.yields (fun _ => trivial) fun parsed hparsed => ?_
  refine Does.call hlazy h₁.yields trivial (fun _ => trivial) fun res p₂ h₂ ht₂ => ?_
  split_ifs with hok
  · exact Does.fail h₂.yields trivial
  rw [Bool.not_eq_false] at hok
  refine Does.call hlazy h₂.yields trivial (fun _ => trivial) fun answer p₃ h₃ ht₃ => ?_
  refine Does.attempt h₃.yields (fun _ => trivial) fun transaction htransaction => ?_
  split_ifs with htruthy
  · exact Does.fail h₃.yields trivial
  dsimp only
  split_ifs with hnetwork
  · exact Does.fail h₃.yields trivial
  rw [Bool.not_eq_false] at hnetwork
  refine Does.attempt h₃.yields (fun _ => trivial) fun clientAccountID hvalid => ?_
  split_ifs with haccount
  · exact Does.fail h₃.yields trivial
  rw [ne_eq, not_not] at haccount
  subst haccount
  have hchallenged : Challenged lib p₃.told transaction clientAccountID := by
    rw [ht₃, ht₂, ht₁, List.append_assoc, List.append_assoc]
    rw [hread.homeDomain] at hvalid
    exact .mk hread husable hparsed hok htransaction hnetwork hvalid
  refine signWith_does h₃.yields (.challenge hchallenged) (fun _ _ => trivial)
    fun result signed p₄ h₄ hsigned ht₄ => ?_
  refine Does.call hlazy h₄.yields trivial (fun _ => trivial) fun post p₅ h₅ _ => ?_
  split_ifs with hpost
  · refine Does.call hlazy h₅.yields trivial (fun _ => trivial) fun text p₆ h₆ _ => ?_
    exact Does.fail h₆.yields trivial
  refine Does.call hlazy h₅.yields trivial (fun _ => trivial) fun body p₆ h₆ _ => ?_
  refine Does.attempt h₆.yields (fun _ => trivial) fun token _ => ?_
  split_ifs
  · exact Does.fail h₆.yields trivial
  · exact Does.pure h₆.yields trivial

/-- A trustline is signed only if the account lacks it. -/
theorem ensureTrustline_does {asset : Asset} {account : JsString}
    (hasset : ∃ key, asset = assets key) (hp : (discipline lib).Yields p) :
    Does (discipline lib) (ensureTrustline lib asset account (signWith account)) p
      (fun _ _ => True) (fun _ _ => True) := by
  have hlazy := discipline_lazy lib
  obtain ⟨key, rfl⟩ := hasset
  unfold ensureTrustline
  split
  · exact Does.pure hp trivial
  next issuer hissuer =>
    refine Does.call hlazy hp trivial (fun _ => trivial) fun _ p₁ h₁ ht₁ => ?_
    refine Does.call hlazy h₁.yields trivial (fun _ => trivial) fun loaded p₂ h₂ ht₂ => ?_
    refine Does.attempt h₂.yields (fun _ => trivial) fun already halready => ?_
    split_ifs with hhas
    · exact Does.pure h₂.yields trivial
    rw [Bool.not_eq_true] at hhas
    subst hhas
    refine Does.attempt h₂.yields (fun _ => trivial) fun tx htx => ?_
    have hlacking : Lacking lib p₂.told tx account := by
      rw [ht₂, ht₁, List.append_assoc]
      exact .mk (Option.eq_some_of_filter_eq_some hissuer) halready htx
    refine signWith_does h₂.yields (.trustline hlacking) (fun _ _ => trivial)
      fun result signed p₃ h₃ hsigned ht₃ => ?_
    refine Does.attempt h₃.yields (fun _ => trivial) fun _ _ => ?_
    refine Does.call hlazy h₃.yields ⟨_, tx, account, result, hlacking, hsigned, ht₃⟩
      (fun _ => trivial) fun submitted p₄ h₄ _ => ?_
    refine Does.attempt h₄.yields (fun _ => trivial) fun hash _ => ?_
    exact Does.pure h₄.yields trivial

theorem startInteractiveDeposit_does {anchor : Anchor} {token : JsValue}
    {assetCode account : JsString} (hp : (discipline lib).Yields p) :
    Does (discipline lib) (startInteractiveDeposit lib anchor token assetCode account) p
      (fun _ _ => True) (fun _ _ => True) := by
  have hlazy := discipline_lazy lib
  refine Does.call hlazy hp trivial (fun _ => trivial) fun res p₁ h₁ _ => ?_
  split_ifs
  · refine Does.call hlazy h₁.yields trivial (fun _ => trivial) fun text p₂ h₂ _ => ?_
    exact Does.fail h₂.yields trivial
  refine Does.call hlazy h₁.yields trivial (fun _ => trivial) fun body p₂ h₂ _ => ?_
  refine Does.attempt h₂.yields (fun _ => trivial) fun url _ => ?_
  dsimp only
  split_ifs
  · exact Does.fail h₂.yields trivial
  · exact Does.pure h₂.yields trivial

theorem depositStatus_does {anchor : Anchor} {token id : JsValue}
    (hp : (discipline lib).Yields p) :
    Does (discipline lib) (depositStatus lib anchor token id) p
      (fun _ _ => True) (fun _ _ => True) := by
  have hlazy := discipline_lazy lib
  refine Does.attempt hp (fun _ => trivial) fun encoded _ => ?_
  refine Does.call hlazy hp trivial (fun _ => trivial) fun res p₁ h₁ _ => ?_
  split_ifs
  · exact Does.fail h₁.yields trivial
  refine Does.call hlazy h₁.yields trivial (fun _ => trivial) fun answer p₂ h₂ _ => ?_
  refine Does.attempt h₂.yields (fun _ => trivial) fun transaction _ => ?_
  exact Does.pure h₂.yields trivial

theorem connect_does (hp : (discipline lib).Yields p) :
    Does (discipline lib) connect p (fun _ _ => True) (fun _ _ => True) := by
  have hlazy := discipline_lazy lib
  refine Does.call hlazy hp trivial (fun _ => trivial) fun _ p₁ h₁ _ => ?_
  refine Does.call hlazy h₁.yields trivial (fun _ => trivial) fun _ p₂ h₂ _ => ?_
  refine Does.call hlazy h₂.yields trivial (fun _ => trivial) fun address p₃ h₃ _ => ?_
  split_ifs
  · exact Does.fail h₃.yields trivial
  · exact Does.pure h₃.yields trivial

end Parts

end Gate
end Sorofy
