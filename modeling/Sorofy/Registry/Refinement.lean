import Sorofy.Registry.Inversion

/-!
# The contract keeps the book

The records of the contract's storage represent a book (`bookOf`), and every step of the
registry's ledger is a step of that book.

* `Represents`: the three kinds of records kept for a claim agree on one list of attestations;
* `Coherent`: the configuration is the constructor's, and every claim's records agree;
* `stake_refines`, …, `slash_refines`: a returning call keeps the storage coherent and takes the
  step of the book that belongs to it;
* `Run.refines`: so every run of the registry is a path of its book, with the same labels.
-/

namespace Sorofy
namespace Registry

open Foundation
open History
open Plurality

variable {Address : Type} [DecidableEq Address] {T : Token Address}

/-! ## Representation -/

/-- The records `Opened`, `Attesters` and `Att` of a claim represent a list of attestations. -/
structure Represents (st : Storage Address) (claim : Claim) (atts : List (Attestation Address)) :
    Prop where
  opened : st.get (.opened claim.1 claim.2) = atts.head?.map Attestation.ledger
  attesters : (st.get (.attesters claim.1 claim.2)).getD [] = atts.map Attestation.verifier
  att : ∀ v a, st.get (.att claim.1 claim.2 v) = some a ↔ a ∈ atts ∧ a.verifier = v

variable {st st' : Storage Address} {claim : Claim} {atts : List (Attestation Address)}

omit [DecidableEq Address] in
/-- What `read_attestations` reads is the list represented. -/
theorem Represents.readAttestations_eq (h : Represents st claim atts) :
    readAttestations st claim.1 claim.2 = atts := by
  have hread : ∀ a ∈ atts, st.get (.att claim.1 claim.2 a.verifier) = some a :=
    fun a ha => (h.att a.verifier a).mpr ⟨ha, rfl⟩
  rw [readAttestations, h.attesters, List.filterMap_map]
  calc atts.filterMap ((fun v => st.get (.att claim.1 claim.2 v)) ∘ Attestation.verifier)
      = atts.filterMap some := List.filterMap_congr hread
    _ = atts := List.filterMap_some ..

omit [DecidableEq Address] in
theorem Represents.empty (claim : Claim) : Represents (Storage.empty : Storage Address) claim [] :=
  ⟨rfl, rfl, by simp⟩

omit [DecidableEq Address] in
/-- Only the claim's own records matter. -/
theorem Represents.frame (h : Represents st claim atts)
    (hopened : st'.get (.opened claim.1 claim.2) = st.get (.opened claim.1 claim.2))
    (hattesters : st'.get (.attesters claim.1 claim.2) = st.get (.attesters claim.1 claim.2))
    (hatt : ∀ v, st'.get (.att claim.1 claim.2 v) = st.get (.att claim.1 claim.2 v)) :
    Represents st' claim atts where
  opened := hopened.trans h.opened
  attesters := by rw [hattesters, h.attesters]
  att v a := by rw [hatt, h.att]

/-- The records after one more attestation, by a newcomer. -/
theorem Represents.snoc {a : Attestation Address} (h : Represents st claim atts)
    (hopened : st'.get (.opened claim.1 claim.2) =
      some ((atts.head?.map Attestation.ledger).getD a.ledger))
    (hattesters : st'.get (.attesters claim.1 claim.2) =
      some ((st.get (.attesters claim.1 claim.2)).getD [] ++ [a.verifier]))
    (hatt : ∀ v, st'.get (.att claim.1 claim.2 v) =
      if v = a.verifier then some a else st.get (.att claim.1 claim.2 v))
    (hnew : ∀ a' ∈ atts, a'.verifier ≠ a.verifier) : Represents st' claim (atts ++ [a]) where
  opened := by
    rw [hopened]
    cases atts <;> rfl
  attesters := by
    rw [hattesters, Option.getD_some, h.attesters, List.map_append, List.map_singleton]
  att v a' := by
    rw [hatt, List.mem_append, List.mem_singleton]
    by_cases hv : v = a.verifier
    · rw [hv, if_pos rfl, Option.some.injEq]
      constructor
      · intro heq
        exact ⟨Or.inr heq.symm, by rw [heq]⟩
      · rintro ⟨ha' | ha', hver⟩
        · exact absurd hver (hnew a' ha')
        · exact ha'.symm
    · rw [if_neg hv, h.att]
      constructor
      · rintro ⟨ha', hver⟩
        exact ⟨Or.inl ha', hver⟩
      · rintro ⟨ha' | ha', hver⟩
        · exact ⟨ha', hver⟩
        · rw [ha'] at hver
          exact absurd hver.symm hv

/-- The state of the contract between calls. -/
structure Coherent (cfg : Config Address) (w : World T) : Prop where
  config_eq : w.instanceStorage.get .config = some cfg
  records : ∀ claim, ∃ atts, Represents w.persistent claim atts

omit [DecidableEq Address] in
theorem Coherent.represents {cfg : Config Address} {w : World T} (h : Coherent cfg w)
    (claim : Claim) :
    Represents w.persistent claim (readAttestations w.persistent claim.1 claim.2) := by
  obtain ⟨atts, hatts⟩ := h.records claim
  rwa [hatts.readAttestations_eq]

/-- The book a world stands for, at one ledger. -/
def bookOf (sequence : ℕ) (w : World T) : Book Address where
  sequence
  account := readStake w.persistent
  ballot c := readAttestations w.persistent c.1 c.2
  marked c v := (w.persistent.get (.slashed c.1 c.2 v)).isSome = true

/-- The book of the registry. -/
def Chain.book (s : Chain T) : Book Address := bookOf s.sequence s.world

/-! ## Frames: what a write leaves alone -/

theorem readStake_set_stake (v : Address) (info : StakeInfo) :
    readStake (st.set (.stake v) info) = Function.update (readStake st) v info := by
  funext w
  by_cases hw : w = v
  · subst hw
    simp [readStake]
  · simp [readStake, hw]

theorem readStake_set_of_ne {key : DataKey Address} {value : key.Value}
    (hkey : ∀ v, DataKey.stake v ≠ key) : readStake (st.set key value) = readStake st := by
  funext w
  rw [readStake, readStake, Storage.get_set_of_ne st value (hkey w)]

/-- The records of claims. -/
def DataKey.OfClaim (claim : Claim) : DataKey Address → Prop
  | .opened wasmHash inputDigest => (wasmHash, inputDigest) = claim
  | .attesters wasmHash inputDigest => (wasmHash, inputDigest) = claim
  | .att wasmHash inputDigest _ => (wasmHash, inputDigest) = claim
  | _ => False

omit [DecidableEq Address] in
theorem DataKey.OfClaim.unique {key : DataKey Address} {c c' : Claim} (h : key.OfClaim c)
    (h' : key.OfClaim c') : c = c' := by
  cases key <;> first | exact h.symm.trans h' | exact h.elim

theorem Represents.set {key : DataKey Address} {value : key.Value} (h : Represents st claim atts)
    (hkey : ¬ key.OfClaim claim) : Represents (st.set key value) claim atts := by
  refine h.frame ?_ ?_ ?_
  · exact Storage.get_set_of_ne st value (by rintro rfl; exact hkey rfl)
  · exact Storage.get_set_of_ne st value (by rintro rfl; exact hkey rfl)
  · intro v
    exact Storage.get_set_of_ne st value (by rintro rfl; exact hkey rfl)

/-- A record that belongs to no claim can be written freely. -/
theorem Coherent.set {cfg : Config Address} {w : World T} {key : DataKey Address}
    {value : key.Value} {t : T.State} {events : List (Event Address)} (h : Coherent cfg w)
    (hkey : ∀ claim, ¬ key.OfClaim claim) :
    Coherent cfg ⟨w.instanceStorage, w.persistent.set key value, t, events⟩ :=
  ⟨h.config_eq, fun claim => (h.records claim).imp fun _ hatts => hatts.set (hkey claim)⟩

omit [DecidableEq Address] in
/-- The token is nobody's record. -/
theorem Coherent.token {cfg : Config Address} {w : World T} (h : Coherent cfg w) (t : T.State) :
    Coherent cfg { w with token := t } :=
  ⟨h.config_eq, h.records⟩

theorem readAttestations_set {cfg : Config Address} {w : World T} {key : DataKey Address}
    {value : key.Value} (h : Coherent cfg w) (claim : Claim) (hkey : ¬ key.OfClaim claim) :
    readAttestations (w.persistent.set key value) claim.1 claim.2 =
      readAttestations w.persistent claim.1 claim.2 :=
  ((h.represents claim).set hkey).readAttestations_eq

/-! ## What a write does to the book -/

variable {registry : Address} {env : Env Address} {cfg : Config Address} {sequence : ℕ}
  {w w' : World T}

/-- Writing a stake record sets the account. -/
theorem bookOf_set_stake (hw : Coherent cfg w) (v : Address) (info : StakeInfo) (t : T.State)
    (events : List (Event Address)) :
    bookOf sequence ⟨w.instanceStorage, w.persistent.set (.stake v) info, t, events⟩ =
      (bookOf sequence w).setAccount v info := by
  refine Book.ext rfl (readStake_set_stake ..) ?_ ?_
  · funext c
    exact readAttestations_set hw c fun hc => hc
  · funext c a
    simp [bookOf]

/-- Writing a slash mark marks the verifier. -/
theorem bookOf_set_slashed (hw : Coherent cfg w) (wasmHash inputDigest : Bytes32) (v : Address)
    (t : T.State) (events : List (Event Address)) :
    bookOf sequence
        ⟨w.instanceStorage, w.persistent.set (.slashed wasmHash inputDigest v) true, t, events⟩ =
      (bookOf sequence w).mark (wasmHash, inputDigest) v := by
  refine Book.ext rfl (readStake_set_of_ne (by simp)) ?_ ?_
  · funext c
    exact readAttestations_set hw c fun hc => hc
  · funext c a
    by_cases hkey : c = (wasmHash, inputDigest) ∧ a = v
    · obtain ⟨rfl, rfl⟩ := hkey
      simp [bookOf, Book.mark]
    · have hne : DataKey.slashed c.1 c.2 a ≠ .slashed wasmHash inputDigest v := by
        rintro heq
        injection heq with h1 h2 h3
        exact hkey ⟨Prod.ext h1 h2, h3⟩
      simp [bookOf, Book.mark, hkey, hne]

omit [DecidableEq Address] in
/-- Adding to a claim's records files an attestation. -/
theorem bookOf_file (sequence : ℕ) (hw : Coherent cfg w) {a : Attestation Address}
    (hfiled : Represents st' claim (readAttestations w.persistent claim.1 claim.2 ++ [a]))
    (hkeep : ∀ key : DataKey Address, ¬ key.OfClaim claim →
      st'.get key = w.persistent.get key) (events : List (Event Address)) :
    Coherent cfg ⟨w.instanceStorage, st', w.token, events⟩ ∧
      bookOf sequence ⟨w.instanceStorage, st', w.token, events⟩ =
        (bookOf sequence w).file claim a := by
  have hothers : ∀ c, c ≠ claim → Represents st' c (readAttestations w.persistent c.1 c.2) := by
    intro c hc
    have hother : ∀ key : DataKey Address, key.OfClaim c → st'.get key = w.persistent.get key :=
      fun key hkey => hkeep key fun hclaim => hc (hkey.unique hclaim)
    exact (hw.represents c).frame (hother _ rfl) (hother _ rfl) fun v => hother _ rfl
  constructor
  · refine ⟨hw.config_eq, fun c => ?_⟩
    by_cases hc : c = claim
    · rw [hc]
      exact ⟨_, hfiled⟩
    · exact ⟨_, hothers c hc⟩
  · refine Book.ext rfl ?_ ?_ ?_
    · funext v
      show readStake st' v = readStake w.persistent v
      rw [readStake, readStake, hkeep (.stake v) fun hclaim => hclaim]
    · funext c
      show readAttestations st' c.1 c.2 = _
      rw [Book.file_ballot]
      by_cases hc : c = claim
      · rw [if_pos hc, hc, hfiled.readAttestations_eq]
        rfl
      · rw [if_neg hc, (hothers c hc).readAttestations_eq]
        rfl
    · funext c v
      show ((st'.get _).isSome = true) = _
      rw [hkeep (.slashed c.1 c.2 v) fun hclaim => hclaim]
      rfl

/-! ## One call -/

/-- A successful `stake` is the book's. -/
theorem stake_refines (hw : Coherent cfg w) {v : Address} {amount : ℤ} {u : Unit}
    (h : stake env v amount w = .ok u w') :
    Coherent cfg w' ∧
      Book.Step cfg (bookOf env.sequence w)
        (.call env (.stake v amount) (.returned .unit))
        (bookOf env.sequence w') := by
  obtain ⟨-, hpos, t, -, -, rfl⟩ := (stake_eq_ok hw.config_eq).mp h
  refine ⟨hw.set fun _ hc => hc, ?_⟩
  rw [bookOf_set_stake hw]
  exact Book.Step.stake _ env v amount hpos

/-- A successful `request_unstake` is the book's. -/
theorem requestUnstake_refines (hw : Coherent cfg w) {v : Address} {amount : ℤ} {u : Unit}
    (h : requestUnstake env v amount w = .ok u w') :
    Coherent cfg w' ∧
      Book.Step cfg (bookOf env.sequence w)
        (.call env (.requestUnstake v amount) (.returned .unit))
        (bookOf env.sequence w') := by
  obtain ⟨-, hpos, hle, -, -, -, rfl⟩ := (requestUnstake_eq_ok hw.config_eq).mp h
  refine ⟨hw.set fun _ hc => hc, ?_⟩
  rw [bookOf_set_stake hw]
  exact Book.Step.requestUnstake _ env v amount hpos hle

/-- A successful `withdraw` is the book's. -/
theorem withdraw_refines (hw : Coherent cfg w) {v : Address} {amount : ℤ}
    (h : withdraw env v w = .ok amount w') :
    Coherent cfg w' ∧
      Book.Step cfg (bookOf env.sequence w)
        (.call env (.withdraw v) (.returned (.amount amount)))
        (bookOf env.sequence w') := by
  obtain ⟨-, hpos, hrelease, t, -, rfl, rfl⟩ := (withdraw_eq_ok hw.config_eq).mp h
  refine ⟨hw.set fun _ hc => hc, ?_⟩
  rw [bookOf_set_stake hw]
  exact Book.Step.withdraw _ env v hpos hrelease

/-- The window test of `attest`: the ballot is not closed, and the first attestation's ledger is
on record. -/
theorem enterWindow_refines {wasmHash inputDigest : Bytes32} {atts : List (Attestation Address)}
    {u : Unit} (hatts : Represents w.persistent (wasmHash, inputDigest) atts)
    (h : enterWindow env cfg wasmHash inputDigest w = .ok u w') :
    ¬ Closed cfg env.sequence atts ∧
      w'.persistent.get (.opened wasmHash inputDigest) =
        some ((atts.head?.map Attestation.ledger).getD env.sequence) ∧
      (∀ key ≠ .opened wasmHash inputDigest, w'.persistent.get key = w.persistent.get key) ∧
      w'.instanceStorage = w.instanceStorage ∧ w'.token = w.token := by
  have hopened := hatts.opened
  rcases enterWindow_eq_ok.mp h with ⟨hnone, rfl⟩ | ⟨opened, hsome, -, hnow, rfl⟩
  · have hnil : atts = [] := by
      rw [hnone, eq_comm, Option.map_eq_none_iff, List.head?_eq_none_iff] at hopened
      exact hopened
    subst hnil
    refine ⟨?_, ?_, ?_, rfl, rfl⟩
    · rintro ⟨first, hfirst, -⟩
      exact absurd hfirst (by simp)
    · exact Storage.get_set_self ..
    · intro key hkey
      exact Storage.get_set_of_ne _ _ hkey
  · rw [hsome] at hopened
    refine ⟨?_, ?_, fun _ _ => rfl, rfl, rfl⟩
    · rintro ⟨first, hfirst, hclosed⟩
      rw [Option.mem_def.mp hfirst, Option.map_some] at hopened
      have hledger : first.ledger = opened := (Option.some.inj hopened).symm
      omega
    · rw [hsome, ← hopened, Option.getD_some]

/-- A successful `attest` is the book's. -/
theorem attest_refines (hw : Coherent cfg w) {v : Address}
    {wasmHash inputDigest rebuiltHash : Bytes32} {u : Unit}
    (h : attest env v wasmHash inputDigest rebuiltHash w = .ok u w') :
    Coherent cfg w' ∧
      Book.Step cfg (bookOf env.sequence w)
        (.call env (.attest v wasmHash inputDigest rebuiltHash) (.returned .unit))
        (bookOf env.sequence w') := by
  obtain ⟨-, hactive, u₁, w₁, henter, hexisting, rfl⟩ := (attest_eq_ok hw.config_eq).mp h
  have hatts := hw.represents (wasmHash, inputDigest)
  obtain ⟨hopen, hopened, hkeep, hinstance, htoken⟩ := enterWindow_refines hatts henter
  have hnew : ∀ a ∈ readAttestations w.persistent wasmHash inputDigest, a.verifier ≠ v := by
    rintro a ha rfl
    rw [hkeep _ (by simp), (hatts.att a.verifier a).mpr ⟨ha, rfl⟩] at hexisting
    exact absurd hexisting (by simp)
  have hfiled : Represents ((w₁.persistent.set (.att wasmHash inputDigest v)
        ⟨v, rebuiltHash, env.sequence⟩).set (.attesters wasmHash inputDigest)
        ((w₁.persistent.get (.attesters wasmHash inputDigest)).getD [] ++ [v]))
      (wasmHash, inputDigest)
      (readAttestations w.persistent wasmHash inputDigest ++ [⟨v, rebuiltHash, env.sequence⟩]) := by
    refine hatts.snoc ?_ ?_ ?_ hnew
    · simpa using hopened
    · simp [hkeep]
    · intro v'
      by_cases hv : v' = v
      · subst hv
        simp
      · simp [hv, hkeep]
  have hothers : ∀ key : DataKey Address, ¬ key.OfClaim (wasmHash, inputDigest) →
      ((w₁.persistent.set (.att wasmHash inputDigest v) ⟨v, rebuiltHash, env.sequence⟩).set
        (.attesters wasmHash inputDigest)
        ((w₁.persistent.get (.attesters wasmHash inputDigest)).getD [] ++ [v])).get key =
        w.persistent.get key := by
    intro key hkey
    rw [Storage.get_set_of_ne _ _ (by rintro rfl; exact hkey rfl),
      Storage.get_set_of_ne _ _ (by rintro rfl; exact hkey rfl),
      hkeep _ (by rintro rfl; exact hkey rfl)]
  rw [hinstance, htoken]
  obtain ⟨hcoherent, hbook⟩ := bookOf_file env.sequence hw hfiled
    hothers (w₁.events ++ [.attested v wasmHash inputDigest rebuiltHash])
  refine ⟨hcoherent, ?_⟩
  rw [hbook]
  exact Book.Step.attest _ env v wasmHash inputDigest rebuiltHash rfl hactive hopen hnew

omit [DecidableEq Address] in
/-- What `slash` requires of the claim and the verifier is what the book requires, once the two
`u32` computations fit. -/
theorem punishable_iff (hw : Coherent cfg w) {wasmHash inputDigest : Bytes32} {v : Address} :
    Punishable env cfg w.persistent wasmHash inputDigest v ↔
      Book.Slashable cfg (bookOf env.sequence w)
          (wasmHash, inputDigest) v ∧
        (∀ first ∈ (readAttestations w.persistent wasmHash inputDigest).head?,
          first.ledger + cfg.attestWindow ≤ u32Max) ∧
        2 * largest (hashes (readAttestations w.persistent wasmHash inputDigest)) ≤ u32Max := by
  have hatts := hw.represents (wasmHash, inputDigest)
  have hopened := hatts.opened
  simp only at hopened hatts
  constructor
  · rintro ⟨⟨opened, hsome, hfit, hclosed⟩, hquorate, hcountable, hmajority,
      ⟨att, hatt, hdissent⟩, hunmarked⟩
    rw [hsome, eq_comm, Option.map_eq_some_iff] at hopened
    obtain ⟨first, hfirst, rfl⟩ := hopened
    obtain ⟨hmem, hver⟩ := (hatts.att v att).mp hatt
    obtain ⟨top, htop⟩ := length_lt_two_mul_largest_iff.mp (by rwa [length_hashes])
    rw [length_hashes] at htop
    rw [tallyOf_fst_of_majority htop] at hdissent
    refine ⟨⟨⟨first, hfirst, hclosed⟩, hquorate, ⟨top, htop, att, hmem, hver, hdissent⟩, ?_⟩,
      ?_, hcountable⟩
    · simp [bookOf, hunmarked]
    · intro first' hfirst'
      rw [Option.mem_def, hfirst, Option.some.injEq] at hfirst'
      rwa [← hfirst']
  · rintro ⟨⟨⟨first, hfirst, hclosed⟩, hquorate, ⟨top, htop, att, hmem, hver, hdissent⟩,
      hunmarked⟩, hfit, hcountable⟩
    have htop' := htop
    rw [← length_hashes] at htop'
    have hmajority := length_lt_two_mul_largest_iff.mpr ⟨top, htop'⟩
    rw [length_hashes] at hmajority
    refine ⟨⟨first.ledger, ?_, hfit first hfirst, hclosed⟩, hquorate, hcountable, hmajority,
      ⟨att, (hatts.att v att).mpr ⟨hmem, hver⟩, ?_⟩, ?_⟩
    · rw [hopened]
      exact Option.map_eq_some_iff.mpr ⟨first, hfirst, rfl⟩
    · exact fun heq => hdissent (heq.trans (tallyOf_fst_of_majority htop))
    · simpa [bookOf] using hunmarked

omit [DecidableEq Address] in
/-- On a nonnegative stake the contract's truncating division rounds down. -/
theorem amount_eq_slashAmount {info : StakeInfo} (h0 : 0 ≤ info.total) :
    (info.total * cfg.slashBps).tdiv bpsDenominator = slashAmount cfg info :=
  Int.tdiv_eq_ediv_of_nonneg (Int.mul_nonneg h0 (Int.natCast_nonneg _))

/-- What a successful `slash` does to the book: it burns, and marks. -/
theorem bookOf_slash (hw : Coherent cfg w) (sequence : ℕ) {wasmHash inputDigest : Bytes32}
    {v : Address} {amount : ℤ} (h : slash env wasmHash inputDigest v w = .ok amount w') :
    Coherent cfg w' ∧ bookOf sequence w' =
      ((bookOf sequence w).setAccount v ((readStake w.persistent v).burn amount)).mark
        (wasmHash, inputDigest) v := by
  obtain ⟨-, -, t, -, rfl⟩ := (slash_eq_ok hw.config_eq).mp h
  have hstake : Coherent cfg ⟨w.instanceStorage, w.persistent.set (.stake v)
      ((readStake w.persistent v).burn amount), t, w.events⟩ := hw.set fun _ hc => hc
  refine ⟨hstake.set fun _ hc => hc, ?_⟩
  rw [bookOf_set_slashed hstake, bookOf_set_stake hw]

/-- A successful `slash` is the book's. -/
theorem slash_refines (hw : Coherent cfg w) {wasmHash inputDigest : Bytes32}
    {v : Address} {amount : ℤ} (h0 : 0 ≤ (readStake w.persistent v).total)
    (h : slash env wasmHash inputDigest v w = .ok amount w') :
    Coherent cfg w' ∧
      Book.Step cfg (bookOf env.sequence w)
        (.call env (.slash wasmHash inputDigest v) (.returned (.amount amount)))
        (bookOf env.sequence w') := by
  obtain ⟨hpunish, hcomputes, -⟩ := (slash_eq_ok hw.config_eq).mp h
  obtain ⟨hslash, -, -⟩ := (punishable_iff hw).mp hpunish
  obtain ⟨hcoherent, hbook⟩ := bookOf_slash hw env.sequence h
  have hamount := hcomputes.amount_eq
  rw [amount_eq_slashAmount h0] at hamount
  subst hamount
  refine ⟨hcoherent, ?_⟩
  rw [hbook]
  exact Book.Step.slash _ env wasmHash inputDigest v hslash hcomputes.pos

/-- Every call, however it ends. -/
theorem call_refines (env : Env Address) (hw : Coherent cfg w)
    (hnonneg : ∀ v, (readStake w.persistent v).Nonneg) (c : Call Address) :
    Coherent cfg ((c.run env w).commit w) ∧
      Book.Step cfg (bookOf env.sequence w)
        (.call env c (receipt (c.run env w)))
        (bookOf env.sequence ((c.run env w).commit w)) := by
  cases hrun : c.run env w with
  | ok value w' =>
    rw [Outcome.commit_ok, receipt]
    have hreturns := Call.run_eq_ok.mp hrun
    cases c with
    | stake v amount =>
      obtain ⟨hstake, rfl⟩ := hreturns
      exact stake_refines hw hstake
    | requestUnstake v amount =>
      obtain ⟨hrequest, rfl⟩ := hreturns
      exact requestUnstake_refines hw hrequest
    | withdraw v =>
      obtain ⟨amount, hwithdraw, rfl⟩ := hreturns
      exact withdraw_refines hw hwithdraw
    | attest v wasmHash inputDigest rebuiltHash =>
      obtain ⟨hattest, rfl⟩ := hreturns
      exact attest_refines hw hattest
    | slash wasmHash inputDigest v =>
      obtain ⟨amount, hslash, rfl⟩ := hreturns
      exact slash_refines hw (hnonneg v).total hslash
  | err error w' =>
    rw [Outcome.commit_err, receipt]
    exact ⟨hw, Book.Step.idle _ env c _ (by simp)⟩
  | trap fault =>
    rw [Outcome.commit_trap, receipt]
    exact ⟨hw, Book.Step.idle _ env c _ (by simp)⟩

/-! ## Runs -/

/-- What holds of the registry in every state of a run. -/
structure Sound (cfg : Config Address) (s : Chain T) : Prop where
  coherent : Coherent cfg s.world
  nonneg : ∀ v, (readStake s.world.persistent v).Nonneg
  sequence_fits : s.sequence ≤ u32Max

/-- **One step of the registry is one step of its book.** -/
theorem Step.refines {s s' : Chain T} {i : Input Address} (hcfg : cfg.Accepted)
    (hs : Sound cfg s) (h : Step registry s i s') :
    Sound cfg s' ∧ Book.Step cfg (s.book) i (s'.book) := by
  suffices hstep : Coherent cfg s'.world ∧ s'.sequence ≤ u32Max ∧
      Book.Step cfg (s.book) i (s'.book) by
    obtain ⟨hcoherent, hfits, hbook⟩ := hstep
    exact ⟨⟨hcoherent, hbook.nonneg hcfg hs.nonneg, hfits⟩, hbook⟩
  cases h with
  | call authorized c =>
    obtain ⟨hcoherent, hbook⟩ :=
      call_refines ⟨s.sequence, registry, authorized⟩ hs.coherent hs.nonneg c
    exact ⟨hcoherent, hs.sequence_fits, hbook⟩
  | advance n hle hfit =>
    exact ⟨hs.coherent, hfit, Book.Step.advance _ n hle hfit⟩
  | receive token amount h0 hbalance =>
    exact ⟨hs.coherent.token _, hs.sequence_fits, Book.Step.receive _ amount⟩

/-- The registry right after its construction. -/
theorem Deployed.sound {s : Chain T} (h : Deployed cfg s) :
    cfg.Accepted ∧ Sound cfg s ∧ (s.book).Fresh := by
  obtain ⟨token, hconstruct⟩ := h.constructed
  obtain ⟨haccepted, hworld⟩ := construct_eq_ok.mp hconstruct
  have hpersistent : s.world.persistent = Storage.empty := by rw [hworld]
  have hrepresents : ∀ claim, Represents s.world.persistent claim [] := by
    rw [hpersistent]
    exact Represents.empty
  have haccount : ∀ v, readStake s.world.persistent v = ⟨0, 0, 0⟩ := by
    rw [hpersistent]
    exact fun v => rfl
  refine ⟨haccepted, ⟨⟨?_, fun claim => ⟨[], hrepresents claim⟩⟩, ?_, h.sequence_fits⟩,
    haccount, fun claim => (hrepresents claim).readAttestations_eq, ?_⟩
  · rw [hworld]
    exact Storage.get_set_self ..
  · intro v
    rw [haccount]
    exact ⟨le_rfl, le_rfl⟩
  · intro claim v hmarked
    have hnone : s.world.persistent.get (.slashed claim.1 claim.2 v) = none := by
      rw [hpersistent]
      rfl
    simp [Chain.book, bookOf, hnone] at hmarked

/-- The history as the book sees it. -/
def bookHistory (h : List (Transition (Chain T) (Input Address))) :
    List (Transition (Book Address) (Input Address)) :=
  h.map (Transition.map (Chain.book))

/-- **The refinement.**  A path of the registry from a sound state stays sound, and is a path of
its book with the same labels. -/
theorem Sound.refines {s t : Chain T} {k : List (Transition (Chain T) (Input Address))}
    (hs : Sound cfg s) (hcfg : cfg.Accepted) (hpath : Path (Step registry) s k t) :
    Sound cfg t ∧ Path (Book.Step cfg) s.book (bookHistory k) t.book :=
  hpath.map (fun _ _ _ => Step.refines hcfg) hs

/-- Every run of the registry keeps its state sound and is a path of its book. -/
theorem Run.refines {s₀ s : Chain T} {h : List (Transition (Chain T) (Input Address))}
    (hrun : Run registry cfg s₀ h s) :
    Sound cfg s ∧ Path (Book.Step cfg) s₀.book (bookHistory h) s.book := by
  obtain ⟨hcfg, hsound, -⟩ := hrun.deployed.sound
  exact hsound.refines hcfg hrun.path

end Registry
end Sorofy
