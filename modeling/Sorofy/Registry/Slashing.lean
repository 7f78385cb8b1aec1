import Sorofy.Registry.Solvency

/-!
# Slashing

Who can be slashed, when, for how much, and how often.  `slash` returns exactly when the book says
that the verifier is slashable and there is something to slash (`Run.returns_iff`); the conditions
on the arithmetic drop out because a reachable state is sound and solvent, up to the two products
that nothing bounds.  What a returning call changes is one account, one mark and the balance
(`slash_effect`), and a refusing call has written nothing at the moment it refuses
(`slash_eq_err`).

Over a run, the mark of a claim and a verifier is set by the first slash and checked by every
other one, so there is at most one; and the ballot it was decided on is closed, so the majority
it was decided by is the one anybody can read afterwards.
-/

namespace Sorofy
namespace Registry

open Foundation
open History
open Plurality

variable {Address : Type} [DecidableEq Address] {T : Token Address}
variable {registry : Address} {env : Env Address} {cfg : Config Address} {w w' : World T}
variable {wasmHash inputDigest : Bytes32} {claim : Claim} {v : Address} {amount : ℤ}

/-! ## One call -/

/-- A `slash` that refuses has written nothing. -/
theorem slash_eq_err {error : Error} (h : slash env wasmHash inputDigest v w = .err error w') :
    w' = w := by
  simp only [slash, attestations, get, put, publish, burn, checkedU32, checkedI128, readConfig,
    tallyOf_snd, Tx.bind_eq_err, Tx.bind_eq_ok, Tx.read_eq_ok, Tx.read_ne_err,
    Tx.someOrTrap_eq_ok, Tx.someOrTrap_ne_err, Tx.someOrRefuse_eq_ok, Tx.someOrRefuse_eq_err,
    Tx.fit_eq_ok, Tx.fit_ne_err, Tx.refuseIf_eq_ok, Tx.refuseIf_eq_err, Tx.update_eq_ok,
    Tx.update_ne_err, Tx.pure_ne_err, tokenCall_eq_ok, tokenCall_ne_err, existsAndEq, exists_const,
    exists_and_left, exists_false, true_and, and_false, false_or, or_false, and_assoc] at h
  grind

/-- What a returning `slash` changes: one account, one mark and the balance. -/
theorem slash_effect (hT : T.Exact) (hw : Coherent cfg w)
    (h : slash env wasmHash inputDigest v w = .ok amount w') :
    readStake w'.persistent v = (readStake w.persistent v).burn amount ∧
    w'.persistent.get (.slashed wasmHash inputDigest v) = some true ∧
    T.balance w'.token env.currentContractAddress =
      T.balance w.token env.currentContractAddress - amount ∧
    (∀ v' ≠ v, readStake w'.persistent v' = readStake w.persistent v') ∧
    (∀ c : Claim, readAttestations w'.persistent c.1 c.2 =
      readAttestations w.persistent c.1 c.2) := by
  obtain ⟨-, -, t, ht, rfl⟩ := (slash_eq_ok hw.config_eq).mp h
  have hstake : Coherent cfg ⟨w.instanceStorage, w.persistent.set (.stake v)
      ((readStake w.persistent v).burn amount), t, w.events⟩ := hw.set fun _ hc => hc
  have haccount : readStake ((w.persistent.set (.stake v)
      ((readStake w.persistent v).burn amount)).set (.slashed wasmHash inputDigest v) true) =
      Function.update (readStake w.persistent) v ((readStake w.persistent v).burn amount) := by
    rw [readStake_set_of_ne (by simp), readStake_set_stake]
  refine ⟨?_, Storage.get_set_self .., ?_, ?_, ?_⟩
  · rw [haccount, Function.update_self]
  · have hbalance := hT.balance_burn ht env.currentContractAddress
    rwa [if_pos rfl] at hbalance
  · intro v' hv'
    rw [haccount, Function.update_of_ne hv']
  · intro c
    calc readAttestations ((w.persistent.set (.stake v)
            ((readStake w.persistent v).burn amount)).set (.slashed wasmHash inputDigest v) true)
          c.1 c.2
        = readAttestations (w.persistent.set (.stake v)
            ((readStake w.persistent v).burn amount)) c.1 c.2 :=
          readAttestations_set hstake c fun hc => hc
      _ = readAttestations w.persistent c.1 c.2 := readAttestations_set hw c fun hc => hc

/-- `consensus` does not see a slash. -/
theorem consensus_of_slash (hT : T.Exact) (hw : Coherent cfg w) (hw' : Coherent cfg w')
    (h : slash env wasmHash inputDigest v w = .ok amount w') (later : Env Address) (c : Claim)
    (value : Consensus) :
    consensus later c.1 c.2 w' = .ok value w' ↔ consensus later c.1 c.2 w = .ok value w := by
  obtain ⟨-, -, -, -, hballots⟩ := slash_effect hT hw h
  rw [consensus_eq_ok hw', consensus_eq_ok hw, hballots c]
  exact and_congr (iff_of_true rfl rfl) Iff.rfl

/-! ## The arithmetic of a sound state -/

/-- What is between zero and `i128::MAX` is an `i128`. -/
theorem inI128_of_nonneg {z : ℤ} (h0 : 0 ≤ z) (hle : z ≤ i128Max) : InI128 z := by
  have hmin : i128Min ≤ 0 := by decide
  exact ⟨hmin.trans h0, hle⟩

omit [DecidableEq Address] in
/-- On an account that fits, only the product can overflow. -/
theorem computable_iff (hcfg : cfg.Accepted) {info : StakeInfo} (hinfo : info.Nonneg)
    (hfits : info.total ≤ i128Max) :
    Computable cfg info ↔ info.total * cfg.slashBps ≤ i128Max := by
  have hstaked := hinfo.staked
  have hunbonding := hinfo.unbonding
  have htotal := hinfo.total
  constructor
  · intro h
    exact h.product_fits.2
  · intro hproduct
    have hle := slashAmount_le hcfg hinfo
    rw [← amount_eq_slashAmount htotal] at hle
    refine ⟨inI128_of_nonneg htotal hfits,
      inI128_of_nonneg (Int.mul_nonneg htotal (Int.natCast_nonneg _)) hproduct, ?_⟩
    intro hpos
    generalize (info.total * cfg.slashBps).tdiv bpsDenominator = amount at hle hpos
    simp only [StakeInfo.total] at hle hfits
    refine ⟨inI128_of_nonneg ?_ ?_, inI128_of_nonneg ?_ ?_, inI128_of_nonneg ?_ ?_⟩ <;> omega

/-! ## Slashes in the book -/

namespace Book

variable {b b' : Book Address} {i : Input Address}
variable {h : List (Transition (Book Address) (Input Address))}

/-- A slash is of somebody slashable. -/
theorem Step.of_slashes (hstep : Step cfg b i b') (hslashes : Slashes claim v i) :
    Slashable cfg b claim v := by
  cases hstep with
  | slash env wasmHash inputDigest v' hslash hpos =>
    obtain ⟨rfl, rfl⟩ := hslashes
    exact hslash
  | idle env c r hr =>
    cases c <;> cases r <;> first | exact absurd rfl (hr _) | exact hslashes.elim
  | _ => exact hslashes.elim

/-- Marks are set by slashes, and only by them. -/
theorem Step.marked_iff (hstep : Step cfg b i b') :
    b'.marked claim v ↔ b.marked claim v ∨ Slashes claim v i := by
  cases hstep with
  | slash env wasmHash inputDigest v' hslash hpos =>
    rw [Slashes, or_comm]
    exact or_congr (and_congr eq_comm eq_comm) Iff.rfl
  | idle env c r hr =>
    cases c <;> cases r <;> first | exact absurd rfl (hr _) | exact (or_iff_left id).symm
  | _ => exact (or_iff_left id).symm

/-- The marks after a path are those before it and the slashes in it. -/
theorem marked_iff_of_path (hpath : Path (Step cfg) b h b') :
    b'.marked claim v ↔ b.marked claim v ∨ ∃ e ∈ h, Slashes claim v e.label := by
  refine hpath.invariant
    (P := fun h c => c.marked claim v ↔ b.marked claim v ∨ ∃ e ∈ h, Slashes claim v e.label) ?_ ?_
  · simp
  · intro h c i c' _ ih hstep
    rw [hstep.marked_iff, ih, or_assoc]
    refine or_congr Iff.rfl ?_
    simp only [List.mem_append, List.mem_singleton, or_and_right, exists_or, exists_eq_left]

/-- **At most once**: no two transitions of a path slash the same verifier for the same claim. -/
theorem pairwise_of_path (hpath : Path (Step cfg) b h b') :
    h.Pairwise fun e e' => Slashes claim v e.label → ¬ Slashes claim v e'.label := by
  refine hpath.invariant (P := fun h _ =>
    h.Pairwise fun e e' => Slashes claim v e.label → ¬ Slashes claim v e'.label)
    List.Pairwise.nil ?_
  intro h c i c' hprev ih hstep
  refine List.pairwise_append.mpr ⟨ih, List.pairwise_singleton _ _, ?_⟩
  intro e he e' he' hslashes hagain
  rw [List.mem_singleton.mp he'] at hagain
  exact (hstep.of_slashes hagain).unmarked
    ((marked_iff_of_path hprev).mpr (Or.inr ⟨e, he, hslashes⟩))

end Book

/-! ## Slashes in a run -/

section Runs

variable {s₀ s : Chain T} {h : List (Transition (Chain T) (Input Address))}

omit [DecidableEq Address] in
theorem exists_mem_bookHistory {p : Input Address → Prop} :
    (∃ e ∈ bookHistory h, p e.label) ↔ ∃ e ∈ h, p e.label := by
  simp [bookHistory, Transition.map]

/-- A verifier is marked for a claim exactly when it has been slashed for it. -/
theorem Run.marked_iff (hrun : Run registry cfg s₀ h s) :
    s.book.marked claim v ↔ ∃ e ∈ h, Slashes claim v e.label := by
  obtain ⟨-, hpath⟩ := hrun.refines
  obtain ⟨-, -, hfresh⟩ := hrun.deployed.sound
  rw [Book.marked_iff_of_path hpath, exists_mem_bookHistory]
  exact or_iff_right (hfresh.unmarked claim v)

/-- The ballot a slash was decided on is the claim's ballot ever after. -/
theorem Run.slashable_of_slashes (hrun : Run registry cfg s₀ h s)
    {e : Transition (Chain T) (Input Address)} (he : e ∈ h) (hslashes : Slashes claim v e.label) :
    Book.Slashable cfg e.pre.book claim v ∧ e.pre.book.ballot claim = filed claim h := by
  obtain ⟨hpre, hstep⟩ := hrun.step_of_mem he
  obtain ⟨before, after, -, -, hchain, hafter⟩ := hrun.path.split he
  obtain ⟨haccepted, -, -⟩ := hrun.deployed.sound
  have hslashable := hstep.of_slashes hslashes
  obtain ⟨-, hpath⟩ := hpre.refines haccepted ((Path.single hchain).trans hafter)
  refine ⟨hslashable, ?_⟩
  rw [← Book.ballot_eq_of_closed hpath hslashable.closed]
  exact hrun.ballot_eq_filed claim

/-- Who is slashable, in terms of the records and the history. -/
theorem Run.slashable_iff (hrun : Run registry cfg s₀ h s) :
    Book.Slashable cfg s.book claim v ↔
      (∃ opened, s.world.persistent.get (.opened claim.1 claim.2) = some opened ∧
        opened + cfg.attestWindow ≤ s.sequence) ∧
      cfg.quorum ≤ (filed claim h).length ∧
      (∃ top, (filed claim h).length < 2 * (hashes (filed claim h)).count top ∧
        ∃ a ∈ filed claim h, a.verifier = v ∧ a.rebuiltHash ≠ top) ∧
      ∀ e ∈ h, ¬ Slashes claim v e.label := by
  obtain ⟨hsound, -⟩ := hrun.refines
  have hballot : s.book.ballot claim = filed claim h := hrun.ballot_eq_filed claim
  have hopened := (hsound.coherent.represents claim).opened
  rw [hrun.ballot_eq_filed] at hopened
  have hunmarked : ¬ s.book.marked claim v ↔ ∀ e ∈ h, ¬ Slashes claim v e.label := by
    rw [hrun.marked_iff, not_exists]
    exact forall_congr' fun e => not_and
  constructor
  · rintro ⟨⟨first, hfirst, hclosed⟩, hquorate, hdissents, hmark⟩
    rw [hballot] at hfirst hquorate hdissents
    refine ⟨⟨first.ledger, ?_, hclosed⟩, hquorate, hdissents, hunmarked.mp hmark⟩
    rw [hopened]
    exact Option.map_eq_some_iff.mpr ⟨first, hfirst, rfl⟩
  · rintro ⟨⟨opened, hsome, hclosed⟩, hquorate, hdissents, hmark⟩
    rw [hsome, eq_comm, Option.map_eq_some_iff] at hopened
    obtain ⟨first, hfirst, rfl⟩ := hopened
    refine ⟨⟨first, ?_, hclosed⟩, ?_, ?_, hunmarked.mpr hmark⟩
    · rwa [hballot]
    · rwa [hballot]
    · rwa [hballot]

/-- In a reachable state `slash` burns what it computes: the registry holds at least that. -/
theorem Run.slash_returns (hT : T.Exact) (hfits : T.FitsI128) (hburns : T.BurnsHeld)
    (hrun : Run registry cfg s₀ h s) (henv : env.currentContractAddress = registry)
    (hpunish : Punishable env cfg s.world.persistent claim.1 claim.2 v)
    (hcomputes : Computes cfg (readStake s.world.persistent v) amount) :
    ∃ w', slash env claim.1 claim.2 v s.world = .ok amount w' := by
  obtain ⟨hsound, -⟩ := hrun.refines
  obtain ⟨haccepted, -, -⟩ := hrun.deployed.sound
  have hnonneg := hsound.nonneg v
  have hheld := hrun.account_le_balance hT (hfits s₀.world.token registry).1 v
  have hle := slashAmount_le haccepted hnonneg
  rw [← amount_eq_slashAmount hnonneg.total, ← hcomputes.amount_eq] at hle
  obtain ⟨t, ht⟩ := hburns s.world.token registry amount hcomputes.pos.le (hle.trans hheld)
  rw [← henv] at ht
  exact ⟨_, (slash_eq_ok hsound.coherent.config_eq).mpr ⟨hpunish, hcomputes, t, ht, rfl⟩⟩

/-- Who is slashable in a reachable state can be punished, once twice the largest count is a
`u32`. -/
theorem Run.punishable (hrun : Run registry cfg s₀ h s) (hseq : env.sequence = s.sequence)
    (hslashable : Book.Slashable cfg s.book claim v)
    (hcountable : 2 * largest (hashes (readAttestations s.world.persistent claim.1 claim.2)) ≤
      u32Max) :
    Punishable env cfg s.world.persistent claim.1 claim.2 v := by
  obtain ⟨hsound, -⟩ := hrun.refines
  obtain ⟨first, hfirst, hclosed⟩ := hslashable.closed
  have hclose : first.ledger + cfg.attestWindow ≤ u32Max := hclosed.trans hsound.sequence_fits
  refine (punishable_iff hsound.coherent).mpr ⟨by rwa [hseq], ?_, hcountable⟩
  intro first' hfirst'
  rw [← Option.some.inj (hfirst.symm.trans hfirst')]
  exact hclose

/-- When `slash` returns, in a reachable state in which it does not overflow. -/
theorem Run.returns_iff (hT : T.Exact) (hfits : T.FitsI128) (hburns : T.BurnsHeld)
    (hrun : Run registry cfg s₀ h s) (henv : env.currentContractAddress = registry)
    (hseq : env.sequence = s.sequence)
    (hno : slash env claim.1 claim.2 v s.world ≠ .trap .overflow) :
    (∃ w', slash env claim.1 claim.2 v s.world = .ok amount w') ↔
      Book.Slashable cfg s.book claim v ∧
        amount = slashAmount cfg (readStake s.world.persistent v) ∧ 0 < amount := by
  obtain ⟨hsound, -⟩ := hrun.refines
  have hcfg := hsound.coherent.config_eq
  have hnonneg := hsound.nonneg v
  have hbook : bookOf env.sequence s.world = s.book := by
    rw [hseq]
    rfl
  constructor
  · rintro ⟨w', hok⟩
    obtain ⟨hpunish, hcomputes, -⟩ := (slash_eq_ok hcfg).mp hok
    obtain ⟨hslashable, -⟩ := (punishable_iff hsound.coherent).mp hpunish
    rw [hbook] at hslashable
    have hamount := hcomputes.amount_eq
    rw [amount_eq_slashAmount hnonneg.total] at hamount
    exact ⟨hslashable, hamount, hcomputes.pos⟩
  · rintro ⟨hslashable, hamount, hpos⟩
    obtain ⟨first, hfirst, hclosed⟩ := hslashable.closed
    have hopened : s.world.persistent.get (.opened claim.1 claim.2) = some first.ledger :=
      (hsound.coherent.represents claim).opened.trans
        (Option.map_eq_some_iff.mpr ⟨first, hfirst, rfl⟩)
    have hclose : first.ledger + cfg.attestWindow ≤ u32Max := hclosed.trans hsound.sequence_fits
    have hnow : first.ledger + cfg.attestWindow ≤ env.sequence := hclosed.trans (le_of_eq hseq.symm)
    -- what is left of the arithmetic is what an overflow is reported for
    have hcountable : 2 * largest (hashes (readAttestations s.world.persistent claim.1 claim.2)) ≤
        u32Max := by
      by_contra hover
      exact hno ((slash_eq_overflow hcfg).mpr (Or.inr (Or.inl
        ⟨first.ledger, hopened, hclose, hnow, hslashable.quorate, not_le.mp hover⟩)))
    have hpunish := hrun.punishable hseq hslashable hcountable
    have hcomputable : Computable cfg (readStake s.world.persistent v) := by
      by_contra hnot
      exact hno ((slash_eq_overflow hcfg).mpr (Or.inr (Or.inr ⟨hpunish, hnot⟩)))
    have hcomputes := hcomputable.computes
      (hamount.trans (amount_eq_slashAmount hnonneg.total).symm) hpos
    exact hrun.slash_returns hT hfits hburns henv hpunish hcomputes

/-- **Slashing**, in every reachable state.  `slash` returns an amount exactly when the claim is
closed and has a quorum, some hash has a strict majority, the verifier attested another one and
was not slashed for the claim before, and the amount is the rounded-down share of what the
verifier has; what it then changes is the verifier's account, the mark and the balance; a refusal
changes nothing; and over the run nobody was slashed twice for a claim, nor with the majority. -/
theorem Run.slash_spec (hT : T.Exact) (hfits : T.FitsI128) (hburns : T.BurnsHeld)
    (hrun : Run registry cfg s₀ h s) (henv : env.currentContractAddress = registry)
    (hseq : env.sequence = s.sequence) (claim : Claim) (v : Address) :
    (slash env claim.1 claim.2 v s.world ≠ .trap .overflow → ∀ amount,
      (∃ w', slash env claim.1 claim.2 v s.world = .ok amount w') ↔
        (∃ opened, s.world.persistent.get (.opened claim.1 claim.2) = some opened ∧
          opened + cfg.attestWindow ≤ s.sequence) ∧
        cfg.quorum ≤ (filed claim h).length ∧
        (∃ top, (filed claim h).length < 2 * (hashes (filed claim h)).count top ∧
          ∃ a ∈ filed claim h, a.verifier = v ∧ a.rebuiltHash ≠ top) ∧
        (∀ e ∈ h, ¬ Slashes claim v e.label) ∧
        amount = ((readStake s.world.persistent v).staked +
          (readStake s.world.persistent v).unbonding) * cfg.slashBps / bpsDenominator ∧
        0 < amount) ∧
    (∀ amount w', slash env claim.1 claim.2 v s.world = .ok amount w' →
      readStake w'.persistent v =
        { readStake s.world.persistent v with
          staked := (readStake s.world.persistent v).staked -
            min amount (readStake s.world.persistent v).staked
          unbonding := (readStake s.world.persistent v).unbonding -
            (amount - min amount (readStake s.world.persistent v).staked) } ∧
      w'.persistent.get (.slashed claim.1 claim.2 v) = some true ∧
      T.balance w'.token registry = T.balance s.world.token registry - amount ∧
      (∀ v' ≠ v, readStake w'.persistent v' = readStake s.world.persistent v') ∧
      (∀ c : Claim, readAttestations w'.persistent c.1 c.2 =
        readAttestations s.world.persistent c.1 c.2) ∧
      ∀ (later : Env Address) (c : Claim) (value : Consensus),
        consensus later c.1 c.2 w' = .ok value w' ↔
          consensus later c.1 c.2 s.world = .ok value s.world) ∧
    (∀ error w', slash env claim.1 claim.2 v s.world = .err error w' → w' = s.world) ∧
    (h.Pairwise fun e e' => Slashes claim v e.label → ¬ Slashes claim v e'.label) ∧
    (∀ e ∈ h, Slashes claim v e.label →
      ∀ top, (filed claim h).length < 2 * (hashes (filed claim h)).count top →
        ∀ a ∈ filed claim h, a.verifier = v → a.rebuiltHash ≠ top) := by
  obtain ⟨hsound, hpath⟩ := hrun.refines
  have hballot := hrun.ballot_eq_filed claim
  refine ⟨?_, ?_, fun _ _ => slash_eq_err, ?_, ?_⟩
  · intro hno amount
    rw [hrun.returns_iff hT hfits hburns henv hseq hno, hrun.slashable_iff, and_assoc, and_assoc,
      and_assoc]
    rfl
  · intro amount w' hok
    obtain ⟨haccount, hmark, hbalance, hothers, hballots⟩ := slash_effect hT hsound.coherent hok
    rw [henv] at hbalance
    obtain ⟨hcoherent, -⟩ := slash_refines hsound.coherent (hsound.nonneg v).total hok
    exact ⟨haccount, hmark, hbalance, hothers, hballots,
      consensus_of_slash hT hsound.coherent hcoherent hok⟩
  · exact List.pairwise_map.mp (Book.pairwise_of_path hpath)
  · intro e he hslashes top htop
    obtain ⟨hslashable, hsame⟩ := hrun.slashable_of_slashes he hslashes
    obtain ⟨top', htop', a, ha, hver, hdissent⟩ := hslashable.dissents
    rw [hsame] at htop' ha
    rw [← length_hashes] at htop htop'
    rw [majority_unique htop htop']
    -- the attestation that dissents is the only one of this verifier
    intro a' ha' hver'
    have hnodup := (hrun.wellFormed claim).nodup
    rw [List.inj_on_of_nodup_map hnodup ha' ha (hver'.trans hver.symm)]
    exact hdissent

theorem Sample.outvoted_is_slashed :
    ∃ w', slash ⟨106, 0, fun _ => false⟩ Sample.onChain Sample.digest 2
      (played 0 (Sample.chain 60 120) Sample.outvote).world = .ok 500 w' := by
  have hrun := Sample.run 60 120 Sample.outvote (by decide) (by decide) (by decide +kernel)
  have hfiled : filed (Sample.onChain, Sample.digest) (play 0 (Sample.chain 60 120)
      Sample.outvote) =
        [⟨1, Sample.onChain, 1⟩, ⟨2, Sample.forged, 6⟩, ⟨3, Sample.onChain, 6⟩] := by
    decide +kernel
  have hunmarked : (played 0 (Sample.chain 60 120) Sample.outvote).world.persistent.get
      (.slashed Sample.onChain Sample.digest 2) = none := rfl
  have hunslashed : ∀ e ∈ play 0 (Sample.chain 60 120) Sample.outvote,
      ¬ Slashes (Sample.onChain, Sample.digest) 2 e.label := by
    intro e he hslashes
    have hmarked := hrun.marked_iff.mpr ⟨e, he, hslashes⟩
    simp [Chain.book, bookOf, hunmarked] at hmarked
  have hno : slash ⟨106, 0, fun _ => false⟩ Sample.onChain Sample.digest 2
      (played 0 (Sample.chain 60 120) Sample.outvote).world ≠ .trap .overflow := by
    rw [Ne, ← Outcome.fault?_eq_some]
    decide +kernel
  have hseq : (Env.mk 106 0 fun _ => false).sequence =
      (played 0 (Sample.chain 60 120) Sample.outvote).sequence := by decide +kernel
  obtain ⟨hiff, -⟩ := hrun.slash_spec Vrfy.token_exact Vrfy.token_fitsI128 Vrfy.token_burnsHeld
    rfl hseq (Sample.onChain, Sample.digest) 2
  rw [hfiled] at hiff
  exact (hiff hno 500).mpr ⟨⟨1, rfl, by decide +kernel⟩, by decide,
    ⟨Sample.onChain, by decide +kernel, ⟨2, Sample.forged, 6⟩, by simp, rfl, by decide +kernel⟩,
    hunslashed, by decide +kernel, by decide⟩

end Runs
end Registry
end Sorofy
