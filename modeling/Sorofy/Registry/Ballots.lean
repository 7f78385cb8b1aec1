import Sorofy.Registry.Refinement

/-!
# Ballots over whole runs

What becomes of one claim in a run of the registry.  Its ballot is the list of the attestations
that were filed on it (`Run.ballot_eq_filed`), it is well formed at every moment, and once it is
closed it never changes again.  `consensus` is a function of the ballot and of the current ledger
alone (`consensus_eq_ok`), so it inherits all of this.

## Where the counting loop goes

The contract decides between green and red by `distinct == 1` and by the hash the loop of
`tally_of` happens to return, while the ballot's verdict asks whether all hashes are equal to the
on-chain one.  The two agree because one different hash means a nonempty unanimous ballot, and on
a unanimous ballot the loop can only return the common hash (`verdict_eq`).
-/

namespace Sorofy
namespace Registry

open Foundation
open History
open Plurality

variable {Address : Type} [DecidableEq Address] {T : Token Address}
variable {registry : Address} {env : Env Address} {cfg : Config Address} {w w' : World T}

/-! ## The verdict the contract computes -/

omit [DecidableEq Address] in
/-- On a unanimous ballot the loop returns the common hash. -/
theorem tallyOf_fst_eq {atts : List (Attestation Address)} {hash : Bytes32} (hne : atts ≠ [])
    (hall : ∀ a ∈ atts, a.rebuiltHash = hash) : (tallyOf atts).1 = hash := by
  refine tallyOf_fst_of_unanimous hne ?_
  intro b hb
  obtain ⟨a, ha, rfl⟩ := List.mem_map.mp hb
  exact hall a ha

omit [DecidableEq Address] in
/-- One different hash: the ballot is unanimous, for the hash the loop returned. -/
theorem distinct_eq_one_iff {atts : List (Attestation Address)} (hne : atts ≠ []) :
    (tallyOf atts).2.distinct = 1 ↔ ∀ a ∈ atts, a.rebuiltHash = (tallyOf atts).1 := by
  rw [tallyOf_snd, different_eq_one_iff]
  constructor
  · rintro ⟨hash, -, hall⟩ a ha
    rw [tallyOf_fst_of_unanimous hne hall]
    exact hall _ (List.mem_map_of_mem ha)
  · intro hall
    refine ⟨(tallyOf atts).1, List.map_eq_nil_iff.not.mpr hne, ?_⟩
    intro hash hmem
    obtain ⟨a, ha, rfl⟩ := List.mem_map.mp hmem
    exact hall a ha

omit [DecidableEq Address] in
/-- The contract's choice between green, red and disputed is the verdict's. -/
theorem colour_eq {wasmHash : Bytes32} {first : Attestation Address}
    {rest : List (Attestation Address)} {disputed : Consensus} :
    (if (tallyOf (first :: rest)).2.distinct = 1 then
        if (tallyOf (first :: rest)).1 = wasmHash then .verified else .mismatch
      else disputed) =
    if ∀ a ∈ first :: rest, a.rebuiltHash = wasmHash then .verified
    else if ∀ a ∈ first :: rest, a.rebuiltHash = first.rebuiltHash then .mismatch
    else disputed := by
  have hne := List.cons_ne_nil first rest
  have hfirst : first ∈ first :: rest := List.mem_cons_self
  have hdistinct := distinct_eq_one_iff hne
  by_cases hone : (tallyOf (first :: rest)).2.distinct = 1
  · have hall := hdistinct.mp hone
    have hsame : ∀ a ∈ first :: rest, a.rebuiltHash = first.rebuiltHash :=
      fun a ha => (hall a ha).trans (hall first hfirst).symm
    have hgreen : (tallyOf (first :: rest)).1 = wasmHash ↔
        ∀ a ∈ first :: rest, a.rebuiltHash = wasmHash :=
      ⟨fun htop a ha => (hall a ha).trans htop, tallyOf_fst_eq hne⟩
    rw [if_pos hone, if_pos hsame]
    exact if_congr hgreen rfl rfl
  · have hmixed : ∀ hash, ¬ ∀ a ∈ first :: rest, a.rebuiltHash = hash := by
      intro hash hall
      refine hone (hdistinct.mpr fun a ha => ?_)
      rw [tallyOf_fst_eq hne hall, hall a ha]
    rw [if_neg hone, if_neg (hmixed _), if_neg (hmixed _)]

omit [DecidableEq Address] in
/-- The contract's case distinction is the verdict. -/
theorem verdict_eq {now : ℕ} {wasmHash : Bytes32} {first : Attestation Address}
    {rest : List (Attestation Address)} :
    (if now < first.ledger + cfg.attestWindow then .open (tallyOf (first :: rest)).2
      else if (tallyOf (first :: rest)).2.total < cfg.quorum then
        .insufficient (tallyOf (first :: rest)).2
      else if (tallyOf (first :: rest)).2.distinct = 1 then
        if (tallyOf (first :: rest)).1 = wasmHash then .verified else .mismatch
      else .disputed (tallyOf (first :: rest)).2) =
    verdict cfg now wasmHash (first :: rest) := by
  have hcounts : (tallyOf (first :: rest)).2 = counts (first :: rest) := tallyOf_snd _
  rw [colour_eq, hcounts]
  rfl

omit [DecidableEq Address] in
/-- `consensus` returns unless the claim's close is beyond the last ledger, and then what it
returns is the verdict on the ballot. -/
theorem consensus_eq_ok (hw : Coherent cfg w) {wasmHash inputDigest : Bytes32} {c : Consensus} :
    consensus env wasmHash inputDigest w = .ok c w' ↔
      w' = w ∧
      (∀ first ∈ (readAttestations w.persistent wasmHash inputDigest).head?,
        first.ledger + cfg.attestWindow ≤ u32Max) ∧
      c = verdict cfg env.sequence wasmHash
        (readAttestations w.persistent wasmHash inputDigest) := by
  have hopened := (hw.represents (wasmHash, inputDigest)).opened
  simp only at hopened
  cases hatts : readAttestations w.persistent wasmHash inputDigest with
  | nil =>
    rw [hatts] at hopened
    simp [consensus, hw.config_eq, get, hopened, verdict, eq_comm (a := c), eq_comm (a := w'),
      and_comm]
  | cons first rest =>
    rw [hatts] at hopened
    rw [← verdict_eq]
    simp [consensus, attestations, checkedU32, hw.config_eq, get, hopened, hatts,
      eq_comm (a := c), eq_comm (a := w'), and_assoc, and_comm]

omit [DecidableEq Address] in
/-- `consensus` reads the world and changes nothing: it returns or traps. -/
theorem consensus_eq_trap (hw : Coherent cfg w) {wasmHash inputDigest : Bytes32} {t : Trap} :
    consensus env wasmHash inputDigest w = .trap t ↔
      .overflow = t ∧ ∃ first ∈ (readAttestations w.persistent wasmHash inputDigest).head?,
        u32Max < first.ledger + cfg.attestWindow := by
  have hopened := (hw.represents (wasmHash, inputDigest)).opened
  simp only at hopened
  cases hatts : readAttestations w.persistent wasmHash inputDigest with
  | nil =>
    rw [hatts] at hopened
    simp [consensus, readConfig, hw.config_eq, get, hopened]
  | cons first rest =>
    rw [hatts] at hopened
    simp [consensus, readConfig, attestations, checkedU32, hw.config_eq, get, hopened, and_comm]

omit [DecidableEq Address] in
/-- Where `consensus` does not overflow, it returns the verdict. -/
theorem consensus_eq_verdict (hw : Coherent cfg w) {wasmHash inputDigest : Bytes32}
    (hno : consensus env wasmHash inputDigest w ≠ .trap .overflow) :
    consensus env wasmHash inputDigest w =
      .ok (verdict cfg env.sequence wasmHash
        (readAttestations w.persistent wasmHash inputDigest)) w := by
  refine (consensus_eq_ok hw).mpr ⟨rfl, ?_, rfl⟩
  intro first hfirst
  by_contra hfit
  exact hno ((consensus_eq_trap hw).mpr ⟨rfl, first, hfirst, not_le.mp hfit⟩)

/-! ## Ballots along a run -/

/-- The attestations a history filed on a claim, oldest first. -/
def filed {σ : Type} (claim : Claim) (h : List (Transition σ (Input Address))) :
    List (Attestation Address) :=
  h.filterMap fun e => filedOn claim e.label

omit [DecidableEq Address] in
theorem filed_snoc {σ : Type} (claim : Claim) (h : List (Transition σ (Input Address)))
    (e : Transition σ (Input Address)) :
    filed claim (h ++ [e]) = filed claim h ++ (filedOn claim e.label).toList := by
  rw [filed, filed, List.filterMap_append]
  cases hfiled : filedOn claim e.label <;> simp [hfiled]

omit [DecidableEq Address] in
@[simp] theorem filed_bookHistory (claim : Claim)
    (h : List (Transition (Chain T) (Input Address))) :
    filed claim (bookHistory h) = filed claim h := by
  rw [filed, bookHistory, List.filterMap_map]
  rfl

namespace Book

variable {b b' : Book Address} {h : List (Transition (Book Address) (Input Address))}

/-- The ballot grows by what is filed. -/
theorem ballot_eq_append (hpath : Path (Step cfg) b h b') (claim : Claim) :
    b'.ballot claim = b.ballot claim ++ filed claim h := by
  refine hpath.invariant (P := fun h c => c.ballot claim = b.ballot claim ++ filed claim h) ?_ ?_
  · simp [filed]
  · intro h c i c' _ ih hstep
    rw [hstep.ballot_eq claim, ih, filed_snoc, List.append_assoc]

theorem wellFormed_of_path (hwindow : 0 < cfg.attestWindow) (hpath : Path (Step cfg) b h b')
    {claim : Claim} (hb : WellFormed cfg b.sequence (b.ballot claim)) :
    WellFormed cfg b'.sequence (b'.ballot claim) :=
  hpath.state_invariant (P := fun c => WellFormed cfg c.sequence (c.ballot claim))
    (fun _ _ _ hc hstep => hstep.wellFormed hwindow hc) hb

theorem sequence_le_of_path (hpath : Path (Step cfg) b h b') : b.sequence ≤ b'.sequence :=
  hpath.state_invariant (P := fun c => b.sequence ≤ c.sequence)
    (fun _ _ _ hc hstep => hc.trans hstep.sequence_le) le_rfl

omit [DecidableEq Address] in
theorem closed_mono {now later : ℕ} {atts : List (Attestation Address)}
    (h : Closed cfg now atts) (hle : now ≤ later) : Closed cfg later atts := by
  obtain ⟨first, hfirst, hclose⟩ := h
  exact ⟨first, hfirst, hclose.trans hle⟩

/-- **A closed ballot is final**, whatever anybody does afterwards. -/
theorem ballot_eq_of_closed (hpath : Path (Step cfg) b h b') {claim : Claim}
    (hclosed : Closed cfg b.sequence (b.ballot claim)) : b'.ballot claim = b.ballot claim := by
  have hboth := hpath.state_invariant
    (P := fun c => b.sequence ≤ c.sequence ∧ c.ballot claim = b.ballot claim) ?_ ⟨le_rfl, rfl⟩
  · exact hboth.2
  · rintro c i c' ⟨hle, hc⟩ hstep
    refine ⟨hle.trans hstep.sequence_le, ?_⟩
    rw [← hc] at hclosed
    rw [hstep.ballot_eq_of_closed (closed_mono hclosed hle), hc]

/-- An attestation stays on the ballot. -/
theorem mem_ballot_of_path (hpath : Path (Step cfg) b h b') (claim : Claim)
    {a : Attestation Address} (ha : a ∈ b.ballot claim) : a ∈ b'.ballot claim := by
  rw [ballot_eq_append hpath]
  exact List.mem_append_left _ ha

end Book

/-! ## Ballots along a run of the registry -/

section Runs

variable {s₀ s t : Chain T} {h k : List (Transition (Chain T) (Input Address))}

/-- **The records are the filed attestations**, for every claim, after every run. -/
theorem Run.ballot_eq_filed (hrun : Run registry cfg s₀ h s) (claim : Claim) :
    readAttestations s.world.persistent claim.1 claim.2 = filed claim h := by
  obtain ⟨-, hpath⟩ := hrun.refines
  obtain ⟨-, -, hfresh⟩ := hrun.deployed.sound
  have happend := Book.ballot_eq_append hpath claim
  rw [hfresh.ballot_eq, List.nil_append, filed_bookHistory] at happend
  exact happend

theorem Run.wellFormed (hrun : Run registry cfg s₀ h s) (claim : Claim) :
    WellFormed cfg s.sequence (filed claim h) := by
  obtain ⟨-, hpath⟩ := hrun.refines
  obtain ⟨haccepted, -, hfresh⟩ := hrun.deployed.sound
  have hnil : WellFormed cfg s₀.book.sequence (s₀.book.ballot claim) := by
    rw [hfresh.ballot_eq]
    exact WellFormed.nil ..
  have hwell := Book.wellFormed_of_path haccepted.attestWindow_pos hpath hnil
  rw [← hrun.ballot_eq_filed]
  exact hwell

/-- Runs go on from where they are. -/
theorem Run.append (hrun : Run registry cfg s₀ h s) (hmore : Path (Step registry) s k t) :
    Run registry cfg s₀ (h ++ k) t :=
  ⟨hrun.deployed, hrun.path.trans hmore⟩

/-- Every state in a run's history is reached by a run of its own, and the step taken there is
a step of the book. -/
theorem Run.step_of_mem (hrun : Run registry cfg s₀ h s)
    {e : Transition (Chain T) (Input Address)} (he : e ∈ h) :
    Sound cfg e.pre ∧ Book.Step cfg e.pre.book e.label e.post.book := by
  obtain ⟨before, after, -, hbefore, hstep, -⟩ := hrun.path.split he
  have hrunBefore : Run registry cfg s₀ before e.pre := ⟨hrun.deployed, hbefore⟩
  obtain ⟨hsound, -⟩ := hrunBefore.refines
  obtain ⟨haccepted, -, -⟩ := hrun.deployed.sound
  exact ⟨hsound, (hstep.refines haccepted hsound).2⟩

/-- **Attestations and consensus, after every run.**  What `attestations` returns is the list of
the claim's successful `attest` calls, in their order; nobody is in it twice, it lies within the
window its first attestation opened, and each attester was active; and `consensus` returns the
verdict on that list, unless it overflows. -/
theorem Run.attestations_and_consensus (hrun : Run registry cfg s₀ h s) (claim : Claim) :
    attestations claim.1 claim.2 s.world = .ok (filed claim h) s.world ∧
    ((filed claim h).map Attestation.verifier).Nodup ∧
    (∀ first ∈ (filed claim h).head?, ∀ a ∈ filed claim h,
      first.ledger ≤ a.ledger ∧ a.ledger < first.ledger + cfg.attestWindow) ∧
    (∀ e ∈ h, ∀ a, filedOn claim e.label = some a →
      a.ledger = e.pre.sequence ∧
      cfg.minStake ≤ (readStake e.pre.world.persistent a.verifier).staked) ∧
    ∀ env : Env Address, env.sequence = s.sequence →
      consensus env claim.1 claim.2 s.world ≠ .trap .overflow →
      consensus env claim.1 claim.2 s.world =
        .ok (verdict cfg s.sequence claim.1 (filed claim h)) s.world := by
  have hballot := hrun.ballot_eq_filed claim
  have hwell := hrun.wellFormed claim
  refine ⟨?_, hwell.nodup, hwell.inWindow, ?_, ?_⟩
  · rw [attestations, Tx.read, hballot]
  · intro e he a ha
    obtain ⟨-, hstep⟩ := hrun.step_of_mem he
    obtain ⟨hledger, hactive, -⟩ := hstep.of_filedOn ha
    exact ⟨hledger, hactive⟩
  · intro env hseq hno
    obtain ⟨hsound, -⟩ := hrun.refines
    rw [consensus_eq_verdict hsound.coherent hno, hballot, hseq]

theorem Sample.attestations_of_dispute :
    attestations Sample.onChain Sample.digest
        (played 0 (Sample.chain 60 120) Sample.dispute).world =
      .ok [⟨1, Sample.onChain, 1⟩, ⟨2, Sample.forged, 6⟩]
        (played 0 (Sample.chain 60 120) Sample.dispute).world ∧
    consensus ⟨6, 0, fun _ => false⟩ Sample.onChain Sample.digest
        (played 0 (Sample.chain 60 120) Sample.dispute).world =
      .ok (.open ⟨2, 1, 2⟩) (played 0 (Sample.chain 60 120) Sample.dispute).world := by
  have hmain := (Sample.run 60 120 Sample.dispute (by decide) (by decide)
    (by decide +kernel)).attestations_and_consensus (Sample.onChain, Sample.digest)
  have hfiled : filed (Sample.onChain, Sample.digest)
      (play 0 (Sample.chain 60 120) Sample.dispute) =
      [⟨1, Sample.onChain, 1⟩, ⟨2, Sample.forged, 6⟩] := by decide +kernel
  have hverdict : verdict (Sample.config 60 120) 6 Sample.onChain
      [⟨1, Sample.onChain, 1⟩, ⟨2, Sample.forged, 6⟩] = .open ⟨2, 1, 2⟩ := by decide +kernel
  rw [hfiled] at hmain
  obtain ⟨hattestations, -, -, -, hconsensus⟩ := hmain
  refine ⟨hattestations, ?_⟩
  rw [← hverdict]
  refine hconsensus ⟨6, 0, fun _ => false⟩ (by decide +kernel) ?_
  rw [Ne, ← Outcome.fault?_eq_some]
  decide +kernel

/-- **A closed claim is decided for good.**  Once a claim's window has closed, `consensus` returns
one value in every later state; and a claim with one attestation of another hash than the on-chain
one is never green again, closed or not. -/
theorem Run.consensus_final (hrun : Run registry cfg s₀ h s) (hmore : Path (Step registry) s k t)
    (claim : Claim) :
    (∀ opened, s.world.persistent.get (.opened claim.1 claim.2) = some opened →
      opened + cfg.attestWindow ≤ s.sequence → ∃ value, ∀ now later : Env Address,
        now.sequence = s.sequence → later.sequence = t.sequence →
        consensus now claim.1 claim.2 s.world = .ok value s.world ∧
        consensus later claim.1 claim.2 t.world = .ok value t.world) ∧
    ((∃ a ∈ readAttestations s.world.persistent claim.1 claim.2, a.rebuiltHash ≠ claim.1) →
      ∀ (later : Env Address) (w : World T),
        consensus later claim.1 claim.2 t.world ≠ .ok .verified w) := by
  have hlater := hrun.append hmore
  obtain ⟨hsound, -⟩ := hrun.refines
  obtain ⟨hsound', -⟩ := hlater.refines
  obtain ⟨haccepted, -, -⟩ := hrun.deployed.sound
  obtain ⟨-, hpath⟩ := hsound.refines haccepted hmore
  constructor
  · intro opened hopened hclose
    have hrecord := (hsound.coherent.represents claim).opened
    rw [hopened, eq_comm, Option.map_eq_some_iff] at hrecord
    obtain ⟨first, hfirst, rfl⟩ := hrecord
    have hclosed : Closed cfg s.book.sequence (s.book.ballot claim) := ⟨first, hfirst, hclose⟩
    have hballot : readAttestations t.world.persistent claim.1 claim.2 =
        readAttestations s.world.persistent claim.1 claim.2 :=
      Book.ballot_eq_of_closed hpath hclosed
    have hfits : ∀ first' ∈ (readAttestations s.world.persistent claim.1 claim.2).head?,
        first'.ledger + cfg.attestWindow ≤ u32Max := by
      intro first' hfirst'
      rw [Option.mem_def, hfirst, Option.some.injEq] at hfirst'
      rw [← hfirst']
      exact hclose.trans hsound.sequence_fits
    have hverdict : verdict cfg t.sequence claim.1
          (readAttestations s.world.persistent claim.1 claim.2) =
        verdict cfg s.sequence claim.1 (readAttestations s.world.persistent claim.1 claim.2) :=
      verdict_of_closed hclosed (Book.sequence_le_of_path hpath)
    refine ⟨verdict cfg s.sequence claim.1
      (readAttestations s.world.persistent claim.1 claim.2), ?_⟩
    intro now later hnow hthen
    constructor
    · refine (consensus_eq_ok hsound.coherent).mpr ⟨rfl, hfits, ?_⟩
      rw [hnow]
    · refine (consensus_eq_ok hsound'.coherent).mpr ⟨rfl, ?_, ?_⟩
      · rwa [hballot]
      · rw [hballot, hthen, hverdict]
  · rintro ⟨a, ha, hdissent⟩ later w hgreen
    obtain ⟨-, -, hvalue⟩ := (consensus_eq_ok hsound'.coherent).mp hgreen
    have hstays : a ∈ readAttestations t.world.persistent claim.1 claim.2 :=
      Book.mem_ballot_of_path hpath claim ha
    exact verdict_ne_verified hstays hdissent hvalue.symm

theorem Sample.dispute_never_verified :
    (∃ value, ∀ now later : Env ℕ, now.sequence = 106 → later.sequence = 226 →
      consensus now Sample.onChain Sample.digest Sample.closed.world =
        .ok value Sample.closed.world ∧
      consensus later Sample.onChain Sample.digest
          (played 0 Sample.closed (Sample.departure 120)).world =
        .ok value (played 0 Sample.closed (Sample.departure 120)).world) ∧
    ∀ (later : Env ℕ) (w : World (Vrfy.token ℕ)),
      consensus later Sample.onChain Sample.digest
        (played 0 Sample.closed (Sample.departure 120)).world ≠ .ok .verified w := by
  obtain ⟨hclosed, hdissent⟩ := (Sample.run 60 120 (Sample.dispute ++ [.wait 100]) (by decide)
    (by decide) (by decide +kernel)).consensus_final
    (path_play (Sample.departure 120) (by decide +kernel)) (Sample.onChain, Sample.digest)
  have hattested : ⟨2, Sample.forged, 6⟩ ∈ readAttestations Sample.closed.world.persistent
      Sample.onChain Sample.digest := by decide +kernel
  have hclose : 1 + 60 ≤ 106 := by decide
  exact ⟨hclosed 1 rfl hclose, hdissent ⟨_, hattested, by decide +kernel⟩⟩

end Runs
end Registry
end Sorofy
