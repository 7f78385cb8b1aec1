import Sorofy.Registry.Run

/-!
# What the registry is for: an abstract book

The registry keeps a book: an account for every verifier, a ballot for every claim (the
attestations filed on it, oldest first), and a mark on whoever has been slashed for a claim.
`Book.Step` says what each kind of step does to the book, `verdict` what a ballot says about its
claim.  Nothing here mentions storage, records, loops or the token; that the contract keeps this
book is the refinement theorem of `Registry.Refinement`.
-/

namespace Sorofy
namespace Registry

open Foundation
open History
open Plurality

variable {Address : Type}

/-! ## Ballots -/

/-- A ballot is closed once its window, which its first attestation opened, has run out. -/
def Closed (cfg : Config Address) (now : ℕ) (atts : List (Attestation Address)) : Prop :=
  ∃ first ∈ atts.head?, first.ledger + cfg.attestWindow ≤ now

/-- Length, largest multiplicity of a hash, number of different hashes. -/
def counts (atts : List (Attestation Address)) : Tally :=
  ⟨atts.length, largest (hashes atts), different (hashes atts)⟩

/-- What a ballot says about the claim whose on-chain hash is `wasmHash`. -/
def verdict (cfg : Config Address) (now : ℕ) (wasmHash : Bytes32) :
    List (Attestation Address) → Consensus
  | [] => .noClaim
  | first :: rest =>
    let atts := first :: rest
    if now < first.ledger + cfg.attestWindow then .open (counts atts)
    else if atts.length < cfg.quorum then .insufficient (counts atts)
    else if ∀ a ∈ atts, a.rebuiltHash = wasmHash then .verified
    else if ∀ a ∈ atts, a.rebuiltHash = first.rebuiltHash then .mismatch
    else .disputed (counts atts)

/-- A closed ballot says the same from then on. -/
theorem verdict_of_closed {cfg : Config Address} {now later : ℕ} {wasmHash : Bytes32}
    {atts : List (Attestation Address)} (hclosed : Closed cfg now atts) (hle : now ≤ later) :
    verdict cfg later wasmHash atts = verdict cfg now wasmHash atts := by
  obtain ⟨first, hfirst, hclose⟩ := hclosed
  cases atts with
  | nil => exact absurd hfirst (by simp)
  | cons a rest =>
    rw [List.head?_cons, Option.mem_some_iff] at hfirst
    subst hfirst
    have hlater : ¬ later < a.ledger + cfg.attestWindow := by omega
    have hnow : ¬ now < a.ledger + cfg.attestWindow := by omega
    simp only [verdict, if_neg hlater, if_neg hnow]

/-- A ballot with a dissenting attestation is never green. -/
theorem verdict_ne_verified {cfg : Config Address} {now : ℕ} {wasmHash : Bytes32}
    {atts : List (Attestation Address)} {a : Attestation Address} (ha : a ∈ atts)
    (hdissent : a.rebuiltHash ≠ wasmHash) : verdict cfg now wasmHash atts ≠ .verified := by
  cases atts with
  | nil => exact absurd ha (by simp)
  | cons first rest =>
    have hnot : ¬ ∀ a ∈ first :: rest, a.rebuiltHash = wasmHash := fun h => hdissent (h a ha)
    simp only [verdict]
    rw [if_neg hnot]
    split_ifs <;> simp

/-! ## Configurations and accounts -/

/-- The configurations the constructor accepts. -/
structure Config.Accepted (cfg : Config Address) : Prop where
  minStake_pos : 0 < cfg.minStake
  quorum_ge : minQuorum ≤ cfg.quorum
  attestWindow_pos : 0 < cfg.attestWindow
  attestWindow_le : cfg.attestWindow ≤ cfg.unbondPeriod
  slashBps_pos : 0 < cfg.slashBps
  slashBps_le : (cfg.slashBps : ℤ) ≤ bpsDenominator

/-- Everything a verifier has in the registry. -/
def StakeInfo.total (info : StakeInfo) : ℤ := info.staked + info.unbonding

/-- An account that can exist: neither part of it is negative. -/
structure StakeInfo.Nonneg (info : StakeInfo) : Prop where
  staked : 0 ≤ info.staked
  unbonding : 0 ≤ info.unbonding

theorem StakeInfo.Nonneg.total {info : StakeInfo} (h : info.Nonneg) : 0 ≤ info.total :=
  Int.add_nonneg h.staked h.unbonding

/-- The account after `amount` has been burned: the active stake first, the waiting stake for
the remainder. -/
def StakeInfo.burn (info : StakeInfo) (amount : ℤ) : StakeInfo :=
  { info with
    staked := info.staked - min amount info.staked
    unbonding := info.unbonding - (amount - min amount info.staked) }

/-- Burning takes the amount from the total. -/
theorem StakeInfo.total_burn (info : StakeInfo) (amount : ℤ) :
    (info.burn amount).total = info.total - amount := by
  simp only [StakeInfo.total, StakeInfo.burn]
  omega

theorem StakeInfo.Nonneg.burn {info : StakeInfo} {amount : ℤ} (h : info.Nonneg)
    (hle : amount ≤ info.total) : (info.burn amount).Nonneg := by
  have hstaked := h.staked
  have hunbonding := h.unbonding
  simp only [StakeInfo.total] at hle
  constructor
  · show 0 ≤ info.staked - min amount info.staked
    omega
  · show 0 ≤ info.unbonding - (amount - min amount info.staked)
    omega

/-- What a slash burns of an account. -/
def slashAmount (cfg : Config Address) (info : StakeInfo) : ℤ :=
  info.total * cfg.slashBps / bpsDenominator

/-- A slash burns at most everything. -/
theorem slashAmount_le {cfg : Config Address} (hcfg : cfg.Accepted) {info : StakeInfo}
    (h : info.Nonneg) : slashAmount cfg info ≤ info.total := by
  have hmul : info.total * cfg.slashBps ≤ info.total * bpsDenominator :=
    Int.mul_le_mul_of_nonneg_left hcfg.slashBps_le h.total
  exact Int.ediv_le_of_le_mul (by decide) hmul

/-! ## The book -/

/-- The registry's book at one ledger. -/
@[ext] structure Book (Address : Type) where
  sequence : ℕ
  account : Address → StakeInfo
  ballot : Claim → List (Attestation Address)
  marked : Claim → Address → Prop

namespace Book

/-- File an attestation on a claim. -/
def file (b : Book Address) (claim : Claim) (a : Attestation Address) : Book Address :=
  { b with ballot := Function.update b.ballot claim (b.ballot claim ++ [a]) }

/-- Mark a verifier as slashed for a claim. -/
def mark (b : Book Address) (claim : Claim) (v : Address) : Book Address :=
  { b with marked := fun c w => (c = claim ∧ w = v) ∨ b.marked c w }

@[simp] theorem file_sequence (b : Book Address) (claim : Claim) (a : Attestation Address) :
    (b.file claim a).sequence = b.sequence := rfl

@[simp] theorem file_account (b : Book Address) (claim : Claim) (a : Attestation Address) :
    (b.file claim a).account = b.account := rfl

@[simp] theorem file_marked (b : Book Address) (claim : Claim) (a : Attestation Address) :
    (b.file claim a).marked = b.marked := rfl

theorem file_ballot (b : Book Address) (claim c : Claim) (a : Attestation Address) :
    (b.file claim a).ballot c = if c = claim then b.ballot claim ++ [a] else b.ballot c :=
  Function.update_apply b.ballot claim _ c

@[simp] theorem mark_sequence (b : Book Address) (claim : Claim) (v : Address) :
    (b.mark claim v).sequence = b.sequence := rfl

@[simp] theorem mark_account (b : Book Address) (claim : Claim) (v : Address) :
    (b.mark claim v).account = b.account := rfl

@[simp] theorem mark_ballot (b : Book Address) (claim : Claim) (v : Address) :
    (b.mark claim v).ballot = b.ballot := rfl

variable [DecidableEq Address]

/-- Write an account. -/
def setAccount (b : Book Address) (v : Address) (info : StakeInfo) : Book Address :=
  { b with account := Function.update b.account v info }

@[simp] theorem setAccount_sequence (b : Book Address) (v : Address) (info : StakeInfo) :
    (b.setAccount v info).sequence = b.sequence := rfl

@[simp] theorem setAccount_ballot (b : Book Address) (v : Address) (info : StakeInfo) :
    (b.setAccount v info).ballot = b.ballot := rfl

@[simp] theorem setAccount_marked (b : Book Address) (v : Address) (info : StakeInfo) :
    (b.setAccount v info).marked = b.marked := rfl

theorem setAccount_account (b : Book Address) (v w : Address) (info : StakeInfo) :
    (b.setAccount v info).account w = if w = v then info else b.account w :=
  Function.update_apply b.account v info w

/-- When `slash` may burn from `v` for the claim: the ballot is closed and has a quorum, some
hash has a strict majority, and `v` attested another one and has not been slashed for it. -/
structure Slashable (cfg : Config Address) (b : Book Address) (claim : Claim) (v : Address) :
    Prop where
  closed : Closed cfg b.sequence (b.ballot claim)
  quorate : cfg.quorum ≤ (b.ballot claim).length
  dissents : ∃ top, (b.ballot claim).length < 2 * (hashes (b.ballot claim)).count top ∧
    ∃ a ∈ b.ballot claim, a.verifier = v ∧ a.rebuiltHash ≠ top
  unmarked : ¬ b.marked claim v

/-- One step of the book. -/
inductive Step (cfg : Config Address) : Book Address → Input Address → Book Address → Prop where
  /-- A call that refuses or traps leaves the book as it is. -/
  | idle (b : Book Address) (env : Env Address) (c : Call Address) (r : Receipt)
      (hr : ∀ value, r ≠ .returned value) : Step cfg b (.call env c r) b
  | stake (b : Book Address) (env : Env Address) (v : Address) (amount : ℤ)
      (hpos : 0 < amount) :
      Step cfg b (.call env (.stake v amount) (.returned .unit))
        (b.setAccount v { b.account v with staked := (b.account v).staked + amount })
  /-- The requested amount leaves the active stake and waits, with all that waits already, for
  another unbonding period. -/
  | requestUnstake (b : Book Address) (env : Env Address) (v : Address) (amount : ℤ)
      (hpos : 0 < amount) (hle : amount ≤ (b.account v).staked) :
      Step cfg b (.call env (.requestUnstake v amount) (.returned .unit))
        (b.setAccount v
          { staked := (b.account v).staked - amount
            unbonding := (b.account v).unbonding + amount
            releaseLedger := b.sequence + cfg.unbondPeriod })
  | withdraw (b : Book Address) (env : Env Address) (v : Address)
      (hpos : 0 < (b.account v).unbonding) (hrelease : (b.account v).releaseLedger ≤ b.sequence) :
      Step cfg b (.call env (.withdraw v) (.returned (.amount (b.account v).unbonding)))
        (b.setAccount v { b.account v with unbonding := 0 })
  | attest (b : Book Address) (env : Env Address) (v : Address)
      (wasmHash inputDigest rebuiltHash : Bytes32) (hseq : env.sequence = b.sequence)
      (hactive : cfg.minStake ≤ (b.account v).staked)
      (hopen : ¬ Closed cfg b.sequence (b.ballot (wasmHash, inputDigest)))
      (hnew : ∀ a ∈ b.ballot (wasmHash, inputDigest), a.verifier ≠ v) :
      Step cfg b (.call env (.attest v wasmHash inputDigest rebuiltHash) (.returned .unit))
        (b.file (wasmHash, inputDigest) ⟨v, rebuiltHash, b.sequence⟩)
  | slash (b : Book Address) (env : Env Address) (wasmHash inputDigest : Bytes32) (v : Address)
      (hslash : Slashable cfg b (wasmHash, inputDigest) v)
      (hpos : 0 < slashAmount cfg (b.account v)) :
      Step cfg b
        (.call env (.slash wasmHash inputDigest v)
          (.returned (.amount (slashAmount cfg (b.account v)))))
        ((b.setAccount v ((b.account v).burn (slashAmount cfg (b.account v)))).mark
          (wasmHash, inputDigest) v)
  | advance (b : Book Address) (n : ℕ) (hle : b.sequence ≤ n) (hfit : n ≤ u32Max) :
      Step cfg b (.advance n) { b with sequence := n }
  | receive (b : Book Address) (amount : ℤ) : Step cfg b (.receive amount) b

/-- The book of a registry that nobody has used. -/
structure Fresh (b : Book Address) : Prop where
  account_eq : ∀ v, b.account v = ⟨0, 0, 0⟩
  ballot_eq : ∀ claim, b.ballot claim = []
  unmarked : ∀ claim v, ¬ b.marked claim v

/-! ## What one step does -/

variable {cfg : Config Address} {b b' : Book Address} {i : Input Address}

theorem Step.sequence_le (h : Step cfg b i b') : b.sequence ≤ b'.sequence := by
  cases h with
  | advance n hle _ => exact hle
  | _ => exact le_rfl

/-- **Ballots only grow, by what was filed on them.** -/
theorem Step.ballot_eq (h : Step cfg b i b') (claim : Claim) :
    b'.ballot claim = b.ballot claim ++ (filedOn claim i).toList := by
  cases h with
  | idle env c r hr =>
    cases c <;> cases r <;> first | exact absurd rfl (hr _) | simp [filedOn]
  | attest env v wasmHash inputDigest rebuiltHash hseq _ _ _ =>
    rw [file_ballot, filedOn, hseq]
    by_cases hclaim : claim = (wasmHash, inputDigest)
    · rw [if_pos hclaim, if_pos hclaim.symm, hclaim]
      rfl
    · rw [if_neg hclaim, if_neg (Ne.symm hclaim)]
      simp
  | _ => simp [filedOn]

/-- What is filed on a claim: an attestation of this ledger, by a verifier that is active and
has not attested the claim, while its ballot is not closed. -/
theorem Step.of_filedOn (h : Step cfg b i b') {claim : Claim} {a : Attestation Address}
    (ha : filedOn claim i = some a) :
    a.ledger = b.sequence ∧ cfg.minStake ≤ (b.account a.verifier).staked ∧
      ¬ Closed cfg b.sequence (b.ballot claim) ∧
      (∀ a' ∈ b.ballot claim, a'.verifier ≠ a.verifier) ∧ b'.sequence = b.sequence ∧
      b'.account = b.account := by
  cases h with
  | attest env v wasmHash inputDigest rebuiltHash hseq hactive hopen hnew =>
    rw [filedOn] at ha
    split_ifs at ha with hclaim
    subst hclaim
    cases Option.some.inj ha
    exact ⟨hseq, hactive, hopen, hnew, rfl, rfl⟩
  | idle env c r hr =>
    cases c <;> cases r <;> first | exact absurd rfl (hr _) | simp [filedOn] at ha
  | _ => simp [filedOn] at ha

/-- A closed ballot is final. -/
theorem Step.ballot_eq_of_closed (h : Step cfg b i b') {claim : Claim}
    (hclosed : Closed cfg b.sequence (b.ballot claim)) : b'.ballot claim = b.ballot claim := by
  rw [h.ballot_eq claim]
  cases hfiled : filedOn claim i with
  | none => simp
  | some a => exact absurd hclosed (h.of_filedOn hfiled).2.2.1

/-- No step makes an account negative. -/
theorem Step.nonneg (hcfg : cfg.Accepted) (h : Step cfg b i b')
    (hb : ∀ v, (b.account v).Nonneg) (v : Address) : (b'.account v).Nonneg := by
  have hset : ∀ (v' : Address) (info : StakeInfo), info.Nonneg →
      ((b.setAccount v' info).account v).Nonneg := by
    intro v' info hinfo
    rw [setAccount_account]
    split_ifs
    · exact hinfo
    · exact hb v
  cases h with
  | stake env v' amount hpos =>
    have hv' := hb v'
    refine hset v' _ ⟨?_, hv'.unbonding⟩
    exact Int.add_nonneg hv'.staked hpos.le
  | requestUnstake env v' amount hpos hle =>
    have hv' := hb v'
    refine hset v' _ ⟨?_, ?_⟩
    · exact Int.sub_nonneg_of_le hle
    · exact Int.add_nonneg hv'.unbonding hpos.le
  | withdraw env v' hpos hrelease =>
    exact hset v' _ ⟨(hb v').staked, le_rfl⟩
  | slash env wasmHash inputDigest v' hslash hpos =>
    exact hset v' _ ((hb v').burn (slashAmount_le hcfg (hb v')))
  | _ => exact hb v

end Book

/-! ## Well-formed ballots -/

/-- A well-formed ballot: nobody attested twice, and every attestation fell into the window its
first one opened. -/
structure WellFormed (cfg : Config Address) (now : ℕ) (atts : List (Attestation Address)) :
    Prop where
  nodup : (atts.map Attestation.verifier).Nodup
  inWindow : ∀ first ∈ atts.head?, ∀ a ∈ atts,
    first.ledger ≤ a.ledger ∧ a.ledger < first.ledger + cfg.attestWindow
  past : ∀ a ∈ atts, a.ledger ≤ now

theorem WellFormed.nil (cfg : Config Address) (now : ℕ) : WellFormed cfg now [] :=
  ⟨List.nodup_nil, by simp, by simp⟩

theorem WellFormed.mono {cfg : Config Address} {now later : ℕ} {atts : List (Attestation Address)}
    (h : WellFormed cfg now atts) (hle : now ≤ later) : WellFormed cfg later atts :=
  ⟨h.nodup, h.inWindow, fun a ha => (h.past a ha).trans hle⟩

/-- Filing one more attestation, by a newcomer and before the window closes. -/
theorem WellFormed.snoc {cfg : Config Address} {now : ℕ} {atts : List (Attestation Address)}
    {a : Attestation Address} (h : WellFormed cfg now atts) (hwindow : 0 < cfg.attestWindow)
    (hledger : a.ledger = now) (hopen : ¬ Closed cfg now atts)
    (hnew : ∀ a' ∈ atts, a'.verifier ≠ a.verifier) : WellFormed cfg now (atts ++ [a]) := by
  refine ⟨?_, ?_, ?_⟩
  · rw [List.map_append, List.map_singleton, List.nodup_append]
    refine ⟨h.nodup, List.nodup_singleton _, ?_⟩
    intro v hv w hw
    obtain ⟨a', ha', rfl⟩ := List.mem_map.mp hv
    rw [List.mem_singleton.mp hw]
    exact hnew a' ha'
  · intro first hfirst a' ha'
    cases atts with
    | nil =>
      simp only [List.nil_append, List.head?_cons, Option.mem_some_iff, List.mem_singleton]
        at hfirst ha'
      subst hfirst ha'
      omega
    | cons first' rest =>
      rw [List.cons_append, List.head?_cons, Option.mem_some_iff] at hfirst
      subst hfirst
      rcases List.mem_append.mp ha' with ha' | ha'
      · exact h.inWindow first' rfl a' ha'
      · have hpast := h.past first' List.mem_cons_self
        have hnot : ¬ first'.ledger + cfg.attestWindow ≤ now := fun hc => hopen ⟨first', rfl, hc⟩
        rw [List.mem_singleton.mp ha', hledger]
        omega
  · intro a' ha'
    rcases List.mem_append.mp ha' with ha' | ha'
    · exact h.past a' ha'
    · rw [List.mem_singleton.mp ha', hledger]

namespace Book

variable [DecidableEq Address] {cfg : Config Address} {b b' : Book Address} {i : Input Address}

/-- Every step keeps every ballot well formed. -/
theorem Step.wellFormed (h : Step cfg b i b') (hwindow : 0 < cfg.attestWindow) {claim : Claim}
    (hb : WellFormed cfg b.sequence (b.ballot claim)) :
    WellFormed cfg b'.sequence (b'.ballot claim) := by
  rw [h.ballot_eq claim]
  cases hfiled : filedOn claim i with
  | none =>
    rw [Option.toList_none, List.append_nil]
    exact hb.mono h.sequence_le
  | some a =>
    obtain ⟨hledger, -, hopen, hnew, hseq, -⟩ := h.of_filedOn hfiled
    rw [Option.toList_some, hseq]
    exact hb.snoc hwindow hledger hopen hnew

end Book

end Registry
end Sorofy
