import Sorofy.Registry.Solvency

/-!
# Unbonding against the window

Can a verifier attest and be gone before anybody may slash it?  What the contract sets against
that is one deadline, the release ledger, for a waiting balance that mixes old and new requests.
The invariant that makes it work (`Bonded`) follows the stake that was active at one attestation:

* either none of it has been requested back, and then everything that waits or was paid since is
  older than the attestation;
* or some of it has, and then the release ledger is at least the attestation's ledger plus the
  unbonding period, so no payout can follow before that ledger.

Slashes, on this claim or on others, lower the stake in both cases and are accounted for.

## Two deadlines from one invariant

With the claim's close as the deadline, `Bonded` says that the stake is still there in every ledger
before the close.  For the stake to be still there *at* the close, when `slash` first works, the
deadline has to be one ledger later, and the constructor's `unbond_period >= attest_window` does
not give that one ledger: a verifier that opens a claim and asks for its stake back in the same
ledger is released in exactly the ledger in which the claim closes.  Any slack is enough.
-/

namespace Sorofy
namespace Registry

open Foundation
open History

variable {Address : Type} [DecidableEq Address] {T : Token Address}
variable {registry : Address} {cfg : Config Address}

/-! ## The invariant -/

/-- What has become of an active stake `stake` beside a waiting one `waited`, when `paid` has been
paid out and `burned` burned since, and nothing of `stake` may be paid before `deadline`. -/
inductive Bonded (deadline : ℕ) (stake waited : ℤ) (now : ℕ) (info : StakeInfo)
    (paid burned : ℤ) : Prop where
  /-- The deadline is over, and nothing is claimed. -/
  | over (hnow : deadline ≤ now)
  /-- All of it is active, and what waits or was paid is older. -/
  | active (hstaked : stake ≤ info.staked + burned) (hpaid : paid + info.unbonding ≤ waited)
  /-- Some of it waits, and cannot be released before the deadline. -/
  | waiting (hrelease : deadline ≤ info.releaseLedger) (htotal : stake ≤ info.total + burned)
      (hpaid : paid ≤ waited)

section Book

variable {b b' : Book Address} {i : Input Address} {deadline : ℕ} {stake waited paid burned : ℤ}

/-- A call of another verifier leaves the stake where it is. -/
theorem Bonded.frame {now : ℕ} {info : StakeInfo} {v : Address} (hout : paidOutTo v i = 0)
    (hburn : burnedFrom v i = 0) (h : Bonded deadline stake waited now info paid burned) :
    Bonded deadline stake waited now info (paid + paidOutTo v i) (burned + burnedFrom v i) := by
  rwa [hout, hburn, add_zero, add_zero]

/-- Ledgers pass. -/
theorem Bonded.advance {now n : ℕ} {info : StakeInfo} (hle : now ≤ n)
    (h : Bonded deadline stake waited now info paid burned) :
    Bonded deadline stake waited n info paid burned := by
  rcases h with hnow | ⟨hactive, hpaid⟩ | ⟨hrelease, htotal, hpaid⟩
  · exact .over (hnow.trans hle)
  · exact .active hactive hpaid
  · exact .waiting hrelease htotal hpaid

/-- More is staked. -/
theorem Bonded.addStake {now : ℕ} {info : StakeInfo} {amount : ℤ} (hpos : 0 < amount)
    (h : Bonded deadline stake waited now info paid burned) :
    Bonded deadline stake waited now { info with staked := info.staked + amount } paid burned := by
  rcases h with hnow | ⟨hactive, hpaid⟩ | ⟨hrelease, htotal, hpaid⟩
  · exact .over hnow
  · exact .active (by show stake ≤ info.staked + amount + burned; omega) hpaid
  · refine .waiting hrelease ?_ hpaid
    simp only [StakeInfo.total] at htotal ⊢
    omega

/-- Some is requested back: the request restarts the wait, for old and new alike. -/
theorem Bonded.requestUnstake {now release : ℕ} {info : StakeInfo} {amount : ℤ}
    (hunbonding : 0 ≤ info.unbonding) (hrelease : deadline ≤ release)
    (h : Bonded deadline stake waited now info paid burned) :
    Bonded deadline stake waited now
      { staked := info.staked - amount
        unbonding := info.unbonding + amount
        releaseLedger := release } paid burned := by
  have htotal' : info.staked - amount + (info.unbonding + amount) = info.total := by
    simp only [StakeInfo.total]
    omega
  rcases h with hnow | ⟨hactive, hpaid⟩ | ⟨-, htotal, hpaid⟩
  · exact .over hnow
  · refine .waiting hrelease ?_ (by omega)
    show stake ≤ info.staked - amount + (info.unbonding + amount) + burned
    omega
  · refine .waiting hrelease ?_ hpaid
    show stake ≤ info.staked - amount + (info.unbonding + amount) + burned
    omega

/-- What waits is paid out.  Behind the deadline that happens only once the deadline is over. -/
theorem Bonded.withdraw {now : ℕ} {info : StakeInfo} (hreleased : info.releaseLedger ≤ now)
    (h : Bonded deadline stake waited now info paid burned) :
    Bonded deadline stake waited now { info with unbonding := 0 } (paid + info.unbonding)
      burned := by
  rcases h with hnow | ⟨hactive, hpaid⟩ | ⟨hrelease, htotal, hpaid⟩
  · exact .over hnow
  · exact .active hactive (by show paid + info.unbonding + 0 ≤ waited; omega)
  · exact .over (hrelease.trans hreleased)

/-- Some is burned. -/
theorem Bonded.burn {now : ℕ} {info : StakeInfo} {amount : ℤ}
    (h : Bonded deadline stake waited now info paid burned) :
    Bonded deadline stake waited now (info.burn amount) paid (burned + amount) := by
  rcases h with hnow | ⟨hactive, hpaid⟩ | ⟨hrelease, htotal, hpaid⟩
  · exact .over hnow
  · exact .active (by simp only [StakeInfo.burn]; omega) (by simp only [StakeInfo.burn]; omega)
  · exact .waiting hrelease (by rw [StakeInfo.total_burn]; omega) hpaid

/-- **One step keeps the stake bonded.** -/
theorem Book.Step.bonded (h : Book.Step cfg b i b') (hb : ∀ v, (b.account v).Nonneg) {v : Address}
    (hdeadline : deadline ≤ b.sequence + cfg.unbondPeriod)
    (hbonded : Bonded deadline stake waited b.sequence (b.account v) paid burned) :
    Bonded deadline stake waited b'.sequence (b'.account v) (paid + paidOutTo v i)
      (burned + burnedFrom v i) := by
  cases h with
  | idle env c r hr =>
    refine hbonded.frame ?_ ?_ <;> cases c <;> cases r <;>
      first
        | exact absurd rfl (hr _)
        | rfl
  | attest => exact hbonded.frame rfl rfl
  | receive => exact hbonded.frame rfl rfl
  | advance n hle hfit => exact Bonded.frame (i := .advance n) rfl rfl (hbonded.advance hle)
  | stake env v' amount hpos =>
    refine Bonded.frame (i := .call env (.stake v' amount) (.returned .unit)) rfl rfl ?_
    rw [Book.setAccount_account, Book.setAccount_sequence]
    by_cases hv : v = v'
    · subst hv
      rw [if_pos rfl]
      exact hbonded.addStake hpos
    · rwa [if_neg hv]
  | requestUnstake env v' amount hpos hle =>
    refine Bonded.frame (i := .call env (.requestUnstake v' amount) (.returned .unit)) rfl rfl ?_
    rw [Book.setAccount_account, Book.setAccount_sequence]
    by_cases hv : v = v'
    · subst hv
      rw [if_pos rfl]
      exact hbonded.requestUnstake (hb v).unbonding hdeadline
    · rwa [if_neg hv]
  | withdraw env v' hpos hreleased =>
    rw [Book.setAccount_account, Book.setAccount_sequence]
    by_cases hv : v = v'
    · subst hv
      simp only [paidOutTo, burnedFrom, if_true, add_zero]
      exact hbonded.withdraw hreleased
    · rw [if_neg hv]
      exact hbonded.frame (by simp [paidOutTo, Ne.symm hv]) rfl
  | slash env wasmHash inputDigest v' hslash hpos =>
    rw [Book.mark_account, Book.mark_sequence, Book.setAccount_account, Book.setAccount_sequence]
    by_cases hv : v = v'
    · subst hv
      simp only [paidOutTo, burnedFrom, if_true, add_zero]
      exact hbonded.burn
    · rw [if_neg hv]
      exact hbonded.frame rfl (by simp [burnedFrom, Ne.symm hv])

/-- From an attestation on, along every path: the stake that was active then is bonded. -/
theorem Book.bonded_of_path {h : List (Transition (Book Address) (Input Address))}
    (hcfg : cfg.Accepted) (hpath : Path (Book.Step cfg) b h b') (hb : ∀ v, (b.account v).Nonneg)
    (v : Address) (hdeadline : deadline ≤ b.sequence + cfg.unbondPeriod) :
    Bonded deadline (b.account v).staked (b.account v).unbonding b'.sequence (b'.account v)
      (along (paidOutTo v) h) (along (burnedFrom v) h) := by
  have hall := hpath.invariant (P := fun h c => (∀ v, (c.account v).Nonneg) ∧
    deadline ≤ c.sequence + cfg.unbondPeriod ∧
    Bonded deadline (b.account v).staked (b.account v).unbonding c.sequence (c.account v)
      (along (paidOutTo v) h) (along (burnedFrom v) h)) ?_ ?_
  · exact hall.2.2
  · exact ⟨hb, hdeadline, .active (le_of_eq (add_zero _).symm) (le_of_eq (zero_add _))⟩
  · rintro h c i c' - ⟨hc, hd, hbonded⟩ hstep
    refine ⟨hstep.nonneg hcfg hc, hd.trans (Nat.add_le_add_right hstep.sequence_le _), ?_⟩
    simp only [along, total_append, total_singleton]
    exact hstep.bonded hc hd hbonded

end Book

/-! ## After an attestation -/

section Runs

variable {s₀ s t : Chain T} {h before after k : List (Transition (Chain T) (Input Address))}
variable {e : Transition (Chain T) (Input Address)} {env : Env Address} {v : Address}
variable {wasmHash inputDigest rebuiltHash : Bytes32} {value : Value} {opened : ℕ}

/-- A claim keeps the ledger it was opened at. -/
theorem Sound.opened_of_path (hs : Sound cfg s) (hcfg : cfg.Accepted)
    (hpath : Path (Step registry) s k t)
    (hopened : s.world.persistent.get (.opened wasmHash inputDigest) = some opened) :
    Sound cfg t ∧ t.world.persistent.get (.opened wasmHash inputDigest) = some opened := by
  obtain ⟨ht, hbook⟩ := hs.refines hcfg hpath
  have hrecord := (hs.coherent.represents (wasmHash, inputDigest)).opened
  have hrecord' := (ht.coherent.represents (wasmHash, inputDigest)).opened
  have hballot : readAttestations t.world.persistent wasmHash inputDigest =
      readAttestations s.world.persistent wasmHash inputDigest ++
        filed (wasmHash, inputDigest) (bookHistory k) :=
    Book.ballot_eq_append hbook (wasmHash, inputDigest)
  rw [hopened, eq_comm, Option.map_eq_some_iff] at hrecord
  obtain ⟨first, hfirst, rfl⟩ := hrecord
  refine ⟨ht, hrecord'.trans ?_⟩
  rw [hballot, List.head?_append, hfirst]
  rfl

/-- What an attestation in a run leaves: a sound state of the same ledger with the same accounts,
in which the claim is open. -/
theorem Run.of_attest (hrun : Run registry cfg s₀ h s) (he : e ∈ h)
    (hattest : e.label = .call env (.attest v wasmHash inputDigest rebuiltHash) (.returned value)) :
    Sound cfg e.post ∧ e.post.sequence = e.pre.sequence ∧
      e.post.book.account v = e.pre.book.account v ∧
      ∃ opened, e.post.world.persistent.get (.opened wasmHash inputDigest) = some opened ∧
        opened ≤ e.pre.sequence ∧ e.pre.sequence < opened + cfg.attestWindow := by
  obtain ⟨before, after, rfl, hbefore, hstep, -⟩ := hrun.path.split he
  obtain ⟨haccepted, -, -⟩ := hrun.deployed.sound
  obtain ⟨hpre, hbook⟩ := hrun.step_of_mem he
  obtain ⟨hpost, -⟩ := hstep.refines haccepted hpre
  have hfiled : filedOn (wasmHash, inputDigest) e.label = some ⟨v, rebuiltHash, env.sequence⟩ := by
    rw [hattest, filedOn, if_pos rfl]
  obtain ⟨hledger, -, -, -, hsequence, haccount⟩ := hbook.of_filedOn hfiled
  have hrunTo : Run registry cfg s₀ (before ++ [⟨e.pre, e.label, e.post⟩]) e.post :=
    ⟨hrun.deployed, hbefore.snoc hstep⟩
  have hwell := hrunTo.wellFormed (wasmHash, inputDigest)
  have hmem : ⟨v, rebuiltHash, env.sequence⟩ ∈
      filed (wasmHash, inputDigest) (before ++ [⟨e.pre, e.label, e.post⟩]) := by
    rw [filed_snoc, hfiled]
    simp
  have hrecord := (hpost.coherent.represents (wasmHash, inputDigest)).opened
  rw [hrunTo.ballot_eq_filed (wasmHash, inputDigest)] at hrecord
  cases hballot : filed (wasmHash, inputDigest) (before ++ [⟨e.pre, e.label, e.post⟩]) with
  | nil =>
    rw [hballot] at hmem
    exact absurd hmem List.not_mem_nil
  | cons first rest =>
    rw [hballot] at hrecord hwell hmem
    obtain ⟨hfrom, huntil⟩ := hwell.inWindow first rfl _ hmem
    have hseq : env.sequence = e.pre.sequence := hledger
    rw [hseq] at hfrom huntil
    exact ⟨hpost, hsequence, congrFun haccount v, first.ledger, hrecord, hfrom, huntil⟩

/-- From an attestation on, the stake that was active then is bonded until `deadline`. -/
theorem Run.bonded_of_attest (hrun : Run registry cfg s₀ h s) (he : e ∈ h)
    (hattest : e.label = .call env (.attest v wasmHash inputDigest rebuiltHash) (.returned value))
    (hpath : Path (Step registry) e.post k t) {deadline : ℕ}
    (hdeadline : deadline ≤ e.pre.sequence + cfg.unbondPeriod) :
    Bonded deadline (readStake e.pre.world.persistent v).staked
      (readStake e.pre.world.persistent v).unbonding t.sequence (readStake t.world.persistent v)
      (along (paidOutTo v) k) (along (burnedFrom v) k) := by
  obtain ⟨haccepted, -, -⟩ := hrun.deployed.sound
  obtain ⟨hpost, hsequence, haccount, -⟩ := hrun.of_attest he hattest
  obtain ⟨-, hbook⟩ := hpost.refines haccepted hpath
  have hlate : deadline ≤ e.post.book.sequence + cfg.unbondPeriod :=
    hdeadline.trans (Nat.add_le_add_right (le_of_eq hsequence.symm) _)
  have hbonded := Book.bonded_of_path haccepted hbook hpost.nonneg v hlate
  rw [haccount, along_bookHistory, along_bookHistory] at hbonded
  exact hbonded

/-- **Before the close the stake is there.**  If `v` attests with `S` of active stake, then in
every later state before the claim's close `v` has at least `S` in the registry, less what slashes
have burned from it since. -/
theorem Run.stake_stays (hrun : Run registry cfg s₀ (before ++ e :: after) s)
    (hattest : e.label = .call env (.attest v wasmHash inputDigest rebuiltHash) (.returned value))
    (hopened : s.world.persistent.get (.opened wasmHash inputDigest) = some opened)
    (hopen : s.sequence < opened + cfg.attestWindow) :
    (readStake e.pre.world.persistent v).staked - along (burnedFrom v) after ≤
      (readStake s.world.persistent v).staked + (readStake s.world.persistent v).unbonding := by
  have he : e ∈ before ++ e :: after := List.mem_append_right _ List.mem_cons_self
  obtain ⟨-, -, hafter⟩ := hrun.path.cut
  obtain ⟨haccepted, -, -⟩ := hrun.deployed.sound
  obtain ⟨hpost, -, -, opened', hopened', hfrom, -⟩ := hrun.of_attest he hattest
  obtain ⟨hsound, hopened''⟩ := hpost.opened_of_path haccepted hafter hopened'
  have hsame : opened' = opened := Option.some.inj (hopened''.symm.trans hopened)
  have hwindow := haccepted.attestWindow_le
  have hdeadline : opened + cfg.attestWindow ≤ e.pre.sequence + cfg.unbondPeriod := by
    rw [← hsame]
    exact Nat.add_le_add hfrom hwindow
  have hunbonding := (hsound.nonneg v).unbonding
  rcases hrun.bonded_of_attest he hattest hafter hdeadline with
    hnow | ⟨hactive, -⟩ | ⟨-, htotal, -⟩
  · exact absurd hopen (not_lt.mpr hnow)
  · omega
  · simp only [StakeInfo.total] at htotal
    omega

theorem Sample.lie_stays :
    (1000 : ℤ) ≤
      (readStake (played 0 (Sample.lie 60 60).post
        (Sample.departure 59)).world.persistent 2).staked +
      (readStake (played 0 (Sample.lie 60 60).post
        (Sample.departure 59)).world.persistent 2).unbonding := by
  have hrun : Run 0 (Sample.config 60 60) (Sample.chain 60 60)
      (play 0 (Sample.chain 60 60) [.call (.stake 2 1000)] ++
        Sample.lie 60 60 :: play 0 (Sample.lie 60 60).post (Sample.departure 59))
      (played 0 (Sample.lie 60 60).post (Sample.departure 59)) :=
    Sample.run 60 60 (.call (.stake 2 1000) ::
      .call (.attest 2 Sample.onChain Sample.digest Sample.forged) :: Sample.departure 59)
      (by decide) (by decide) (by decide +kernel)
  have hopened : (played 0 (Sample.lie 60 60).post (Sample.departure 59)).world.persistent.get
      (.opened Sample.onChain Sample.digest) = some 1 := rfl
  have hburned : along (burnedFrom 2) (play 0 (Sample.lie 60 60).post
      (Sample.departure 59)) = 0 := by decide +kernel
  have hstaked : (readStake (Sample.lie 60 60).pre.world.persistent 2).staked = 1000 := by
    decide +kernel
  have hstays := hrun.stake_stays Sample.lie_label hopened (by decide +kernel)
  rwa [hburned, hstaked, sub_zero] at hstays

/-- Until ledger `L` the stake that `v` had active before the transition `e` cannot be paid out,
and from `L` on `slash` does not refuse the claim for its window. -/
structure Exposed (registry : Address) (cfg : Config Address) (claim : Claim) (v : Address)
    (e : Transition (Chain T) (Input Address)) (L : ℕ) : Prop where
  closed : ∀ k t, Path (Step registry) e.post k t → L ≤ t.sequence →
    ∃ opened, t.world.persistent.get (.opened claim.1 claim.2) = some opened ∧
      opened + cfg.attestWindow ≤ t.sequence
  unpaid : ∀ k t, Path (Step registry) e.post k t → t.sequence ≤ L →
    along (paidOutTo v) k ≤ (readStake e.pre.world.persistent v).unbonding

/-- **One ledger of slack is enough.**  If the unbonding period of a request made with the
attestation ends after the claim's close, then at the close the claim can be slashed on, while
nothing of the stake that was active at the attestation has left: whatever was paid out since
was waiting already. -/
theorem Run.exposed_of_lt (hrun : Run registry cfg s₀ h s) (he : e ∈ h)
    (hattest : e.label = .call env (.attest v wasmHash inputDigest rebuiltHash) (.returned value))
    (hopened : e.post.world.persistent.get (.opened wasmHash inputDigest) = some opened)
    (hfits : opened + cfg.attestWindow ≤ u32Max)
    (hslack : opened + cfg.attestWindow < e.pre.sequence + cfg.unbondPeriod) :
    ∃ L, opened + cfg.attestWindow ≤ L ∧ L ≤ u32Max ∧
      Exposed registry cfg (wasmHash, inputDigest) v e L := by
  obtain ⟨haccepted, -, -⟩ := hrun.deployed.sound
  obtain ⟨hpost, -, -, -⟩ := hrun.of_attest he hattest
  refine ⟨opened + cfg.attestWindow, le_rfl, hfits, ?_, ?_⟩
  · intro k t hpath hle
    obtain ⟨-, hopened'⟩ := hpost.opened_of_path haccepted hpath hopened
    exact ⟨opened, hopened', hle⟩
  · intro k t hpath hle
    obtain ⟨ht, -⟩ := hpost.refines haccepted hpath
    have hunbonding := (ht.nonneg v).unbonding
    -- the deadline is the ledger after the close
    rcases hrun.bonded_of_attest he hattest hpath (Nat.succ_le_of_lt hslack) with
      hnow | ⟨-, hpaid⟩ | ⟨-, -, hpaid⟩
    · omega
    · omega
    · exact hpaid

theorem Sample.lie_exposed :
    ∃ L, 61 ≤ L ∧ L ≤ u32Max ∧ Exposed 0 (Sample.config 60 120) (Sample.onChain, Sample.digest) 2
      (Sample.lie 60 120) L := by
  have hrun := Sample.run 60 120 [.call (.stake 2 1000),
    .call (.attest 2 Sample.onChain Sample.digest Sample.forged)] (by decide) (by decide)
    (by decide +kernel)
  have hmem : Sample.lie 60 120 ∈ play 0 (Sample.chain 60 120) [.call (.stake 2 1000),
      .call (.attest 2 Sample.onChain Sample.digest Sample.forged)] :=
    List.mem_cons_of_mem _ List.mem_cons_self
  have hopened : (Sample.lie 60 120).post.world.persistent.get
      (.opened Sample.onChain Sample.digest) = some 1 := rfl
  exact hrun.exposed_of_lt hmem Sample.lie_label hopened (by decide) (by decide +kernel)

/-- **Without slack the stake is gone at the close.**  With `unbond_period = attest_window`, an
accepted configuration, verifier 2 opens a claim at ledger 1 with an attestation, asks for its
stake back in the same ledger, and is paid it in ledger 61, the first in which `slash` works. -/
theorem Sample.leaves_at_the_close :
    (Sample.config 60 60).Accepted ∧
    Run 0 (Sample.config 60 60) (Sample.chain 60 60)
      (play 0 (Sample.chain 60 60) [.call (.stake 2 1000)] ++ [Sample.lie 60 60])
      (Sample.lie 60 60).post ∧
    (Sample.lie 60 60).label = .call ⟨1, 0, fun _ => true⟩
      (.attest 2 Sample.onChain Sample.digest Sample.forged) (.returned .unit) ∧
    (Sample.lie 60 60).post.world.persistent.get (.opened Sample.onChain Sample.digest) = some 1 ∧
    ¬ ∃ L, 1 + 60 ≤ L ∧ L ≤ u32Max ∧
      Exposed 0 (Sample.config 60 60) (Sample.onChain, Sample.digest) 2 (Sample.lie 60 60) L := by
  have hrun : Run 0 (Sample.config 60 60) (Sample.chain 60 60)
      (play 0 (Sample.chain 60 60) [.call (.stake 2 1000)] ++ [Sample.lie 60 60])
      (Sample.lie 60 60).post :=
    Sample.run 60 60 [.call (.stake 2 1000),
      .call (.attest 2 Sample.onChain Sample.digest Sample.forged)] (by decide) (by decide)
      (by decide +kernel)
  refine ⟨hrun.deployed.sound.1, hrun, Sample.lie_label, rfl, ?_⟩
  rintro ⟨L, hclose, -, hexposed⟩
  have hsequence : (played 0 (Sample.lie 60 60).post (Sample.departure 60)).sequence = 61 := by
    decide +kernel
  have hpaid : along (paidOutTo 2) (play 0 (Sample.lie 60 60).post (Sample.departure 60)) =
      1000 := by decide +kernel
  have hwaiting : (readStake (Sample.lie 60 60).pre.world.persistent 2).unbonding = 0 := by
    decide +kernel
  have hunpaid := hexposed.unpaid _ _ (path_play (Sample.departure 60) (by decide +kernel))
    (by omega)
  rw [hpaid, hwaiting] at hunpaid
  omega

end Runs
end Registry
end Sorofy
