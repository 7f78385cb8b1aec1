import Sorofy.Registry.Slashing

/-!
# Refused calls

An entry point that returns one of the contract's errors has written nothing, whether or not the
host rolls it back.  For `stake`, `request_unstake`, `withdraw` and `slash` that is the order of
their statements: they check, and then they write.  `attest` writes the claim's `Opened` record
before it looks for an attestation of the same verifier; it is saved by the invariant that ties
the two records together, since a claim that is not opened has no attestations (`Represents`).
-/

namespace Sorofy
namespace Registry

open Foundation
open History

variable {Address : Type} [DecidableEq Address] {T : Token Address}
variable {registry : Address} {env : Env Address} {cfg : Config Address} {w w' : World T}
variable {wasmHash inputDigest rebuiltHash : Bytes32} {claim : Claim} {v : Address} {amount : ℤ}
variable {error : Error}

/-! ## One entry point after the other -/

theorem stake_eq_err (h : stake env v amount w = .err error w') : w' = w := by
  simp only [stake, requireAuth, transfer, checkedI128, put, publish, readConfig, Tx.bind_eq_err,
    Tx.bind_eq_ok, Tx.demand_eq_ok, Tx.demand_ne_err, Tx.refuseIf_eq_ok, Tx.refuseIf_eq_err,
    Tx.read_eq_ok, Tx.read_ne_err, Tx.someOrTrap_eq_ok, Tx.someOrTrap_ne_err, Tx.fit_eq_ok,
    Tx.fit_ne_err, Tx.update_eq_ok, Tx.update_ne_err, tokenCall_eq_ok, tokenCall_ne_err,
    existsAndEq, exists_const, exists_false, and_false, false_or, or_false] at h
  grind

theorem requestUnstake_eq_err (h : requestUnstake env v amount w = .err error w') : w' = w := by
  simp only [requestUnstake, requireAuth, checkedI128, checkedU32, put, publish, readConfig,
    Tx.bind_eq_err, Tx.bind_eq_ok, Tx.demand_eq_ok, Tx.demand_ne_err, Tx.refuseIf_eq_ok,
    Tx.refuseIf_eq_err, Tx.read_eq_ok, Tx.read_ne_err, Tx.someOrTrap_eq_ok, Tx.someOrTrap_ne_err,
    Tx.fit_eq_ok, Tx.fit_ne_err, Tx.update_eq_ok, Tx.update_ne_err, existsAndEq, exists_const,
    exists_false, and_false, false_or, or_false] at h
  grind

theorem withdraw_eq_err (h : withdraw env v w = .err error w') : w' = w := by
  simp only [withdraw, requireAuth, transfer, put, publish, readConfig, Tx.bind_eq_err,
    Tx.bind_eq_ok, Tx.demand_eq_ok, Tx.demand_ne_err, Tx.refuseIf_eq_ok, Tx.refuseIf_eq_err,
    Tx.read_eq_ok, Tx.read_ne_err, Tx.someOrTrap_eq_ok, Tx.someOrTrap_ne_err, Tx.update_eq_ok,
    Tx.update_ne_err, Tx.pure_ne_err, tokenCall_eq_ok, tokenCall_ne_err, existsAndEq,
    exists_const, exists_false, and_false, false_or, or_false] at h
  grind

/-- The window of a claim refuses before it writes. -/
theorem enterWindow_eq_err
    (h : enterWindow env cfg wasmHash inputDigest w = .err error w') :
    (∃ opened, w.persistent.get (.opened wasmHash inputDigest) = some opened) ∧
      error = .windowClosed ∧ w' = w := by
  cases hopened : w.persistent.get (.opened wasmHash inputDigest) with
  | none => simp [enterWindow, get, put, hopened] at h
  | some opened =>
    simp only [enterWindow, get, hopened, checkedU32, Tx.bind_eq_err, Tx.read_eq_ok,
      Tx.read_ne_err, Tx.fit_eq_ok, Tx.fit_ne_err, Tx.refuseIf_eq_err, existsAndEq, false_or,
      true_and, and_true] at h
    grind

/-- Where `attest` refuses: at the stake, at the window, or, past the window, at an attestation
the verifier has filed already. -/
theorem attest_eq_err (h : attest env v wasmHash inputDigest rebuiltHash w = .err error w') :
    (error = .notActive ∧ w' = w) ∨
    (∃ cfg, enterWindow env cfg wasmHash inputDigest w = .err error w') ∨
    (∃ cfg u, enterWindow env cfg wasmHash inputDigest w = .ok u w' ∧
      ∃ att, w'.persistent.get (.att wasmHash inputDigest v) = some att) := by
  simp only [attest, requireAuth, get, put, publish, readConfig, Tx.bind_eq_err, Tx.bind_eq_ok,
    Tx.demand_eq_ok, Tx.demand_ne_err, Tx.refuseIf_eq_ok, Tx.refuseIf_eq_err, Tx.read_eq_ok,
    Tx.read_ne_err, Tx.someOrTrap_eq_ok, Tx.someOrTrap_ne_err, Tx.update_eq_ok, Tx.update_ne_err,
    existsAndEq, exists_const, exists_false, and_false, false_or, or_false] at h
  grind [Option.isSome_iff_exists]

/-! ## The two records of a claim -/

omit [DecidableEq Address] in
/-- Nobody has attested a claim that is not opened. -/
theorem Represents.att_eq_none {st : Storage Address} {atts : List (Attestation Address)}
    (h : Represents st claim atts) (hopened : st.get (.opened claim.1 claim.2) = none) :
    st.get (.att claim.1 claim.2 v) = none := by
  have hhead := h.opened
  rw [hopened, eq_comm, Option.map_eq_none_iff, List.head?_eq_none_iff] at hhead
  subst hhead
  rw [Option.eq_none_iff_forall_not_mem]
  intro a ha
  exact absurd ((h.att v a).mp ha).1 List.not_mem_nil

/-- **An `attest` that refuses** has written nothing, and refuses a second attestation only of an
opened claim. -/
theorem Coherent.attest_eq_err (hw : Coherent cfg w)
    (h : attest env v wasmHash inputDigest rebuiltHash w = .err error w') :
    w' = w ∧ (error = .alreadyAttested →
      ∃ opened, w.persistent.get (.opened wasmHash inputDigest) = some opened) := by
  rcases Registry.attest_eq_err h with ⟨rfl, rfl⟩ | ⟨c, hwindow⟩ | ⟨c, u, hwindow, att, hatt⟩
  · exact ⟨rfl, fun h => absurd h (by decide)⟩
  · obtain ⟨hopened, -, rfl⟩ := enterWindow_eq_err hwindow
    exact ⟨rfl, fun _ => hopened⟩
  rcases enterWindow_eq_ok.mp hwindow with ⟨hnone, rfl⟩ | ⟨opened, hsome, -, -, rfl⟩
  · -- the call has just opened the claim, so there is no attestation to be refused for
    have hatt' := (hw.represents (wasmHash, inputDigest)).att_eq_none (v := v) hnone
    rw [Storage.get_set_of_ne _ _ (by simp), hatt'] at hatt
    exact absurd hatt (by simp)
  · exact ⟨rfl, fun _ => ⟨opened, hsome⟩⟩

/-! ## Every call -/

/-- **A refused call** has written nothing. -/
theorem Coherent.run_eq_err (hw : Coherent cfg w) {c : Call Address}
    (h : c.run env w = .err error w') : w' = w := by
  cases c with
  | stake v amount =>
    simp only [Call.run, Tx.bind_eq_err, Tx.pure_ne_err, and_false, exists_false, or_false] at h
    exact stake_eq_err h
  | requestUnstake v amount =>
    simp only [Call.run, Tx.bind_eq_err, Tx.pure_ne_err, and_false, exists_false, or_false] at h
    exact requestUnstake_eq_err h
  | withdraw v =>
    simp only [Call.run, Tx.bind_eq_err, Tx.pure_ne_err, and_false, exists_false, or_false] at h
    exact withdraw_eq_err h
  | attest v wasmHash inputDigest rebuiltHash =>
    simp only [Call.run, Tx.bind_eq_err, Tx.pure_ne_err, and_false, exists_false, or_false] at h
    exact (hw.attest_eq_err h).1
  | slash wasmHash inputDigest v =>
    simp only [Call.run, Tx.bind_eq_err, Tx.pure_ne_err, and_false, exists_false, or_false] at h
    exact slash_eq_err h

variable {s₀ s : Chain T} {h : List (Transition (Chain T) (Input Address))}

/-- **Refusals leave no trace.**  In a reachable state, a call that returns an error leaves the
world it found, without any rollback; and `attest` never answers `AlreadyAttested` for a claim
that is not opened. -/
theorem Run.refusal_leaves_no_trace (hrun : Run registry cfg s₀ h s) (env : Env Address) :
    (∀ (c : Call Address) (error : Error) (w' : World T),
      c.run env s.world = .err error w' → w' = s.world) ∧
    ∀ (v : Address) (wasmHash inputDigest rebuiltHash : Bytes32) (w' : World T),
      s.world.persistent.get (.opened wasmHash inputDigest) = none →
        (Call.attest v wasmHash inputDigest rebuiltHash).run env s.world ≠
          .err .alreadyAttested w' := by
  obtain ⟨hsound, -⟩ := hrun.refines
  refine ⟨fun c error w' => hsound.coherent.run_eq_err, ?_⟩
  intro v wasmHash inputDigest rebuiltHash w' hnone herr
  simp only [Call.run, Tx.bind_eq_err, Tx.pure_ne_err, and_false, exists_false, or_false] at herr
  obtain ⟨opened, hopened⟩ := (hsound.coherent.attest_eq_err herr).2 rfl
  rw [hnone] at hopened
  exact absurd hopened (by simp)

/-- The dispute, in which verifier 2 tries to attest once more. -/
theorem Sample.second_attestation_refused :
    ∃ w', (Call.attest 2 Sample.onChain Sample.digest Sample.onChain).run
        ⟨6, 0, fun _ => true⟩ (played 0 (Sample.chain 60 120) Sample.dispute).world =
          .err .alreadyAttested w' ∧
      w' = (played 0 (Sample.chain 60 120) Sample.dispute).world := by
  have hrun := Sample.run 60 120 Sample.dispute (by decide) (by decide) (by decide +kernel)
  have hrefused : ∃ w', (Call.attest 2 Sample.onChain Sample.digest Sample.onChain).run
      ⟨6, 0, fun _ => true⟩ (played 0 (Sample.chain 60 120) Sample.dispute).world =
        .err .alreadyAttested w' := ⟨_, rfl⟩
  obtain ⟨w', herr⟩ := hrefused
  exact ⟨w', herr, (hrun.refusal_leaves_no_trace ⟨6, 0, fun _ => true⟩).1 _ _ _ herr⟩

end Registry
end Sorofy
