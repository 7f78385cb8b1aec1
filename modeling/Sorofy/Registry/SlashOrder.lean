import Sorofy.Foundation.Strikes
import Sorofy.Registry.Slashing

/-!
# The order of slashes

Anybody may call `slash`, so strangers choose the order in which a verifier is slashed for
several claims, how often each call is repeated and whose turn it is in between.  Some of these
calls burn, and each burns a share of what the calls before it left; others are refused, for a
reason that may depend on what ran before.

A call of `slash` is a strike of `Foundation.Strikes`: the charges are the claims a verifier can
still be slashed for, and the hit is the burn, which looks at nothing but the verifier's stake
(`Run.strike_of_slash`).  So the order decides neither what any verifier is left with nor how
much is burned altogether (`Run.slashes_commute`).
-/

namespace Sorofy
namespace Registry

open Foundation
open History
open Plurality
open Strikes

variable {Address : Type}

/-- The claim and the verifier of a `slash` call. -/
def slashOf : Input Address → Option (Claim × Address)
  | .call _ (.slash wasmHash inputDigest v) _ => some ((wasmHash, inputDigest), v)
  | _ => none

/-- What a successful `slash` call burned. -/
def burnedBy : Input Address → ℤ
  | .call _ (.slash _ _ _) (.returned (.amount amount)) => amount
  | _ => 0

/-- The transitions of the history are these `slash` calls, one after another. -/
def AreSlashes (calls : List (Claim × Address)) {σ : Type}
    (h : List (Transition σ (Input Address))) : Prop :=
  h.map (fun e => slashOf e.label) = calls.map some

variable [DecidableEq Address] {T : Token Address}
variable {registry : Address} {env : Env Address} {cfg : Config Address}

/-! ## A slash is a strike -/

section Strike

open Classical

/-- What a slash leaves of an account: nothing happens when an amount overflows or there is
nothing to burn. -/
noncomputable def slashHit (cfg : Config Address) (info : StakeInfo) : Option StakeInfo :=
  if Computable cfg info ∧ 0 < slashAmount cfg info then
    some (info.burn (slashAmount cfg info))
  else none

/-- The accounts, and the claims verifiers can be slashed for. -/
def boardOf (cfg : Config Address) (b : Book Address) : Board Claim Address StakeInfo where
  account := b.account
  pending := {t | Book.Slashable cfg b t.1 t.2 ∧
    2 * largest (hashes (b.ballot t.1)) ≤ u32Max}

omit [DecidableEq Address] in
theorem slashHit_eq_some {info info' : StakeInfo} :
    slashHit cfg info = some info' ↔
      Computable cfg info ∧ 0 < slashAmount cfg info ∧
        info' = info.burn (slashAmount cfg info) := by
  unfold slashHit
  split_ifs with h
  · simp [h.1, h.2, eq_comm]
  · rw [iff_false_left (by simp)]
    exact fun h' => h ⟨h'.1, h'.2.1⟩

/-- Burning and marking, seen on the board. -/
theorem boardOf_slash {b : Book Address} {t : Claim × Address} {info : StakeInfo} :
    boardOf cfg ((b.setAccount t.2 info).mark t.1 t.2) =
      ⟨Function.update (boardOf cfg b).account t.2 info, (boardOf cfg b).pending \ {t}⟩ := by
  ext t'
  · rfl
  · constructor
    · rintro ⟨⟨hclosed, hquorate, hdissents, hunmarked⟩, hcountable⟩
      exact ⟨⟨⟨hclosed, hquorate, hdissents, fun h => hunmarked (Or.inr h)⟩, hcountable⟩,
        fun heq => hunmarked (Or.inl (Prod.ext_iff.mp heq))⟩
    · rintro ⟨⟨⟨hclosed, hquorate, hdissents, hunmarked⟩, hcountable⟩, hne⟩
      refine ⟨⟨hclosed, hquorate, hdissents, ?_⟩, hcountable⟩
      rintro (heq | h)
      · exact hne (Prod.ext_iff.mpr heq)
      · exact hunmarked h

end Strike

variable {s₀ s s' t t' : Chain T} {h k k' : List (Transition (Chain T) (Input Address))}
variable {i : Input Address} {calls calls' : List (Claim × Address)}

omit [DecidableEq Address] in
/-- What `slash` computes of an account is its hit. -/
theorem slashHit_of_computes {info : StakeInfo} {amount : ℤ} (h0 : 0 ≤ info.total)
    (h : Computes cfg info amount) : slashHit cfg info = some (info.burn amount) := by
  have hamount := h.amount_eq
  have hpos := h.pos
  rw [hamount, amount_eq_slashAmount h0] at hpos ⊢
  refine slashHit_eq_some.mpr ⟨⟨h.total_fits, h.product_fits, fun _ => ?_⟩, hpos, rfl⟩
  rw [← hamount]
  exact ⟨h.staked_fits, h.remainder_fits, h.unbonding_fits⟩

/-- A `slash` that does not return was at nothing pending, or hit nothing. -/
theorem Run.strike_of_not_returned (hT : T.Exact) (hfits : T.FitsI128) (hburns : T.BurnsHeld)
    (hrun : Run registry cfg s₀ h s) (henv : env.currentContractAddress = registry)
    (hseq : env.sequence = s.sequence) {call : Claim × Address}
    (hnot : ∀ amount w', slash env call.1.1 call.1.2 call.2 s.world ≠ .ok amount w') :
    strike (slashHit cfg) (boardOf cfg s.book) call = boardOf cfg s.book := by
  obtain ⟨hsound, -⟩ := hrun.refines
  have hnonneg := hsound.nonneg call.2
  by_cases hpending : call ∈ (boardOf cfg s.book).pending
  · refine strike_of_none ?_
    by_contra hhit
    obtain ⟨info, hinfo⟩ := Option.ne_none_iff_exists'.mp hhit
    obtain ⟨hcomputable, hpos, -⟩ := slashHit_eq_some.mp hinfo
    have hcomputes := hcomputable.computes (amount_eq_slashAmount hnonneg.total).symm hpos
    obtain ⟨w', hok⟩ := hrun.slash_returns hT hfits hburns henv
      (hrun.punishable hseq hpending.1 hpending.2) hcomputes
    exact hnot _ w' hok
  · exact strike_of_notMem hpending

/-- A `slash` that returns has hit. -/
theorem Run.strike_of_returned (hrun : Run registry cfg s₀ h s) (hseq : env.sequence = s.sequence)
    {call : Claim × Address} {amount : ℤ} {w' : World T}
    (hok : slash env call.1.1 call.1.2 call.2 s.world = .ok amount w') :
    boardOf cfg (bookOf s.sequence w') = strike (slashHit cfg) (boardOf cfg s.book) call := by
  obtain ⟨hsound, -⟩ := hrun.refines
  obtain ⟨hpunish, hcomputes, -⟩ := (slash_eq_ok hsound.coherent.config_eq).mp hok
  obtain ⟨hslashable, -, hcountable⟩ := (punishable_iff hsound.coherent).mp hpunish
  rw [hseq] at hslashable
  have hhit := slashHit_of_computes (hsound.nonneg call.2).total hcomputes
  rw [strike_of_some (b := boardOf cfg s.book) hhit ⟨hslashable, hcountable⟩, ← boardOf_slash,
    (bookOf_slash hsound.coherent s.sequence hok).2]
  rfl

/-- **A `slash` call is a strike.** -/
theorem Run.strike_of_slash (hT : T.Exact) (hfits : T.FitsI128) (hburns : T.BurnsHeld)
    (hrun : Run registry cfg s₀ h s) (hstep : Step registry s i s') {call : Claim × Address}
    (hslash : slashOf i = some call) :
    boardOf cfg s'.book = strike (slashHit cfg) (boardOf cfg s.book) call := by
  cases hstep with
  | advance n hle hfit => exact absurd hslash (by simp [slashOf])
  | receive token amount h0 hbalance => exact absurd hslash (by simp [slashOf])
  | call authorized c =>
    cases c with
    | slash wasmHash inputDigest v =>
      cases Option.some.inj hslash
      by_cases hok : ∃ amount w', slash ⟨s.sequence, registry, authorized⟩ wasmHash inputDigest v
          s.world = .ok amount w'
      · obtain ⟨amount, w', hok⟩ := hok
        have hrun' := (Call.run_eq_ok (c := .slash wasmHash inputDigest v)).mpr ⟨amount, hok, rfl⟩
        rw [hrun', Outcome.commit_ok]
        exact hrun.strike_of_returned rfl hok
      · rw [Outcome.commit_of_ne_ok fun value w' hrun' => hok ?_,
          hrun.strike_of_not_returned hT hfits hburns rfl rfl fun amount w' h' => hok ⟨amount, w', h'⟩]
        obtain ⟨amount, hslash', -⟩ := Call.run_eq_ok.mp hrun'
        exact ⟨amount, w', hslash'⟩
    | _ => exact absurd hslash (by simp [slashOf])

/-! ## Any number of slashes -/

omit [DecidableEq Address] in
theorem AreSlashes.of_mem {σ : Type} {l : List (Transition σ (Input Address))}
    (hcalls : AreSlashes calls l) {e : Transition σ (Input Address)} (he : e ∈ l) :
    ∃ call ∈ calls, slashOf e.label = some call := by
  have hmem : slashOf e.label ∈ calls.map some := by
    rw [← hcalls]
    exact List.mem_map_of_mem he
  obtain ⟨call, hcall, heq⟩ := List.mem_map.mp hmem
  exact ⟨call, hcall, heq.symm⟩

/-- A path of `slash` calls is a sequence of strikes. -/
theorem Run.board_of_slashes (hT : T.Exact) (hfits : T.FitsI128) (hburns : T.BurnsHeld)
    (hrun : Run registry cfg s₀ h s) (hpath : Path (Step registry) s k t)
    (hcalls : AreSlashes calls k) :
    boardOf cfg t.book = calls.foldl (strike (slashHit cfg)) (boardOf cfg s.book) := by
  induction hpath generalizing calls with
  | nil =>
    rw [List.map_eq_nil_iff.mp hcalls.symm]
    rfl
  | snoc hprev hstep ih =>
    rw [AreSlashes, List.map_append, eq_comm, List.map_eq_append_iff] at hcalls
    obtain ⟨before, last, rfl, hbefore, hlast⟩ := hcalls
    obtain ⟨call, rfl, hcall⟩ := List.map_eq_singleton_iff.mp hlast
    have hreached : Run registry cfg s₀ (h ++ _) _ := ⟨hrun.deployed, hrun.path.trans hprev⟩
    rw [List.foldl_append, ← ih hbefore.symm,
      hreached.strike_of_slash hT hfits hburns hstep hcall.symm]
    rfl

/-- What a slash burns, it burns of the verifier it is called for. -/
theorem burnedBy_eq_sum {S : Finset Address} {call : Claim × Address} (hcall : slashOf i = some call)
    (hmem : call.2 ∈ S) : burnedBy i = -∑ v ∈ S, netOf v i := by
  cases i with
  | advance n => exact absurd hcall (by simp [slashOf])
  | receive amount => exact absurd hcall (by simp [slashOf])
  | call env c r =>
    cases c with
    | slash wasmHash inputDigest v =>
      cases Option.some.inj hcall
      have hsum := inward_eq (i := .call env (.slash wasmHash inputDigest v) r) (S := S) (by
        intro v' hv'
        cases hv'
        exact hmem)
      have hinward : inward (.call env (.slash wasmHash inputDigest v) r) =
          -burnedBy (.call env (.slash wasmHash inputDigest v) r) := by
        cases r with
        | returned value => cases value <;> simp [inward, burnedBy]
        | _ => simp [inward, burnedBy]
      simp only [receivedBy] at hsum
      omega
    | _ => exact absurd hcall (by simp [slashOf])

/-- The total burned is what the verifiers lost. -/
theorem Run.burned_eq_sum (hrun : Run registry cfg s₀ h s) (hpath : Path (Step registry) s k t)
    (hcalls : AreSlashes calls k) :
    along burnedBy k = ∑ v ∈ (calls.map Prod.snd).toFinset,
      ((s.book.account v).total - (t.book.account v).total) := by
  obtain ⟨hsound, -⟩ := hrun.refines
  obtain ⟨haccepted, -, -⟩ := hrun.deployed.sound
  obtain ⟨-, hbook⟩ := hsound.refines haccepted hpath
  have hlost : ∀ v, (s.book.account v).total - (t.book.account v).total = -along (netOf v) k := by
    intro v
    obtain ⟨-, htotal⟩ := hbook.conservation (I := fun _ => True)
      (φ := fun b => (b.account v).total) (f := fun e => netOf v e.label)
      (fun b i b' _ hstep => ⟨trivial, hstep.total_eq v⟩) trivial
    have hnet : total (fun e => netOf v e.label) (bookHistory k) = along (netOf v) k :=
      along_bookHistory (netOf v)
    omega
  have hsplit : along burnedBy k =
      total (fun e => ∑ v ∈ (calls.map Prod.snd).toFinset, -netOf v e.label) k := by
    refine total_congr fun e he => ?_
    obtain ⟨call, hmem, hcall⟩ := hcalls.of_mem he
    rw [burnedBy_eq_sum hcall (List.mem_toFinset.mpr (List.mem_map_of_mem hmem)),
      Finset.sum_neg_distrib]
  rw [hsplit, total_finset_sum]
  refine Finset.sum_congr rfl fun v _ => ?_
  rw [hlost v]
  exact total_neg (fun e => netOf v e.label) k

/-- **The order of slashes does not matter.**  From a reachable state, the same `slash` calls in
two orders, with nothing in between, leave every verifier the same stake and burn the same amount
altogether. -/
theorem Run.slashes_commute (hT : T.Exact) (hfits : T.FitsI128) (hburns : T.BurnsHeld)
    (hrun : Run registry cfg s₀ h s) (hperm : calls.Perm calls')
    (hpath : Path (Step registry) s k t) (hcalls : AreSlashes calls k)
    (hpath' : Path (Step registry) s k' t') (hcalls' : AreSlashes calls' k') :
    (∀ v, readStake t.world.persistent v = readStake t'.world.persistent v) ∧
      along burnedBy k = along burnedBy k' := by
  have hboard := hrun.board_of_slashes hT hfits hburns hpath hcalls
  have hboard' := hrun.board_of_slashes hT hfits hburns hpath' hcalls'
  have haccount : t.book.account = t'.book.account := by
    calc t.book.account
        = (calls.foldl (strike (slashHit cfg)) (boardOf cfg s.book)).account := by rw [← hboard]; rfl
      _ = (calls'.foldl (strike (slashHit cfg)) (boardOf cfg s.book)).account :=
          account_foldl_perm hperm
      _ = t'.book.account := by rw [← hboard']; rfl
  refine ⟨congrFun haccount, ?_⟩
  rw [hrun.burned_eq_sum hpath hcalls, hrun.burned_eq_sum hpath' hcalls', haccount,
    List.toFinset_eq_of_perm _ _ (hperm.map Prod.snd)]

/-- Verifier 2 is outvoted on two claims. -/
def Sample.outvoteTwice : List (Move ℕ) :=
  [.call (.stake 1 1000), .call (.stake 2 1000), .call (.stake 3 1000),
    .call (.attest 1 onChain digest onChain), .call (.attest 2 onChain digest forged),
    .call (.attest 3 onChain digest onChain), .call (.attest 1 forged digest forged),
    .call (.attest 2 forged digest onChain), .call (.attest 3 forged digest forged), .wait 100]

/-- Somebody slashes verifier 2 for these claims. -/
def Sample.slashing (claims : List Claim) : List (Move ℕ) :=
  claims.map fun claim => .call (.slash claim.1 claim.2 2)

theorem Sample.outvoted_twice_in_either_order :
    (∀ v, readStake (played 0 (played 0 (Sample.chain 60 120) Sample.outvoteTwice)
          (Sample.slashing [(Sample.onChain, Sample.digest), (Sample.forged, Sample.digest)])
            ).world.persistent v =
        readStake (played 0 (played 0 (Sample.chain 60 120) Sample.outvoteTwice)
          (Sample.slashing [(Sample.forged, Sample.digest), (Sample.onChain, Sample.digest)])
            ).world.persistent v) ∧
      along burnedBy (play 0 (played 0 (Sample.chain 60 120) Sample.outvoteTwice)
          (Sample.slashing [(Sample.onChain, Sample.digest), (Sample.forged, Sample.digest)])) =
        along burnedBy (play 0 (played 0 (Sample.chain 60 120) Sample.outvoteTwice)
          (Sample.slashing [(Sample.forged, Sample.digest), (Sample.onChain, Sample.digest)])) :=
  (Sample.run 60 120 Sample.outvoteTwice (by decide) (by decide)
    (by decide +kernel)).slashes_commute Vrfy.token_exact Vrfy.token_fitsI128 Vrfy.token_burnsHeld
      (List.Perm.swap ((Sample.forged, Sample.digest), 2) ((Sample.onChain, Sample.digest), 2) [])
      (path_play _ (by decide +kernel)) rfl (path_play _ (by decide +kernel)) rfl

/-- Each of the two slashes burns half of what it finds. -/
example : along burnedBy (play 0 (played 0 (Sample.chain 60 120) Sample.outvoteTwice)
    (Sample.slashing [(Sample.onChain, Sample.digest), (Sample.forged, Sample.digest)])) = 750 := by
  decide +kernel

end Registry
end Sorofy
