import Sorofy.VrfyToken.Allowances

/-!
# Consent

Whose consent it took to move what.  Nothing leaves an account but by a call that its owner
authorized, or by one of a spender that the owner approved: the last approval was the owner's, it
still lived, and all that has been drawn on it fits in what it was for.  What is left of it is what
`allowance` answers, to the unit, whatever the host has dropped from temporary storage meanwhile.
-/

namespace Sorofy
namespace VrfyToken

open Foundation
open History
open Registry (i128Min i128Max u32Max)

variable {Address : Type} [DecidableEq Address]

/-! ## The last approval -/

omit [DecidableEq Address] in
/-- The transition is a call that returned and set the allowance. -/
def Input.Sets (k : Address × Address) (v : AllowanceValue) (i : Input Address) : Prop :=
  ∃ env c, i.returned? = some (env, c) ∧ c.sets = some (k, v)

/-- What the transition drew on the allowance. -/
def Input.drawn (k : Address × Address) (i : Input Address) : ℤ :=
  match i.returned? with
  | some (_, c) => if c.drawnOn = some k then c.amount else 0
  | none => 0

/-- What a history drew on the allowance. -/
def drawn {σ : Type} (k : Address × Address) (h : List (Transition σ (Input Address))) : ℤ :=
  total (fun e => e.label.drawn k) h

variable {σ : Type} {k : Address × Address} {g v : AllowanceValue} {i : Input Address}
variable {k' : Address × Address}

omit [DecidableEq Address] in
/-- A call that sets an allowance draws on none. -/
theorem Call.drawnOn_of_sets {c : Call Address} (hc : c.sets = some (k', v)) :
    c.drawnOn = none := by
  cases c with
  | approve src spender n live => rfl
  | _ => cases hc

/-- The allowance is set by a transition, or else it is what was not drawn on it. -/
theorem Input.grantAfter_of_sets (hi : i.Sets k v) : i.grantAfter k g = v := by
  obtain ⟨env, c, hret, hsets⟩ := hi
  simp only [Input.grantAfter, hret, Call.grantAfter, hsets, if_true]

theorem Input.grantAfter_of_not_sets (hi : ∀ v, ¬ i.Sets k v) :
    i.grantAfter k g = { g with amount := g.amount - i.drawn k } := by
  simp only [Input.grantAfter, Input.drawn]
  cases hret : i.returned? with
  | none => simp only [sub_zero]
  | some p =>
    obtain ⟨env, c⟩ := p
    simp only [Call.grantAfter]
    cases hsets : c.sets with
    | none =>
      simp only
      split
      · rfl
      · rw [sub_zero]
    | some q =>
      obtain ⟨k', v⟩ := q
      have hne : k' ≠ k := fun hk => hi v ⟨env, c, hret, by rw [hsets, hk]⟩
      simp only [hne, if_false, Call.drawnOn_of_sets hsets, reduceCtorEq, sub_zero]

/-- What is granted after an approval that no other follows. -/
theorem granted_after {before after : List (Transition σ (Input Address))}
    {e : Transition σ (Input Address)} (he : e.label.Sets k v)
    (hlast : ∀ e' ∈ after, ∀ v', ¬ e'.label.Sets k v') :
    granted k (before ++ e :: after) = { v with amount := v.amount - drawn k after } := by
  induction after using List.reverseRecOn with
  | nil =>
    rw [granted_snoc, Input.grantAfter_of_sets he, drawn, total_nil, sub_zero]
  | append_singleton after e' ih =>
    have hrest := ih fun e'' he'' => hlast e'' (List.mem_append_left _ he'')
    rw [← List.cons_append, ← List.append_assoc, granted_snoc, hrest,
      Input.grantAfter_of_not_sets (hlast e' (List.mem_append_right _ List.mem_cons_self)), drawn,
      drawn, total_append, total_singleton, sub_sub]

/-- What is granted where nothing was approved. -/
theorem granted_of_not_sets {h : List (Transition σ (Input Address))}
    (hnever : ∀ e ∈ h, ∀ v, ¬ e.label.Sets k v) : granted k h = ⟨-drawn k h, 0⟩ := by
  induction h using List.reverseRecOn with
  | nil => simp [drawn]
  | append_singleton h e ih =>
    rw [granted_snoc, ih fun e' he' => hnever e' (List.mem_append_left _ he'),
      Input.grantAfter_of_not_sets (hnever e (List.mem_append_right _ List.mem_cons_self)), drawn,
      drawn, total_append, total_singleton, neg_add, sub_eq_add_neg]

omit [DecidableEq Address] in
/-- A history has a last approval, or none. -/
theorem exists_last_sets (k : Address × Address) (h : List (Transition σ (Input Address))) :
    (∃ before e after v, h = before ++ e :: after ∧ e.label.Sets k v ∧
      ∀ e' ∈ after, ∀ v', ¬ e'.label.Sets k v') ∨
    ∀ e ∈ h, ∀ v, ¬ e.label.Sets k v := by
  induction h using List.reverseRecOn with
  | nil => exact .inr fun e he => absurd he List.not_mem_nil
  | append_singleton h e ih =>
    by_cases he : ∃ v, e.label.Sets k v
    · obtain ⟨v, hv⟩ := he
      exact .inl ⟨h, e, [], v, rfl, hv, fun e' he' => absurd he' List.not_mem_nil⟩
    · have hnot : ∀ v, ¬ e.label.Sets k v := fun v hv => he ⟨v, hv⟩
      have hsnoc : ∀ {l : List (Transition σ (Input Address))},
          (∀ e' ∈ l, ∀ v, ¬ e'.label.Sets k v) → ∀ e' ∈ l ++ [e], ∀ v, ¬ e'.label.Sets k v := by
        intro l hl e' he'
        rcases List.mem_append.mp he' with he' | he'
        · exact hl e' he'
        · rw [List.mem_singleton.mp he']
          exact hnot
      rcases ih with ⟨before, e', after, v, rfl, hv, hlast⟩ | hnever
      · exact .inl ⟨before, e', after ++ [e], v, by simp, hv, hsnoc hlast⟩
      · exact .inr (hsnoc hnever)

/-! ## What `allowance` answers -/

variable {admin : Address} {metadata : TokenMetadata} {s₀ s : Ledger Address}
variable {h before after : List (Transition (Ledger Address) (Input Address))}
variable {e : Transition (Ledger Address) (Input Address)}

theorem Run.allowance_eq (hrun : Run admin metadata s₀ h s) (env : Env Address)
    (henv : env.sequence = s.sequence) (src spender : Address) :
    allowance env src spender s.world = .ok
      (if s.sequence ≤ (granted (src, spender) h).liveUntilLedger then
        (granted (src, spender) h).amount else 0) s.world := by
  have hread := (hrun.honours (src, spender)).readAllowance_amount
  rw [allowance, Tx.read, henv, hread]

/-- Nothing negative is drawn on an allowance. -/
theorem Run.drawn_nonneg (hrun : Run admin metadata s₀ h s) (k : Address × Address) :
    0 ≤ drawn k h := by
  refine total_nonneg fun e he => ?_
  obtain ⟨before, after, rfl⟩ := List.append_of_mem he
  rw [Input.drawn]
  split
  · next env c hret =>
    split
    · exact (hrun.effect hret).2.amount_nonneg
    · exact le_rfl
  · exact le_rfl

/-- **What `allowance` answers.**  While the last approval lives, what it was for less what has been
drawn on it since, and that is never negative; once it no longer lives, and where nothing was ever
approved, nothing. -/
theorem Run.allowance_spec (hrun : Run admin metadata s₀ h s) (env : Env Address)
    (henv : env.sequence = s.sequence) (src spender : Address) :
    (∀ before e after v, h = before ++ e :: after → e.label.Sets (src, spender) v →
      (∀ e' ∈ after, ∀ v', ¬ e'.label.Sets (src, spender) v') →
      drawn (src, spender) after ≤ v.amount ∧
      allowance env src spender s.world = .ok
        (if s.sequence ≤ v.liveUntilLedger then v.amount - drawn (src, spender) after else 0)
        s.world) ∧
    ((∀ e ∈ h, ∀ v, ¬ e.label.Sets (src, spender) v) →
      allowance env src spender s.world = .ok 0 s.world) := by
  have hnonneg := (hrun.honours (src, spender)).nonneg
  have hanswer := hrun.allowance_eq env henv src spender
  constructor
  · rintro before e after v rfl he hlast
    rw [granted_after he hlast] at hnonneg hanswer
    exact ⟨Int.sub_nonneg.mp hnonneg, hanswer⟩
  · intro hnever
    rw [granted_of_not_sets hnever] at hnonneg hanswer
    have hdrawn : drawn (src, spender) h = 0 :=
      le_antisymm (Int.neg_nonneg.mp hnonneg) (hrun.drawn_nonneg _)
    rw [hanswer, hdrawn, neg_zero, ite_self]

/-- Of the 60 that account 1 let account 2 spend, 25 are spent and 35 are left. -/
theorem Sample.allowance_left :
    allowance ⟨4, u32Max, fun _ => false⟩ 1 2 (Sample.after Sample.lending).world =
      .ok 35 (Sample.after Sample.lending).world := by
  have hspec := ((Sample.run Sample.lending (by decide)).allowance_spec
    ⟨4, u32Max, fun _ => false⟩ rfl 1 2).1 (Sample.played (Sample.lending.take 1)) _
    ((Sample.played Sample.lending).drop 2) ⟨60, 10⟩ rfl ⟨_, _, rfl, rfl⟩ (by
      intro e' he' v' hv
      obtain ⟨env, c, hret, hsets⟩ := hv
      rcases List.mem_cons.mp he' with rfl | he'
      · cases hret
      · rw [List.mem_singleton.mp he'] at hret
        cases hret
        cases hsets)
  exact hspec.2

/-! ## Who consented -/

/-- The owner consented to the spender's call: its last approval was its own, still lives, and
covers what has been drawn on it and what the call draws. -/
def Approved (src spender : Address) (sequence : ℕ) (amount : ℤ)
    (before : List (Transition (Ledger Address) (Input Address))) : Prop :=
  ∃ b₁ e b₂ env live approved, before = b₁ ++ e :: b₂ ∧
    e.label.returned? = some (env, .approve src spender approved live) ∧
    env.authorized src = true ∧ sequence ≤ live ∧ drawn (src, spender) b₂ + amount ≤ approved ∧
    ∀ e' ∈ b₂, ∀ v, ¬ e'.label.Sets (src, spender) v

omit [DecidableEq Address] in
/-- Only an approval sets an allowance. -/
theorem Input.Sets.approve {src spender : Address} (hi : i.Sets (src, spender) v) :
    ∃ env, i.returned? =
      some (env, .approve src spender v.amount v.liveUntilLedger) := by
  obtain ⟨env, c, hret, hsets⟩ := hi
  cases c with
  | approve src' spender' n live =>
    cases hsets
    exact ⟨env, hret⟩
  | _ => cases hsets

/-- A call that draws on an allowance has been approved. -/
theorem Run.approved {env : Env Address} {c : Call Address} {src spender : Address}
    (hrun : Run admin metadata s₀ (before ++ e :: after) s)
    (hret : e.label.returned? = some (env, c)) (hdrawn : c.drawnOn = some (src, spender))
    (hpos : 0 < c.amount) : Approved src spender e.pre.sequence c.amount before := by
  obtain ⟨hbefore, -⟩ := hrun.cut
  obtain ⟨hseq, heffect⟩ := hrun.effect hret
  have hallowed := heffect.allowed src spender hdrawn
  rw [hseq] at hallowed
  obtain ⟨hread, hlive⟩ :=
    (hbefore.honours (src, spender)).readAllowance_eq (hpos.trans_le hallowed)
  rw [hread] at hallowed
  rcases exists_last_sets (src, spender) before with ⟨b₁, e', b₂, v, rfl, hv, hlast⟩ | hnever
  · obtain ⟨env', hret'⟩ := hv.approve
    rw [granted_after hv hlast] at hallowed hlive
    have hsigned := (hbefore.effect hret').2.signed
    exact ⟨b₁, e', b₂, env', v.liveUntilLedger, v.amount, rfl, hret', hsigned, hlive,
      Int.add_le_of_le_sub_left hallowed, hlast⟩
  · rw [granted_of_not_sets hnever] at hallowed
    have hnonneg := hbefore.drawn_nonneg (src, spender)
    exact absurd (hpos.trans_le hallowed) (Int.not_lt.mpr (Int.neg_nonpos_of_nonneg hnonneg))

/-- **Nothing leaves an account without its owner's consent.**  A transition that lowers a balance
is a call that returned, of at least the amount it took, and the owner authorized it or had approved
the spender who did. -/
theorem Run.debit_consented (hrun : Run admin metadata s₀ (before ++ e :: after) s) {a : Address}
    (hlow : e.post.world.readBalance a < e.pre.world.readBalance a) :
    ∃ env c, e.label.returned? = some (env, c) ∧ c.payer = some a ∧
      e.pre.world.readBalance a ≤ e.post.world.readBalance a + c.amount ∧
      (env.authorized a = true ∨ ∃ spender, env.authorized spender = true ∧
        c.drawnOn = some (a, spender) ∧ Approved a spender e.pre.sequence c.amount before) := by
  obtain ⟨hbefore, hstep⟩ := hrun.cut
  rcases hstep.cases_returned hbefore.admin_eq with ⟨env, c, hret, -, -, -, he⟩ | ⟨-, -, hw⟩
  · have hbalance := he.balance a
    have hnonneg := he.amount_nonneg
    have hcredit : 0 ≤ c.credit a := by
      rw [Call.credit]
      split <;> [exact hnonneg; exact le_rfl]
    by_cases hpayer : c.payer = some a
    · rw [Call.debit, if_pos hpayer] at hbalance
      refine ⟨env, c, hret, hpayer, by omega, ?_⟩
      have hpos : 0 < c.amount := by omega
      have hsigned := he.signed
      cases c with
      | transfer src dst muxedId n =>
        cases hpayer
        exact .inl hsigned
      | burn src n =>
        cases hpayer
        exact .inl hsigned
      | transferFrom spender src dst n =>
        cases hpayer
        exact .inr ⟨spender, hsigned, rfl, hrun.approved hret rfl hpos⟩
      | burnFrom spender src n =>
        cases hpayer
        exact .inr ⟨spender, hsigned, rfl, hrun.approved hret rfl hpos⟩
      | _ => cases hpayer
    · rw [Call.debit, if_neg hpayer] at hbalance
      omega
  · have hsame : e.post.world.readBalance a = e.pre.world.readBalance a := by
      rcases hw with hw | ⟨src, spender, -, hw⟩
      · rw [hw]
      · rw [hw]
        rfl
    omega

/-- Account 2 could take 25 from account 1 because 1 had approved it. -/
theorem Sample.lent :
    ∃ env c, (Move.label (Sample.after (Sample.lending.take 3))
        (.call [2] (.transferFrom 2 1 3 25))).returned? = some (env, c) ∧ c.payer = some 1 ∧
      (100 : ℤ) ≤ 75 + c.amount ∧
      (env.authorized 1 = true ∨ ∃ spender, env.authorized spender = true ∧
        c.drawnOn = some (1, spender) ∧
        Approved 1 spender 4 c.amount (Sample.played (Sample.lending.take 3))) :=
  Run.debit_consented (e := ⟨Sample.after (Sample.lending.take 3), _,
    Sample.after Sample.lending⟩) (Sample.run Sample.lending (by decide)) (by decide)

/-- **Nothing reaches an account from nowhere** without the administrator's consent.  A transition
that raises a balance is a call that returned, and either another account went down by what it
moved, or the administrator of that moment authorized it.  And who is the administrator next is the
administrator's own decision. -/
theorem Run.credit_consented (hrun : Run admin metadata s₀ (before ++ e :: after) s) :
    (∀ a, e.pre.world.readBalance a < e.post.world.readBalance a →
      ∃ env c, e.label.returned? = some (env, c) ∧ c.payee = some a ∧
        e.post.world.readBalance a = e.pre.world.readBalance a + c.amount ∧
        ((∃ src, c.payer = some src ∧
            e.post.world.readBalance src = e.pre.world.readBalance src - c.amount) ∨
          c.payer = none ∧ env.authorized (administrator admin before) = true)) ∧
    (administrator admin (before ++ [e]) ≠ administrator admin before →
      ∃ env, e.label.returned? = some (env, .setAdmin (administrator admin (before ++ [e]))) ∧
        env.authorized (administrator admin before) = true) := by
  obtain ⟨hbefore, hstep⟩ := hrun.cut
  constructor
  · intro a hhigh
    rcases hstep.cases_returned hbefore.admin_eq with ⟨env, c, hret, -, -, -, he⟩ | ⟨-, -, hw⟩
    · have hbalance := he.balance a
      have hamount := he.amount_nonneg
      have hdebit : 0 ≤ c.debit a := by
        rw [Call.debit]
        split <;> [exact hamount; exact le_rfl]
      have hpayee : c.payee = some a := by
        by_contra hnot
        rw [Call.credit, if_neg hnot] at hbalance
        omega
      have hnotpayer : c.payer ≠ some a := by
        intro hpayer
        rw [Call.credit, Call.debit, if_pos hpayee, if_pos hpayer] at hbalance
        omega
      rw [Call.credit, Call.debit, if_pos hpayee, if_neg hnotpayer] at hbalance
      refine ⟨env, c, hret, hpayee, by omega, ?_⟩
      cases hpayer : c.payer with
      | some src =>
        have hother : some a ≠ some src := fun hk => hnotpayer (hpayer.trans hk.symm)
        have hsource := he.balance src
        rw [Call.credit, Call.debit, if_pos hpayer, hpayee, if_neg hother, add_zero] at hsource
        exact .inl ⟨src, rfl, hsource⟩
      | none =>
        have hsigned := he.signed
        cases c with
        | mint dst n => exact .inr ⟨rfl, hsigned⟩
        | setAdmin newAdmin => cases hpayee
        | approve src spender n live => cases hpayee
        | _ => cases hpayer
    · have hsame : e.post.world.readBalance a = e.pre.world.readBalance a := by
        rcases hw with hw | ⟨src, spender, -, hw⟩
        · rw [hw]
        · rw [hw]
          rfl
      omega
  · intro hchange
    rw [administrator_snoc] at hchange ⊢
    cases hret : e.label.returned? with
    | none => exact absurd (Input.adminAfter_of_not_returned hret) hchange
    | some p =>
      obtain ⟨env, c⟩ := p
      have hsigned := (hrun.effect hret).2.signed
      rw [Input.adminAfter_of_returned hret] at hchange ⊢
      cases c with
      | setAdmin newAdmin => exact ⟨env, rfl, hsigned⟩
      | _ => exact absurd rfl hchange

/-- The 100 of account 1 came from the administrator. -/
theorem Sample.minted_consented :
    ∃ env c, (Move.label Sample.ledger (.call [0] (.mint 1 100))).returned? = some (env, c) ∧
      c.payee = some 1 ∧ (100 : ℤ) = 0 + c.amount ∧
      ((∃ src, c.payer = some src ∧ (Sample.after (Sample.lending.take 1)).world.readBalance src =
          Sample.ledger.world.readBalance src - c.amount) ∨
        c.payer = none ∧ env.authorized 0 = true) := by
  have hrun : Run 0 Sample.metadata Sample.ledger
      ([] ++ ⟨Sample.ledger, Move.label Sample.ledger (.call [0] (.mint 1 100)),
        Sample.after (Sample.lending.take 1)⟩ :: (Sample.played Sample.lending).drop 1)
      (Sample.after Sample.lending) := Sample.run Sample.lending (by decide)
  exact hrun.credit_consented.1 1 (by decide)

end VrfyToken
end Sorofy
