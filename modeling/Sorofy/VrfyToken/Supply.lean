import Mathlib.Algebra.BigOperators.Group.Finset.Piecewise
import Mathlib.Algebra.Order.BigOperators.Group.Finset
import Sorofy.VrfyToken.Allowances

/-!
# Supply

Where the units of the token are.  An account has what the history gave it less what the history
took from it; summed over the accounts the history names, that is what was minted less what was
burned.  The log of events says as much as the storage: replayed, it gives every balance and the
administrator.

As long as all there is fits in an `i128`, no call overflows.
-/

namespace Sorofy
namespace VrfyToken

open Foundation
open History
open Registry (i128Min i128Max u32Max)

variable {Address : Type}

/-! ## Amounts -/

namespace Call

/-- What the call creates. -/
def minted : Call Address → ℤ
  | .mint _ n => n
  | _ => 0

/-- What the call destroys. -/
def burned : Call Address → ℤ
  | .burn _ n | .burnFrom _ _ n => n
  | _ => 0

/-- Only minting gives without taking. -/
theorem minted_of_payer_eq_none (c : Call Address) (hpayer : c.payer = none)
    (hpayee : c.payee.isSome) : c.minted = c.amount := by
  cases c with
  | mint dst n => rfl
  | setAdmin newAdmin => cases hpayee
  | approve src spender n live => cases hpayee
  | _ => cases hpayer

theorem minted_of_payer_eq_some (c : Call Address) {a : Address} (hpayer : c.payer = some a) :
    c.minted = 0 := by
  cases c with
  | mint dst n => cases hpayer
  | _ => rfl

variable [DecidableEq Address]

/-- Over the accounts a call names, what it gives and takes is what it creates and destroys. -/
theorem sum_credit_sub_debit {c : Call Address} {S : Finset Address}
    (hpayer : ∀ a ∈ c.payer, a ∈ S) (hpayee : ∀ a ∈ c.payee, a ∈ S) :
    ∑ a ∈ S, (c.credit a - c.debit a) = c.minted - c.burned := by
  have hcredit : ∑ a ∈ S, c.credit a = if c.payee.isSome then c.amount else 0 := by
    cases hc : c.payee with
    | none => simp [credit, hc]
    | some dst => simp [credit, hc, hpayee dst hc]
  have hdebit : ∑ a ∈ S, c.debit a = if c.payer.isSome then c.amount else 0 := by
    cases hc : c.payer with
    | none => simp [debit, hc]
    | some src => simp [debit, hc, hpayer src hc]
  rw [Finset.sum_sub_distrib, hcredit, hdebit]
  cases c <;> simp [payer, payee, amount, minted, burned]

end Call

/-- A number read off the calls that returned. -/
def Input.ofCall (f : Call Address → ℤ) (i : Input Address) : ℤ :=
  match i.returned? with
  | some (_, c) => f c
  | none => 0

/-- Its sum over a history. -/
def along (f : Call Address → ℤ) (h : List (Transition (Ledger Address) (Input Address))) : ℤ :=
  total (fun e => e.label.ofCall f) h

variable {admin : Address} {metadata : TokenMetadata} {s₀ s : Ledger Address}
variable {h : List (Transition (Ledger Address) (Input Address))}

theorem Input.ofCall_of_returned {f : Call Address → ℤ} {i : Input Address} {env : Env Address}
    {c : Call Address} (hret : i.returned? = some (env, c)) : i.ofCall f = f c := by
  rw [Input.ofCall, hret]

theorem Input.ofCall_of_not_returned {f : Call Address → ℤ} {i : Input Address}
    (hret : i.returned? = none) : i.ofCall f = 0 := by
  rw [Input.ofCall, hret]

variable [DecidableEq Address]

/-! ## The balances -/

/-- An account has what the history gave it less what it took from it. -/
theorem Run.readBalance_eq (hrun : Run admin metadata s₀ h s) (a : Address) :
    s.world.readBalance a = along (fun c => c.credit a - c.debit a) h := by
  refine hrun.invariant (P := fun h s =>
    s.world.readBalance a = along (fun c => c.credit a - c.debit a) h) ?_ ?_ ?_
  · rw [hrun.deployed.world_eq.2]
    rfl
  · intro h t i u env c hP hret _ _ _ he
    have hstep : along (fun c => c.credit a - c.debit a) (h ++ [⟨t, i, u⟩]) =
        along (fun c => c.credit a - c.debit a) h + (c.credit a - c.debit a) := by
      rw [along, total_append, total_singleton, Input.ofCall_of_returned hret]
      rfl
    rw [hstep, he.balance a, hP]
    omega
  · intro h t i u hP hret _ hw
    have hstep : along (fun c => c.credit a - c.debit a) (h ++ [⟨t, i, u⟩]) =
        along (fun c => c.credit a - c.debit a) h := by
      rw [along, total_append, total_singleton, Input.ofCall_of_not_returned hret, add_zero]
      rfl
    rw [hstep, ← hP]
    rcases hw with hw | ⟨src, spender, -, hw⟩
    · rw [hw]
    · rw [hw]
      rfl

/-- A call leaves no balance negative. -/
theorem Effect.balance_nonneg {env : Env Address} {c : Call Address} {w w' : World Address}
    (he : Effect env c w w' admin) (hw : ∀ a, 0 ≤ w.readBalance a) (a : Address) :
    0 ≤ w'.readBalance a := by
  have hbalance := he.balance a
  have hamount := he.amount_nonneg
  have hcredit : 0 ≤ c.credit a := by
    rw [Call.credit]
    split <;> [exact hamount; exact le_rfl]
  have hdebit : c.debit a ≤ w.readBalance a := by
    rw [Call.debit]
    split
    · next hpayer => exact he.covered a hpayer
    · exact hw a
  omega

/-- Every balance is a nonnegative `i128`. -/
theorem Run.balance_range (hrun : Run admin metadata s₀ h s) :
    s.world.Fits ∧ ∀ a, 0 ≤ s.world.readBalance a := by
  refine hrun.invariant (P := fun _ s => s.world.Fits ∧ ∀ a, 0 ≤ s.world.readBalance a) ?_ ?_ ?_
  · rw [hrun.deployed.world_eq.2]
    exact ⟨fun a => ⟨(by decide : i128Min ≤ 0), (by decide : 0 ≤ i128Max)⟩, fun a => le_rfl⟩
  · rintro h t i u env c ⟨hfits, hnonneg⟩ hret _ _ _ he
    exact ⟨he.fits hfits, he.balance_nonneg hnonneg⟩
  · rintro h t i u hP hret _ hw
    rcases hw with hw | ⟨src, spender, -, hw⟩
    · rwa [hw]
    · rw [hw]
      exact hP

/-- The accounts the calls of a history took from or gave to. -/
def holders (h : List (Transition (Ledger Address) (Input Address))) : Finset Address :=
  (h.flatMap fun e => match e.label.returned? with
    | some (_, c) => c.payer.toList ++ c.payee.toList
    | none => []).toFinset

theorem mem_holders {a : Address} : a ∈ holders h ↔
    ∃ e ∈ h, ∃ env c, e.label.returned? = some (env, c) ∧
      (c.payer = some a ∨ c.payee = some a) := by
  simp only [holders, List.mem_toFinset, List.mem_flatMap]
  constructor
  · rintro ⟨e, he, ha⟩
    split at ha
    · next env c hret =>
      rw [List.mem_append, Option.mem_toList, Option.mem_toList] at ha
      exact ⟨e, he, env, c, hret, ha⟩
    · exact absurd ha List.not_mem_nil
  · rintro ⟨e, he, env, c, hret, ha⟩
    refine ⟨e, he, ?_⟩
    rw [hret, List.mem_append, Option.mem_toList, Option.mem_toList]
    exact ha

/-- An account the history never names has nothing. -/
theorem Run.readBalance_eq_zero (hrun : Run admin metadata s₀ h s) {a : Address}
    (ha : a ∉ holders h) : s.world.readBalance a = 0 := by
  rw [hrun.readBalance_eq a]
  refine total_eq_zero fun e he => ?_
  cases hret : e.label.returned? with
  | none => exact Input.ofCall_of_not_returned hret
  | some p =>
    obtain ⟨env, c⟩ := p
    have hnamed : ¬ (c.payer = some a ∨ c.payee = some a) :=
      fun hc => ha (mem_holders.mpr ⟨e, he, env, c, hret, hc⟩)
    rw [not_or] at hnamed
    rw [Input.ofCall_of_returned hret, Call.credit, Call.debit, if_neg hnamed.1, if_neg hnamed.2,
      sub_zero]

/-- The units of all the accounts are those that were minted and not burned. -/
theorem Run.sum_readBalance (hrun : Run admin metadata s₀ h s) :
    ∑ a ∈ holders h, s.world.readBalance a = along Call.minted h - along Call.burned h := by
  have hsum : ∑ a ∈ holders h, s.world.readBalance a =
      total (fun e => ∑ a ∈ holders h, e.label.ofCall fun c => c.credit a - c.debit a) h := by
    rw [total_finset_sum]
    exact Finset.sum_congr rfl fun a _ => hrun.readBalance_eq a
  have hdiff : total (fun e => e.label.ofCall fun c => c.minted - c.burned) h =
      along Call.minted h - along Call.burned h := by
    rw [along, along, sub_eq_add_neg, ← total_neg, ← total_add]
    refine total_congr fun e _ => ?_
    simp only [Input.ofCall]
    split
    · rw [sub_eq_add_neg]
    · rfl
  rw [hsum, ← hdiff]
  refine total_congr fun e he => ?_
  cases hret : e.label.returned? with
  | none => simp only [Input.ofCall, hret, Finset.sum_const_zero]
  | some p =>
    obtain ⟨env, c⟩ := p
    simp only [Input.ofCall_of_returned hret]
    exact Call.sum_credit_sub_debit
      (fun a ha => mem_holders.mpr ⟨e, he, env, c, hret, .inl ha⟩)
      (fun a ha => mem_holders.mpr ⟨e, he, env, c, hret, .inr ha⟩)

/-- **The supply**, after every run.  Finitely many accounts have anything, none has less than
nothing or more than fits, and together they have what was minted and not burned. -/
theorem Run.supply (hrun : Run admin metadata s₀ h s) :
    (∀ a, 0 ≤ s.world.readBalance a ∧ s.world.readBalance a ≤ i128Max) ∧
    ∃ accounts : Finset Address, (∀ a ∉ accounts, s.world.readBalance a = 0) ∧
      ∑ a ∈ accounts, s.world.readBalance a = along Call.minted h - along Call.burned h := by
  obtain ⟨hfits, hnonneg⟩ := hrun.balance_range
  exact ⟨fun a => ⟨hnonneg a, (hfits a).2⟩, holders h, fun a ha => hrun.readBalance_eq_zero ha,
    hrun.sum_readBalance⟩

/-- The 100 that were minted are all there, wherever they went. -/
theorem Sample.supply_lending :
    ∃ accounts : Finset ℕ, ∑ a ∈ accounts, (Sample.after Sample.lending).world.readBalance a =
      100 := by
  obtain ⟨-, accounts, -, hsum⟩ := (Sample.run Sample.lending (by decide)).supply
  exact ⟨accounts, hsum⟩

/-! ## The log -/

namespace Event

/-- What an event says an account was given and what was taken from it. -/
def change (a : Address) : Event Address → ℤ
  | .mint dst n => if dst = a then n else 0
  | .transfer src dst _ n => (if dst = a then n else 0) - (if src = a then n else 0)
  | .burn src n => -(if src = a then n else 0)
  | _ => 0

omit [DecidableEq Address] in
/-- The administrator an event leaves. -/
def adminAfter (admin : Address) : Event Address → Address
  | .setAdmin _ newAdmin => newAdmin
  | _ => admin

end Event

/-- The balance of an account, from the log alone. -/
def replayBalance (a : Address) (events : List (Event Address)) : ℤ :=
  events.foldl (fun balance e => balance + e.change a) 0

omit [DecidableEq Address] in
/-- The administrator, from the log alone. -/
def replayAdmin (admin : Address) (events : List (Event Address)) : Address :=
  events.foldl Event.adminAfter admin

@[simp] theorem replayBalance_snoc (a : Address) (events : List (Event Address))
    (e : Event Address) :
    replayBalance a (events ++ [e]) = replayBalance a events + e.change a := by
  simp [replayBalance]

omit [DecidableEq Address] in
@[simp] theorem replayAdmin_snoc (admin : Address) (events : List (Event Address))
    (e : Event Address) :
    replayAdmin admin (events ++ [e]) = e.adminAfter (replayAdmin admin events) := by
  simp [replayAdmin]

/-- The event of a call says what the call gave and took. -/
theorem Call.change_event (c : Call Address) (admin a : Address) :
    (c.event admin).change a = c.credit a - c.debit a := by
  cases c <;>
    simp [Call.event, Event.change, Call.credit, Call.debit, Call.payee, Call.payer, Call.amount]

omit [DecidableEq Address] in
theorem Call.adminAfter_event (c : Call Address) (admin : Address) :
    (c.event admin).adminAfter admin = c.adminAfter admin := by
  cases c <;> rfl

section Overflow

variable {env : Env Address} {w w' : World Address} {u : Unit}

omit [DecidableEq Address] in
@[simp] theorem requireAuth_ne_overflow {a : Address} : requireAuth env a w ≠ .trap .overflow := by
  simp [requireAuth]

omit [DecidableEq Address] in
@[simp] theorem checkNonnegativeAmount_ne_overflow {n : ℤ} :
    checkNonnegativeAmount n w ≠ .trap .overflow := by
  simp [checkNonnegativeAmount]

omit [DecidableEq Address] in
@[simp] theorem readAdministrator_ne_overflow : readAdministrator w ≠ .trap .overflow := by
  simp [readAdministrator]

omit [DecidableEq Address] in
@[simp] theorem writeAdministrator_ne_trap {a : Address} {fault : Fault} :
    writeAdministrator a w ≠ .trap fault := by
  simp [writeAdministrator]

omit [DecidableEq Address] in
@[simp] theorem publish_ne_trap {e : Event Address} {fault : Fault} :
    publish e w ≠ .trap fault := by
  simp [publish]

theorem receiveBalance_eq_overflow {addr : Address} {n : ℤ} :
    receiveBalance addr n w = .trap .overflow ↔
      ¬ (i128Min ≤ w.readBalance addr + n ∧ w.readBalance addr + n ≤ i128Max) := by
  simp only [receiveBalance, checkedI128, Tx.bind_eq_trap, Tx.read_ne_trap, Tx.read_eq_ok,
    Tx.fit_eq_trap, Tx.update_ne_trap, and_false, exists_false, or_false, false_or, and_true]
  constructor
  · rintro ⟨_, _, ⟨rfl, rfl⟩, hfit⟩
    exact hfit
  · intro hfit
    exact ⟨_, _, ⟨rfl, rfl⟩, hfit⟩

theorem spendBalance_eq_overflow {addr : Address} {n : ℤ} :
    spendBalance addr n w = .trap .overflow ↔ n ≤ w.readBalance addr ∧
      ¬ (i128Min ≤ w.readBalance addr - n ∧ w.readBalance addr - n ≤ i128Max) := by
  simp only [spendBalance, checkedI128, Tx.bind_eq_trap, Tx.read_ne_trap, Tx.read_eq_ok,
    Tx.demand_eq_trap, Tx.demand_eq_ok, Tx.fit_eq_trap, Tx.update_ne_trap, and_false, exists_false,
    or_false, false_or, and_true, reduceCtorEq, Int.not_lt]
  constructor
  · rintro ⟨_, _, ⟨rfl, rfl⟩, _, _, ⟨hle, rfl⟩, hfit⟩
    exact ⟨hle, hfit⟩
  · rintro ⟨hle, hfit⟩
    exact ⟨_, _, ⟨rfl, rfl⟩, ⟨⟩, _, ⟨hle, rfl⟩, hfit⟩

@[simp] theorem writeAllowance_ne_overflow {src spender : Address} {n : ℤ} {live : ℕ} :
    writeAllowance env src spender n live w ≠ .trap .overflow := by
  simp only [writeAllowance, extendAllowance, ne_eq, Tx.bind_eq_trap, Tx.demand_eq_trap,
    Tx.update_ne_trap, reduceCtorEq, and_false, false_or, not_exists, not_and]
  intro _ w₁ _ _ w₂ _
  split
  · simp [Tx.bind_eq_trap, Tx.demand_eq_trap]
  · simp

theorem spendAllowance_eq_overflow {src spender : Address} {n : ℤ}
    (h : spendAllowance env src spender n w = .trap .overflow) :
    n ≤ (w.readAllowance env.sequence src spender).amount ∧
      ¬ (i128Min ≤ (w.readAllowance env.sequence src spender).amount - n ∧
        (w.readAllowance env.sequence src spender).amount - n ≤ i128Max) := by
  simp only [spendAllowance, Tx.bind_eq_trap, Tx.read_ne_trap, Tx.read_eq_ok, Tx.demand_eq_trap,
    Tx.demand_eq_ok, reduceCtorEq, and_false, false_or, Int.not_lt] at h
  obtain ⟨_, _, ⟨rfl, rfl⟩, _, _, ⟨hle, rfl⟩, h⟩ := h
  split at h
  · simp only [checkedI128, Tx.bind_eq_trap, Tx.fit_eq_trap, Tx.fit_eq_ok, and_true] at h
    rcases h with hfit | ⟨_, _, -, hwrite⟩
    · exact ⟨hle, hfit⟩
    · exact absurd hwrite writeAllowance_ne_overflow
  · exact absurd h Tx.pure_ne_trap

/-- The account that overflows when an amount is moved: the one it is taken from, or the one it is
given to once it has been taken. -/
theorem moved_eq_overflow {src dst : Address} {n : ℤ}
    (h : spendBalance src n w = .trap .overflow ∨ ∃ u w₁, spendBalance src n w = .ok u w₁ ∧
      receiveBalance dst n w₁ = .trap .overflow) :
    n ≤ w.readBalance src ∧
      (¬ (i128Min ≤ w.readBalance src - n ∧ w.readBalance src - n ≤ i128Max) ∨
        ¬ (i128Min ≤ w.readBalance dst - (if some src = some dst then n else 0) + n ∧
          w.readBalance dst - (if some src = some dst then n else 0) + n ≤ i128Max)) := by
  rcases h with hspend | ⟨u, w₁, hspend, hreceive⟩
  · obtain ⟨hle, hfit⟩ := spendBalance_eq_overflow.mp hspend
    exact ⟨hle, .inl hfit⟩
  · obtain ⟨hle, -, rfl⟩ := spendBalance_eq_ok.mp hspend
    rw [receiveBalance_eq_overflow, readBalance_spent] at hreceive
    exact ⟨hle, .inr hreceive⟩

/-- What overflows in a call: what is left of an allowance or of an account, or what an account
would have. -/
theorem Call.overflow {c : Call Address} (h : c.run env w = .trap .overflow) :
    0 ≤ c.amount ∧
    ((∃ src spender, c.drawnOn = some (src, spender) ∧
      c.amount ≤ (w.readAllowance env.sequence src spender).amount ∧
      ¬ (i128Min ≤ (w.readAllowance env.sequence src spender).amount - c.amount ∧
        (w.readAllowance env.sequence src spender).amount - c.amount ≤ i128Max)) ∨
    (∀ src, c.payer = some src → c.amount ≤ w.readBalance src) ∧
      ((∃ src, c.payer = some src ∧
        ¬ (i128Min ≤ w.readBalance src - c.amount ∧ w.readBalance src - c.amount ≤ i128Max)) ∨
      ∃ dst, c.payee = some dst ∧
        ¬ (i128Min ≤ w.readBalance dst - c.debit dst + c.amount ∧
          w.readBalance dst - c.debit dst + c.amount ≤ i128Max))) := by
  cases c with
  | mint dst n =>
    simp only [Call.run, VrfyToken.mint, Tx.bind_eq_trap, requireAuth_ne_overflow,
      requireAuth_eq_ok, publish_ne_trap, checkNonnegativeAmount_ne_overflow,
      checkNonnegativeAmount_eq_ok, readAdministrator_ne_overflow, readAdministrator_eq_ok,
      receiveBalance_eq_overflow, and_false, exists_false, false_or, or_false] at h
    obtain ⟨_, _, ⟨h0, rfl⟩, _, _, ⟨-, rfl⟩, _, _, ⟨-, rfl⟩, hfit⟩ := h
    refine ⟨h0, .inr ⟨fun src hsrc => (by cases hsrc), .inr ⟨dst, rfl, ?_⟩⟩⟩
    show ¬ (i128Min ≤ w.readBalance dst - 0 + n ∧ w.readBalance dst - 0 + n ≤ i128Max)
    rwa [sub_zero]
  | setAdmin newAdmin =>
    simp [Call.run, VrfyToken.setAdmin, Tx.bind_eq_trap] at h
  | approve src spender n live =>
    simp [Call.run, VrfyToken.approve, Tx.bind_eq_trap] at h
  | transfer src dst muxedId n =>
    simp only [Call.run, VrfyToken.transfer, Tx.bind_eq_trap, requireAuth_ne_overflow,
      requireAuth_eq_ok, publish_ne_trap, checkNonnegativeAmount_ne_overflow,
      checkNonnegativeAmount_eq_ok, and_false, exists_false, false_or, or_false] at h
    obtain ⟨_, _, ⟨-, rfl⟩, _, _, ⟨h0, rfl⟩, hmove⟩ := h
    obtain ⟨hle, hfit⟩ := moved_eq_overflow hmove
    refine ⟨h0, .inr ⟨fun src' hsrc => (by cases hsrc; exact hle), ?_⟩⟩
    exact hfit.imp (fun hfit => ⟨src, rfl, hfit⟩) fun hfit => ⟨dst, rfl, hfit⟩
  | transferFrom spender src dst n =>
    simp only [Call.run, VrfyToken.transferFrom, Tx.bind_eq_trap, requireAuth_ne_overflow,
      requireAuth_eq_ok, publish_ne_trap, checkNonnegativeAmount_ne_overflow,
      checkNonnegativeAmount_eq_ok, and_false, exists_false, false_or, or_false] at h
    obtain ⟨_, _, ⟨-, rfl⟩, _, _, ⟨h0, rfl⟩, hspend | ⟨_, _, hspend, hmove⟩⟩ := h
    · exact ⟨h0, .inl ⟨src, spender, rfl, spendAllowance_eq_overflow hspend⟩⟩
    · obtain ⟨-, -, rfl⟩ := spendAllowance_eq_ok.mp hspend
      obtain ⟨hle, hfit⟩ := moved_eq_overflow hmove
      refine ⟨h0, .inr ⟨fun src' hsrc => (by cases hsrc; exact hle), ?_⟩⟩
      exact hfit.imp (fun hfit => ⟨src, rfl, hfit⟩) fun hfit => ⟨dst, rfl, hfit⟩
  | burn src n =>
    simp only [Call.run, VrfyToken.burn, Tx.bind_eq_trap, requireAuth_ne_overflow,
      requireAuth_eq_ok, publish_ne_trap, checkNonnegativeAmount_ne_overflow,
      checkNonnegativeAmount_eq_ok, and_false, exists_false, false_or, or_false] at h
    obtain ⟨_, _, ⟨-, rfl⟩, _, _, ⟨h0, rfl⟩, hspend⟩ := h
    obtain ⟨hle, hfit⟩ := spendBalance_eq_overflow.mp hspend
    exact ⟨h0, .inr ⟨fun src' hsrc => (by cases hsrc; exact hle), .inl ⟨src, rfl, hfit⟩⟩⟩
  | burnFrom spender src n =>
    simp only [Call.run, VrfyToken.burnFrom, Tx.bind_eq_trap, requireAuth_ne_overflow,
      requireAuth_eq_ok, publish_ne_trap, checkNonnegativeAmount_ne_overflow,
      checkNonnegativeAmount_eq_ok, and_false, exists_false, false_or, or_false] at h
    obtain ⟨_, _, ⟨-, rfl⟩, _, _, ⟨h0, rfl⟩, hspend | ⟨_, _, hspend, hmove⟩⟩ := h
    · exact ⟨h0, .inl ⟨src, spender, rfl, spendAllowance_eq_overflow hspend⟩⟩
    · obtain ⟨-, -, rfl⟩ := spendAllowance_eq_ok.mp hspend
      obtain ⟨hle, hfit⟩ := spendBalance_eq_overflow.mp hmove
      exact ⟨h0, .inr ⟨fun src' hsrc => (by cases hsrc; exact hle), .inl ⟨src, rfl, hfit⟩⟩⟩

end Overflow

/-- No group of accounts has more than there is. -/
theorem Run.sum_le_supply (hrun : Run admin metadata s₀ h s) (S : Finset Address) :
    ∑ a ∈ S, s.world.readBalance a ≤ along Call.minted h - along Call.burned h := by
  rw [← hrun.sum_readBalance]
  have hzero : ∀ a ∈ S ∪ holders h, a ∉ holders h → s.world.readBalance a = 0 :=
    fun a _ ha => hrun.readBalance_eq_zero ha
  rw [Finset.sum_subset Finset.subset_union_right hzero]
  exact Finset.sum_le_sum_of_subset_of_nonneg Finset.subset_union_left
    fun a _ _ => hrun.balance_range.2 a

/-- What is granted is an `i128`. -/
theorem Run.granted_fits (hrun : Run admin metadata s₀ h s) (k : Address × Address) :
    (granted k h).amount ≤ i128Max := by
  refine hrun.invariant (P := fun h _ => (granted k h).amount ≤ i128Max) ?_ ?_ ?_
  · exact (by decide : 0 ≤ i128Max)
  · intro h t i u env c hP hret htyped _ _ he
    rw [granted_snoc, Input.grantAfter, hret]
    have hamount := he.amount_nonneg
    cases c with
    | approve src spender n live =>
      show (if (src, spender) = k then (⟨n, live⟩ : AllowanceValue) else _).amount ≤ i128Max
      split
      · exact htyped.2.1
      · exact hP
    | transferFrom spender src dst n =>
      show (if some (src, spender) = some k then _ else _ : AllowanceValue).amount ≤ i128Max
      split
      · exact (Int.sub_le_self _ hamount).trans hP
      · exact hP
    | burnFrom spender src n =>
      show (if some (src, spender) = some k then _ else _ : AllowanceValue).amount ≤ i128Max
      split
      · exact (Int.sub_le_self _ hamount).trans hP
      · exact hP
    | _ => exact hP
  · intro h t i u hP hret _ _
    rw [granted_snoc, Input.grantAfter, hret]
    exact hP

/-- **No call overflows** while what there is, and what the call would mint, fits in an `i128`. -/
theorem Run.no_overflow (hrun : Run admin metadata s₀ h s) {env : Env Address} {c : Call Address}
    (hseq : env.sequence = s.sequence)
    (hfit : along Call.minted h - along Call.burned h + c.minted ≤ i128Max) :
    c.run env s.world ≠ .trap .overflow := by
  intro hover
  obtain ⟨h0, hcase⟩ := c.overflow hover
  obtain ⟨hfits, hnonneg⟩ := hrun.balance_range
  have hmin : i128Min ≤ 0 := by decide
  have hmax : 0 ≤ i128Max := by decide
  rcases hcase with ⟨src, spender, -, hle, hrest⟩ |
    ⟨hcovered, ⟨src, hsrc, hrest⟩ | ⟨dst, hdst, hsum⟩⟩
  · have hgranted := hrun.granted_fits (src, spender)
    have hread := (hrun.honours (src, spender)).readAllowance_amount
    rw [← hseq] at hread
    refine hrest ⟨by omega, ?_⟩
    split at hread
    · omega
    · omega
  · have hle := hcovered src hsrc
    have hheld := (hfits src).2
    exact hrest ⟨by omega, by omega⟩
  · have hdst0 := hnonneg dst
    cases hpayer : c.payer with
    | none =>
      have hone := hrun.sum_le_supply {dst}
      rw [Finset.sum_singleton] at hone
      rw [c.minted_of_payer_eq_none hpayer (by rw [hdst]; rfl)] at hfit
      rw [Call.debit, hpayer, if_neg (by simp), sub_zero] at hsum
      exact hsum ⟨by omega, by omega⟩
    | some src =>
      have hle := hcovered src hpayer
      rw [c.minted_of_payer_eq_some hpayer, add_zero] at hfit
      by_cases hself : src = dst
      · subst hself
        have hheld := (hfits src).2
        rw [Call.debit, if_pos hpayer, sub_add_cancel] at hsum
        exact hsum ⟨by omega, hheld⟩
      · have htwo := hrun.sum_le_supply {src, dst}
        rw [Finset.sum_pair hself] at htwo
        rw [Call.debit, hpayer, if_neg (by simpa using hself), sub_zero] at hsum
        exact hsum ⟨by omega, by omega⟩

/-- After the loan nothing that account 3 can ask of its 25 overflows. -/
theorem Sample.lending_no_overflow :
    (Call.transfer 3 1 none 25).run ⟨4, u32Max, fun _ => true⟩
      (Sample.after Sample.lending).world ≠ .trap .overflow :=
  (Sample.run Sample.lending (by decide)).no_overflow rfl (by decide)

end VrfyToken
end Sorofy
