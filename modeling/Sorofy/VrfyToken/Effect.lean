import Mathlib.Algebra.Order.Group.Int
import Sorofy.VrfyToken.Contract

/-!
# What a call of the token does

The effect of a returning call, once for all entry points: whose authorization it had, what it
took from whom and gave to whom, what it did to the allowances, which event it published, and that
everything else is as before.  Every invariant of the token follows from this description.
-/

namespace Sorofy
namespace VrfyToken

open Foundation
open Registry (i128Min i128Max u32Max)

variable {Address : Type}

/-! ## Reading a call -/

namespace Call

/-- The amount a call names. -/
def amount : Call Address → ℤ
  | .mint _ n | .approve _ _ n _ | .transfer _ _ _ n | .transferFrom _ _ _ n | .burn _ n
  | .burnFrom _ _ n => n
  | .setAdmin _ => 0

/-- Who must have authorized the call, given the administrator. -/
def signer (admin : Address) : Call Address → Address
  | .mint _ _ | .setAdmin _ => admin
  | .approve src _ _ _ | .transfer src _ _ _ | .burn src _ => src
  | .transferFrom spender _ _ _ | .burnFrom spender _ _ => spender

/-- The account the call takes from. -/
def payer : Call Address → Option Address
  | .transfer src _ _ _ | .transferFrom _ src _ _ | .burn src _ | .burnFrom _ src _ => some src
  | _ => none

/-- The account the call gives to. -/
def payee : Call Address → Option Address
  | .mint dst _ | .transfer _ dst _ _ | .transferFrom _ _ dst _ => some dst
  | _ => none

/-- The allowance the call spends, as its owner and its spender. -/
def drawnOn : Call Address → Option (Address × Address)
  | .transferFrom spender src _ _ | .burnFrom spender src _ => some (src, spender)
  | _ => none

/-- The allowance the call sets. -/
def sets : Call Address → Option ((Address × Address) × AllowanceValue)
  | .approve src spender amount liveUntilLedger => some ((src, spender), ⟨amount, liveUntilLedger⟩)
  | _ => none

/-- The administrator the call leaves. -/
def adminAfter (admin : Address) : Call Address → Address
  | .setAdmin newAdmin => newAdmin
  | _ => admin

/-- What the call publishes. -/
def event (admin : Address) : Call Address → Event Address
  | .mint dst amount => .mint dst amount
  | .setAdmin newAdmin => .setAdmin admin newAdmin
  | .approve src spender amount liveUntilLedger => .approve src spender amount liveUntilLedger
  | .transfer src dst muxedId amount => .transfer src dst muxedId amount
  | .transferFrom _ src dst amount => .transfer src dst none amount
  | .burn src amount => .burn src amount
  | .burnFrom _ src amount => .burn src amount

variable [DecidableEq Address]

/-- What the call takes from an account. -/
def debit (c : Call Address) (a : Address) : ℤ :=
  if c.payer = some a then c.amount else 0

/-- What the call gives to an account. -/
def credit (c : Call Address) (a : Address) : ℤ :=
  if c.payee = some a then c.amount else 0

end Call

/-! ## The parts of an entry point -/

section Parts

variable {env : Env Address} {w w' : World Address} {u : Unit}

theorem requireAuth_eq_ok {a : Address} :
    requireAuth env a w = .ok u w' ↔ env.authorized a = true ∧ w = w' := by
  simp only [requireAuth, Tx.demand_eq_ok]

theorem checkNonnegativeAmount_eq_ok {n : ℤ} :
    checkNonnegativeAmount n w = .ok u w' ↔ 0 ≤ n ∧ w = w' := by
  simp only [checkNonnegativeAmount, Tx.demand_eq_ok, Int.not_lt]

theorem publish_eq_ok {e : Event Address} :
    publish e w = .ok u w' ↔ { w with events := w.events ++ [e] } = w' := by
  simp only [publish, Tx.update_eq_ok]

theorem readAdministrator_eq_ok {a : Address} :
    readAdministrator w = .ok a w' ↔ w.admin = some a ∧ w = w' := by
  simp only [readAdministrator, Tx.bind_eq_ok, Tx.read_eq_ok, Tx.someOrTrap_eq_ok]
  constructor
  · rintro ⟨_, _, ⟨rfl, rfl⟩, ha⟩
    exact ha
  · intro ha
    exact ⟨_, _, ⟨rfl, rfl⟩, ha⟩

theorem writeAdministrator_eq_ok {a : Address} :
    writeAdministrator a w = .ok u w' ↔ { w with admin := some a } = w' := by
  simp only [writeAdministrator, Tx.update_eq_ok]

end Parts

variable [DecidableEq Address] {env : Env Address} {w w' : World Address}

@[simp] theorem World.readBalance_writeBalance (w : World Address) (addr a : Address) (n : ℤ) :
    (w.writeBalance addr n).readBalance a = if a = addr then n else w.readBalance a := by
  by_cases h : a = addr
  · subst h
    simp [World.readBalance, World.writeBalance]
  · simp [World.readBalance, World.writeBalance, h]

/-- Every balance is an `i128`. -/
def World.Fits (w : World Address) : Prop :=
  ∀ a, i128Min ≤ w.readBalance a ∧ w.readBalance a ≤ i128Max

theorem World.Fits.writeBalance (h : w.Fits) {addr : Address} {n : ℤ}
    (hn : i128Min ≤ n ∧ n ≤ i128Max) : (w.writeBalance addr n).Fits := by
  intro a
  rw [World.readBalance_writeBalance]
  split
  · exact hn
  · exact h a

theorem receiveBalance_eq_ok {addr : Address} {n : ℤ} {u : Unit} :
    receiveBalance addr n w = .ok u w' ↔
      (i128Min ≤ w.readBalance addr + n ∧ w.readBalance addr + n ≤ i128Max) ∧
        w' = w.writeBalance addr (w.readBalance addr + n) := by
  simp only [receiveBalance, checkedI128, Tx.bind_eq_ok, Tx.read_eq_ok, Tx.fit_eq_ok,
    Tx.update_eq_ok]
  constructor
  · rintro ⟨_, _, ⟨rfl, rfl⟩, _, _, ⟨hfit, rfl, rfl⟩, rfl⟩
    exact ⟨hfit, rfl⟩
  · rintro ⟨hfit, rfl⟩
    exact ⟨_, _, ⟨rfl, rfl⟩, _, _, ⟨hfit, rfl, rfl⟩, rfl⟩

theorem spendBalance_eq_ok {addr : Address} {n : ℤ} {u : Unit} :
    spendBalance addr n w = .ok u w' ↔
      n ≤ w.readBalance addr ∧
        (i128Min ≤ w.readBalance addr - n ∧ w.readBalance addr - n ≤ i128Max) ∧
        w' = w.writeBalance addr (w.readBalance addr - n) := by
  simp only [spendBalance, checkedI128, Tx.bind_eq_ok, Tx.read_eq_ok, Tx.fit_eq_ok,
    Tx.update_eq_ok, Tx.demand_eq_ok, Int.not_lt]
  constructor
  · rintro ⟨_, _, ⟨rfl, rfl⟩, _, _, ⟨hle, rfl⟩, _, _, ⟨hfit, rfl, rfl⟩, rfl⟩
    exact ⟨hle, hfit, rfl⟩
  · rintro ⟨hle, hfit, rfl⟩
    exact ⟨_, _, ⟨rfl, rfl⟩, ⟨⟩, _, ⟨hle, rfl⟩, _, _, ⟨hfit, rfl, rfl⟩, rfl⟩

/-- The allowances after an allowance has been written: an entry with an amount is paid for up to
the ledger the allowance lives until. -/
def written (l : Leases (Address × Address) AllowanceValue) (sequence : ℕ)
    (k : Address × Address) (v : AllowanceValue) : Leases (Address × Address) AllowanceValue :=
  if v.amount > 0 then (l.set sequence k v).extend k v.liveUntilLedger else l.set sequence k v

theorem writeAllowance_eq_ok {src spender : Address} {n : ℤ} {live : ℕ} {u : Unit} :
    writeAllowance env src spender n live w = .ok u w' ↔
      (0 < n → env.sequence ≤ live ∧ live ≤ env.maxLiveUntilLedger) ∧
        w' = { w with
          allowances := written w.allowances env.sequence (src, spender) ⟨n, live⟩ } := by
  simp only [writeAllowance, extendAllowance, Tx.bind_eq_ok, Tx.demand_eq_ok, Tx.update_eq_ok]
  by_cases hn : 0 < n
  · simp only [hn, true_and, Nat.not_lt, if_true, Tx.bind_eq_ok, Tx.demand_eq_ok,
      Tx.update_eq_ok, written, true_imp_iff]
    constructor
    · rintro ⟨_, _, ⟨hlive, rfl⟩, _, _, rfl, _, _, ⟨-, rfl⟩, _, _, ⟨hmax, rfl⟩, rfl⟩
      rw [Nat.add_sub_cancel' hlive] at hmax ⊢
      exact ⟨⟨hlive, hmax⟩, rfl⟩
    · rintro ⟨⟨hlive, hmax⟩, rfl⟩
      rw [← Nat.add_sub_cancel' hlive] at hmax
      refine ⟨⟨⟩, _, ⟨hlive, rfl⟩, ⟨⟩, _, rfl, ⟨⟩, _, ⟨hlive, rfl⟩, ⟨⟩, _, ⟨hmax, rfl⟩, ?_⟩
      rw [Nat.add_sub_cancel' hlive]
  · simp only [hn, false_and, not_false_eq_true, if_false, Tx.pure_eq_ok, written,
      false_imp_iff, true_and]
    constructor
    · rintro ⟨_, _, rfl, _, _, rfl, rfl⟩
      rfl
    · rintro rfl
      exact ⟨⟨⟩, _, rfl, ⟨⟩, _, rfl, rfl⟩

/-- The allowances after an amount has been spent of one: spending nothing writes nothing. -/
def spent (w : World Address) (sequence : ℕ) (src spender : Address) (n : ℤ) :
    Leases (Address × Address) AllowanceValue :=
  if 0 < n then
    written w.allowances sequence (src, spender)
      ⟨(w.readAllowance sequence src spender).amount - n,
        (w.readAllowance sequence src spender).liveUntilLedger⟩
  else w.allowances

theorem spendAllowance_eq_ok {src spender : Address} {n : ℤ} {u : Unit} :
    spendAllowance env src spender n w = .ok u w' ↔
      n ≤ (w.readAllowance env.sequence src spender).amount ∧
      (0 < n → (i128Min ≤ (w.readAllowance env.sequence src spender).amount - n ∧
          (w.readAllowance env.sequence src spender).amount - n ≤ i128Max) ∧
        (n < (w.readAllowance env.sequence src spender).amount →
          env.sequence ≤ (w.readAllowance env.sequence src spender).liveUntilLedger ∧
          (w.readAllowance env.sequence src spender).liveUntilLedger ≤ env.maxLiveUntilLedger)) ∧
      w' = { w with allowances := spent w env.sequence src spender n } := by
  simp only [spendAllowance, Tx.bind_eq_ok, Tx.read_eq_ok, Tx.demand_eq_ok, Int.not_lt]
  by_cases hn : 0 < n
  · simp only [hn, if_true, Tx.bind_eq_ok, checkedI128, Tx.fit_eq_ok, writeAllowance_eq_ok, spent,
      true_imp_iff]
    constructor
    · rintro ⟨_, _, ⟨rfl, rfl⟩, _, _, ⟨hle, rfl⟩, _, _, ⟨hfit, rfl, rfl⟩, hlive, rfl⟩
      exact ⟨hle, ⟨hfit, fun h => hlive (Int.sub_pos.mpr h)⟩, rfl⟩
    · rintro ⟨hle, ⟨hfit, hlive⟩, rfl⟩
      exact ⟨_, _, ⟨rfl, rfl⟩, ⟨⟩, _, ⟨hle, rfl⟩, _, _, ⟨hfit, rfl, rfl⟩,
        fun h => hlive (Int.sub_pos.mp h), rfl⟩
  · simp only [hn, if_false, Tx.pure_eq_ok, spent, false_imp_iff, true_and]
    constructor
    · rintro ⟨_, _, ⟨rfl, rfl⟩, _, _, ⟨hle, rfl⟩, rfl⟩
      exact ⟨hle, rfl⟩
    · rintro ⟨hle, rfl⟩
      exact ⟨_, _, ⟨rfl, rfl⟩, ⟨⟩, _, ⟨hle, rfl⟩, rfl⟩

/-! ## The effect of a call -/

/-- The allowances after a call. -/
def Call.allowancesAfter (sequence : ℕ) (w : World Address) :
    Call Address → Leases (Address × Address) AllowanceValue
  | .approve src spender amount live =>
    written w.allowances sequence (src, spender) ⟨amount, live⟩
  | .transferFrom spender src _ amount => spent w sequence src spender amount
  | .burnFrom spender src amount => spent w sequence src spender amount
  | _ => w.allowances

/-- What a call that returned has done. -/
structure Effect (env : Env Address) (c : Call Address) (w w' : World Address) (admin : Address) :
    Prop where
  amount_nonneg : 0 ≤ c.amount
  signed : env.authorized (c.signer admin) = true
  balance : ∀ a, w'.readBalance a = w.readBalance a - c.debit a + c.credit a
  covered : ∀ a, c.payer = some a → c.amount ≤ w.readBalance a
  fits : w.Fits → w'.Fits
  allowed : ∀ src spender, c.drawnOn = some (src, spender) →
    c.amount ≤ (w.readAllowance env.sequence src spender).amount
  live : ∀ src spender v, c.sets = some ((src, spender), v) → 0 < v.amount →
    env.sequence ≤ v.liveUntilLedger
  allowances : w'.allowances = c.allowancesAfter env.sequence w
  administrator : w'.admin = some (c.adminAfter admin)
  metadata : w'.metadata = w.metadata
  events : w'.events = w.events ++ [c.event admin]

section Accounts

variable {src dst a : Address} {n : ℤ}

/-- What an account has after one has received. -/
theorem readBalance_received :
    (w.writeBalance dst (w.readBalance dst + n)).readBalance a =
      w.readBalance a + if some dst = some a then n else 0 := by
  simp only [World.readBalance_writeBalance, Option.some.injEq, eq_comm (a := dst)]
  split
  · next ha => rw [ha]
  · rw [add_zero]

/-- What an account has after one has spent. -/
theorem readBalance_spent :
    (w.writeBalance src (w.readBalance src - n)).readBalance a =
      w.readBalance a - if some src = some a then n else 0 := by
  simp only [World.readBalance_writeBalance, Option.some.injEq, eq_comm (a := src)]
  split
  · next ha => rw [ha]
  · rw [sub_zero]

end Accounts

theorem mint_effect {admin dst : Address} {n : ℤ} {u : Unit} (hadmin : w.admin = some admin)
    (h : mint env dst n w = .ok u w') : Effect env (.mint dst n) w w' admin := by
  simp only [mint, Tx.bind_eq_ok, checkNonnegativeAmount_eq_ok, readAdministrator_eq_ok,
    requireAuth_eq_ok, receiveBalance_eq_ok, publish_eq_ok] at h
  obtain ⟨_, _, ⟨h0, rfl⟩, _, _, ⟨hread, rfl⟩, _, _, ⟨hauth, rfl⟩, _, _, ⟨hfit, rfl⟩, rfl⟩ := h
  cases hadmin.symm.trans hread
  exact {
    amount_nonneg := h0
    signed := hauth
    balance := fun a => by
      show (w.writeBalance dst _).readBalance a = w.readBalance a - 0 + _
      rw [readBalance_received, sub_zero]
      rfl
    covered := fun _ ha => by cases ha
    fits := fun hw => hw.writeBalance hfit
    allowed := fun _ _ ha => by cases ha
    live := fun _ _ _ ha => by cases ha
    allowances := rfl
    administrator := hadmin
    metadata := rfl
    events := rfl }

theorem setAdmin_effect {admin newAdmin : Address} {u : Unit} (hadmin : w.admin = some admin)
    (h : setAdmin env newAdmin w = .ok u w') : Effect env (.setAdmin newAdmin) w w' admin := by
  simp only [setAdmin, Tx.bind_eq_ok, readAdministrator_eq_ok, requireAuth_eq_ok,
    writeAdministrator_eq_ok, publish_eq_ok] at h
  obtain ⟨_, _, ⟨hread, rfl⟩, _, _, ⟨hauth, rfl⟩, _, _, rfl, rfl⟩ := h
  cases hadmin.symm.trans hread
  exact {
    amount_nonneg := le_rfl
    signed := hauth
    balance := fun a => by
      show w.readBalance a = w.readBalance a - 0 + 0
      rw [sub_zero, add_zero]
    covered := fun _ ha => by cases ha
    fits := id
    allowed := fun _ _ ha => by cases ha
    live := fun _ _ _ ha => by cases ha
    allowances := rfl
    administrator := rfl
    metadata := rfl
    events := rfl }

theorem approve_effect {admin src spender : Address} {n : ℤ} {live : ℕ} {u : Unit}
    (hadmin : w.admin = some admin) (h : approve env src spender n live w = .ok u w') :
    Effect env (.approve src spender n live) w w' admin := by
  simp only [approve, Tx.bind_eq_ok, checkNonnegativeAmount_eq_ok, requireAuth_eq_ok,
    writeAllowance_eq_ok, publish_eq_ok] at h
  obtain ⟨_, _, ⟨hauth, rfl⟩, _, _, ⟨h0, rfl⟩, _, _, ⟨hlive, rfl⟩, rfl⟩ := h
  exact {
    amount_nonneg := h0
    signed := hauth
    balance := fun a => by
      show w.readBalance a = w.readBalance a - 0 + 0
      rw [sub_zero, add_zero]
    covered := fun _ ha => by cases ha
    fits := id
    allowed := fun _ _ ha => by cases ha
    live := fun _ _ v ha hv => by
      cases ha
      exact (hlive hv).1
    allowances := rfl
    administrator := hadmin
    metadata := rfl
    events := rfl }

theorem transfer_effect {admin src dst : Address} {muxedId : Option ℕ} {n : ℤ} {u : Unit}
    (hadmin : w.admin = some admin) (h : transfer env src dst muxedId n w = .ok u w') :
    Effect env (.transfer src dst muxedId n) w w' admin := by
  simp only [transfer, Tx.bind_eq_ok, checkNonnegativeAmount_eq_ok, requireAuth_eq_ok,
    spendBalance_eq_ok, receiveBalance_eq_ok, publish_eq_ok] at h
  obtain ⟨_, _, ⟨hauth, rfl⟩, _, _, ⟨h0, rfl⟩, _, _, ⟨hle, hsrc, rfl⟩, _, _, ⟨hdst, rfl⟩, rfl⟩ := h
  exact {
    amount_nonneg := h0
    signed := hauth
    balance := fun a => readBalance_received.trans (congrArg (· + _) readBalance_spent)
    covered := fun a ha => by
      cases ha
      exact hle
    fits := fun hw => (hw.writeBalance hsrc).writeBalance hdst
    allowed := fun _ _ ha => by cases ha
    live := fun _ _ _ ha => by cases ha
    allowances := rfl
    administrator := hadmin
    metadata := rfl
    events := rfl }

theorem transferFrom_effect {admin spender src dst : Address} {n : ℤ} {u : Unit}
    (hadmin : w.admin = some admin) (h : transferFrom env spender src dst n w = .ok u w') :
    Effect env (.transferFrom spender src dst n) w w' admin := by
  simp only [transferFrom, Tx.bind_eq_ok, checkNonnegativeAmount_eq_ok, requireAuth_eq_ok,
    spendAllowance_eq_ok, spendBalance_eq_ok, receiveBalance_eq_ok, publish_eq_ok] at h
  obtain ⟨_, _, ⟨hauth, rfl⟩, _, _, ⟨h0, rfl⟩, _, _, ⟨hallowed, -, rfl⟩, _, _, ⟨hle, hsrc, rfl⟩,
    _, _, ⟨hdst, rfl⟩, rfl⟩ := h
  exact {
    amount_nonneg := h0
    signed := hauth
    balance := fun a => readBalance_received.trans (congrArg (· + _) readBalance_spent)
    covered := fun a ha => by
      cases ha
      exact hle
    fits := fun hw =>
      (World.Fits.writeBalance (w := { w with allowances := _ }) hw hsrc).writeBalance hdst
    allowed := fun _ _ ha => by
      cases ha
      exact hallowed
    live := fun _ _ _ ha => by cases ha
    allowances := rfl
    administrator := hadmin
    metadata := rfl
    events := rfl }

theorem burn_effect {admin src : Address} {n : ℤ} {u : Unit} (hadmin : w.admin = some admin)
    (h : burn env src n w = .ok u w') : Effect env (.burn src n) w w' admin := by
  simp only [burn, Tx.bind_eq_ok, checkNonnegativeAmount_eq_ok, requireAuth_eq_ok,
    spendBalance_eq_ok, publish_eq_ok] at h
  obtain ⟨_, _, ⟨hauth, rfl⟩, _, _, ⟨h0, rfl⟩, _, _, ⟨hle, hsrc, rfl⟩, rfl⟩ := h
  exact {
    amount_nonneg := h0
    signed := hauth
    balance := fun a => readBalance_spent.trans (add_zero _).symm
    covered := fun a ha => by
      cases ha
      exact hle
    fits := fun hw => hw.writeBalance hsrc
    allowed := fun _ _ ha => by cases ha
    live := fun _ _ _ ha => by cases ha
    allowances := rfl
    administrator := hadmin
    metadata := rfl
    events := rfl }

theorem burnFrom_effect {admin spender src : Address} {n : ℤ} {u : Unit}
    (hadmin : w.admin = some admin) (h : burnFrom env spender src n w = .ok u w') :
    Effect env (.burnFrom spender src n) w w' admin := by
  simp only [burnFrom, Tx.bind_eq_ok, checkNonnegativeAmount_eq_ok, requireAuth_eq_ok,
    spendAllowance_eq_ok, spendBalance_eq_ok, publish_eq_ok] at h
  obtain ⟨_, _, ⟨hauth, rfl⟩, _, _, ⟨h0, rfl⟩, _, _, ⟨hallowed, -, rfl⟩, _, _, ⟨hle, hsrc, rfl⟩,
    rfl⟩ := h
  exact {
    amount_nonneg := h0
    signed := hauth
    balance := fun a => readBalance_spent.trans (add_zero _).symm
    covered := fun a ha => by
      cases ha
      exact hle
    fits := fun hw => World.Fits.writeBalance (w := { w with allowances := _ }) hw hsrc
    allowed := fun _ _ ha => by
      cases ha
      exact hallowed
    live := fun _ _ _ ha => by cases ha
    allowances := rfl
    administrator := hadmin
    metadata := rfl
    events := rfl }

/-- **The effect of a call that returned**, for every entry point. -/
theorem Call.effect {admin : Address} {c : Call Address} {u : Unit} (hadmin : w.admin = some admin)
    (h : c.run env w = .ok u w') : Effect env c w w' admin := by
  cases c with
  | mint dst n => exact mint_effect hadmin h
  | setAdmin newAdmin => exact setAdmin_effect hadmin h
  | approve src spender n live => exact approve_effect hadmin h
  | transfer src dst muxedId n => exact transfer_effect hadmin h
  | transferFrom spender src dst n => exact transferFrom_effect hadmin h
  | burn src n => exact burn_effect hadmin h
  | burnFrom spender src n => exact burnFrom_effect hadmin h

end VrfyToken
end Sorofy
