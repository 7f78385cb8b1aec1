import Sorofy.VrfyToken.Run

/-!
# Allowances

What may be spent of an allowance, as the history has it: the last approval, less what has been
drawn on it since (`granted`).  The contract keeps an allowance in an entry of temporary storage
that the host may drop, and `Honours` is what connects the two: the entry holds what is granted and
is paid for as long as the approval lives, or it is gone and nothing of the approval could still be
spent.
-/

namespace Sorofy
namespace VrfyToken

open Foundation
open History
open Registry (i128Min i128Max u32Max)

variable {Address : Type} [DecidableEq Address]

/-! ## What the history grants -/

/-- What a call leaves of an allowance. -/
def Call.grantAfter (k : Address × Address) (g : AllowanceValue) (c : Call Address) :
    AllowanceValue :=
  match c.sets with
  | some (k', v) => if k' = k then v else g
  | none => if c.drawnOn = some k then { g with amount := g.amount - c.amount } else g

/-- What a transition leaves of an allowance. -/
def Input.grantAfter (k : Address × Address) (g : AllowanceValue) (i : Input Address) :
    AllowanceValue :=
  match i.returned? with
  | some (_, c) => c.grantAfter k g
  | none => g

/-- What a history grants: the last approval, less what was drawn on it. -/
def granted {σ : Type} (k : Address × Address) (h : List (Transition σ (Input Address))) :
    AllowanceValue :=
  h.foldl (fun g e => e.label.grantAfter k g) ⟨0, 0⟩

@[simp] theorem granted_nil {σ : Type} (k : Address × Address) :
    granted (σ := σ) k [] = ⟨0, 0⟩ := rfl

@[simp] theorem granted_snoc {σ : Type} (k : Address × Address)
    (h : List (Transition σ (Input Address))) (e : Transition σ (Input Address)) :
    granted k (h ++ [e]) = e.label.grantAfter k (granted k h) := by
  simp only [granted, List.foldl_append, List.foldl_cons, List.foldl_nil]

/-! ## The entry of an allowance -/

/-- The store has for the allowance what is granted, through the ledger it lives until; or it has
nothing, and nothing of it could still be spent. -/
structure Honours (now : ℕ) (l : Leases (Address × Address) AllowanceValue)
    (k : Address × Address) (g : AllowanceValue) : Prop where
  nonneg : 0 ≤ g.amount
  entry : (l.get k = some g ∧ (0 < g.amount → l.Kept k g.liveUntilLedger)) ∨
    (l.get k = none ∧ (0 < g.amount → g.liveUntilLedger < now))

variable {now later : ℕ} {l : Leases (Address × Address) AllowanceValue}
variable {k k' : Address × Address} {g v : AllowanceValue}

omit [DecidableEq Address] in
theorem Honours.mono (h : Honours now l k g) (hle : now ≤ later) : Honours later l k g where
  nonneg := h.nonneg
  entry := h.entry.imp_right fun hnone => ⟨hnone.1, fun hg => (hnone.2 hg).trans_le hle⟩

/-- Writing an allowance touches no other. -/
theorem get_written_of_ne (hk : k ≠ k') : (written l now k' v).get k = l.get k := by
  rw [written]
  split
  · rw [Leases.get_extend, Leases.get_set_of_ne hk]
  · exact Leases.get_set_of_ne hk

/-- A written allowance is honoured. -/
theorem Honours.written_self (hv : 0 ≤ v.amount) : Honours now (written l now k v) k v := by
  refine ⟨hv, .inl ?_⟩
  by_cases hpos : v.amount > 0
  · rw [written, if_pos hpos]
    refine ⟨by rw [Leases.get_extend, Leases.get_set_self], fun _ => ?_⟩
    exact Leases.kept_extend_self (by rw [Leases.get_set_self]; rfl)
  · rw [written, if_neg hpos]
    exact ⟨Leases.get_set_self, fun h => absurd h hpos⟩

theorem Honours.written_of_ne (h : Honours now l k g) (hk : k ≠ k') :
    Honours now (written l now k' v) k g := by
  have hkept : ∀ {time}, l.Kept k time → (written l now k' v).Kept k time := by
    intro time htime
    rw [written]
    split
    · exact (htime.set_of_ne hk).extend
    · exact htime.set_of_ne hk
  refine ⟨h.nonneg, ?_⟩
  rw [get_written_of_ne hk]
  exact h.entry.imp_left fun hsome => ⟨hsome.1, fun hg => hkept (hsome.2 hg)⟩

/-- An entry whose lease is over is not missed. -/
theorem Honours.evict (h : Honours now l k g) (hexpired : l.Expired now k') :
    Honours now (l.evict k') k g := by
  refine ⟨h.nonneg, ?_⟩
  by_cases hk : k = k'
  · subst hk
    refine .inr ⟨Leases.get_evict_self, fun hg => ?_⟩
    rcases h.entry with ⟨-, hkept⟩ | ⟨-, hlt⟩
    · exact (hkept hg).lt_of_expired hexpired
    · exact hlt hg
  · rw [Leases.get_evict_of_ne hk]
    exact h.entry.imp_left fun hsome => ⟨hsome.1, fun hg => (hsome.2 hg).evict_of_ne hk⟩

section Reading

variable {w : World Address} {src spender : Address}

omit [DecidableEq Address] in
/-- **What `read_allowance` reads** is what is granted, through the ledger it lives until. -/
theorem Honours.readAllowance_amount (h : Honours now w.allowances (src, spender) g) :
    (w.readAllowance now src spender).amount =
      if now ≤ g.liveUntilLedger then g.amount else 0 := by
  rcases h.entry with ⟨hget, -⟩ | ⟨hget, hlt⟩
  · simp only [World.readAllowance, hget]
    by_cases hlive : now ≤ g.liveUntilLedger
    · rw [if_neg (Nat.not_lt.mpr hlive), if_pos hlive]
    · rw [if_pos (Nat.not_le.mp hlive), if_neg hlive]
  · simp only [World.readAllowance, hget]
    split
    · next hlive =>
      have hzero : ¬ 0 < g.amount := fun hg => absurd (hlt hg) (Nat.not_lt.mpr hlive)
      have hnonneg := h.nonneg
      omega
    · rfl

omit [DecidableEq Address] in
/-- An allowance of which something can be spent is read as it is granted. -/
theorem Honours.readAllowance_eq (h : Honours now w.allowances (src, spender) g)
    (hpos : 0 < (w.readAllowance now src spender).amount) :
    w.readAllowance now src spender = g ∧ now ≤ g.liveUntilLedger := by
  rcases h.entry with ⟨hget, -⟩ | ⟨hget, -⟩
  · simp only [World.readAllowance, hget] at hpos ⊢
    split at hpos
    · exact absurd hpos (lt_irrefl 0)
    · next hlive => exact ⟨if_neg hlive, Nat.not_lt.mp hlive⟩
  · simp only [World.readAllowance, hget, lt_irrefl] at hpos

/-- Spending leaves the rest of what is granted. -/
theorem Honours.spent_self {n : ℤ} (h : Honours now w.allowances (src, spender) g) (h0 : 0 ≤ n)
    (hle : n ≤ (w.readAllowance now src spender).amount) :
    Honours now (spent w now src spender n) (src, spender) { g with amount := g.amount - n } := by
  by_cases hn : 0 < n
  · obtain ⟨hread, -⟩ := h.readAllowance_eq (hn.trans_le hle)
    rw [spent, if_pos hn, hread]
    rw [hread] at hle
    exact Honours.written_self (Int.sub_nonneg_of_le hle)
  · have hzero : n = 0 := le_antisymm (Int.not_lt.mp hn) h0
    rw [spent, if_neg hn, hzero, sub_zero]
    exact h

theorem get_spent_of_ne {n : ℤ} (hk : k ≠ (src, spender)) :
    (spent w now src spender n).get k = w.allowances.get k := by
  rw [spent]
  split
  · exact get_written_of_ne hk
  · rfl

theorem Honours.spent_of_ne {n : ℤ} (h : Honours now w.allowances k g) (hk : k ≠ (src, spender)) :
    Honours now (spent w now src spender n) k g := by
  rw [spent]
  split
  · exact h.written_of_ne hk
  · exact h

end Reading

/-! ## Along a run -/

/-- A call honours what it leaves of every allowance. -/
theorem Effect.honours {env : Env Address} {c : Call Address} {w w' : World Address}
    {admin : Address} (he : Effect env c w w' admin)
    (h : Honours env.sequence w.allowances k g) :
    Honours env.sequence w'.allowances k (c.grantAfter k g) := by
  rw [he.allowances]
  cases c with
  | approve src spender n live =>
    show Honours _ (written w.allowances env.sequence (src, spender) ⟨n, live⟩) k
      (if (src, spender) = k then ⟨n, live⟩ else g)
    split
    · next hk =>
      rw [hk]
      exact Honours.written_self he.amount_nonneg
    · next hk => exact h.written_of_ne (Ne.symm hk)
  | transferFrom spender src dst n =>
    show Honours _ (spent w env.sequence src spender n) k
      (if some (src, spender) = some k then { g with amount := g.amount - n } else g)
    split
    · next hk =>
      cases hk
      exact h.spent_self he.amount_nonneg (he.allowed src spender rfl)
    · next hk => exact h.spent_of_ne fun heq => hk (congrArg some heq.symm)
  | burnFrom spender src n =>
    show Honours _ (spent w env.sequence src spender n) k
      (if some (src, spender) = some k then { g with amount := g.amount - n } else g)
    split
    · next hk =>
      cases hk
      exact h.spent_self he.amount_nonneg (he.allowed src spender rfl)
    · next hk => exact h.spent_of_ne fun heq => hk (congrArg some heq.symm)
  | mint dst n => exact h
  | setAdmin newAdmin => exact h
  | transfer src dst muxedId n => exact h
  | burn src n => exact h

variable {admin : Address} {metadata : TokenMetadata} {s₀ s : Ledger Address}
variable {h : List (Transition (Ledger Address) (Input Address))}

/-- After every run the contract honours every allowance the history grants. -/
theorem Run.honours (hrun : Run admin metadata s₀ h s) (k : Address × Address) :
    Honours s.sequence s.world.allowances k (granted k h) := by
  refine hrun.invariant
    (P := fun h s => Honours s.sequence s.world.allowances k (granted k h)) ?_ ?_ ?_
  · rw [hrun.deployed.world_eq.2]
    exact ⟨le_rfl, .inr ⟨rfl, fun h0 => absurd h0 (lt_irrefl 0)⟩⟩
  · intro h t i u env c hP hret _ hseq hsame he
    rw [granted_snoc, Input.grantAfter, hret, hsame, ← hseq]
    rw [← hseq] at hP
    exact he.honours hP
  · intro h t i u hP hret hle hw
    rw [granted_snoc, Input.grantAfter, hret]
    rcases hw with hw | ⟨src, spender, hexpired, hw⟩
    · rw [hw]
      exact hP.mono hle
    · rw [hw]
      exact (hP.evict hexpired).mono hle

end VrfyToken
end Sorofy
