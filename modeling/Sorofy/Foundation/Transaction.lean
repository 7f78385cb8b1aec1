import Mathlib.Tactic.Common

/-!
# Transactions: state, refusals and traps

A computation over a state `σ` that ends in one of three ways.  It *returns* a value with the
state it leaves; it *refuses*, returning an error, and the state it had written so far is still
there to be looked at; or it *traps*, and there is no state to speak of.  Whether a refusal is
rolled back is the caller's decision (`Outcome.commit`), so that what a refusing computation
wrote before it refused can be stated and proved.

For each way of ending there is one inversion lemma for `>>=` and one for each primitive;
together, as the simp set of this file, they turn the run of a `do` block into the conditions it
passed.
-/

namespace Foundation

universe u

/-- How a transaction ends. -/
inductive Outcome (ε τ σ α : Type u) where
  | ok (value : α) (state : σ)
  | err (error : ε) (state : σ)
  | trap (fault : τ)
  deriving DecidableEq

/-- A transaction over the state `σ` that may refuse with an `ε` or trap with a `τ`. -/
def Tx (ε τ σ α : Type u) : Type u := σ → Outcome ε τ σ α

variable {ε τ σ α β : Type u}

/-- The state after the caller has kept a return and rolled back everything else. -/
def Outcome.commit (before : σ) : Outcome ε τ σ α → σ
  | .ok _ s => s
  | .err _ _ => before
  | .trap _ => before

@[simp] theorem Outcome.commit_ok (before : σ) (a : α) (s : σ) :
    (Outcome.ok a s : Outcome ε τ σ α).commit before = s := rfl

@[simp] theorem Outcome.commit_err (before : σ) (e : ε) (s : σ) :
    (Outcome.err e s : Outcome ε τ σ α).commit before = before := rfl

@[simp] theorem Outcome.commit_trap (before : σ) (t : τ) :
    (Outcome.trap t : Outcome ε τ σ α).commit before = before := rfl

theorem Outcome.commit_of_ne_ok {before : σ} {o : Outcome ε τ σ α} (h : ∀ a s, o ≠ .ok a s) :
    o.commit before = before := by
  cases o with
  | ok a s => exact absurd rfl (h a s)
  | _ => rfl

/-- The fault of an outcome that trapped. -/
def Outcome.fault? : Outcome ε τ σ α → Option τ
  | .trap t => some t
  | _ => none

theorem Outcome.fault?_eq_some {o : Outcome ε τ σ α} {t : τ} : o.fault? = some t ↔ o = .trap t := by
  cases o <;> simp [Outcome.fault?]

namespace Tx

instance : Monad (Tx ε τ σ) where
  pure a := fun s => .ok a s
  bind x f := fun s =>
    match x s with
    | .ok a s' => f a s'
    | .err e s' => .err e s'
    | .trap t => .trap t

/-! ## The primitives -/

/-- Read a part of the state. -/
def read (f : σ → α) : Tx ε τ σ α := fun s => .ok (f s) s

/-- Change the state. -/
def update (f : σ → σ) : Tx ε τ σ PUnit := fun s => .ok ⟨⟩ (f s)

/-- Refuse with an error when the condition holds. -/
def refuseIf (c : Prop) [Decidable c] (e : ε) : Tx ε τ σ PUnit := fun s =>
  if c then .err e s else .ok ⟨⟩ s

/-- Trap unless the condition holds. -/
def demand (c : Prop) [Decidable c] (t : τ) : Tx ε τ σ PUnit := fun s =>
  if c then .ok ⟨⟩ s else .trap t

/-- The value, if it satisfies the condition, or a trap: how checked arithmetic evaluates. -/
def fit (p : α → Prop) [DecidablePred p] (a : α) (t : τ) : Tx ε τ σ α := fun s =>
  if p a then .ok a s else .trap t

/-- The value of an option, or a refusal. -/
def someOrRefuse (o : Option α) (e : ε) : Tx ε τ σ α := fun s =>
  match o with
  | some a => .ok a s
  | none => .err e s

/-- The value of an option, or a trap. -/
def someOrTrap (o : Option α) (t : τ) : Tx ε τ σ α := fun s =>
  match o with
  | some a => .ok a s
  | none => .trap t

/-! ## Inversion of a sequence -/

theorem pure_apply (a : α) (s : σ) : (pure a : Tx ε τ σ α) s = .ok a s := rfl

@[simp] theorem pure_eq_ok {a b : α} {s s' : σ} :
    (pure a : Tx ε τ σ α) s = .ok b s' ↔ a = b ∧ s = s' := by
  rw [pure_apply, Outcome.ok.injEq]

@[simp] theorem pure_ne_err {a : α} {s s' : σ} {e : ε} : (pure a : Tx ε τ σ α) s ≠ .err e s' := by
  simp [pure_apply]

@[simp] theorem pure_ne_trap {a : α} {s : σ} {t : τ} : (pure a : Tx ε τ σ α) s ≠ .trap t := by
  simp [pure_apply]

/-- A sequence returns when its first part returns and the rest returns from there. -/
@[simp] theorem bind_eq_ok {x : Tx ε τ σ α} {f : α → Tx ε τ σ β} {s s' : σ} {b : β} :
    (x >>= f) s = .ok b s' ↔ ∃ a s₁, x s = .ok a s₁ ∧ f a s₁ = .ok b s' := by
  show (match x s with
    | .ok a s' => f a s'
    | .err e s' => .err e s'
    | .trap t => .trap t) = _ ↔ _
  cases x s <;> simp

/-- A sequence refuses in its first part, or later. -/
@[simp] theorem bind_eq_err {x : Tx ε τ σ α} {f : α → Tx ε τ σ β} {s s' : σ} {e : ε} :
    (x >>= f) s = .err e s' ↔
      x s = .err e s' ∨ ∃ a s₁, x s = .ok a s₁ ∧ f a s₁ = .err e s' := by
  show (match x s with
    | .ok a s' => f a s'
    | .err e s' => .err e s'
    | .trap t => .trap t) = _ ↔ _
  cases x s <;> simp

/-- A sequence traps in its first part, or later. -/
@[simp] theorem bind_eq_trap {x : Tx ε τ σ α} {f : α → Tx ε τ σ β} {s : σ} {t : τ} :
    (x >>= f) s = .trap t ↔ x s = .trap t ∨ ∃ a s₁, x s = .ok a s₁ ∧ f a s₁ = .trap t := by
  show (match x s with
    | .ok a s' => f a s'
    | .err e s' => .err e s'
    | .trap t => .trap t) = _ ↔ _
  cases x s <;> simp

/-! ## Inversion of the primitives -/

@[simp] theorem read_eq_ok {f : σ → α} {s s' : σ} {a : α} :
    (read f : Tx ε τ σ α) s = .ok a s' ↔ f s = a ∧ s = s' := by
  rw [read, Outcome.ok.injEq]

@[simp] theorem read_ne_err {f : σ → α} {s s' : σ} {e : ε} :
    (read f : Tx ε τ σ α) s ≠ .err e s' := by
  simp [read]

@[simp] theorem read_ne_trap {f : σ → α} {s : σ} {t : τ} : (read f : Tx ε τ σ α) s ≠ .trap t := by
  simp [read]

@[simp] theorem update_eq_ok {f : σ → σ} {s s' : σ} {a : PUnit} :
    (update f : Tx ε τ σ PUnit) s = .ok a s' ↔ f s = s' := by
  simp [update]

@[simp] theorem update_ne_err {f : σ → σ} {s s' : σ} {e : ε} :
    (update f : Tx ε τ σ PUnit) s ≠ .err e s' := by
  simp [update]

@[simp] theorem update_ne_trap {f : σ → σ} {s : σ} {t : τ} :
    (update f : Tx ε τ σ PUnit) s ≠ .trap t := by
  simp [update]

@[simp] theorem refuseIf_eq_ok {c : Prop} [Decidable c] {e : ε} {s s' : σ} {a : PUnit} :
    (refuseIf c e : Tx ε τ σ PUnit) s = .ok a s' ↔ ¬ c ∧ s = s' := by
  by_cases hc : c <;> simp [refuseIf, hc]

@[simp] theorem refuseIf_eq_err {c : Prop} [Decidable c] {e e' : ε} {s s' : σ} :
    (refuseIf c e : Tx ε τ σ PUnit) s = .err e' s' ↔ c ∧ e = e' ∧ s = s' := by
  by_cases hc : c <;> simp [refuseIf, hc]

@[simp] theorem refuseIf_ne_trap {c : Prop} [Decidable c] {e : ε} {s : σ} {t : τ} :
    (refuseIf c e : Tx ε τ σ PUnit) s ≠ .trap t := by
  by_cases hc : c <;> simp [refuseIf, hc]

@[simp] theorem demand_eq_ok {c : Prop} [Decidable c] {t : τ} {s s' : σ} {a : PUnit} :
    (demand c t : Tx ε τ σ PUnit) s = .ok a s' ↔ c ∧ s = s' := by
  by_cases hc : c <;> simp [demand, hc]

@[simp] theorem demand_ne_err {c : Prop} [Decidable c] {t : τ} {s s' : σ} {e : ε} :
    (demand c t : Tx ε τ σ PUnit) s ≠ .err e s' := by
  by_cases hc : c <;> simp [demand, hc]

@[simp] theorem demand_eq_trap {c : Prop} [Decidable c] {t t' : τ} {s : σ} :
    (demand c t : Tx ε τ σ PUnit) s = .trap t' ↔ ¬ c ∧ t = t' := by
  by_cases hc : c <;> simp [demand, hc]

@[simp] theorem fit_eq_ok {p : α → Prop} [DecidablePred p] {a b : α} {t : τ} {s s' : σ} :
    (fit p a t : Tx ε τ σ α) s = .ok b s' ↔ p a ∧ a = b ∧ s = s' := by
  by_cases hp : p a <;> simp [fit, hp]

@[simp] theorem fit_ne_err {p : α → Prop} [DecidablePred p] {a : α} {t : τ} {s s' : σ} {e : ε} :
    (fit p a t : Tx ε τ σ α) s ≠ .err e s' := by
  by_cases hp : p a <;> simp [fit, hp]

@[simp] theorem fit_eq_trap {p : α → Prop} [DecidablePred p] {a : α} {t t' : τ} {s : σ} :
    (fit p a t : Tx ε τ σ α) s = .trap t' ↔ ¬ p a ∧ t = t' := by
  by_cases hp : p a <;> simp [fit, hp]

@[simp] theorem someOrRefuse_eq_ok {o : Option α} {e : ε} {s s' : σ} {a : α} :
    (someOrRefuse o e : Tx ε τ σ α) s = .ok a s' ↔ o = some a ∧ s = s' := by
  cases o <;> simp [someOrRefuse]

@[simp] theorem someOrRefuse_eq_err {o : Option α} {e e' : ε} {s s' : σ} :
    (someOrRefuse o e : Tx ε τ σ α) s = .err e' s' ↔ o = none ∧ e = e' ∧ s = s' := by
  cases o <;> simp [someOrRefuse]

@[simp] theorem someOrRefuse_ne_trap {o : Option α} {e : ε} {s : σ} {t : τ} :
    (someOrRefuse o e : Tx ε τ σ α) s ≠ .trap t := by
  cases o <;> simp [someOrRefuse]

@[simp] theorem someOrTrap_eq_ok {o : Option α} {t : τ} {s s' : σ} {a : α} :
    (someOrTrap o t : Tx ε τ σ α) s = .ok a s' ↔ o = some a ∧ s = s' := by
  cases o <;> simp [someOrTrap]

@[simp] theorem someOrTrap_ne_err {o : Option α} {t : τ} {s s' : σ} {e : ε} :
    (someOrTrap o t : Tx ε τ σ α) s ≠ .err e s' := by
  cases o <;> simp [someOrTrap]

@[simp] theorem someOrTrap_eq_trap {o : Option α} {t t' : τ} {s : σ} :
    (someOrTrap o t : Tx ε τ σ α) s = .trap t' ↔ o = none ∧ t = t' := by
  cases o <;> simp [someOrTrap]

end Tx
end Foundation
