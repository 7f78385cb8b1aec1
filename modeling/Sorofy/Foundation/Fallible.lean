import Mathlib.Logic.Basic
import Mathlib.Tactic.SplitIfs

/-!
# Computations that can fail

What it means for a computation in `Except` to return: the inversion lemmas for its steps, as
simp lemmas, so that `simp only` takes a `do` block that returned apart.
-/

namespace Foundation

variable {ε ε' α β : Type}

/-- Go on only if the condition holds. -/
def ensure (p : Prop) [Decidable p] (error : ε) : Except ε Unit :=
  if p then pure () else throw error

/-- The value, or an error for want of one: `ok_or`. -/
def okOr (value : Option α) (error : ε) : Except ε α :=
  match value with
  | some a => pure a
  | none => throw error

/-- A step that returned is followed by the next. -/
theorem ok_bind (a : α) (f : α → Except ε β) : ((.ok a : Except ε α) >>= f) = f a := rfl

@[simp] theorem bind_eq_ok {x : Except ε α} {f : α → Except ε β} {b : β} :
    (x >>= f) = .ok b ↔ ∃ a, x = .ok a ∧ f a = .ok b := by
  rcases x with e | a
  · show Except.error e = .ok b ↔ _
    simp
  · show f a = .ok b ↔ _
    simp

@[simp] theorem pure_eq_ok {a b : α} : (pure a : Except ε α) = .ok b ↔ a = b := by
  show Except.ok a = .ok b ↔ a = b
  rw [Except.ok.injEq]

@[simp] theorem mapError_eq_ok {f : ε → ε'} {x : Except ε α} {a : α} :
    Except.mapError f x = .ok a ↔ x = .ok a := by
  rcases x with e | b
  · show Except.error (f e) = .ok a ↔ Except.error e = .ok a
    simp
  · show Except.ok b = .ok a ↔ Except.ok b = .ok a
    simp

@[simp] theorem ensure_eq_ok {p : Prop} [Decidable p] {e : ε} {u : Unit} :
    ensure p e = .ok u ↔ p := by
  unfold ensure
  split_ifs with hp <;> simp [hp]

@[simp] theorem okOr_eq_ok {value : Option α} {e : ε} {a : α} :
    okOr value e = .ok a ↔ value = some a := by
  cases value <;> simp [okOr]

end Foundation
