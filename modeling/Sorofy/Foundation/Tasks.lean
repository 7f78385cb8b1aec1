import Mathlib.Algebra.BigOperators.Ring.Finset
import Mathlib.Algebra.Order.BigOperators.Group.List
import Mathlib.Algebra.Order.Group.Nat
import Sorofy.Foundation.History

/-!
# Tasks over a shared state

Tasks take turns on a shared state, in any order.  In its turn one task changes the shared state and
its own, and may start further tasks; tasks also come from outside.  A task that is over stays in
the pool, where it has no turn.

What the tasks hold of a resource and what the shared state has left of it are together what there
was at first, as soon as each single turn keeps them so (`Path.balanced`).  There is no other
argument about interleavings: a turn is looked at alone.
-/

namespace Foundation
namespace Tasks

open History

universe u v w

variable {σ τ ι : Type*}

/-- The shared state and the tasks. -/
structure Pool (σ : Type u) (τ : Type v) where
  shared : σ
  tasks : List τ

/-- What a task may do in its turn: of the shared state and its own it makes new ones, and it starts
tasks. -/
abbrev Turns (σ : Type u) (τ : Type v) (ι : Type w) : Type (max u v w) :=
  σ → τ → ι → σ → τ → List τ → Prop

/-- One turn of any task, or the arrival of a task from outside, which has no label. -/
inductive Step (turn : Turns σ τ ι) (arrives : τ → Prop) : Pool σ τ → Option ι → Pool σ τ → Prop
  | turn (before after : List τ) (s : σ) (t : τ) (a : ι) (s' : σ) (t' : τ) (started : List τ)
      (h : turn s t a s' t' started) :
      Step turn arrives ⟨s, before ++ t :: after⟩ (some a)
        ⟨s', before ++ t' :: after ++ started⟩
  | arrival (tasks : List τ) (s : σ) (t : τ) (h : arrives t) :
      Step turn arrives ⟨s, tasks⟩ none ⟨s, tasks ++ [t]⟩

/-! ## What the tasks hold -/

section Load

variable {M : Type*} [AddCommMonoid M]

/-- The sum of what each task holds. -/
def load (hold : τ → M) (tasks : List τ) : M :=
  (tasks.map hold).sum

variable {hold : τ → M} {t : τ} {tasks started : List τ}

@[simp] theorem load_nil : load hold [] = 0 := rfl

@[simp] theorem load_cons : load hold (t :: tasks) = hold t + load hold tasks := by
  rw [load, List.map_cons, List.sum_cons, load]

@[simp] theorem load_append : load hold (tasks ++ started) = load hold tasks + load hold started := by
  rw [load, List.map_append, List.sum_append, load, load]

/-- What one task holds, taken out of the sum. -/
theorem load_middle (before after : List τ) :
    load hold (before ++ t :: after) = load hold (before ++ after) + hold t := by
  simp only [load_append, load_cons]
  rw [add_comm (hold t), add_assoc]

theorem load_add (hold more : τ → M) :
    load (fun t => hold t + more t) tasks = load hold tasks + load more tasks :=
  List.sum_map_add

end Load

section Count

variable {hold more : τ → ℕ} {tasks : List τ}

theorem load_natCast {R : Type*} [AddCommMonoidWithOne R] :
    load (fun t => (hold t : R)) tasks = ((load hold tasks : ℕ) : R) := by
  rw [load, load, Nat.cast_list_sum, List.map_map]
  rfl

theorem load_le_load (h : ∀ t, hold t ≤ more t) : load hold tasks ≤ load more tasks :=
  List.sum_le_sum fun t _ => h t

/-- To hold a thing is to be of its kind. -/
theorem load_toNat {p : τ → Bool} : load (fun t => (p t).toNat) tasks = tasks.countP p := by
  induction tasks with
  | nil => rfl
  | cons t tasks ih =>
    rw [List.countP_cons, load_cons, ih, Nat.add_comm]
    cases p t <;> rfl

end Count

/-! ## Runs -/

section Balance

variable {M : Type*} [AddCommMonoid M] {turn : Turns σ τ ι} {arrives : τ → Prop}
  {level : σ → M} {hold : τ → M} {p q : Pool σ τ}
  {h : List (Transition (Pool σ τ) (Option ι))}

/-- What is left of a resource, and what the tasks hold of it. -/
def balance (level : σ → M) (hold : τ → M) (p : Pool σ τ) : M :=
  level p.shared + load hold p.tasks

theorem Step.balanced
    (hturn : ∀ s t a s' t' started, turn s t a s' t' started →
      level s' + (hold t' + load hold started) = level s + hold t)
    (harrives : ∀ t, arrives t → hold t = 0) {a : Option ι} (hstep : Step turn arrives p a q) :
    balance level hold q = balance level hold p := by
  cases hstep with
  | turn before after s t a s' t' started hact =>
    calc level s' + load hold (before ++ t' :: after ++ started)
        = load hold (before ++ after) + (level s' + (hold t' + load hold started)) := by
          rw [load_append, load_middle, add_assoc, add_left_comm]
      _ = load hold (before ++ after) + (level s + hold t) := by
          rw [hturn s t a s' t' started hact]
      _ = level s + load hold (before ++ t :: after) := by
          rw [load_middle, add_left_comm]
  | arrival tasks s t harrive =>
    show level s + load hold (tasks ++ [t]) = level s + load hold tasks
    rw [load_append, load_cons, load_nil, harrives t harrive, add_zero, add_zero]

/-- **Balance.**  If each turn keeps what is left and what the task holds, no run changes what there
is of a resource. -/
theorem Path.balanced (level : σ → M) (hold : τ → M)
    (hturn : ∀ s t a s' t' started, turn s t a s' t' started →
      level s' + (hold t' + load hold started) = level s + hold t)
    (harrives : ∀ t, arrives t → hold t = 0) (hpath : Path (Step turn arrives) p h q) :
    balance level hold q = balance level hold p :=
  hpath.state_invariant (P := fun r => balance level hold r = balance level hold p)
    (fun _ _ _ hprev hstep => (hstep.balanced hturn harrives).trans hprev) rfl

end Balance

end Tasks
end Foundation
