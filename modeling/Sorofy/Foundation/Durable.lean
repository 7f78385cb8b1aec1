import Mathlib.Tactic.Common

/-!
# Transactions on a file

A connection to a file: what the file holds, and the copy that an open transaction works on.  A
batch of commands is executed one after the other until one of them fails, or until it is
interrupted; a budget says how many commands come to be executed, so that an interruption at any
point is a budget.  It also counts the return, since a batch may be interrupted when its last
command has been executed.

Once the connection is gone, what is left is the file.  After a batch that is one transaction it
holds what it held, or what the whole transaction has made of it (`Atomic`), and the batch returns
only in the second case.
-/

namespace Foundation
namespace Durable

universe u

variable {σ : Type u}

/-- What the file holds, and the copy of an open transaction. -/
structure Connection (σ : Type u) where
  file : σ
  working : Option σ

/-- A connection without an open transaction. -/
def idle (file : σ) : Connection σ :=
  ⟨file, none⟩

@[simp] theorem idle_file (file : σ) : (idle file).file = file := rfl

/-- What can be executed on a connection; what is run may fail. -/
inductive Command (σ : Type u) where
  | begin
  | run (f : σ → Option σ)
  | commit

/-- A command alone; outside a transaction it is one of its own. -/
def Connection.exec (conn : Connection σ) : Command σ → Option (Connection σ)
  | .begin =>
    match conn.working with
    | none => some ⟨conn.file, some conn.file⟩
    | some _ => none
  | .run f =>
    match conn.working with
    | none => (f conn.file).map idle
    | some s => (f s).map fun s' => ⟨conn.file, some s'⟩
  | .commit => conn.working.map idle

/-- A batch: the connection as it is left, and the budget that is left when the batch returns. -/
def executeBatch : ℕ → List (Command σ) → Connection σ → Connection σ × Option ℕ
  | 0, _, conn => (conn, none)
  | budget + 1, [], conn => (conn, some budget)
  | budget + 1, command :: rest, conn =>
    match conn.exec command with
    | some conn' => executeBatch budget rest conn'
    | none => (conn, none)

/-- All of these, one after the other. -/
def runAll : List (σ → Option σ) → σ → Option σ
  | [], s => some s
  | f :: fs, s => (f s).bind (runAll fs)

/-- All of these as one transaction. -/
def transaction (fs : List (σ → Option σ)) : List (Command σ) :=
  .begin :: (fs.map .run ++ [.commit])

theorem runAll_cons (f : σ → Option σ) (fs : List (σ → Option σ)) (s : σ) :
    runAll (f :: fs) s = (f s).bind (runAll fs) := rfl

theorem runAll_append (fs gs : List (σ → Option σ)) (s : σ) :
    runAll (fs ++ gs) s = (runAll fs s).bind (runAll gs) := by
  induction fs generalizing s with
  | nil => rfl
  | cons f fs ih =>
    rw [List.cons_append, runAll_cons, runAll_cons, Option.bind_assoc]
    exact Option.bind_congr fun t _ => ih t

/-- What each of them keeps, all of them keep. -/
theorem runAll_invariant {P : σ → Prop} {fs : List (σ → Option σ)} {s s' : σ}
    (hstep : ∀ f ∈ fs, ∀ t t', P t → f t = some t' → P t') (hs : P s)
    (h : runAll fs s = some s') : P s' := by
  induction fs generalizing s with
  | nil =>
    cases h
    exact hs
  | cons f fs ih =>
    obtain ⟨t, ht, hrest⟩ := Option.bind_eq_some_iff.1 h
    exact ih (fun g hg => hstep g (List.mem_cons_of_mem f hg))
      (hstep f List.mem_cons_self s t hs ht) hrest

/-! ## Atomicity -/

/-- How a batch has ended that leads from `s` to the result or fails: it has returned, and the file
holds the result; or it has not, and the file holds the one or the other. -/
def Atomic (s : σ) (result : Option σ) : Connection σ × Option ℕ → Prop
  | (conn, none) => conn.file = s ∨ result = some conn.file
  | (conn, some _) => ∃ s', result = some s' ∧ conn = idle s'

theorem Atomic.unchanged {s : σ} {result : Option σ} {working : Option σ} :
    Atomic s result (⟨s, working⟩, none) :=
  Or.inl rfl

/-- The rest of a transaction that is open. -/
theorem atomic_open (fs : List (σ → Option σ)) (budget : ℕ) (s t : σ) :
    Atomic s (runAll fs t) (executeBatch budget (fs.map .run ++ [.commit]) ⟨s, some t⟩) := by
  induction fs generalizing budget t with
  | nil =>
    cases budget with
    | zero => exact Atomic.unchanged
    | succ budget =>
      cases budget with
      | zero => exact Or.inr rfl
      | succ budget => exact ⟨t, rfl, rfl⟩
  | cons f fs ih =>
    cases budget with
    | zero => exact Atomic.unchanged
    | succ budget =>
      simp only [List.map_cons, List.cons_append, executeBatch, Connection.exec, runAll_cons]
      cases f t with
      | none => exact Atomic.unchanged
      | some t' => exact ih budget t'

/-- **A transaction is atomic**, wherever it is interrupted. -/
theorem atomic_transaction (fs : List (σ → Option σ)) (budget : ℕ) (s : σ) :
    Atomic s (runAll fs s) (executeBatch budget (transaction fs) (idle s)) := by
  cases budget with
  | zero => exact Atomic.unchanged
  | succ budget => exact atomic_open fs budget s s

/-- What an open transaction can do, it does with enough of a budget. -/
theorem executeBatch_open {fs : List (σ → Option σ)} {s t t' : σ} (h : runAll fs t = some t')
    (left : ℕ) :
    executeBatch (fs.length + 2 + left) (fs.map .run ++ [.commit]) ⟨s, some t⟩ =
      (idle t', some left) := by
  induction fs generalizing t with
  | nil =>
    cases h
    rw [List.length_nil, Nat.zero_add, Nat.add_comm]
    rfl
  | cons f fs ih =>
    obtain ⟨u, hu, hrest⟩ := Option.bind_eq_some_iff.1 h
    have hbudget : (f :: fs).length + 2 + left = fs.length + 2 + left + 1 := by
      rw [List.length_cons]
      omega
    simp only [hbudget, List.map_cons, List.cons_append, executeBatch, Connection.exec, hu,
      Option.map_some]
    exact ih hrest

/-- **A transaction that can be done is done**, with enough of a budget. -/
theorem executeBatch_transaction {fs : List (σ → Option σ)} {s s' : σ} (h : runAll fs s = some s')
    (left : ℕ) :
    executeBatch (fs.length + 3 + left) (transaction fs) (idle s) = (idle s', some left) := by
  have hbudget : fs.length + 3 + left = fs.length + 2 + left + 1 := by omega
  rw [hbudget]
  exact executeBatch_open h left

end Durable
end Foundation
