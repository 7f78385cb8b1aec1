import Mathlib.Data.Finset.Card
import Mathlib.Data.Finset.Dedup
import Mathlib.Data.Finset.Filter
import Mathlib.Data.Set.Insert
import Mathlib.Logic.Function.Iterate

/-!
# Strikes that count once

Every holder has an account, and there are charges pending against holders.  A *strike* at a
charge hits the account of its holder, if the charge is pending and the account can be hit at
all, and then the charge is spent.  How an account is hit depends on the account alone, so
whoever chooses the order of the strikes chooses nothing: the account of a holder ends up hit as
often as there were different pending charges against it (`account_foldl_strike`), and hence the
same in every order (`account_foldl_perm`).

The charges left over are *not* the same in every order: once an account cannot be hit any more,
whichever charges come last stay pending.
-/

namespace Foundation
namespace Strikes

open Classical

universe u v w

variable {K : Type u} {V : Type v} {X : Type w}

/-- The accounts, and the charges pending: each is a key and the holder it is against. -/
@[ext] structure Board (K : Type u) (V : Type v) (X : Type w) where
  account : V → X
  pending : Set (K × V)

variable [DecidableEq V]

/-- Strike at a charge. -/
noncomputable def strike (hit : X → Option X) (b : Board K V X) (t : K × V) : Board K V X :=
  match hit (b.account t.2) with
  | some x =>
    if t ∈ b.pending then ⟨Function.update b.account t.2 x, b.pending \ {t}⟩ else b
  | none => b

/-- The account after one hit, if it can be hit. -/
def force (hit : X → Option X) (x : X) : X := (hit x).getD x

variable {hit : X → Option X} {b : Board K V X} {t : K × V} {x : X}

theorem strike_of_some (hx : hit (b.account t.2) = some x) (ht : t ∈ b.pending) :
    strike hit b t = ⟨Function.update b.account t.2 x, b.pending \ {t}⟩ := by
  simp only [strike, hx, ht, if_true]

theorem account_strike_self (hx : hit (b.account t.2) = some x) (ht : t ∈ b.pending) :
    (strike hit b t).account t.2 = x := by
  rw [strike_of_some hx ht]
  exact Function.update_self (f := b.account) t.2 x

/-- A strike at a charge that is not pending does nothing. -/
theorem strike_of_notMem (ht : t ∉ b.pending) : strike hit b t = b := by
  unfold strike
  split
  · rw [if_neg ht]
  · rfl

/-- A strike at an account that cannot be hit does nothing. -/
theorem strike_of_none (hx : hit (b.account t.2) = none) : strike hit b t = b := by
  simp only [strike, hx]

/-- What is not pending for a holder is not made pending by a strike. -/
theorem mem_pending_strike {t' : K × V} (hne : t' ≠ t) :
    t' ∈ (strike hit b t).pending ↔ t' ∈ b.pending := by
  unfold strike
  split
  · split_ifs
    · simp [hne]
    · rfl
  · rfl

/-- A strike is at the account of its holder. -/
theorem account_strike_of_ne {v : V} (hv : v ≠ t.2) :
    (strike hit b t).account v = b.account v := by
  unfold strike
  split
  · split_ifs
    · exact Function.update_of_ne hv ..
    · rfl
  · rfl

/-! ## Any number of strikes -/

/-- The different charges of a list that are pending against the holder. -/
noncomputable def targets (b : Board K V X) (v : V) (ts : List (K × V)) : Finset (K × V) :=
  ts.toFinset.filter fun t => t.2 = v ∧ t ∈ b.pending

theorem targets_cons_of_mem {v : V} {ts : List (K × V)} (hv : t.2 = v) (ht : t ∈ b.pending) :
    targets b v (t :: ts) = insert t (targets b v ts) := by
  rw [targets, targets, List.toFinset_cons, Finset.filter_insert, if_pos ⟨hv, ht⟩]

theorem targets_cons_of_not {v : V} {ts : List (K × V)} (h : ¬ (t.2 = v ∧ t ∈ b.pending)) :
    targets b v (t :: ts) = targets b v ts := by
  rw [targets, targets, List.toFinset_cons, Finset.filter_insert, if_neg h]

/-- A strike that is not at a pending charge of the holder leaves the holder's charges. -/
theorem targets_strike_of_not {v : V} {ts : List (K × V)} (h : ¬ (t.2 = v ∧ t ∈ b.pending)) :
    targets (strike hit b t) v ts = targets b v ts := by
  refine Finset.filter_congr fun t' _ => ?_
  by_cases ht' : t' = t
  · subst ht'
    by_cases hmem : t' ∈ b.pending
    · exact iff_of_false (fun h' => h ⟨h'.1, hmem⟩) h
    · rw [strike_of_notMem hmem]
  · rw [mem_pending_strike ht']

/-- A strike that hits takes its charge off the holder's. -/
theorem targets_strike_of_some {v : V} {ts : List (K × V)} (hx : hit (b.account t.2) = some x)
    (ht : t ∈ b.pending) : targets (strike hit b t) v ts = (targets b v ts).erase t := by
  rw [strike_of_some hx ht]
  ext t'
  simp only [targets, Finset.mem_filter, Finset.mem_erase, Set.mem_sdiff, Set.mem_singleton_iff]
  tauto

/-- **After any number of strikes** an account has been hit as often as there were different
charges pending against its holder. -/
theorem account_foldl_strike (hit : X → Option X) (b : Board K V X) (ts : List (K × V)) (v : V) :
    (ts.foldl (strike hit) b).account v = (force hit)^[(targets b v ts).card] (b.account v) := by
  induction ts generalizing b with
  | nil => rfl
  | cons t ts ih =>
    rw [List.foldl_cons, ih]
    by_cases h : t.2 = v ∧ t ∈ b.pending
    · obtain ⟨rfl, ht⟩ := h
      rw [targets_cons_of_mem rfl ht]
      cases hx : hit (b.account t.2) with
      | some x =>
        have hcard : (insert t (targets b t.2 ts)).card = ((targets b t.2 ts).erase t).card + 1 := by
          rw [← Finset.erase_insert_eq_erase]
          exact (Finset.card_erase_add_one (Finset.mem_insert_self ..)).symm
        have hforce : force hit (b.account t.2) = x := by
          rw [force, hx, Option.getD_some]
        rw [targets_strike_of_some hx ht, hcard, Function.iterate_succ_apply, hforce,
          account_strike_self hx ht]
      | none =>
        -- the account cannot be hit, so it is the same however often it is struck at
        have hforce : force hit (b.account t.2) = b.account t.2 := by
          rw [force, hx, Option.getD_none]
        rw [strike_of_none hx, Function.iterate_fixed hforce, Function.iterate_fixed hforce]
    · rw [targets_cons_of_not h, targets_strike_of_not h]
      congr 1
      by_cases hv : v = t.2
      · rw [strike_of_notMem fun ht => h ⟨hv.symm, ht⟩]
      · exact account_strike_of_ne hv

/-- **The order of the strikes does not matter** to any account. -/
theorem account_foldl_perm {ts ts' : List (K × V)} (h : ts.Perm ts') :
    (ts.foldl (strike hit) b).account = (ts'.foldl (strike hit) b).account := by
  funext v
  rw [account_foldl_strike, account_foldl_strike, targets, targets, List.toFinset_eq_of_perm _ _ h]

end Strikes
end Foundation
