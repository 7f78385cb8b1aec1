import Mathlib.Algebra.BigOperators.Group.Finset.Basic
import Mathlib.Algebra.Order.BigOperators.Group.List

/-!
# Histories of a labelled transition relation

A *path* of a relation `R : σ → ι → σ → Prop` carries the list of the transitions it took,
oldest first.  Every run-level statement is about that list and the state it ends in, so the
rules here are the ones such statements need:

* `Path.invariant`: a property of the history and the state, preserved by one more step;
* `Path.state_invariant`: the same for the state alone;
* `Path.cut`, `Path.split`: the path cut at one of its transitions;
* `Path.map`, `Path.relabel`: a simulation carries paths to paths;
* `Path.conservation`: a potential that every step changes by a known amount has changed by
  the sum of those amounts.
-/

namespace Foundation
namespace History

universe u v w

variable {σ : Type u} {ι : Type v}

/-- One step as a history remembers it: the state it left, its label, the state it reached. -/
structure Transition (σ : Type u) (ι : Type v) where
  pre : σ
  label : ι
  post : σ

/-- `Path R s h t`: the relation `R` leads from `s` to `t` by the transitions `h`, oldest
first. -/
inductive Path (R : σ → ι → σ → Prop) (s : σ) : List (Transition σ ι) → σ → Prop where
  | nil : Path R s [] s
  | snoc {h : List (Transition σ ι)} {t u : σ} {a : ι} :
      Path R s h t → R t a u → Path R s (h ++ [⟨t, a, u⟩]) u

variable {R : σ → ι → σ → Prop} {s t u : σ} {h k : List (Transition σ ι)}

theorem Path.single {a : ι} (hR : R s a t) : Path R s [⟨s, a, t⟩] t := by
  have hpath := Path.snoc (Path.nil (R := R) (s := s)) hR
  rwa [List.nil_append] at hpath

/-- Paths compose, and so do their histories. -/
theorem Path.trans (hst : Path R s h t) (htu : Path R t k u) : Path R s (h ++ k) u := by
  induction htu with
  | nil => rwa [List.append_nil]
  | snoc _ hR ih =>
    rw [← List.append_assoc]
    exact ih.snoc hR

/-- **The induction rule.**  What holds of the empty history at the start, and survives one
more transition, holds of every path. -/
theorem Path.invariant {P : List (Transition σ ι) → σ → Prop} (hnil : P [] s)
    (hsnoc : ∀ h t a u, Path R s h t → P h t → R t a u → P (h ++ [⟨t, a, u⟩]) u)
    (hpath : Path R s h t) : P h t := by
  induction hpath with
  | nil => exact hnil
  | snoc hprev hR ih => exact hsnoc _ _ _ _ hprev ih hR

/-- The induction rule for a property of states. -/
theorem Path.state_invariant {P : σ → Prop} (hstep : ∀ t a u, P t → R t a u → P u)
    (hs : P s) (hpath : Path R s h t) : P t :=
  hpath.invariant (P := fun _ t => P t) hs fun _ t a u _ ht hR => hstep t a u ht hR

/-- The last transition of a path. -/
theorem Path.snoc_inv {e : Transition σ ι} (hpath : Path R s (h ++ [e]) u) :
    Path R s h e.pre ∧ R e.pre e.label e.post ∧ e.post = u := by
  generalize hl : h ++ [e] = l at hpath
  cases hpath with
  | nil => exact absurd hl (List.append_ne_nil_of_right_ne_nil h (List.cons_ne_nil e []))
  | snoc hprev hR =>
    obtain ⟨rfl, hlast⟩ := List.append_inj' hl rfl
    rw [List.singleton_inj.mp hlast]
    exact ⟨hprev, hR, rfl⟩

/-- A path, cut at one of its transitions. -/
theorem Path.cut {e : Transition σ ι} (hpath : Path R s (h ++ e :: k) u) :
    Path R s h e.pre ∧ R e.pre e.label e.post ∧ Path R e.post k u := by
  induction k using List.reverseRecOn generalizing u with
  | nil =>
    obtain ⟨hprev, hR, rfl⟩ := hpath.snoc_inv
    exact ⟨hprev, hR, Path.nil⟩
  | append_singleton k x ih =>
    rw [← List.cons_append, ← List.append_assoc] at hpath
    obtain ⟨hprev, hR, rfl⟩ := hpath.snoc_inv
    obtain ⟨hbefore, hat, hafter⟩ := ih hprev
    exact ⟨hbefore, hat, hafter.snoc hR⟩

/-- A path, cut at any transition of its history. -/
theorem Path.split (hpath : Path R s h u) {e : Transition σ ι} (he : e ∈ h) :
    ∃ before after, h = before ++ e :: after ∧ Path R s before e.pre ∧
      R e.pre e.label e.post ∧ Path R e.post after u := by
  obtain ⟨before, after, rfl⟩ := List.append_of_mem he
  exact ⟨before, after, rfl, hpath.cut⟩

/-! ## Simulations -/

section Simulation

variable {τ : Type w} {R' : τ → ι → τ → Prop}

/-- The transition that a map of states sees. -/
def Transition.map (f : σ → τ) (e : Transition σ ι) : Transition τ ι :=
  ⟨f e.pre, e.label, f e.post⟩

@[simp] theorem Transition.map_mk (f : σ → τ) (t u : σ) (a : ι) :
    (Transition.mk t a u).map f = ⟨f t, a, f u⟩ := rfl

/-- **A simulation carries paths to paths.**  The invariant `I` is what the simulation may
assume of the states it maps. -/
theorem Path.map {f : σ → τ} {I : σ → Prop}
    (hsim : ∀ t a u, I t → R t a u → I u ∧ R' (f t) a (f u)) (hs : I s)
    (hpath : Path R s h t) : I t ∧ Path R' (f s) (h.map (Transition.map f)) (f t) := by
  refine hpath.invariant
    (P := fun h t => I t ∧ Path R' (f s) (h.map (Transition.map f)) (f t)) ⟨hs, Path.nil⟩ ?_
  rintro h t a u - ⟨hI, hmapped⟩ hR
  obtain ⟨hIu, hR'⟩ := hsim t a u hI hR
  refine ⟨hIu, ?_⟩
  rw [List.map_append, List.map_singleton, Transition.map_mk]
  exact hmapped.snoc hR'

/-- A simulation that also renames the labels: each step of the one relation is a step of the
other. -/
theorem Path.relabel {κ : Type*} {R'' : τ → κ → τ → Prop} {f : σ → τ} {g : σ → ι → κ}
    (hsim : ∀ t a u, R t a u → R'' (f t) (g t a) (f u)) (hpath : Path R s h t) :
    Path R'' (f s) (h.map fun e => ⟨f e.pre, g e.pre e.label, f e.post⟩) (f t) := by
  induction hpath with
  | nil => exact Path.nil
  | snoc _ hR ih =>
    rw [List.map_append, List.map_singleton]
    exact ih.snoc (hsim _ _ _ hR)

/-- A simulation that renames the labels and may assume an invariant of the states it maps. -/
theorem Path.simulate {κ : Type*} {R'' : τ → κ → τ → Prop} {f : σ → τ} {g : σ → ι → κ}
    {I : σ → Prop} (hsim : ∀ t a u, I t → R t a u → I u ∧ R'' (f t) (g t a) (f u)) (hs : I s)
    (hpath : Path R s h t) :
    I t ∧ Path R'' (f s) (h.map fun e => ⟨f e.pre, g e.pre e.label, f e.post⟩) (f t) := by
  induction hpath with
  | nil => exact ⟨hs, Path.nil⟩
  | snoc _ hR ih =>
    obtain ⟨hI, hmapped⟩ := ih
    obtain ⟨hIu, hR''⟩ := hsim _ _ _ hI hR
    rw [List.map_append, List.map_singleton]
    exact ⟨hIu, hmapped.snoc hR''⟩

end Simulation

/-! ## Scripts

A script is a list of moves, each of which computes its label and the state it leaves.  Where every
move may be made, what a script computes is a path. -/

section Script

variable {μ : Type w} (label : σ → μ → ι) (post : σ → μ → σ)

/-- The history of a script. -/
def script : σ → List μ → List (Transition σ ι)
  | _, [] => []
  | s, m :: ms => ⟨s, label s m, post s m⟩ :: script (post s m) ms

/-- Each move of the script may be made where it is made. -/
def Playable (may : σ → μ → Prop) : σ → List μ → Prop
  | _, [] => True
  | s, m :: ms => may s m ∧ Playable may (post s m) ms

instance Playable.decide {may : σ → μ → Prop} [∀ s m, Decidable (may s m)] :
    (s : σ) → (ms : List μ) → Decidable (Playable post may s ms)
  | _, [] => inferInstanceAs (Decidable True)
  | s, m :: ms =>
    have : Decidable (Playable post may (post s m) ms) := Playable.decide (post s m) ms
    inferInstanceAs (Decidable (may s m ∧ Playable post may (post s m) ms))

variable {label post} {may : σ → μ → Prop}

/-- A script whose moves may be made is a path. -/
theorem Path.of_script (hstep : ∀ s m, may s m → R s (label s m) (post s m)) :
    ∀ (ms : List μ) (s : σ), Playable post may s ms →
      Path R s (script label post s ms) (ms.foldl post s)
  | [], _, _ => Path.nil
  | m :: ms, s, ⟨hm, hms⟩ =>
    (Path.single (hstep s m hm)).trans (Path.of_script hstep ms (post s m) hms)

end Script

/-! ## Amounts along a history -/

section Total

variable {M : Type w} [AddCommGroup M]

/-- The sum over a history of what each of its transitions contributes. -/
def total (f : Transition σ ι → M) (h : List (Transition σ ι)) : M :=
  (h.map f).sum

@[simp] theorem total_nil (f : Transition σ ι → M) : total f [] = 0 := rfl

@[simp] theorem total_append (f : Transition σ ι → M) (h k : List (Transition σ ι)) :
    total f (h ++ k) = total f h + total f k := by
  simp only [total, List.map_append, List.sum_append]

@[simp] theorem total_singleton (f : Transition σ ι → M) (e : Transition σ ι) :
    total f [e] = f e := by
  simp only [total, List.map_cons, List.map_nil, List.sum_cons, List.sum_nil, add_zero]

/-- Only the transitions of the history count. -/
theorem total_congr {f g : Transition σ ι → M} {h : List (Transition σ ι)}
    (hfg : ∀ e ∈ h, f e = g e) : total f h = total g h := by
  rw [total, total, List.map_congr_left hfg]

theorem total_eq_zero {f : Transition σ ι → M} {h : List (Transition σ ι)}
    (hf : ∀ e ∈ h, f e = 0) : total f h = 0 := by
  induction h with
  | nil => rfl
  | cons e h ih =>
    have hrest := ih fun e' he' => hf e' (List.mem_cons_of_mem _ he')
    rw [total, List.map_cons, List.sum_cons, hf e List.mem_cons_self, zero_add]
    exact hrest

theorem total_add (f g : Transition σ ι → M) (h : List (Transition σ ι)) :
    total (fun e => f e + g e) h = total f h + total g h := by
  rw [total, total, total, List.sum_map_add]

theorem total_neg (f : Transition σ ι → M) (h : List (Transition σ ι)) :
    total (fun e => -f e) h = -total f h := by
  have hsum := total_add (fun e => -f e) f h
  rw [total_eq_zero fun e _ => neg_add_cancel (f e)] at hsum
  exact eq_neg_of_add_eq_zero_left hsum.symm

/-- The total of a sum is the sum of the totals. -/
theorem total_finset_sum {κ : Type*} (S : Finset κ) (f : κ → Transition σ ι → M)
    (h : List (Transition σ ι)) :
    total (fun e => ∑ v ∈ S, f v e) h = ∑ v ∈ S, total (f v) h := by
  induction h with
  | nil => simp
  | cons e h ih =>
    simp only [total, List.map_cons, List.sum_cons] at ih ⊢
    rw [ih, Finset.sum_add_distrib]

/-- What nobody lowers has a nonnegative total. -/
theorem total_nonneg [PartialOrder M] [IsOrderedAddMonoid M] {f : Transition σ ι → M}
    {h : List (Transition σ ι)} (hf : ∀ e ∈ h, 0 ≤ f e) : 0 ≤ total f h := by
  refine List.sum_nonneg ?_
  intro x hx
  obtain ⟨e, he, rfl⟩ := List.mem_map.mp hx
  exact hf e he

/-- **Conservation.**  If every step from a state that satisfies `I` moves the potential `φ` by
what `f` says of it, a path has moved `φ` by the total of `f`. -/
theorem Path.conservation {I : σ → Prop} {φ : σ → M} {f : Transition σ ι → M}
    (hstep : ∀ t a u, I t → R t a u → I u ∧ φ u = φ t + f ⟨t, a, u⟩) (hs : I s)
    (hpath : Path R s h t) : I t ∧ φ t = φ s + total f h := by
  refine hpath.invariant (P := fun h t => I t ∧ φ t = φ s + total f h) ⟨hs, by simp⟩ ?_
  rintro h t a u - ⟨hI, hφ⟩ hR
  obtain ⟨hIu, hφu⟩ := hstep t a u hI hR
  refine ⟨hIu, ?_⟩
  rw [hφu, hφ, total_append, total_singleton, add_assoc]

end Total

end History
end Foundation
