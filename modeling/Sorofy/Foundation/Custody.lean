import Mathlib.Data.List.Basic
import Sorofy.Foundation.Traced

/-!
# Resources that are taken and given back

An event may take a resource, give one back, and use some.  `Custody` says which, and `held` reads a
trace with it: what is held at the end, the last one taken first, where every event is in order.  An
event is in order if what it uses is held, and what it gives back is what was taken last.

So `held t = some []` says of a trace that nothing was used before it was taken or after it was
given back, that nothing was given back twice, and that nothing is left (`perm_of_held`).

A resource that a computation takes for the time of another one is given back however that one ends:
`Custody.Over` is the rule for `afterwards`.

In a run of several parties each of which keeps its own custody, nobody touches what another one has
taken, if nothing is taken twice (`Custody.apart`).
-/

namespace Foundation

universe u v

/-- What an event does to what is held. -/
inductive Custody.Change (ρ : Type v) where
  | keep
  | take (r : ρ)
  | give (r : ρ)

/-- What events do with resources. -/
structure Custody (ω : Type u) (ρ : Type v) where
  uses : ω → List ρ
  change : ω → Custody.Change ρ

namespace Custody

variable {ω : Type u} {ρ : Type v} [DecidableEq ρ] (c : Custody ω ρ)

/-- What is held after an event that is in order. -/
def step (held : List ρ) (e : ω) : Option (List ρ) :=
  if ∀ r ∈ c.uses e, r ∈ held then
    match c.change e with
    | .keep => some held
    | .take r => some (r :: held)
    | .give r => if held.head? = some r then some held.tail else none
  else none

/-- What is held after a trace whose events are in order. -/
def held (t : List ω) : Option (List ρ) :=
  t.foldlM c.step []

/-- The resource that an event takes. -/
def takes (e : ω) : Option ρ :=
  match c.change e with
  | .take r => some r
  | _ => none

/-- The resource that an event gives back. -/
def gives (e : ω) : Option ρ :=
  match c.change e with
  | .give r => some r
  | _ => none

/-- The event uses the resource or gives it back. -/
def Touches (e : ω) (r : ρ) : Prop :=
  r ∈ c.uses e ∨ c.gives e = some r

variable {c} {t : List ω} {e : ω} {r : ρ} {h h' : List ρ}

omit [DecidableEq ρ] in
theorem takes_eq_some : c.takes e = some r ↔ c.change e = .take r := by
  unfold takes
  cases c.change e <;> simp

omit [DecidableEq ρ] in
theorem gives_eq_some : c.gives e = some r ↔ c.change e = .give r := by
  unfold gives
  cases c.change e <;> simp

@[simp] theorem held_nil : c.held [] = some [] := rfl

theorem held_append (t t' : List ω) :
    c.held (t ++ t') = (c.held t).bind fun h => t'.foldlM c.step h := by
  rw [held, List.foldlM_append]
  rfl

theorem held_snoc : c.held (t ++ [e]) = (c.held t).bind fun h => c.step h e := by
  rw [held_append]
  refine congrArg (Option.bind _) (funext fun h => ?_)
  simp

/-- One event more. -/
theorem held_snoc_eq (ht : c.held t = some h) (hstep : c.step h e = some h') :
    c.held (t ++ [e]) = some h' := by
  rw [held_snoc, ht]
  exact hstep

/-- **An event that is in order**: what it uses is held, and what it gives back was taken last. -/
theorem step_eq_some : c.step h e = some h' ↔ (∀ r ∈ c.uses e, r ∈ h) ∧
    (c.change e = .keep ∧ h' = h ∨ (∃ r, c.change e = .take r ∧ h' = r :: h) ∨
      ∃ r, c.change e = .give r ∧ h = r :: h') := by
  unfold step
  split_ifs with huses
  · rw [and_iff_right huses]
    cases hchange : c.change e with
    | keep => simpa using eq_comm
    | take r => simpa using eq_comm
    | give r => cases h <;> simp
  · simp [huses]

/-- What came before an event that is in order was in order. -/
theorem exists_held_of_append {t' : List ω} (ht : c.held (t ++ e :: t') = some h) :
    ∃ before after, c.held t = some before ∧ c.step before e = some after := by
  rw [held_append] at ht
  obtain ⟨before, hbefore, hrest⟩ := Option.bind_eq_some_iff.1 ht
  rw [List.foldlM_cons] at hrest
  obtain ⟨after, hafter, -⟩ := Option.bind_eq_some_iff.1 hrest
  exact ⟨before, after, hbefore, hafter⟩

/-- What begins a trace that is in order is in order. -/
theorem isSome_held_of_prefix {t' : List ω} (ht : c.held t' = some h) (hpre : t <+: t') :
    (c.held t).isSome = true := by
  obtain ⟨rest, rfl⟩ := hpre
  rw [held_append] at ht
  obtain ⟨before, hbefore, -⟩ := Option.bind_eq_some_iff.1 ht
  simp [hbefore]

/-- What an event in order touches is held. -/
theorem mem_of_touches (hstep : c.step h e = some h') (htouch : c.Touches e r) : r ∈ h := by
  obtain ⟨huses, hchange⟩ := step_eq_some.1 hstep
  rcases htouch with huse | hgive
  · exact huses r huse
  · rw [gives_eq_some] at hgive
    simp only [hgive, reduceCtorEq, false_and, exists_false, false_or, Change.give.injEq,
      exists_eq_left'] at hchange
    exact hchange ▸ List.mem_cons_self

/-- What is held was taken. -/
theorem taken_of_mem (ht : c.held t = some h) (hr : r ∈ h) : ∃ e ∈ t, c.takes e = some r := by
  induction t using List.reverseRecOn generalizing h with
  | nil => simp_all
  | append_singleton t e ih =>
    rw [held_snoc] at ht
    obtain ⟨before, hbefore, hstep⟩ := Option.bind_eq_some_iff.1 ht
    have hlater : (∃ e' ∈ t, c.takes e' = some r) → ∃ e' ∈ t ++ [e], c.takes e' = some r := by
      rintro ⟨e', he', htakes⟩
      exact ⟨e', List.mem_append_left _ he', htakes⟩
    rcases (step_eq_some.1 hstep).2 with ⟨-, rfl⟩ | ⟨r', htake, rfl⟩ | ⟨r', -, rfl⟩
    · exact hlater (ih hbefore hr)
    · rcases List.mem_cons.1 hr with rfl | hr
      · exact ⟨e, List.mem_append_right _ List.mem_cons_self, takes_eq_some.2 htake⟩
      · exact hlater (ih hbefore hr)
    · exact hlater (ih hbefore (List.mem_cons_of_mem _ hr))

/-- **Nothing is lost**: what was taken is what was given back and what is held. -/
theorem perm_of_held (ht : c.held t = some h) :
    (t.filterMap c.takes).Perm (t.filterMap c.gives ++ h) := by
  induction t using List.reverseRecOn generalizing h with
  | nil => simp_all
  | append_singleton t e ih =>
    rw [held_snoc] at ht
    obtain ⟨before, hbefore, hstep⟩ := Option.bind_eq_some_iff.1 ht
    rw [List.filterMap_append, List.filterMap_append]
    rcases (step_eq_some.1 hstep).2 with ⟨hkeep, rfl⟩ | ⟨r, htake, rfl⟩ | ⟨r, hgive, rfl⟩
    · simpa [takes, gives, hkeep] using ih hbefore
    · have hlast : (before ++ [r]).Perm (r :: before) := List.perm_append_singleton r before
      have hperm := ((ih hbefore).append_right [r]).trans
        ((List.append_assoc _ _ _).symm ▸ hlast.append_left (t.filterMap c.gives))
      simpa [takes, gives, htake] using hperm
    · have hperm := ih hbefore
      rw [List.append_cons] at hperm
      simpa [takes, gives, hgive] using hperm

/-! ## Computations -/

section Computations

open Traced

variable {ω : Type u} {ρ : Type v} [DecidableEq ρ] {ε α β : Type u} {c : Custody ω ρ}
  {h : List ρ} {r : ρ} {x : Traced ω ε α}

variable (c h) in
/-- Run with so much held, the computation ends with just that held. -/
def Balanced (x : Traced ω ε α) : Prop :=
  ∀ t, c.held t = some h →
    Ends x t (fun _ t' => c.held t' = some h) (fun _ t' => c.held t' = some h)

variable (c h) in
/-- Run with the resource and so much held, the computation ends with only the rest held. -/
def Returns (r : ρ) (x : Traced ω ε α) : Prop :=
  ∀ t, c.held t = some (r :: h) →
    Ends x t (fun _ t' => c.held t' = some h) (fun _ t' => c.held t' = some h)

theorem balanced_pure (a : α) : c.Balanced h (pure a : Traced ω ε α) :=
  fun _ ht => ht

theorem balanced_throw (e : ε) : c.Balanced h (throw e : Traced ω ε α) :=
  fun _ ht => ht

theorem balanced_lift (x : Except ε α) : c.Balanced h (lift x : Traced ω ε α) := by
  intro t ht
  rw [ends_lift]
  exact ⟨fun _ _ => ht, fun _ _ => ht⟩

theorem balanced_observe (answer : List ω → α) :
    c.Balanced h (observe answer : Traced ω ε α) :=
  fun _ ht => ht

/-- Events in order that change nothing. -/
theorem balanced_record {e : ω} (hstep : c.step h e = some h) :
    c.Balanced h (record [e] : Traced ω ε PUnit) :=
  fun _ ht => held_snoc_eq ht hstep

theorem Balanced.bind (hx : c.Balanced h x) {f : α → Traced ω ε β}
    (hf : ∀ a, c.Balanced h (f a)) : c.Balanced h (x >>= f) := by
  intro t ht
  rw [ends_bind]
  exact (hx t ht).mono (fun a t' ht' => hf a t' ht') fun _ _ ht' => ht'

theorem Balanced.attempt (hx : c.Balanced h x) : c.Balanced h (attempt x) := by
  intro t ht
  rw [ends_attempt]
  exact hx t ht

/-- **What is taken over another computation** is given back however that one ends. -/
theorem Balanced.afterwards {after : Traced ω ε β} (hx : c.Balanced (r :: h) x)
    (hafter : c.Returns h r after) : c.Returns h r (afterwards x after) := by
  intro t ht
  rw [ends_afterwards]
  exact (hx t ht).mono (fun _ t' ht' => hafter t' ht') fun _ t' ht' => hafter t' ht'

end Computations

/-! ## Several parties -/

section Parties

variable {ω : Type u} {ρ : Type v} [DecidableEq ρ] {c : Custody ω ρ} {ι : Type*} [DecidableEq ι]

/-- What one party has done, of what all have. -/
def own (i : ι) (all : List (ι × ω)) : List ω :=
  all.filterMap fun (j, e) => if j = i then some e else none

theorem mem_own {i : ι} {all : List (ι × ω)} {e : ω} : e ∈ own i all ↔ (i, e) ∈ all := by
  simp only [own, List.mem_filterMap, Prod.exists, Option.ite_none_right_eq_some,
    Option.some.injEq]
  constructor
  · rintro ⟨j, e', hmem, rfl, rfl⟩
    exact hmem
  · exact fun hmem => ⟨i, e, hmem, rfl, rfl⟩

theorem own_append {i : ι} {before after : List (ι × ω)} :
    own i (before ++ after) = own i before ++ own i after :=
  List.filterMap_append

theorem own_map {i j : ι} {t : List ω} : own i (t.map (Prod.mk j)) = if j = i then t else [] := by
  unfold own
  rw [List.filterMap_map]
  split_ifs with h <;> simp [h]

theorem own_append_cons {i : ι} {before after : List (ι × ω)} {e : ω} :
    own i (before ++ (i, e) :: after) = own i before ++ e :: own i after := by
  simp [own]

/-- What a party touches it has taken before. -/
theorem taken_of_touches {before after : List (ι × ω)} {i : ι} {e : ω} {r : ρ}
    (hown : (c.held (own i (before ++ (i, e) :: after))).isSome = true) (htouch : c.Touches e r) :
    ∃ e', (i, e') ∈ before ∧ c.takes e' = some r := by
  obtain ⟨h, hheld⟩ := Option.isSome_iff_exists.1 hown
  rw [own_append_cons] at hheld
  obtain ⟨h, h', hbefore, hstep⟩ := exists_held_of_append hheld
  obtain ⟨taking, hmem, htakes⟩ := taken_of_mem hbefore (mem_of_touches hstep htouch)
  exact ⟨taking, mem_own.1 hmem, htakes⟩

/-- **Nobody touches what another one has taken**, where nothing is taken twice: it was taken by the
same party before, and by nobody else. -/
theorem apart {all : List (ι × ω)} {r : ρ} (hown : ∀ i, (c.held (own i all)).isSome = true)
    (honce : Justified (fun before p => c.takes p.2 = some r →
      ∀ q ∈ before, c.takes q.2 ≠ some r) all) :
    Justified (fun before p => c.Touches p.2 r →
      (∃ e, (p.1, e) ∈ before ∧ c.takes e = some r) ∧
        ∀ q ∈ before, c.takes q.2 = some r → q.1 = p.1) all := by
  rintro before ⟨i, e⟩ after hall htouch
  obtain ⟨taking, hmine, htakes⟩ := taken_of_touches (hall ▸ hown i) htouch
  refine ⟨⟨taking, hmine, htakes⟩, fun q hq hqtakes => ?_⟩
  by_contra hother
  -- Of the two events that take it, one came later, and it was taken before then.
  have hne : q ≠ (i, taking) := by
    rintro rfl
    exact hother rfl
  obtain ⟨first, middle, last, hsplit⟩ | ⟨first, middle, last, hsplit⟩ :
      (∃ first middle last, before = first ++ q :: middle ++ (i, taking) :: last) ∨
        ∃ first middle last, before = first ++ (i, taking) :: middle ++ q :: last := by
    obtain ⟨first, rest, rfl⟩ := List.append_of_mem hq
    rcases List.mem_append.1 hmine with hfirst | hrest
    · obtain ⟨first, middle, rfl⟩ := List.append_of_mem hfirst
      exact Or.inr ⟨first, middle, rest, rfl⟩
    · obtain ⟨middle, last, rfl⟩ :=
        List.append_of_mem ((List.mem_cons.1 hrest).resolve_left hne.symm)
      exact Or.inl ⟨first, middle, last, by simp⟩
  · refine honce (first ++ q :: middle) (i, taking) (last ++ (i, e) :: after) ?_ htakes q ?_ hqtakes
    · rw [hall, hsplit]
      simp
    · simp
  · refine honce (first ++ (i, taking) :: middle) q (last ++ (i, e) :: after) ?_ hqtakes
      (i, taking) ?_ htakes
    · rw [hall, hsplit]
      simp
    · simp

end Parties

end Custody
end Foundation
