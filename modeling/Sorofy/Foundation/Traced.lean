import Mathlib.Data.List.Induction

/-!
# Computations that leave a trace

A computation that can fail and that leaves events behind, also where it fails.  What it asks of
its surroundings may depend on all that has happened, so the answers are read off the trace.

`Ends x t Q E` is what `x`, run after the trace `t`, ends with: `Q` of its result and the trace, or
`E` of its error and the trace.  The rules for its steps are simp lemmas, so that `simp only` takes
a `do` block to the conditions on what was asked, and `Ends.mono` puts in what is known of a part.

`Accounted` says what the events of a run show of whatever explains them, as of a simpler machine
that gives the same answers.

`Justified` is the property of a trace that each of its events has its reason in what came before
it: `justified_snoc` is what an event that is added needs.
-/

namespace Foundation

universe u v

/-- A computation that can fail and that leaves events in a trace, oldest first. -/
abbrev Traced (ω ε : Type u) : Type u → Type u :=
  ExceptT ε (StateM (List ω))

namespace Traced

variable {ω ε α β : Type u}

/-- The events that a computation leaves. -/
def trace (x : Traced ω ε α) : List ω :=
  (x.run []).2

/-- Events happen. -/
def record (events : List ω) : Traced ω ε PUnit :=
  modify (· ++ events)

/-- An answer that depends on what has happened. -/
def observe (answer : List ω → α) : Traced ω ε α := do
  let trace ← get
  pure (answer trace)

/-- A step that leaves no events. -/
def lift (x : Except ε α) : Traced ω ε α :=
  ExceptT.mk (pure x)

/-- What a computation that is run after the trace ends with. -/
def Ends (x : Traced ω ε α) (t : List ω) (Q : α → List ω → Prop) (E : ε → List ω → Prop) : Prop :=
  match x.run t with
  | (.ok a, t') => Q a t'
  | (.error e, t') => E e t'

variable {t : List ω} {Q : α → List ω → Prop} {E : ε → List ω → Prop}

@[simp] theorem ends_pure (a : α) : Ends (pure a : Traced ω ε α) t Q E ↔ Q a t :=
  Iff.rfl

@[simp] theorem ends_throw (e : ε) : Ends (throw e : Traced ω ε α) t Q E ↔ E e t :=
  Iff.rfl

@[simp] theorem ends_record (events : List ω) {Q : PUnit → List ω → Prop} :
    Ends (record events : Traced ω ε PUnit) t Q E ↔ Q ⟨⟩ (t ++ events) :=
  Iff.rfl

@[simp] theorem ends_observe (answer : List ω → α) :
    Ends (observe answer : Traced ω ε α) t Q E ↔ Q (answer t) t :=
  Iff.rfl

@[simp] theorem ends_lift (x : Except ε α) :
    Ends (lift x : Traced ω ε α) t Q E ↔
      (∀ a, x = .ok a → Q a t) ∧ ∀ e, x = .error e → E e t := by
  cases x with
  | ok a =>
    show Q a t ↔ _
    simp
  | error e =>
    show E e t ↔ _
    simp

/-- **One after the other**: the second is run after the trace of the first. -/
@[simp] theorem ends_bind (x : Traced ω ε α) (f : α → Traced ω ε β) {Q : β → List ω → Prop} :
    Ends (x >>= f) t Q E ↔ Ends x t (fun a t' => Ends (f a) t' Q E) E := by
  have hrun : (x >>= f).run t = (ExceptT.bindCont f (x.run t).1) (x.run t).2 := rfl
  unfold Ends
  rw [hrun]
  rcases x.run t with ⟨e | a, t'⟩
  · rfl
  · rfl

/-- What is known of a computation, in place of what is needed of it. -/
theorem Ends.mono {x : Traced ω ε α} {Q' : α → List ω → Prop} {E' : ε → List ω → Prop}
    (h : Ends x t Q' E') (hQ : ∀ a t', Q' a t' → Q a t') (hE : ∀ e t', E' e t' → E e t') :
    Ends x t Q E := by
  unfold Ends at h ⊢
  split at h
  · exact hQ _ _ h
  · exact hE _ _ h

/-- A step that leaves no events goes on with its result, or fails with the trace as it was. -/
theorem Ends.lift_bind {x : Except ε α} {f : α → Traced ω ε β} {Q : β → List ω → Prop}
    (herror : ∀ e, E e t) (hok : ∀ a, x = .ok a → Ends (f a) t Q E) :
    Ends (lift x >>= f) t Q E := by
  rw [ends_bind, ends_lift]
  exact ⟨hok, fun e _ => herror e⟩

/-- What is known of the first part, and what it leaves to show of the rest. -/
theorem Ends.bind {x : Traced ω ε α} {f : α → Traced ω ε β} {Q : β → List ω → Prop}
    {Q' : α → List ω → Prop} {E' : ε → List ω → Prop} (h : Ends x t Q' E')
    (hE : ∀ e t', E' e t' → E e t') (hf : ∀ a t', Q' a t' → Ends (f a) t' Q E) :
    Ends (x >>= f) t Q E := by
  rw [ends_bind]
  exact h.mono hf hE

theorem ends_true {x : Traced ω ε α} : Ends x t (fun _ _ => True) (fun _ _ => True) := by
  unfold Ends
  split
  · trivial
  · trivial

/-- A computation whose failure is a result like another. -/
def attempt (x : Traced ω ε α) : Traced ω ε (Except ε α) :=
  ExceptT.mk (Except.ok <$> x.run)

@[simp] theorem ends_attempt (x : Traced ω ε α) {Q : Except ε α → List ω → Prop} :
    Ends (attempt x) t Q E ↔ Ends x t (fun a => Q (.ok a)) (fun e => Q (.error e)) := by
  have hrun : (attempt x).run t = (.ok (x.run t).1, (x.run t).2) := rfl
  unfold Ends
  rw [hrun]
  rcases x.run t with ⟨e | a, t'⟩
  · rfl
  · rfl

/-- A computation, and then another one, however the first ends and whatever comes of the second. -/
def afterwards (x : Traced ω ε α) (after : Traced ω ε β) : Traced ω ε α := do
  let result ← attempt x
  let _ ← attempt after
  lift result

@[simp] theorem ends_afterwards (x : Traced ω ε α) (after : Traced ω ε β) :
    Ends (afterwards x after) t Q E ↔
      Ends x t (fun a t' => Ends after t' (fun _ => Q a) (fun _ => Q a))
        (fun e t' => Ends after t' (fun _ => E e) (fun _ => E e)) := by
  simp [afterwards]

/-- An answer that depends on what has happened and that is an event itself, and what is made of
it. -/
def ask (answer : List ω → α) (event : α → ω) (accept : α → Except ε β) : Traced ω ε β := do
  let a ← observe answer
  record [event a]
  lift (accept a)

@[simp] theorem ends_ask (answer : List ω → α) (event : α → ω) (accept : α → Except ε β)
    {Q : β → List ω → Prop} : Ends (ask answer event accept) t Q E ↔
      (∀ b, accept (answer t) = .ok b → Q b (t ++ [event (answer t)])) ∧
        ∀ e, accept (answer t) = .error e → E e (t ++ [event (answer t)]) := by
  simp [ask]

/-- What holds of the result of a computation that returned. -/
theorem Ends.of_run_eq_ok {x : Traced ω ε α} {P : α → Prop} {a : α}
    (h : Ends x t (fun a _ => P a) E) (hrun : (x.run t).1 = .ok a) : P a := by
  unfold Ends at h
  rcases hx : x.run t with ⟨e | b, t'⟩
  · rw [hx] at hrun
    cases hrun
  · rw [hx] at h hrun
    cases hrun
    exact h

/-- A property of the result and the trace. -/
theorem ends_run {x : Traced ω ε α} {P : Except ε α → List ω → Prop} :
    Ends x t (fun a => P (.ok a)) (fun e => P (.error e)) ↔ P (x.run t).1 (x.run t).2 := by
  unfold Ends
  rcases x.run t with ⟨e | a, t'⟩
  · rfl
  · rfl

/-- A property of the trace, however the computation ends. -/
theorem ends_trace {x : Traced ω ε α} {P : List ω → Prop} :
    Ends x [] (fun _ => P) (fun _ => P) ↔ P x.trace :=
  ends_run (P := fun _ => P)

/-! ## What explains a run -/

section Accounted

variable {σ : Type v} {S : σ → ω → Prop} {x : Traced ω ε α} {P : σ → Except ε α → Prop}

variable (S) in
/-- Whatever explains the events of a run has the property, with how the run ends. -/
def Accounted (x : Traced ω ε α) (P : σ → Except ε α → Prop) : Prop :=
  ∀ t, t <+: (x.run t).2 ∧ ∀ s, (∀ e ∈ (x.run t).2, S s e) → P s (x.run t).1

theorem Accounted.mono (hx : Accounted S x P) {P' : σ → Except ε α → Prop}
    (h : ∀ s r, P s r → P' s r) : Accounted S x P' :=
  fun t => ⟨(hx t).1, fun s hs => h s _ ((hx t).2 s hs)⟩

theorem accounted_lift (x : Except ε α) : Accounted S (lift x) fun _ r => r = x :=
  fun t => ⟨List.prefix_refl t, fun _ _ => rfl⟩

/-- A question shows what its answer shows. -/
theorem accounted_ask (answer : List ω → α) (event : α → ω) (accept : α → Except ε β)
    {P : σ → Except ε β → Prop} (h : ∀ s a, S s (event a) → P s (accept a)) :
    Accounted S (ask answer event accept) P := by
  intro t
  have hrun : (ask answer event accept).run t = (accept (answer t), t ++ [event (answer t)]) := rfl
  rw [hrun]
  exact ⟨List.prefix_append t _, fun s hs =>
    h s _ (hs _ (List.mem_append_right t List.mem_cons_self))⟩

/-- An answer that is no event shows nothing. -/
theorem accounted_observe_bind {answer : List ω → α} {f : α → Traced ω ε β}
    {P : σ → Except ε β → Prop} (hf : ∀ a, Accounted S (f a) P) :
    Accounted S (observe answer >>= f) P :=
  fun t => hf (answer t) t

/-- **One after the other**: what explains the second part explains the first. -/
theorem Accounted.bind (hx : Accounted S x P) {f : α → Traced ω ε β}
    {Q : α → σ → Except ε β → Prop} (hf : ∀ a, Accounted S (f a) (Q a))
    {R : σ → Except ε β → Prop} (hok : ∀ s a r, P s (.ok a) → Q a s r → R s r)
    (herror : ∀ s e, P s (.error e) → R s (.error e)) : Accounted S (x >>= f) R := by
  intro t
  obtain ⟨hgrows, hP⟩ := hx t
  have hrun : (x >>= f).run t = (ExceptT.bindCont f (x.run t).1) (x.run t).2 := rfl
  rw [hrun]
  revert hgrows hP
  rcases x.run t with ⟨e | a, t'⟩
  · exact fun hgrows hP => ⟨hgrows, fun s hs => herror s e (hP s hs)⟩
  · intro hgrows hP
    obtain ⟨hgrows', hQ⟩ := hf a t'
    refine ⟨hgrows.trans hgrows', fun s hs => hok s a _ (hP s fun e he => ?_) (hQ s hs)⟩
    exact hs e (hgrows'.subset he)

/-- **What follows a function of what explains it**, part by part, up to a view of the result. -/
theorem Accounted.bind_eq {γ : Type u} {y : σ → Except ε α} (F : Except ε β → Except ε γ)
    (hF : ∀ e, F (.error e) = .error e) (hx : Accounted S x fun s r => r = y s)
    {f : α → Traced ω ε β} {g : α → σ → Except ε γ}
    (hf : ∀ a, Accounted S (f a) fun s r => F r = g a s) :
    Accounted S (x >>= f) fun s r => F r = y s >>= fun a => g a s := by
  refine hx.bind hf ?_ ?_
  · intro s a r hy hr
    rw [hr, ← hy]
    rfl
  · intro s e hy
    rw [hF, ← hy]
    rfl

theorem Accounted.attempt (hx : Accounted S x P) :
    Accounted S (attempt x) fun s r => ∃ r', r = .ok r' ∧ P s r' :=
  fun t => ⟨(hx t).1, fun s hs => ⟨_, rfl, (hx t).2 s hs⟩⟩

/-- What is done afterwards does not change the result. -/
theorem Accounted.afterwards (hx : Accounted S x P) {after : Traced ω ε β}
    {R : σ → Except ε β → Prop} (hafter : Accounted S after R) :
    Accounted S (afterwards x after) P := by
  refine hx.attempt.bind (Q := fun result s r => r = result) (fun result => ?_) ?_ ?_
  · refine hafter.attempt.bind (fun _ => accounted_lift result) ?_ ?_
    · exact fun _ _ _ _ h => h
    · rintro s e ⟨r, hr, -⟩
      cases hr
  · rintro s result r ⟨r', hr, hP⟩ rfl
    cases hr
    exact hP
  · rintro s e ⟨r, hr, -⟩
    cases hr

end Accounted

/-! ## What is asked -/

section Asks

variable {κ : Type v} {q : ω → κ} {x : Traced ω ε α} {ks ks' : List κ}

variable (q) in
/-- The events of a run are about some of these, in their order. -/
def Asks (x : Traced ω ε α) (ks : List κ) : Prop :=
  ∀ t, ∃ events, (x.run t).2 = t ++ events ∧ (events.map q).Sublist ks

theorem asks_lift (x : Except ε α) : Asks q (lift x) [] :=
  fun t => ⟨[], (List.append_nil t).symm, List.Sublist.refl []⟩

theorem asks_observe (answer : List ω → α) : Asks q (observe answer : Traced ω ε α) [] :=
  fun t => ⟨[], (List.append_nil t).symm, List.Sublist.refl []⟩

theorem asks_record (e : ω) : Asks q (record [e] : Traced ω ε PUnit) [q e] :=
  fun _ => ⟨[e], rfl, List.Sublist.refl _⟩

theorem asks_ask {k : κ} (answer : List ω → α) (event : α → ω) (accept : α → Except ε β)
    (h : ∀ a, q (event a) = k) : Asks q (ask answer event accept) [k] :=
  fun t => ⟨[event (answer t)], rfl, by simp [h]⟩

theorem Asks.of_sublist (hx : Asks q x ks) (hks : ks.Sublist ks') : Asks q x ks' := by
  intro t
  obtain ⟨events, hrun, hevents⟩ := hx t
  exact ⟨events, hrun, hevents.trans hks⟩

theorem Asks.bind {f : α → Traced ω ε β} (hx : Asks q x ks) (hf : ∀ a, Asks q (f a) ks') :
    Asks q (x >>= f) (ks ++ ks') := by
  intro t
  obtain ⟨events, ht, hevents⟩ := hx t
  have hrun : (x >>= f).run t = (ExceptT.bindCont f (x.run t).1) (x.run t).2 := rfl
  rw [hrun]
  revert ht
  rcases x.run t with ⟨e | a, t'⟩
  · exact fun ht => ⟨events, ht, hevents.trans (List.sublist_append_left ks ks')⟩
  · rintro rfl
    obtain ⟨events', ht', hevents'⟩ := hf a (t ++ events)
    refine ⟨events ++ events', ?_, ?_⟩
    · rw [← List.append_assoc]
      exact ht'
    · rw [List.map_append]
      exact hevents.append hevents'

theorem Asks.attempt (hx : Asks q x ks) : Asks q (attempt x) ks :=
  hx

theorem Asks.afterwards {after : Traced ω ε β} (hx : Asks q x ks) (hafter : Asks q after ks') :
    Asks q (afterwards x after) (ks ++ ks') := by
  have htail : ∀ result, Asks q (do
      let _ ← Traced.attempt after
      lift result : Traced ω ε α) ks' := by
    intro result
    have h := hafter.attempt.bind fun _ => asks_lift (q := q) result
    rwa [List.append_nil] at h
  exact hx.attempt.bind htail

end Asks

end Traced

/-! ## Reasons -/

variable {ω : Type u} {R : List ω → ω → Prop} {t events : List ω} {e : ω}

/-- Each event of the trace has its reason in what came before it. -/
def Justified (R : List ω → ω → Prop) (t : List ω) : Prop :=
  ∀ before e after, t = before ++ e :: after → R before e

@[simp] theorem justified_nil : Justified R [] := by
  intro before e after h
  exact absurd h.symm (List.append_ne_nil_of_right_ne_nil before (List.cons_ne_nil e after))

/-- An event that is added needs its reason, and the others keep theirs. -/
theorem justified_snoc : Justified R (t ++ [e]) ↔ Justified R t ∧ R t e := by
  constructor
  · intro h
    refine ⟨fun before e' after ht => h before e' (after ++ [e]) ?_, h t e [] rfl⟩
    rw [ht, List.append_assoc, List.cons_append]
  · rintro ⟨ht, he⟩ before e' after heq
    induction after using List.reverseRecOn with
    | nil =>
      obtain ⟨rfl, hlast⟩ := List.append_inj' heq rfl
      rwa [← List.singleton_inj.1 hlast]
    | append_singleton after x _ =>
      rw [← List.cons_append, ← List.append_assoc] at heq
      exact ht before e' after (List.append_inj' heq rfl).1

/-- Events whose reason is in the trace already can be added to it, where a reason that is there
stays there. -/
theorem Justified.append (hmono : ∀ before e after, R before e → R (before ++ after) e)
    (ht : Justified R t) (h : ∀ e ∈ events, R t e) : Justified R (t ++ events) := by
  induction events using List.reverseRecOn with
  | nil => rwa [List.append_nil]
  | append_singleton events e ih =>
    rw [← List.append_assoc]
    refine justified_snoc.2 ⟨ih fun e' he' => h e' (List.mem_append_left _ he'), ?_⟩
    exact hmono t e events (h e (List.mem_append_right _ List.mem_cons_self))

/-- A question whose events have their reason, whatever the answer. -/
theorem Traced.justified_ask {ε α β : Type u} {answer : List ω → α} {event : α → ω}
    {accept : α → Except ε β} (ht : Justified R t) (hR : ∀ a, R t (event a)) :
    Ends (ask answer event accept) t
      (fun b t' => Justified R t' ∧ ∃ a, accept a = .ok b ∧ t' = t ++ [event a])
      (fun err t' => Justified R t' ∧ ∃ a, accept a = .error err ∧ t' = t ++ [event a]) := by
  have hsnoc : Justified R (t ++ [event (answer t)]) := justified_snoc.2 ⟨ht, hR (answer t)⟩
  rw [ends_ask]
  exact ⟨fun b hb => ⟨hsnoc, answer t, hb, rfl⟩, fun err herr => ⟨hsnoc, answer t, herr, rfl⟩⟩

end Foundation
