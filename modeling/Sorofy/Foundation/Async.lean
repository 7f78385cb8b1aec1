import Sorofy.Foundation.Tasks
import Sorofy.Foundation.Traced

/-!
# Handlers that wait

An event loop runs handlers.  A handler runs without being interrupted up to a question that it has
to wait for, and goes on with the answer; meanwhile other handlers run, and they all work on one
state.  A program of this kind is an `Async`: it returns, throws, reads or writes the state, or asks.

What handlers owe each other is a `Discipline`: which states they may leave to the others, how the
state may have moved on when they get it back, what they may do to it between two waits, and what
reason they need for a question.  What a handler has been told is its list of exchanges, and these
are all that it may give as a reason.

`Always` says of a program that it keeps a discipline, whatever it finds and whatever it is told.
Between two waits the state is the handler's own, so that what was just written is what is read;
after a wait it may be any admissible one that it can have moved on to.  The rules for the steps are
simp lemmas, and `Async.Path.kept` carries the property of each handler by itself over to all runs
of the loop: a handler is looked at alone, as a turn is in `Foundation.Tasks`.
-/

namespace Foundation

open History Tasks

/-- A program over a state `σ` that asks questions in `Q`, with answers of the type `A` says, and
may throw an `ε`. -/
inductive Async (σ : Type) {Q : Type} (A : Q → Type) (ε α : Type) where
  | pure (a : α)
  | throw (e : ε)
  | read (k : σ → Async σ A ε α)
  | write (s : σ) (next : Async σ A ε α)
  | ask (q : Q) (k : A q → Async σ A ε α)

/-- A question, and what was answered. -/
abbrev Exchange {Q : Type} (A : Q → Type) : Type := Σ q, A q

namespace Async

variable {σ Q : Type} {A : Q → Type} {ε ε' α β : Type}

/-- One program after the other. -/
def bind : Async σ A ε α → (α → Async σ A ε β) → Async σ A ε β
  | .pure a, f => f a
  | .throw e, _ => .throw e
  | .read k, f => .read fun s => (k s).bind f
  | .write s next, f => .write s (next.bind f)
  | .ask q k, f => .ask q fun a => (k a).bind f

/-- `try … catch`. -/
def tryCatch : Async σ A ε α → (ε → Async σ A ε' α) → Async σ A ε' α
  | .pure a, _ => .pure a
  | .throw e, f => f e
  | .read k, f => .read fun s => (k s).tryCatch f
  | .write s next, f => .write s (next.tryCatch f)
  | .ask q k, f => .ask q fun a => (k a).tryCatch f

instance : Monad (Async σ A ε) where
  pure := .pure
  bind := bind

/-- The state. -/
def get : Async σ A ε σ := .read .pure

/-- Change the state. -/
def modify (f : σ → σ) : Async σ A ε Unit := .read fun s => .write (f s) (.pure ())

/-- Ask, and go on with the answer. -/
def await (q : Q) : Async σ A ε (A q) := .ask q .pure

/-- Something that can fail, without waiting. -/
def lift : Except ε α → Async σ A ε α
  | .ok a => .pure a
  | .error e => .throw e

/-! ## What handlers owe each other -/

/-- The states a handler may find and has to leave, how the state may move on, what a handler may do
to it between two waits with what it has been told, and the reasons for questions. -/
structure Discipline (σ : Type) {Q : Type} (A : Q → Type) where
  admissible : σ → Prop
  rely : σ → σ → Prop
  rely_refl : ∀ s, rely s s
  rely_trans : ∀ s s' s'', rely s s' → rely s' s'' → rely s s''
  guarantee : σ → σ → List (Exchange A) → Prop
  reason : List (Exchange A) → Q → Prop

/-- Where a handler stands: the state when its turn began, the state now, and what it was told. -/
structure Point (σ : Type) {Q : Type} (A : Q → Type) where
  since : σ
  now : σ
  told : List (Exchange A)

/-- Where a handler stands at the beginning of its turn. -/
@[simps] def Point.turn (s : σ) (t : List (Exchange A)) : Point σ A := ⟨s, s, t⟩

/-- The handler may let go of the state. -/
structure Discipline.Yields (D : Discipline σ A) (c : Point σ A) : Prop where
  admissible : D.admissible c.now
  rely : D.rely c.since c.now
  guarantee : D.guarantee c.since c.now c.told

/-- Whatever it finds after a wait and whatever it is told, the program keeps the discipline, and
ends with `P` of its result, or `E` of its error, and the point where it stands then. -/
def Always (D : Discipline σ A) : Async σ A ε α → Point σ A → (α → Point σ A → Prop) →
    (ε → Point σ A → Prop) → Prop
  | .pure a, c, P, _ => P a c
  | .throw e, c, _, E => E e c
  | .read k, c, P, E => (k c.now).Always D c P E
  | .write s next, c, P, E => next.Always D { c with now := s } P E
  | .ask q k, c, P, E => D.Yields c ∧ D.reason c.told q ∧ ∀ s, D.admissible s →
      D.rely c.now s → ∀ a, (k a).Always D (.turn s (c.told ++ [⟨q, a⟩])) P E

variable {D : Discipline σ A} {c : Point σ A}
variable {P P' : α → Point σ A → Prop} {E E' : ε → Point σ A → Prop}

@[simp] theorem always_pure (a : α) :
    Always D (pure a : Async σ A ε α) c P E ↔ P a c := Iff.rfl

@[simp] theorem always_throw (e : ε) :
    Always D (.throw e : Async σ A ε α) c P E ↔ E e c := Iff.rfl

@[simp] theorem always_get {P : σ → Point σ A → Prop} :
    Always D (get : Async σ A ε σ) c P E ↔ P c.now c := Iff.rfl

@[simp] theorem always_modify (f : σ → σ) {P : Unit → Point σ A → Prop} :
    Always D (modify f : Async σ A ε Unit) c P E ↔ P () { c with now := f c.now } := Iff.rfl

@[simp] theorem always_await (q : Q) {P : A q → Point σ A → Prop} :
    Always D (await q : Async σ A ε (A q)) c P E ↔ D.Yields c ∧ D.reason c.told q ∧
      ∀ s, D.admissible s → D.rely c.now s → ∀ a, P a (.turn s (c.told ++ [⟨q, a⟩])) := Iff.rfl

@[simp] theorem always_lift (x : Except ε α) :
    Always D (lift x : Async σ A ε α) c P E ↔
      (∀ a, x = .ok a → P a c) ∧ ∀ e, x = .error e → E e c := by
  cases x with
  | ok a =>
    show P a c ↔ _
    simp
  | error e =>
    show E e c ↔ _
    simp

/-- What is known of a program, in place of what is needed of it. -/
theorem Always.mono {x : Async σ A ε α} (h : x.Always D c P' E')
    (hP : ∀ a c', P' a c' → P a c') (hE : ∀ e c', E' e c' → E e c') : x.Always D c P E := by
  induction x generalizing c with
  | pure a => exact hP a c h
  | throw e => exact hE e c h
  | read k ih => exact ih c.now h
  | write s next ih => exact ih h
  | ask q k ih => exact ⟨h.1, h.2.1, fun s hs hrely a => ih a (h.2.2 s hs hrely a)⟩

/-- **One after the other**: the second starts where the first stands. -/
@[simp] theorem always_bind (x : Async σ A ε α) (f : α → Async σ A ε β)
    {P : β → Point σ A → Prop} :
    Always D (x >>= f) c P E ↔ Always D x c (fun a c' => Always D (f a) c' P E) E := by
  show Always D (x.bind f) c P E ↔ _
  induction x generalizing c with
  | pure a => exact Iff.rfl
  | throw e => exact Iff.rfl
  | read k ih => exact ih c.now
  | write s next ih => exact ih
  | ask q k ih =>
    exact and_congr_right fun _ => and_congr_right fun _ => forall₄_congr fun _ _ _ a => ih a

/-- What is thrown is caught where the program stands. -/
@[simp] theorem always_tryCatch (x : Async σ A ε α) (f : ε → Async σ A ε' α)
    {E : ε' → Point σ A → Prop} :
    Always D (x.tryCatch f) c P E ↔ Always D x c P (fun e c' => Always D (f e) c' P E) := by
  induction x generalizing c with
  | pure a => exact Iff.rfl
  | throw e => exact Iff.rfl
  | read k ih => exact ih c.now
  | write s next ih => exact ih
  | ask q k ih =>
    exact and_congr_right fun _ => and_congr_right fun _ => forall₄_congr fun _ _ _ a => ih a

/-- What is known of the first program, and what it leaves to show of the second. -/
theorem Always.bind {x : Async σ A ε α} {f : α → Async σ A ε β} {P : β → Point σ A → Prop}
    (h : x.Always D c P' E') (hE : ∀ e c', E' e c' → E e c')
    (hf : ∀ a c', P' a c' → (f a).Always D c' P E) : Always D (x >>= f) c P E := by
  rw [always_bind]
  exact h.mono hf hE

/-! ### Parts of a handler

From where it is started a part of a handler comes to a point where it may let go of the state.  What
else there is to say of it is what it has been told. -/

/-- A handler may do nothing in its turn. -/
def Discipline.Lazy (D : Discipline σ A) : Prop := ∀ s t, D.guarantee s s t

/-- From one point a handler has come to the other. -/
structure Discipline.Reaches (D : Discipline σ A) (c c' : Point σ A) : Prop where
  yields : D.Yields c'
  rely : D.rely c.now c'.now
  told : c.told <+: c'.told

theorem Discipline.Reaches.refl (hc : D.Yields c) : D.Reaches c c :=
  ⟨hc, D.rely_refl c.now, List.prefix_refl c.told⟩

theorem Discipline.Reaches.trans {c' c'' : Point σ A} (h : D.Reaches c c')
    (h' : D.Reaches c' c'') : D.Reaches c c'' :=
  ⟨h'.yields, D.rely_trans _ _ _ h.rely h'.rely, h.told.trans h'.told⟩

/-- The program ends with `P` of its result or `E` of its error, and what it was told by then. -/
def Does (D : Discipline σ A) (x : Async σ A ε α) (c : Point σ A)
    (P : α → List (Exchange A) → Prop) (E : ε → List (Exchange A) → Prop) : Prop :=
  x.Always D c (fun a c' => D.Reaches c c' ∧ P a c'.told) (fun e c' => D.Reaches c c' ∧ E e c'.told)

section Does

variable {P : α → List (Exchange A) → Prop} {E E' : ε → List (Exchange A) → Prop}

theorem Does.pure {a : α} (hc : D.Yields c) (h : P a c.told) :
    Does D (pure a : Async σ A ε α) c P E :=
  ⟨.refl hc, h⟩

theorem Does.throw {e : ε} (hc : D.Yields c) (h : E e c.told) :
    Does D (.throw e : Async σ A ε α) c P E :=
  ⟨.refl hc, h⟩

theorem Does.ask (hD : D.Lazy) {q : Q} {k : A q → Async σ A ε α} (hc : D.Yields c)
    (hq : D.reason c.told q)
    (hk : ∀ a c', D.Reaches c c' → c'.told = c.told ++ [⟨q, a⟩] → Does D (k a) c' P E) :
    Does D (.ask q k) c P E := by
  refine ⟨hc, hq, fun s hs hrely a => ?_⟩
  have hreach : D.Reaches c (.turn s (c.told ++ [⟨q, a⟩])) :=
    ⟨⟨hs, D.rely_refl s, hD s _⟩, hrely, List.prefix_append _ _⟩
  exact (hk a _ hreach rfl).mono (fun b c' h => ⟨hreach.trans h.1, h.2⟩)
    (fun e c' h => ⟨hreach.trans h.1, h.2⟩)

/-- What follows on a read goes on with the state as it is. -/
theorem Does.get {k : σ → Async σ A ε α} (hk : Does D (k c.now) c P E) :
    Does D (get >>= k) c P E := hk

/-- A write after which the handler may let go of the state. -/
theorem Does.modify {f : σ → σ} {k : Unit → Async σ A ε α}
    (h : D.Reaches c { c with now := f c.now })
    (hk : Does D (k ()) { c with now := f c.now } P E) : Does D (modify f >>= k) c P E :=
  hk.mono (fun _ _ h' => ⟨h.trans h'.1, h'.2⟩) fun _ _ h' => ⟨h.trans h'.1, h'.2⟩

theorem Does.tryCatch {x : Async σ A ε α} {f : ε → Async σ A ε' α}
    {E' : ε' → List (Exchange A) → Prop} (hx : Does D x c P E)
    (hf : ∀ e c', D.Reaches c c' → E e c'.told → Does D (f e) c' P E') :
    Does D (x.tryCatch f) c P E' := by
  refine (always_tryCatch x f).2 (hx.mono (fun _ _ h => h) fun e c' h => ?_)
  exact (hf e c' h.1 h.2).mono (fun _ _ h' => ⟨h.1.trans h'.1, h'.2⟩)
    fun _ _ h' => ⟨h.1.trans h'.1, h'.2⟩

/-- What is known of the first part, and what it leaves to show of the second. -/
theorem Does.bind {x : Async σ A ε α} {f : α → Async σ A ε β} {P' : α → List (Exchange A) → Prop}
    {P : β → List (Exchange A) → Prop} (hx : Does D x c P' E') (hE : ∀ e t, E' e t → E e t)
    (hf : ∀ a c', D.Reaches c c' → P' a c'.told → Does D (f a) c' P E) :
    Does D (x >>= f) c P E := by
  refine Always.bind hx (fun e c' h => ⟨h.1, hE e c'.told h.2⟩) fun a c' h => ?_
  exact (hf a c' h.1 h.2).mono (fun b c'' h' => ⟨h.1.trans h'.1, h'.2⟩)
    (fun e c'' h' => ⟨h.1.trans h'.1, h'.2⟩)

end Does

/-- A handler that keeps the discipline from wherever it is started. -/
def Keeps (D : Discipline σ A) (x : Async σ A ε Unit) : Prop :=
  ∀ s, D.admissible s → x.Always D (.turn s []) (fun _ => D.Yields) (fun _ => D.Yields)

theorem Keeps.of_does {x : Async σ A ε Unit}
    (h : ∀ s, D.admissible s → Does D x (.turn s []) (fun _ _ => True) (fun _ _ => True)) :
    Keeps D x :=
  fun s hs => (h s hs).mono (fun _ _ h' => h'.1.yields) fun _ _ h' => h'.1.yields

/-! ## The loop -/

/-- Where a handler is: not yet started, waiting for an answer, or over. -/
inductive Stage (σ : Type) {Q : Type} (A : Q → Type) (ε : Type) where
  | ready (program : Async σ A ε Unit)
  | waiting (q : Q) (k : A q → Async σ A ε Unit)
  | finished (result : Except ε Unit)

/-- A handler, with what it has been told. -/
structure Handler (σ : Type) {Q : Type} (A : Q → Type) (ε : Type) where
  stage : Stage σ A ε
  told : List (Exchange A)

/-- Run a program up to its next question. -/
def settle : Async σ A ε Unit → σ → σ × Stage σ A ε
  | .pure (), s => (s, .finished (.ok ()))
  | .throw e, s => (s, .finished (.error e))
  | .read k, s => (k s).settle s
  | .write s next, _ => next.settle s
  | .ask q k, s => (s, .waiting q k)

/-- The turn of a handler: it starts, or it goes on with an answer. -/
inductive Turn : σ → Handler σ A ε → Option (Exchange A) → σ → Handler σ A ε →
    List (Handler σ A ε) → Prop
  | start (s : σ) (x : Async σ A ε Unit) (t : List (Exchange A)) :
    Turn s ⟨.ready x, t⟩ none (x.settle s).1 ⟨(x.settle s).2, t⟩ []
  | answer (s : σ) (q : Q) (k : A q → Async σ A ε Unit) (t : List (Exchange A)) (a : A q) :
    Turn s ⟨.waiting q k, t⟩ (some ⟨q, a⟩) ((k a).settle s).1
      ⟨((k a).settle s).2, t ++ [⟨q, a⟩]⟩ []

/-- A step of the loop: the turn of a handler, or the arrival of a new one. -/
abbrev Step (arrives : Async σ A ε Unit → Prop) :
    Pool σ (Handler σ A ε) → Option (Option (Exchange A)) → Pool σ (Handler σ A ε) → Prop :=
  Tasks.Step Turn fun x => ∃ program, arrives program ∧ x = ⟨.ready program, []⟩

/-- The question that is waited for. -/
def Stage.question : Stage σ A ε → Option Q
  | .waiting q _ => some q
  | _ => none

/-- The handler has asked the question when this was what it had been told. -/
def Handler.Asked (x : Handler σ A ε) (t : List (Exchange A)) (q : Q) : Prop :=
  (∃ a after, x.told = t ++ ⟨q, a⟩ :: after) ∨ x.told = t ∧ x.stage.question = some q

/-- What the handler will still do keeps the discipline, now that the state has come to `now`. -/
def Stage.Good (D : Discipline σ A) (now : σ) (t : List (Exchange A)) : Stage σ A ε → Prop
  | .ready x => ∀ s, D.admissible s → D.rely now s →
    x.Always D (.turn s t) (fun _ => D.Yields) (fun _ => D.Yields)
  | .waiting q k => D.reason t q ∧ ∀ s, D.admissible s → D.rely now s → ∀ a,
    (k a).Always D (.turn s (t ++ [⟨q, a⟩])) (fun _ => D.Yields) (fun _ => D.Yields)
  | .finished _ => True

theorem Stage.Good.rely {s s' : σ} {t : List (Exchange A)} {x : Stage σ A ε} (h : x.Good D s t)
    (hrely : D.rely s s') : x.Good D s' t := by
  cases x with
  | ready x => exact fun u hu hlater => h u hu (D.rely_trans s s' u hrely hlater)
  | waiting q k => exact ⟨h.1, fun u hu hlater => h.2 u hu (D.rely_trans s s' u hrely hlater)⟩
  | finished result => exact trivial

/-- Up to its next question a program does what it may do. -/
theorem Always.settle {x : Async σ A ε Unit}
    (h : x.Always D c (fun _ => D.Yields) (fun _ => D.Yields)) :
    D.Yields { c with now := (x.settle c.now).1 } ∧
      (x.settle c.now).2.Good D (x.settle c.now).1 c.told := by
  induction x generalizing c with
  | pure a => exact ⟨h, trivial⟩
  | throw e => exact ⟨h, trivial⟩
  | read k ih => exact ih c.now h
  | write s next ih => exact ih h
  | ask q k ih => exact ⟨h.1, h.2⟩

/-- What holds of a handler in every state of the loop. -/
structure Handler.Good (D : Discipline σ A) (now : σ) (x : Handler σ A ε) : Prop where
  told : Foundation.Justified (fun before e => D.reason before e.1) x.told
  stage : x.stage.Good D now x.told

theorem Handler.Good.rely {s s' : σ} {x : Handler σ A ε} (h : x.Good D s) (hrely : D.rely s s') :
    x.Good D s' where
  told := h.told
  stage := h.stage.rely hrely

/-- Whatever a handler has asked, it had its reason. -/
theorem Handler.Good.asked {s : σ} {x : Handler σ A ε} {t : List (Exchange A)} {q : Q}
    (h : x.Good D s) (hasked : x.Asked t q) : D.reason t q := by
  rcases hasked with ⟨a, after, htold⟩ | ⟨rfl, hquestion⟩
  · exact h.told t ⟨q, a⟩ after htold
  · have hstage := h.stage
    cases hx : x.stage with
    | ready program => rw [hx] at hquestion; cases hquestion
    | finished result => rw [hx] at hquestion; cases hquestion
    | waiting q' k =>
      rw [hx] at hquestion hstage
      cases hquestion
      exact hstage.1

/-- A handler that has its turn goes on from what it was told, and does what it may do. -/
theorem Turn.kept {s s' : σ} {x x' : Handler σ A ε} {a : Option (Exchange A)}
    {started : List (Handler σ A ε)} (hturn : Turn s x a s' x' started) (hs : D.admissible s)
    (hx : x.Good D s) :
    D.Yields ⟨s, s', x'.told⟩ ∧ x'.Good D s' ∧ x.told <+: x'.told ∧ started = [] := by
  cases hturn with
  | start x t =>
    obtain ⟨hdid, hstage⟩ := Always.settle (hx.stage s hs (D.rely_refl s))
    exact ⟨hdid, ⟨hx.told, hstage⟩, List.prefix_refl t, rfl⟩
  | answer q k t a =>
    obtain ⟨hq, hk⟩ := hx.stage
    obtain ⟨hdid, hstage⟩ := Always.settle (hk s hs (D.rely_refl s) a)
    exact ⟨hdid, ⟨justified_snoc.2 ⟨hx.told, hq⟩, hstage⟩, List.prefix_append t _, rfl⟩

section Runs

variable {arrives : Async σ A ε Unit → Prop} {p₀ p : Pool σ (Handler σ A ε)}
variable {h : List (Transition (Pool σ (Handler σ A ε)) (Option (Option (Exchange A))))}

/-- What holds in every state of the loop. -/
structure Good (D : Discipline σ A) (p : Pool σ (Handler σ A ε)) : Prop where
  shared : D.admissible p.shared
  tasks : ∀ x ∈ p.tasks, x.Good D p.shared

/-- A step keeps the loop good, and each handler keeps what it was told.  What is new in the state
is what one of the handlers may do with what it was told. -/
theorem Step.kept (harrives : ∀ x, arrives x → Keeps D x) {a : Option (Option (Exchange A))}
    {p' : Pool σ (Handler σ A ε)} (hstep : Step arrives p a p') (hp : Good D p) :
    Good D p' ∧ D.rely p.shared p'.shared ∧
      (∀ x ∈ p.tasks, ∃ x' ∈ p'.tasks, x.told <+: x'.told) ∧
      (p'.shared = p.shared ∨ ∃ x' ∈ p'.tasks, D.guarantee p.shared p'.shared x'.told) := by
  cases hstep with
  | turn before after s x a s' x' started hturn =>
    obtain ⟨hdid, hx', htold, rfl⟩ := hturn.kept hp.shared (hp.tasks x (by simp))
    refine ⟨⟨hdid.admissible, fun y hy => ?_⟩, hdid.rely, fun y hy => ?_,
      Or.inr ⟨x', by simp, hdid.guarantee⟩⟩
    · simp only [List.append_nil, List.mem_append, List.mem_cons] at hy
      rcases hy with hy | rfl | hy
      · exact (hp.tasks y (by simp [hy])).rely hdid.rely
      · exact hx'
      · exact (hp.tasks y (by simp [hy])).rely hdid.rely
    · simp only [List.mem_append, List.mem_cons] at hy
      rcases hy with hy | rfl | hy
      · exact ⟨y, by simp [hy], List.prefix_refl _⟩
      · exact ⟨x', by simp, htold⟩
      · exact ⟨y, by simp [hy], List.prefix_refl _⟩
  | arrival tasks s x harrive =>
    obtain ⟨program, hprogram, rfl⟩ := harrive
    refine ⟨⟨hp.shared, fun y hy => ?_⟩, D.rely_refl s,
      fun y hy => ⟨y, by simp [hy], List.prefix_refl _⟩, Or.inl rfl⟩
    rcases List.mem_append.mp hy with hy | hy
    · exact hp.tasks y hy
    · rw [List.mem_singleton.mp hy]
      exact ⟨justified_nil, fun u hu _ => harrives program hprogram u hu⟩

/-- **The rule of the loop.**  Where every handler that may arrive keeps the discipline by itself,
every run does: the state is admissible, and no question is ever asked without its reason. -/
theorem Path.kept (harrives : ∀ x, arrives x → Keeps D x) (hp : Good D p₀)
    (hpath : Path (Step arrives) p₀ h p) : Good D p :=
  hpath.state_invariant (P := Good D) (fun _ _ _ hgood hstep => (hstep.kept harrives hgood).1) hp

/-- **What is shown has an explanation.**  If a handler may only show what `W` explains with what it
was told, whatever a run shows was there at first or is explained by what some handler was told. -/
theorem Path.explained {γ : Type} (shows : σ → γ) {W : List (Exchange A) → γ → Prop}
    (hW : ∀ s s' t, D.guarantee s s' t → shows s' = shows s ∨ W t (shows s'))
    (harrives : ∀ x, arrives x → Keeps D x) (hp : Good D p₀)
    (hpath : Path (Step arrives) p₀ h p) :
    shows p.shared = shows p₀.shared ∨
      ∃ x ∈ p.tasks, ∃ t, t <+: x.told ∧ W t (shows p.shared) := by
  refine (hpath.state_invariant (P := fun p => Good D p ∧ (shows p.shared = shows p₀.shared ∨
    ∃ x ∈ p.tasks, ∃ t, t <+: x.told ∧ W t (shows p.shared))) ?_ ⟨hp, Or.inl rfl⟩).2
  rintro p a p' ⟨hgood, hshown⟩ hstep
  obtain ⟨hgood', -, htold, hdid⟩ := hstep.kept harrives hgood
  have hsame : shows p'.shared = shows p.shared ∨ ∃ x' ∈ p'.tasks, W x'.told (shows p'.shared) := by
    rcases hdid with hsame | ⟨x', hx', hdid⟩
    · exact Or.inl (congrArg shows hsame)
    · rcases hW _ _ _ hdid with hsame | hw
      · exact Or.inl hsame
      · exact Or.inr ⟨x', hx', hw⟩
  refine ⟨hgood', ?_⟩
  rcases hsame with hsame | ⟨x', hx', hw⟩
  · rw [hsame]
    rcases hshown with hshown | ⟨x, hx, t, ht, hw⟩
    · exact Or.inl hshown
    · obtain ⟨x', hx', hgrown⟩ := htold x hx
      exact Or.inr ⟨x', hx', t, ht.trans hgrown, hw⟩
  · exact Or.inr ⟨x', hx', x'.told, List.prefix_refl _, hw⟩

end Runs

/-! ## Runs that are computed -/

/-- The next turn of a handler that is answered by an oracle. -/
def Handler.next (oracle : (t : List (Exchange A)) → (q : Q) → A q) (s : σ)
    (x : Handler σ A ε) : σ × Handler σ A ε :=
  match x.stage with
  | .ready program => ((program.settle s).1, ⟨(program.settle s).2, x.told⟩)
  | .waiting q k =>
    let a := oracle x.told q
    (((k a).settle s).1, ⟨((k a).settle s).2, x.told ++ [⟨q, a⟩]⟩)
  | .finished _ => (s, x)

/-- The next turns of a handler. -/
def Handler.nexts (oracle : (t : List (Exchange A)) → (q : Q) → A q) :
    ℕ → σ → Handler σ A ε → σ × Handler σ A ε
  | 0, s, x => (s, x)
  | n + 1, s, x => nexts oracle n (x.next oracle s).1 (x.next oracle s).2

section Computed

variable (arrives : Async σ A ε Unit → Prop) (oracle : (t : List (Exchange A)) → (q : Q) → A q)

/-- The loop can let one handler have some turns. -/
theorem exists_path_nexts (n : ℕ) (before after : List (Handler σ A ε)) (s : σ)
    (x : Handler σ A ε) : ∃ h, Path (Step arrives) ⟨s, before ++ x :: after⟩ h
      ⟨(x.nexts oracle n s).1, before ++ (x.nexts oracle n s).2 :: after⟩ := by
  induction n generalizing s x with
  | zero => exact ⟨[], Path.nil⟩
  | succ n ih =>
    obtain ⟨h, hpath⟩ := ih (x.next oracle s).1 (x.next oracle s).2
    rcases x with ⟨stage, t⟩
    cases stage with
    | ready program =>
      have hstep : Step arrives _ _ _ :=
        Tasks.Step.turn before after _ _ _ _ _ _ (Turn.start s program t)
      rw [List.append_nil] at hstep
      exact ⟨_, (Path.single hstep).trans hpath⟩
    | waiting q k =>
      have hstep : Step arrives _ _ _ :=
        Tasks.Step.turn before after _ _ _ _ _ _ (Turn.answer s q k t (oracle t q))
      rw [List.append_nil] at hstep
      exact ⟨_, (Path.single hstep).trans hpath⟩
    | finished result => exact ⟨h, hpath⟩

/-- A handler arrives and has some turns. -/
theorem exists_path_handle {program : Async σ A ε Unit} (harrive : arrives program) (n : ℕ)
    (tasks : List (Handler σ A ε)) (s : σ) : ∃ h, Path (Step arrives) ⟨s, tasks⟩ h
      ⟨(Handler.nexts oracle n s ⟨.ready program, []⟩).1,
        tasks ++ [(Handler.nexts oracle n s ⟨.ready program, []⟩).2]⟩ := by
  obtain ⟨h, hpath⟩ := exists_path_nexts arrives oracle n tasks [] s ⟨.ready program, []⟩
  exact ⟨_, (Path.single (Tasks.Step.arrival tasks s _ ⟨program, harrive, rfl⟩)).trans hpath⟩

end Computed

end Async
end Foundation
