import Sorofy.Foundation.Toml

/-!
# TOML with pairs left out

A document from which pairs are left out is a document again, and what it means is `Below` what the
whole means: all its values and its arrays of tables are there, and no array of tables is missing.
`Below.eval` and `Below.eval_left_out` are this for one statement, which is added to both documents
or to the larger one only.

What holds of all values of a tree is `Holds`; a pair adds its value to them
(`holds_within_define`).
-/

namespace Foundation
namespace Toml

variable {α : Type} {f g f' g' t : Fields α} {fs gs es : List (Fields α)} {n m : Node α} {k : Text}
  {v : α} {path : List Text} {change : Fields α → Option (Fields α)} {P : α → Prop}

/-! ## Changes -/

theorem define_eq_some (h : define k v g = some g') :
    g.lookup k = none ∧ g' = Keyed.put Prod.fst g (k, .leaf v) := by
  unfold define at h
  split at h
  · rename_i hk
    cases h
    exact ⟨hk, (Keyed.put_of_lookup_none hk).symm⟩
  · cases h

theorem define_of_none (h : g.lookup k = none) :
    define k v g = some (Keyed.put Prod.fst g (k, .leaf v)) := by
  rw [define, h, Keyed.put_of_lookup_none h]

theorem openTable_eq_some (h : openTable k g = some g') :
    g.lookup k = none ∧ g' = Keyed.put Prod.fst g (k, .table []) ∨
      g' = g ∧ ∃ t, g.lookup k = some (.table t) := by
  unfold openTable at h
  split at h
  · rename_i hk
    cases h
    exact Or.inl ⟨hk, (Keyed.put_of_lookup_none hk).symm⟩
  · rename_i t hk
    cases h
    exact Or.inr ⟨rfl, t, hk⟩
  · cases h

theorem openTable_of_none (h : g.lookup k = none) :
    openTable k g = some (Keyed.put Prod.fst g (k, .table [])) := by
  rw [openTable, h, Keyed.put_of_lookup_none h]

theorem openTable_of_table (h : g.lookup k = some (.table t)) : openTable k g = some g := by
  rw [openTable, h]

theorem openEntry_eq_some (h : openEntry k g = some g') :
    ∃ es, (g.lookup k).getD (.tables []) = .tables es ∧
      g' = Keyed.put Prod.fst g (k, .tables (es ++ [[]])) := by
  unfold openEntry at h
  split at h
  · rename_i hk
    cases h
    exact ⟨[], by rw [hk]; rfl, (Keyed.put_of_lookup_none hk).symm⟩
  · rename_i es hk
    cases h
    exact ⟨es, by rw [hk]; rfl, rfl⟩
  · cases h

theorem openEntry_of_tables (h : (g.lookup k).getD (.tables []) = .tables es) :
    openEntry k g = some (Keyed.put Prod.fst g (k, .tables (es ++ [[]]))) := by
  unfold openEntry
  cases hk : g.lookup k with
  | none =>
    rw [hk] at h
    cases h
    rw [Keyed.put_of_lookup_none hk]
    rfl
  | some m =>
    rw [hk] at h
    cases h
    rfl

/-- A table on the way, which need not be there yet. -/
theorem within_of_table (h : (g.lookup k).getD (.table []) = .table t) :
    within change (k :: path) g =
      (within change path t).map fun t' => Keyed.put Prod.fst g (k, .table t') := by
  rw [within]
  cases hk : g.lookup k with
  | none =>
    rw [hk] at h
    cases h
    cases hin : within change path [] with
    | none => rfl
    | some t' => simp [Keyed.put_of_lookup_none hk]
  | some m =>
    rw [hk] at h
    cases h
    show (within change path t).bind _ = _
    cases within change path t <;> rfl

/-- An array of tables on the way. -/
theorem within_of_tables (h : g.lookup k = some (.tables (es ++ [t]))) :
    within change (k :: path) g =
      (within change path t).map fun t' => Keyed.put Prod.fst g (k, .tables (es ++ [t'])) := by
  rw [within, h]
  simp only [List.getLast?_append, List.getLast?_singleton, Option.some_or, List.dropLast_concat]
  show (within change path t).bind _ = _
  cases within change path t <;> rfl

/-- There is no other way. -/
theorem within_eq_some (h : within change (k :: path) g = some g') :
    (∃ t t', (g.lookup k).getD (.table []) = .table t ∧ within change path t = some t' ∧
      g' = Keyed.put Prod.fst g (k, .table t')) ∨
    ∃ es t t', g.lookup k = some (.tables (es ++ [t])) ∧ within change path t = some t' ∧
      g' = Keyed.put Prod.fst g (k, .tables (es ++ [t'])) := by
  cases hk : g.lookup k with
  | none =>
    rw [within_of_table (t := []) (by rw [hk]; rfl), Option.map_eq_some_iff] at h
    obtain ⟨t', ht', rfl⟩ := h
    exact Or.inl ⟨[], t', rfl, ht', rfl⟩
  | some m =>
    cases m with
    | leaf v =>
      rw [within, hk] at h
      cases h
    | table t =>
      rw [within_of_table (t := t) (by rw [hk]; rfl), Option.map_eq_some_iff] at h
      obtain ⟨t', ht', rfl⟩ := h
      exact Or.inl ⟨t, t', rfl, ht', rfl⟩
    | tables es =>
      rcases List.eq_nil_or_concat es with rfl | ⟨es, t, rfl⟩
      · rw [within, hk] at h
        cases h
      · rw [List.concat_eq_append] at hk
        rw [within_of_tables hk, Option.map_eq_some_iff] at h
        obtain ⟨t', ht', rfl⟩ := h
        exact Or.inr ⟨es, t, t', by rw [List.concat_eq_append], ht', rfl⟩

/-! ## Below -/

/-- What is left of a node where nothing has been put. -/
def Node.blank : Node α → Node α
  | leaf v => leaf v
  | table _ => table []
  | tables _ => tables []

/-- The one tree is the other with some of the values left out, and with tables left out in which
there are values only. -/
inductive Below : Node α → Node α → Prop
  | leaf (v : α) : Below (.leaf v) (.leaf v)
  | table {f g : Fields α} (there : ∀ k, g.lookup k = none → f.lookup k = none)
      (below : ∀ k m, g.lookup k = some m → Below ((f.lookup k).getD m.blank) m) :
      Below (.table f) (.table g)
  | nil : Below (.tables []) (.tables [])
  | append {fs gs : List (Fields α)} {f g : Fields α} (init : Below (.tables fs) (.tables gs))
      (last : Below (.table f) (.table g)) : Below (.tables (fs ++ [f])) (.tables (gs ++ [g]))

namespace Below

theorem empty : Below (.table ([] : Fields α)) (.table []) :=
  .table (fun _ _ => rfl) (fun _ _ h => by cases h)

theorem lookup_eq_none (h : Below (.table f) (.table g)) (hk : g.lookup k = none) :
    f.lookup k = none := by
  cases h with
  | table there _ => exact there k hk

theorem lookup (h : Below (.table f) (.table g)) (hk : g.lookup k = some m) :
    Below ((f.lookup k).getD m.blank) m := by
  cases h with
  | table _ below => exact below k m hk

/-- Of an array of tables nothing is missing. -/
theorem exists_append (h : Below n (.tables (gs ++ [g]))) :
    ∃ fs f, n = .tables (fs ++ [f]) ∧ Below (.tables fs) (.tables gs) ∧
      Below (.table f) (.table g) := by
  generalize hm : Node.tables (gs ++ [g]) = m at h
  cases h with
  | leaf v => cases hm
  | table there below => cases hm
  | nil =>
    rw [Node.tables.injEq] at hm
    exact absurd hm (by simp)
  | append init last =>
    rw [Node.tables.injEq] at hm
    obtain ⟨rfl, hlast⟩ := List.append_inj' hm rfl
    cases hlast
    exact ⟨_, _, rfl, init, last⟩

/-- The same has been put into both. -/
theorem put (h : Below (.table f) (.table g)) (hn : Below n m) :
    Below (.table (Keyed.put Prod.fst f (k, n))) (.table (Keyed.put Prod.fst g (k, m))) := by
  refine .table (fun j hj => ?_) (fun j m' hj => ?_)
  · rw [Keyed.lookup_put] at hj ⊢
    split_ifs at hj ⊢
    exact h.lookup_eq_none hj
  · rw [Keyed.lookup_put] at hj ⊢
    split_ifs at hj ⊢ with hk
    · cases hj
      exact hn
    · exact h.lookup hj

/-- It has been put into the smaller one. -/
theorem put_left (h : Below (.table f) (.table g)) (hk : g.lookup k = some m) (hn : Below n m) :
    Below (.table (Keyed.put Prod.fst f (k, n))) (.table g) := by
  refine .table (fun j hj => ?_) (fun j m' hj => ?_)
  · rw [Keyed.lookup_put, if_neg]
    · exact h.lookup_eq_none hj
    · rintro rfl
      rw [hk] at hj
      cases hj
  · rw [Keyed.lookup_put]
    split_ifs with hjk
    · subst hjk
      rw [hk] at hj
      cases hj
      exact hn
    · exact h.lookup hj

/-- It has been put into the larger one. -/
theorem put_right (h : Below (.table f) (.table g)) (hm : Below ((f.lookup k).getD m.blank) m) :
    Below (.table f) (.table (Keyed.put Prod.fst g (k, m))) := by
  refine .table (fun j hj => ?_) (fun j m' hj => ?_)
  · rw [Keyed.lookup_put] at hj
    split_ifs at hj
    exact h.lookup_eq_none hj
  · rw [Keyed.lookup_put] at hj
    split_ifs at hj with hjk
    · subst hjk
      cases hj
      exact hm
    · exact h.lookup hj

/-- The tables under a key. -/
theorem lookup_table (h : Below (.table f) (.table g))
    (hk : (g.lookup k).getD (.table []) = .table t) :
    ∃ s, (f.lookup k).getD (.table []) = .table s ∧ Below (.table s) (.table t) := by
  cases hg : g.lookup k with
  | none =>
    rw [hg] at hk
    cases hk
    exact ⟨[], by rw [h.lookup_eq_none hg]; rfl, empty⟩
  | some m =>
    rw [hg] at hk
    cases hk
    have hbelow := h.lookup hg
    rw [Node.blank] at hbelow
    generalize (f.lookup k).getD (.table []) = n at hbelow ⊢
    cases hbelow with
    | table there below => exact ⟨_, rfl, .table there below⟩

/-- The arrays of tables under a key. -/
theorem lookup_tables (h : Below (.table f) (.table g))
    (hk : (g.lookup k).getD (.tables []) = .tables gs) :
    ∃ fs, (f.lookup k).getD (.tables []) = .tables fs ∧ Below (.tables fs) (.tables gs) := by
  cases hg : g.lookup k with
  | none =>
    rw [hg] at hk
    cases hk
    exact ⟨[], by rw [h.lookup_eq_none hg]; rfl, nil⟩
  | some m =>
    rw [hg] at hk
    cases hk
    have hbelow := h.lookup hg
    rw [Node.blank] at hbelow
    generalize (f.lookup k).getD (.tables []) = n at hbelow ⊢
    cases hbelow with
    | nil => exact ⟨_, rfl, nil⟩
    | append init last => exact ⟨_, rfl, init.append last⟩

/-! ### The same in both -/

theorem define (h : Below (.table f) (.table g)) (hdef : Toml.define k v g = some g') :
    ∃ f', Toml.define k v f = some f' ∧ Below (.table f') (.table g') := by
  obtain ⟨hk, rfl⟩ := define_eq_some hdef
  exact ⟨_, define_of_none (h.lookup_eq_none hk), h.put (.leaf v)⟩

theorem openTable (h : Below (.table f) (.table g)) (hopen : Toml.openTable k g = some g') :
    ∃ f', Toml.openTable k f = some f' ∧ Below (.table f') (.table g') := by
  rcases openTable_eq_some hopen with ⟨hk, rfl⟩ | ⟨rfl, t, hk⟩
  · exact ⟨_, openTable_of_none (h.lookup_eq_none hk), h.put empty⟩
  · obtain ⟨s, hs, hbelow⟩ := h.lookup_table (t := t) (by rw [hk]; rfl)
    cases hf : f.lookup k with
    | none =>
      rw [hf] at hs
      cases hs
      exact ⟨_, openTable_of_none hf, h.put_left hk hbelow⟩
    | some n =>
      rw [hf] at hs
      cases hs
      exact ⟨f, openTable_of_table hf, h⟩

theorem openEntry (h : Below (.table f) (.table g)) (hopen : Toml.openEntry k g = some g') :
    ∃ f', Toml.openEntry k f = some f' ∧ Below (.table f') (.table g') := by
  obtain ⟨gs, hgs, rfl⟩ := openEntry_eq_some hopen
  obtain ⟨fs, hfs, hbelow⟩ := h.lookup_tables hgs
  exact ⟨_, openEntry_of_tables hfs, h.put (hbelow.append empty)⟩

theorem within (hchange : ∀ {f g g' : Fields α}, Below (.table f) (.table g) →
      change g = some g' → ∃ f', change f = some f' ∧ Below (.table f') (.table g'))
    (h : Below (.table f) (.table g)) (hwithin : Toml.within change path g = some g') :
    ∃ f', Toml.within change path f = some f' ∧ Below (.table f') (.table g') := by
  induction path generalizing f g g' with
  | nil => exact hchange h hwithin
  | cons k path ih =>
    rcases within_eq_some hwithin with ⟨t, t', ht, hin, rfl⟩ | ⟨es, t, t', hk, hin, rfl⟩
    · obtain ⟨s, hs, hbelow⟩ := h.lookup_table ht
      obtain ⟨s', hs', hbelow'⟩ := ih hbelow hin
      exact ⟨_, by rw [within_of_table hs, hs']; rfl, h.put hbelow'⟩
    · have hg : (g.lookup k).getD (.tables []) = .tables (es ++ [t]) := by rw [hk]; rfl
      obtain ⟨n, hn, hbelow⟩ := h.lookup_tables hg
      obtain ⟨fs, s, heq, hinit, hlast⟩ := hbelow.exists_append
      cases heq
      obtain ⟨s', hs', hbelow'⟩ := ih hlast hin
      have hf : f.lookup k = some (.tables (fs ++ [s])) := by
        cases hf : f.lookup k with
        | none =>
          rw [hf, Option.getD_none, Node.tables.injEq] at hn
          exact absurd hn (by simp)
        | some m =>
          rw [hf] at hn
          cases hn
          rfl
      exact ⟨_, by rw [within_of_tables hf, hs']; rfl, h.put (hinit.append hbelow')⟩

/-- **A statement that both documents have.** -/
theorem eval {s s' : Scope Spelled} {f : Fields Spelled} {statement : Statement}
    (h : Below (.table f) (.table s.fields)) (heval : statement.eval s = some s') :
    ∃ f', statement.eval { s with fields := f } = some { s' with fields := f' } ∧
      Below (.table f') (.table s'.fields) := by
  cases statement with
  | empty =>
    cases heval
    exact ⟨f, rfl, h⟩
  | pair key before after v =>
    obtain ⟨g', hg', heq⟩ := Option.bind_eq_some_iff.mp heval
    cases heq
    obtain ⟨f', hf', hbelow⟩ := h.within define hg'
    exact ⟨f', by rw [Statement.eval, hf']; rfl, hbelow⟩
  | table before key after =>
    obtain ⟨g', hg', heq⟩ := Option.bind_eq_some_iff.mp heval
    cases heq
    obtain ⟨f', hf', hbelow⟩ := h.within openTable hg'
    exact ⟨f', by rw [Statement.eval, hf']; rfl, hbelow⟩
  | entry before key after =>
    obtain ⟨g', hg', heq⟩ := Option.bind_eq_some_iff.mp heval
    cases heq
    obtain ⟨f', hf', hbelow⟩ := h.within openEntry hg'
    exact ⟨f', by rw [Statement.eval, hf']; rfl, hbelow⟩

/-! ### Left out -/

theorem define_left_out (h : Below (.table f) (.table g))
    (hdef : Toml.define k v g = some g') : Below (.table f) (.table g') := by
  obtain ⟨hk, rfl⟩ := define_eq_some hdef
  refine h.put_right ?_
  rw [h.lookup_eq_none hk]
  exact .leaf v

theorem within_left_out (h : Below (.table f) (.table g))
    (hwithin : Toml.within (Toml.define k v) path g = some g') : Below (.table f) (.table g') := by
  induction path generalizing f g g' with
  | nil => exact h.define_left_out hwithin
  | cons j path ih =>
    rcases within_eq_some hwithin with ⟨t, t', ht, hin, rfl⟩ | ⟨es, t, t', hk, hin, rfl⟩
    · obtain ⟨s, hs, hbelow⟩ := h.lookup_table ht
      refine h.put_right ?_
      rw [Node.blank, hs]
      exact ih hbelow hin
    · have hbelow := h.lookup hk
      obtain ⟨fs, s, heq, hinit, hlast⟩ := hbelow.exists_append
      refine h.put_right ?_
      rw [Node.blank] at heq ⊢
      rw [heq]
      exact hinit.append (ih hlast hin)

/-- **A pair that only the larger document has.** -/
theorem eval_left_out {s s' : Scope Spelled} {f : Fields Spelled} {key : Key}
    {before after : Blank} {v : Spelled} (h : Below (.table f) (.table s.fields))
    (heval : (Statement.pair key before after v).eval s = some s') :
    s'.current = s.current ∧ Below (.table f) (.table s'.fields) := by
  obtain ⟨g', hg', heq⟩ := Option.bind_eq_some_iff.mp heval
  cases heq
  exact ⟨rfl, h.within_left_out hg'⟩

end Below

/-! ## What holds of all values -/

/-- All values of the tree have the property. -/
inductive Holds (P : α → Prop) : Node α → Prop
  | leaf {v : α} (h : P v) : Holds P (.leaf v)
  | table {f : Fields α} (h : ∀ k n, f.lookup k = some n → Holds P n) : Holds P (.table f)
  | tables {fs : List (Fields α)} (h : ∀ f ∈ fs, Holds P (.table f)) : Holds P (.tables fs)

theorem holds_leaf_iff : Holds P (.leaf v) ↔ P v :=
  ⟨fun h => by cases h with | leaf h => exact h, Holds.leaf⟩

theorem holds_table_iff : Holds P (.table f) ↔ ∀ k n, f.lookup k = some n → Holds P n :=
  ⟨fun h => by cases h with | table h => exact h, Holds.table⟩

theorem holds_tables_iff : Holds P (.tables fs) ↔ ∀ f ∈ fs, Holds P (.table f) :=
  ⟨fun h => by cases h with | tables h => exact h, Holds.tables⟩

theorem holds_empty : Holds P (.table []) :=
  .table fun _ _ h => by cases h

theorem holds_append :
    Holds P (.tables (fs ++ [f])) ↔ Holds P (.tables fs) ∧ Holds P (.table f) := by
  rw [holds_tables_iff, holds_tables_iff, List.forall_mem_append, List.forall_mem_singleton]

/-- What is put adds a condition `q`. -/
theorem holds_put {q : Prop} (h : Holds P n ↔ Holds P ((f.lookup k).getD n.blank) ∧ q)
    (hblank : Holds P n.blank) :
    Holds P (.table (Keyed.put Prod.fst f (k, n))) ↔ Holds P (.table f) ∧ q := by
  rw [holds_table_iff, holds_table_iff]
  refine Keyed.forall_lookup_put (h.trans (and_congr_left' ?_))
  cases f.lookup k with
  | none => simp [hblank]
  | some m => simp

/-- **A value that is defined adds to the values**, and nothing else does. -/
theorem holds_within_define (h : within (define k v) path f = some f') :
    Holds P (.table f') ↔ Holds P (.table f) ∧ P v := by
  induction path generalizing f f' with
  | nil =>
    obtain ⟨hk, rfl⟩ := define_eq_some h
    rw [holds_table_iff, holds_table_iff]
    refine Keyed.forall_lookup_put ?_
    rw [holds_leaf_iff, hk]
    simp
  | cons j path ih =>
    rcases within_eq_some h with ⟨t, t', ht, hin, rfl⟩ | ⟨es, t, t', hk, hin, rfl⟩
    · refine holds_put ?_ holds_empty
      rw [Node.blank, ht]
      exact ih hin
    · refine holds_put ?_ (.tables (by simp))
      rw [Node.blank, hk, Option.getD_some, holds_append, holds_append, ih hin, and_assoc]

theorem holds_openTable (h : openTable k f = some f') :
    Holds P (.table f') ↔ Holds P (.table f) := by
  rcases openTable_eq_some h with ⟨hk, rfl⟩ | ⟨rfl, -⟩
  · have hput : Holds P (.table (Keyed.put Prod.fst f (k, .table []))) ↔
        Holds P (.table f) ∧ True := by
      refine holds_put ?_ holds_empty
      rw [hk, and_true]
      rfl
    rw [hput, and_true]
  · rfl

theorem holds_openEntry (h : openEntry k f = some f') :
    Holds P (.table f') ↔ Holds P (.table f) := by
  obtain ⟨es, hes, rfl⟩ := openEntry_eq_some h
  have hput : Holds P (.table (Keyed.put Prod.fst f (k, .tables (es ++ [[]])))) ↔
      Holds P (.table f) ∧ True := by
    refine holds_put ?_ (.tables (by simp))
    rw [Node.blank, hes, holds_append, and_true, and_iff_left holds_empty]
  rw [hput, and_true]

end Toml
end Foundation
