import Sorofy.Gate.TomlScan

/-!
# What the loop makes of a line

A line of a TOML document, as it is written, in one pass through the loop of `parseToml`: a header
opens its table, a pair assigns what is read for its value, and a line that the regular expressions
do not match is skipped.
-/

namespace Sorofy
namespace Gate
namespace Toml

open Foundation Foundation.Toml

section Lines

variable {s t name raw : JsString} {n : ℕ}

/-! ## Comments and blanks -/

/-- A text that `stripComment` leaves alone. -/
def Passes (t : JsString) : Prop :=
  ∀ s, stripFrom .outside (t ++ s) = t ++ stripFrom .outside s

theorem Token.passes {m : ℤ} (h : Token m t) : Passes t :=
  h.strip

theorem Passes.append (h : Passes s) (h' : Passes t) : Passes (s ++ t) := by
  intro r
  rw [List.append_assoc, h, h', List.append_assoc]

/-- A character that begins neither a string nor a comment. -/
theorem passes_singleton {c : UInt16} (hdouble : c ≠ 34) (hsingle : c ≠ 39) (hhash : c ≠ 35) :
    Passes [c] := by
  intro s
  have hnext : Scan.outside.next c = .outside := by
    rw [Scan.next, if_neg (by simp [hdouble, hsingle])]
  rw [List.singleton_append, stripFrom, if_neg (by simp [hhash]), hnext]
  rfl

theorem stripFrom_comment (comment : Option Comment) :
    stripFrom .outside (commentText comment) = [] := by
  cases comment <;> rfl

theorem blank_space (b : Blank) : ∀ u ∈ b.text, isSpace u = true :=
  fun u hu => isSpace_of_blank (b.blank u hu)

/-- What the loop matches against. -/
def content (line : Line) : JsString :=
  trim (stripComment line.text)

theorem stripComment_text {line : Line} (h : Passes line.statement.text) :
    stripComment line.text = line.indent.text ++ line.statement.text ++ line.trail.text := by
  have hpasses := ((token_blank (m := 0) line.indent).passes.append h).append
    (token_blank (m := 0) line.trail).passes
  rw [stripComment, Line.text, hpasses, stripFrom_comment, List.append_nil]

theorem content_eq {line : Line} (h : Passes line.statement.text)
    (hvisible : Visible line.statement.text) : content line = line.statement.text := by
  rw [content, stripComment_text h]
  exact trim_between (blank_space line.indent) hvisible (blank_space line.trail)

theorem content_empty {line : Line} (h : line.statement = .empty) : content line = [] := by
  have hpasses : Passes line.statement.text := by
    rw [h]
    exact fun s => rfl
  rw [content, stripComment_text hpasses, h, Statement.text, List.append_nil]
  refine trim_space fun u hu => ?_
  rcases List.mem_append.mp hu with hu | hu
  · exact blank_space line.indent u hu
  · exact blank_space line.trail u hu

/-! ## Headers -/

theorem isKeyChar_of_isBare {u : UInt16} (h : isBare u = true) : isKeyChar u = true := by
  simp only [isBare, decide_eq_true_eq, Bool.decide_or, Bool.or_eq_true, Bool.decide_and,
    Bool.and_eq_true] at h
  simp only [isKeyChar, isWord, isDigit, decide_eq_true_eq, Bool.decide_or, Bool.or_eq_true,
    Bool.decide_and, Bool.and_eq_true]
  rcases h with h | h | h | h | h
  · simp [h]
  · simp [h]
  · simp [h]
  · subst h
    decide
  · subst h
    decide

theorem isKeyChar_range {u : UInt16} (h : isKeyChar u = true) :
    48 ≤ u.toNat ∧ u.toNat ≤ 57 ∨ 65 ≤ u.toNat ∧ u.toNat ≤ 90 ∨ 97 ≤ u.toNat ∧ u.toNat ≤ 122 ∨
      u = 95 ∨ u = 46 ∨ u = 45 := by
  simp only [isKeyChar, isWord, isDigit, decide_eq_true_eq, Bool.decide_or, Bool.or_eq_true,
    Bool.decide_and, Bool.and_eq_true] at h
  rcases h with (h | h | h | h) | h | h
  · exact Or.inl h
  · exact Or.inr (Or.inl h)
  · exact Or.inr (Or.inr (Or.inl h))
  · exact Or.inr (Or.inr (Or.inr (Or.inl (UInt16.toNat_inj.mp h))))
  · exact Or.inr (Or.inr (Or.inr (Or.inr (Or.inl h))))
  · exact Or.inr (Or.inr (Or.inr (Or.inr (Or.inr h))))

theorem isSpace_of_isKeyChar {u : UInt16} (h : isKeyChar u = true) : isSpace u = false := by
  have hrange := isKeyChar_range h
  simp only [isSpace, decide_eq_false_iff_not, List.mem_cons, List.not_mem_nil, or_false]
  rcases hrange with h | h | h | rfl | rfl | rfl
  all_goals first | omega | decide

theorem isPlain_of_isKeyChar {u : UInt16} (h : isKeyChar u = true) : IsPlain u := by
  have hne : ∀ k : ℕ, (k = 34 ∨ k = 39 ∨ k = 35 ∨ k = 91 ∨ k = 93 ∨ k = 44) →
      u ≠ UInt16.ofNat k := by
    rintro k hcases rfl
    rcases hcases with rfl | rfl | rfl | rfl | rfl | rfl <;> revert h <;> decide
  exact ⟨hne 34 (by simp), hne 39 (by simp), hne 35 (by simp), hne 91 (by simp), hne 93 (by simp),
    hne 44 (by simp)⟩

theorem visible_of_keyChars (hne : name ≠ []) (h : ∀ u ∈ name, isKeyChar u = true) :
    Visible name :=
  visible_of_not_space hne fun u hu => isSpace_of_isKeyChar (h u hu)

/-- A name in so many brackets. -/
theorem bracketName_text {inner : JsString} (htrim : trim inner = name) (hne : name ≠ [])
    (h : ∀ u ∈ name, isKeyChar u = true) :
    bracketName n (List.replicate n 91 ++ (inner ++ List.replicate n 93)) = some name := by
  have hlen : (List.replicate n 91 ++ (inner ++ List.replicate n (93 : UInt16))).length =
      n + (inner.length + n) := by
    rw [List.length_append, List.length_append, List.length_replicate, List.length_replicate]
  have hfront : (List.replicate n 91 ++ (inner ++ List.replicate n (93 : UInt16))).take n =
      List.replicate n 91 := List.take_left' List.length_replicate
  have hdrop : (List.replicate n 91 ++ (inner ++ List.replicate n (93 : UInt16))).drop n =
      inner ++ List.replicate n 93 := List.drop_left' List.length_replicate
  have hback : (List.replicate n 91 ++ (inner ++ List.replicate n (93 : UInt16))).drop
      (n + (inner.length + n) - n) = List.replicate n 93 := by
    rw [← List.append_assoc]
    refine List.drop_left' ?_
    rw [List.length_append, List.length_replicate]
    omega
  have hinner : (inner ++ List.replicate n (93 : UInt16)).take
      (n + (inner.length + n) - 2 * n) = inner := List.take_left' (by omega)
  simp only [bracketName, hlen, hfront, hdrop, hback, hinner, htrim]
  rw [if_pos ⟨by omega, trivial, trivial, hne, List.all_eq_true.mpr h⟩]

theorem bracketName_of_head (hn : 0 < n) (h : t.head? ≠ some 91) : bracketName n t = none := by
  obtain ⟨n, rfl⟩ : ∃ k, n = k + 1 := ⟨n - 1, by omega⟩
  have htake : t.take (n + 1) ≠ List.replicate (n + 1) 91 := by
    cases t with
    | nil => simp [List.replicate_succ]
    | cons u t =>
      intro heq
      rw [List.take_succ_cons, List.replicate_succ, List.cons.injEq] at heq
      exact h (by rw [heq.1, List.head?_cons])
  rw [bracketName, if_neg fun hand => htake hand.2.1]

/-- One bracket is not two. -/
theorem bracketName_two {u : UInt16} (hu : u ≠ 91) : bracketName 2 (91 :: u :: t) = none := by
  have htake : (91 :: u :: t).take 2 ≠ List.replicate 2 91 := by
    intro heq
    rw [List.take_succ_cons, List.take_succ_cons, List.replicate_succ, List.replicate_succ,
      List.cons.injEq, List.cons.injEq] at heq
    exact hu heq.2.1
  rw [bracketName, if_neg fun hand => htake hand.2.1]

/-! ## Pairs -/

theorem takeWhile_append_of_neg {p : UInt16 → Bool} (hs : ∀ u ∈ s, p u = true)
    (ht : ∀ u ∈ t.head?, p u = false) : (s ++ t).takeWhile p = s ∧ (s ++ t).dropWhile p = t := by
  rw [List.takeWhile_append_of_pos hs, List.dropWhile_append_of_pos hs]
  cases t with
  | nil => simp
  | cons u t =>
    have hu := ht u rfl
    simp [hu]

/-- What the regular expression makes of a pair. -/
theorem pair_text {before after : Blank} (hne : name ≠ []) (h : ∀ u ∈ name, isKeyChar u = true)
    (hraw : raw ≠ []) (hhead : ∀ u ∈ raw.head?, isSpace u = false) :
    pair (name ++ (before.text ++ 61 :: (after.text ++ raw))) =
      if raw.all isDot = true then some (name, raw) else none := by
  have hstop : ∀ u ∈ (before.text ++ 61 :: (after.text ++ raw)).head?, isKeyChar u = false := by
    intro u hu
    cases hb : before.text with
    | nil =>
      rw [hb] at hu
      cases hu
      decide
    | cons c b =>
      rw [hb] at hu
      obtain rfl : c = u := Option.some.inj hu
      rcases before.blank c (by rw [hb]; exact List.mem_cons_self) with rfl | rfl <;> decide
  obtain ⟨htake, hdrop⟩ := takeWhile_append_of_neg h hstop
  have hblank : (before.text ++ 61 :: (after.text ++ raw)).dropWhile isSpace =
      61 :: (after.text ++ raw) :=
    (takeWhile_append_of_neg (blank_space before) (fun u hu => by cases hu; decide)).2
  have hvalue : (after.text ++ raw).dropWhile isSpace = raw :=
    (takeWhile_append_of_neg (blank_space after) hhead).2
  simp only [pair, htake, hdrop, hblank, hvalue]
  by_cases hdot : raw.all isDot = true
  · rw [if_pos hdot, if_pos ⟨hne, hraw, hdot⟩]
  · rw [if_neg hdot, if_neg fun hand => hdot hand.2.2]

/-- Behind the name there has to be an equals sign. -/
theorem pair_of_ne {c : UInt16} (h : ∀ u ∈ name, isKeyChar u = true)
    (hblank : ∀ u ∈ s, isSpace u = true) (hkey : s = [] → isKeyChar c = false) (hspace : isSpace c = false)
    (heq : c ≠ 61) : pair (name ++ (s ++ c :: t)) = none := by
  have hstop : ∀ u ∈ (s ++ c :: t).head?, isKeyChar u = false := by
    intro u hu
    cases s with
    | nil =>
      obtain rfl : c = u := Option.some.inj hu
      exact hkey rfl
    | cons d s =>
      obtain rfl : d = u := Option.some.inj hu
      have hd := hblank d List.mem_cons_self
      cases hkeyd : isKeyChar d with
      | false => rfl
      | true => rw [isSpace_of_isKeyChar hkeyd] at hd; cases hd
  have hdrop := (takeWhile_append_of_neg h hstop).2
  have hrest : (s ++ c :: t).dropWhile isSpace = c :: t :=
    (takeWhile_append_of_neg hblank (fun u hu => by cases hu; exact hspace)).2
  simp only [pair, hdrop, hrest]
  split
  · rename_i tail hcons
    exact absurd (List.cons.inj hcons).1 heq
  · rfl

/-! ## Readable statements -/

/-- The name of a key that is one name without quotes. -/
def bareName (key : Key) : Option JsString :=
  match key.init, key.last with
  | [], .bare name => some name.text
  | _, _ => none

/-- The module knows where the value ends. -/
def TrackedValue (v : Spelled) : Prop :=
  Tracked v ∨ ∃ l, v = .literal l

/-- The statement is on one line, and is one that the module knows, or leaves alone: the name of a
table is one without quotes, and so is a key that is all of key characters. -/
def Readable : Statement → Prop
  | .empty => True
  | .pair key _ _ v => TrackedValue v ∧
    ((∃ name, bareName key = some name ∧ name ≠ js "__proto__") ∨
      ∃ u ∈ key.text, isKeyChar u = false)
  | .table _ key _ => ∃ name, bareName key = some name ∧ name ≠ js "__proto__"
  | .entry _ key _ => ∃ name, bareName key = some name ∧ name ≠ js "__proto__"

/-- A key that is one name is written as this name. -/
theorem bareName_eq_some {key : Key} (h : bareName key = some name) : key.text = name ∧
    key.path = [] ∧ key.last.name = name ∧ name ≠ [] ∧ ∀ u ∈ name, isKeyChar u = true := by
  obtain ⟨init, last⟩ := key
  unfold bareName at h
  split at h
  · rename_i bare hinit hlast
    cases h
    simp only at hinit hlast
    subst hinit hlast
    exact ⟨rfl, rfl, rfl, bare.ne_nil, fun u hu => isKeyChar_of_isBare (bare.bare u hu)⟩
  · cases h

variable {fraction : JsString → JsValue} {state : State} {line : Line}

theorem step_eq (fraction : JsString → JsValue) (state : State) (line : Line) :
    step fraction state line.text =
      match bracketName 2 (content line) with
      | some key => state.openEntry key
      | none =>
        match bracketName 1 (content line) with
        | some key => state.openTable key
        | none =>
          match pair (content line) with
          | some (key, raw) => state.assign key (parseValue fraction (trim raw))
          | none => state := rfl

theorem step_empty (h : line.statement = .empty) : step fraction state line.text = state := by
  rw [step_eq, content_empty h]
  rfl

theorem passes_name (h : ∀ u ∈ name, isKeyChar u = true) : Passes name :=
  (token_of_plain (m := 0) fun u hu => isPlain_of_isKeyChar (h u hu)).passes

theorem passes_open : Passes [91] := passes_singleton (by decide) (by decide) (by decide)

theorem passes_close : Passes [93] := passes_singleton (by decide) (by decide) (by decide)

theorem trim_name {before after : Blank} (hne : name ≠ []) (h : ∀ u ∈ name, isKeyChar u = true) :
    trim (before.text ++ name ++ after.text) = name :=
  trim_between (blank_space before) (visible_of_keyChars hne h) (blank_space after)

/-- The inside of a header. -/
theorem passes_inner (before after : Blank) (h : ∀ u ∈ name, isKeyChar u = true) :
    Passes (before.text ++ name ++ after.text) :=
  ((token_blank (m := 0) before).passes.append (passes_name h)).append
    (token_blank (m := 0) after).passes

theorem step_entry {key : Key} {before after : Blank}
    (hline : line.statement = .entry before key after) (hname : bareName key = some name) :
    step fraction state line.text = state.openEntry name := by
  obtain ⟨htext, -, -, hne, hchars⟩ := bareName_eq_some hname
  have hstatement : line.statement.text = [91] ++ ([91] ++
      (before.text ++ name ++ after.text) ++ [93]) ++ [93] := by
    rw [hline, Statement.text, htext]
    simp
  have hpasses : Passes line.statement.text := by
    rw [hstatement]
    exact (passes_open.append ((passes_open.append (passes_inner before after hchars)).append
      passes_close)).append passes_close
  have hvisible : Visible line.statement.text := by
    rw [hstatement, List.append_assoc]
    exact visible_between (by decide) (by decide)
  have hcontent : content line = List.replicate 2 91 ++
      ((before.text ++ name ++ after.text) ++ List.replicate 2 93) := by
    rw [content_eq hpasses hvisible, hstatement]
    simp [List.replicate_succ]
  rw [step_eq, hcontent, bracketName_text (trim_name hne hchars) hne hchars]

theorem step_table {key : Key} {before after : Blank}
    (hline : line.statement = .table before key after) (hname : bareName key = some name) :
    step fraction state line.text = state.openTable name := by
  obtain ⟨htext, -, -, hne, hchars⟩ := bareName_eq_some hname
  have hstatement : line.statement.text = [91] ++ (before.text ++ name ++ after.text) ++ [93] := by
    rw [hline, Statement.text, htext]
    simp
  have hpasses : Passes line.statement.text := by
    rw [hstatement]
    exact (passes_open.append (passes_inner before after hchars)).append passes_close
  have hvisible : Visible line.statement.text := by
    rw [hstatement, List.append_assoc]
    exact visible_between (by decide) (by decide)
  have hcontent : content line = List.replicate 1 91 ++
      ((before.text ++ name ++ after.text) ++ List.replicate 1 93) := by
    rw [content_eq hpasses hvisible, hstatement]
    simp
  have htwo : bracketName 2 (content line) = none := by
    have hinner : before.text ++ name ++ after.text ≠ [] := by simp [hne]
    obtain ⟨u, inner, hcons⟩ := List.exists_cons_of_ne_nil hinner
    have hu : u ∈ before.text ++ name ++ after.text := by
      rw [hcons]
      exact List.mem_cons_self
    have hbracket : u ≠ 91 := by
      rcases List.mem_append.mp hu with hu | hu
      · rcases List.mem_append.mp hu with hu | hu
        · exact (isPlain_of_blank (before.blank u hu)).2.2.2.1
        · exact (isPlain_of_isKeyChar (hchars u hu)).2.2.2.1
      · exact (isPlain_of_blank (after.blank u hu)).2.2.2.1
    rw [hcontent, hcons]
    exact bracketName_two hbracket
  rw [step_eq, htwo, hcontent, bracketName_text (trim_name hne hchars) hne hchars]

/-- A pair whose key is one name: `rest` is what is left of the line behind its value. -/
theorem step_assign {before after : Blank} {v : Spelled} {rest : JsString} (hne : name ≠ [])
    (hchars : ∀ u ∈ name, isKeyChar u = true)
    (hcontent : content line = name ++ (before.text ++ 61 :: (after.text ++ (v.text ++ rest)))) :
    step fraction state line.text =
      if (v.text ++ rest).all isDot = true then
        state.assign name (parseValue fraction (trim (v.text ++ rest)))
      else state := by
  have hhead : (content line).head? ≠ some 91 := by
    obtain ⟨u, name, rfl⟩ := List.exists_cons_of_ne_nil hne
    rw [hcontent, List.cons_append, List.head?_cons]
    intro heq
    exact (isPlain_of_isKeyChar (hchars u List.mem_cons_self)).2.2.2.1 (Option.some.inj heq)
  have hvisible := visible_text v
  have hraw : v.text ++ rest ≠ [] := by simp [hvisible.ne_nil]
  have hstart : ∀ u ∈ (v.text ++ rest).head?, isSpace u = false := by
    rw [List.head?_append_of_ne_nil _ hvisible.ne_nil]
    exact hvisible.head
  rw [step_eq, bracketName_of_head (by decide) hhead, bracketName_of_head (by decide) hhead,
    hcontent, pair_text hne hchars hraw hstart]
  split_ifs <;> rfl

/-- **A pair is read**, unless a line of the value is broken where no line of the text is. -/
theorem step_pair {key : Key} {before after : Blank} {v : Spelled}
    (hline : line.statement = .pair key before after v) (hname : bareName key = some name)
    (hv : Tracked v) :
    step fraction state line.text =
      if v.text.all isDot = true then state.assign name (readValue v) else state := by
  obtain ⟨htext, -, -, hne, hchars⟩ := bareName_eq_some hname
  have hstatement : line.statement.text =
      name ++ (before.text ++ ([61] ++ (after.text ++ v.text))) := by
    rw [hline, Statement.text, htext]
    simp
  have hpasses : Passes line.statement.text := by
    rw [hstatement]
    exact (passes_name hchars).append ((token_blank (m := 0) before).passes.append
      ((passes_singleton (by decide) (by decide) (by decide)).append
        ((token_blank (m := 0) after).passes.append (token_text hv).passes)))
  have hvisible : Visible line.statement.text := by
    rw [hstatement, ← List.append_assoc [61], ← List.append_assoc before.text]
    exact (visible_of_keyChars hne hchars).append (visible_text v) _
  have hcontent : content line =
      name ++ (before.text ++ 61 :: (after.text ++ (v.text ++ []))) := by
    rw [content_eq hpasses hvisible, hstatement]
    simp
  rw [step_assign hne hchars hcontent, List.append_nil, trim_visible (visible_text v), parseValue,
    valueTo_text hv le_rfl]

/-- **A string in single quotes is read**, even where the scanner does not see its end: what comes
behind it is dropped in the end. -/
theorem step_literal {key : Key} {before after : Blank} {l : Literal}
    (hline : line.statement = .pair key before after (.literal l))
    (hname : bareName key = some name) :
    step fraction state line.text = state.assign name (.string l.text) ∨
      step fraction state line.text = state := by
  obtain ⟨htext, -, -, hne, hchars⟩ := bareName_eq_some hname
  let front : JsString := name ++ (before.text ++ ([61] ++ after.text))
  have hfront : Passes front :=
    (passes_name hchars).append ((token_blank (m := 0) before).passes.append
      ((passes_singleton (by decide) (by decide) (by decide)).append
        (token_blank (m := 0) after).passes))
  obtain ⟨hquoted, hend⟩ := quoted_literal l.unquoted
  -- the closing quote is kept, whether the scanner takes it for one or not
  have hliteral : ∀ r, ∃ r', stripFrom .outside ((Spelled.literal l).text ++ r) =
      (Spelled.literal l).text ++ r' := by
    intro r
    have hkeep : ∀ scan : Scan, scan ≠ .outside → ∃ r', stripFrom scan (39 :: r) = 39 :: r' := by
      intro scan hscan
      exact ⟨_, by rw [stripFrom, if_neg fun hand => hscan hand.1]⟩
    have hinside : l.text.foldl Scan.next (.inside 39) ≠ .outside := by
      rw [hend]
      split_ifs <;> simp
    obtain ⟨r', hr'⟩ := hkeep _ hinside
    refine ⟨r', ?_⟩
    rw [Spelled.text, List.cons_append, List.append_assoc, List.singleton_append]
    show 39 :: stripFrom (.inside 39) (l.text ++ 39 :: r) = _
    rw [stripFrom_quoted hquoted, hr']
    simp
  have hwhole : line.text = line.indent.text ++ (front ++ ((Spelled.literal l).text ++
      (line.trail.text ++ commentText line.comment))) := by
    rw [Line.text, hline, Statement.text, htext]
    simp [front]
  obtain ⟨r, hr⟩ := hliteral (line.trail.text ++ commentText line.comment)
  have hvisible : Visible (front ++ (Spelled.literal l).text) := by
    rw [List.append_assoc]
    exact (visible_of_keyChars hne hchars).append (visible_text _) _
  obtain ⟨r', hr'⟩ := exists_trim (blank_space line.indent) hvisible r
  have hcontent : content line = name ++ (before.text ++ 61 :: (after.text ++
      ((Spelled.literal l).text ++ r'))) := by
    rw [content, stripComment, hwhole, (token_blank (m := 0) line.indent).passes, hfront, hr,
      ← List.append_assoc front, hr']
    simp [front]
  rw [step_assign hne hchars hcontent]
  split_ifs
  · left
    obtain ⟨r'', hr''⟩ : ∃ r'', trim ([] ++ ((Spelled.literal l).text ++ r')) =
        (Spelled.literal l).text ++ r'' := exists_trim (by simp) (visible_text _) r'
    rw [List.nil_append] at hr''
    rw [hr'', parseValue, Spelled.text, List.cons_append, valueTo_string (Or.inr rfl),
      List.append_assoc, List.singleton_append, unquoteFrom_literal]
  · exact Or.inr rfl

/-! ## Keys that are not read -/

/-- What a key begins with. -/
theorem simpleKey_head (k : SimpleKey) : ∃ c t, k.text = c :: t ∧
    (c = 34 ∨ c = 39 ∨ isKeyChar c = true) := by
  cases k with
  | bare name =>
    obtain ⟨c, t, hcons⟩ := List.exists_cons_of_ne_nil name.ne_nil
    have hc : isBare c = true := name.bare c (by rw [hcons]; exact List.mem_cons_self)
    exact ⟨c, t, hcons, Or.inr (Or.inr (isKeyChar_of_isBare hc))⟩
  | basic pieces => exact ⟨34, _, rfl, Or.inl rfl⟩
  | literal l => exact ⟨39, _, rfl, Or.inr (Or.inl rfl)⟩

theorem key_text_cons (part : SimpleKey × Blank × Blank) (init : List (SimpleKey × Blank × Blank))
    (last : SimpleKey) : (Key.mk (part :: init) last).text =
      part.1.text ++ (part.2.1.text ++ 46 :: (part.2.2.text ++ (Key.mk init last).text)) := by
  simp [Key.text]

theorem key_head (key : Key) : ∃ c t, key.text = c :: t ∧
    (c = 34 ∨ c = 39 ∨ isKeyChar c = true) := by
  obtain ⟨init, last⟩ := key
  cases init with
  | nil =>
    obtain ⟨c, t, hcons, hc⟩ := simpleKey_head last
    exact ⟨c, t, hcons, hc⟩
  | cons part init =>
    obtain ⟨c, t, hcons, hc⟩ := simpleKey_head part.1
    rw [key_text_cons, hcons]
    exact ⟨c, _, rfl, hc⟩

/-- Where the characters of a key that is not all of key characters end, there is a quote, or there
are blanks with more of the key behind them. -/
structure Broken (t : JsString) : Prop where
  shape : ∃ (front blanks : JsString) (c : UInt16) (rest : JsString),
    t = front ++ (blanks ++ c :: rest) ∧ (∀ u ∈ front, isKeyChar u = true) ∧
      (∀ u ∈ blanks, u = 32 ∨ u = 9) ∧ (front = [] → blanks = []) ∧
      (blanks = [] → c = 34 ∨ c = 39) ∧ (c = 34 ∨ c = 39 ∨ isKeyChar c = true)

theorem broken_quote {q : UInt16} (hq : q = 34 ∨ q = 39) (t : JsString) : Broken (q :: t) := by
  refine ⟨[], [], q, t, rfl, by simp, by simp, fun _ => rfl, fun _ => hq, ?_⟩
  rcases hq with rfl | rfl <;> simp

theorem Broken.append_front (h : Broken t) (hchars : ∀ u ∈ s, isKeyChar u = true) :
    Broken (s ++ t) := by
  obtain ⟨front, blanks, c, rest, rfl, hfront, hblanks, hnil, hquote, hc⟩ := h.shape
  refine ⟨s ++ front, blanks, c, rest, by simp, ?_, hblanks, ?_, hquote, hc⟩
  · intro u hu
    rcases List.mem_append.mp hu with hu | hu
    · exact hchars u hu
    · exact hfront u hu
  · intro happ
    exact hnil (List.append_eq_nil_iff.mp happ).2

theorem broken_blank {b : Blank} {c : UInt16} {front : JsString} (hne : front ≠ [])
    (hfront : ∀ u ∈ front, isKeyChar u = true) (hb : b.text ≠ [])
    (hc : c = 34 ∨ c = 39 ∨ isKeyChar c = true) (t : JsString) :
    Broken (front ++ (b.text ++ c :: t)) :=
  ⟨front, b.text, c, t, rfl, hfront, b.blank, fun h => absurd h hne, fun h => absurd h hb, hc⟩

theorem broken_key : ∀ {init : List (SimpleKey × Blank × Blank)} {last : SimpleKey},
    (∃ u ∈ (Key.mk init last).text, isKeyChar u = false) → Broken (Key.mk init last).text
  | [], .bare name, h => by
    obtain ⟨u, hu, hnot⟩ := h
    have hbare := isKeyChar_of_isBare (name.bare u hu)
    rw [hnot] at hbare
    cases hbare
  | [], .basic pieces, _ => broken_quote (Or.inl rfl) _
  | [], .literal l, _ => broken_quote (Or.inr rfl) _
  | (.basic pieces, _, _) :: _, _, _ => broken_quote (Or.inl rfl) _
  | (.literal l, _, _) :: _, _, _ => broken_quote (Or.inr rfl) _
  | (.bare name, b, b') :: init, last, h => by
    have hname : ∀ u ∈ name.text, isKeyChar u = true :=
      fun u hu => isKeyChar_of_isBare (name.bare u hu)
    have hdot : ∀ u ∈ name.text ++ [46], isKeyChar u = true := by
      intro u hu
      rcases List.mem_append.mp hu with hu | hu
      · exact hname u hu
      · rw [List.mem_singleton.mp hu]
        decide
    rw [key_text_cons] at h ⊢
    by_cases hb : b.text = []
    · rw [hb, List.nil_append] at h ⊢
      have happ : name.text ++ 46 :: (b'.text ++ (Key.mk init last).text) =
          (name.text ++ [46]) ++ (b'.text ++ (Key.mk init last).text) := by simp
      rw [show (SimpleKey.bare name, b, b').1.text = name.text from rfl] at h ⊢
      rw [happ] at h ⊢
      by_cases hb' : b'.text = []
      · rw [show (SimpleKey.bare name, b, b').2.2.text = b'.text from rfl, hb',
          List.nil_append] at h ⊢
        obtain ⟨u, hu, hnot⟩ := h
        have hrest : u ∈ (Key.mk init last).text := by
          rcases List.mem_append.mp hu with hu | hu
          · rw [hdot u hu] at hnot
            cases hnot
          · exact hu
        exact (broken_key ⟨u, hrest, hnot⟩).append_front hdot
      · obtain ⟨c, t, hcons, hc⟩ := key_head (Key.mk init last)
        rw [hcons]
        exact broken_blank (by simp) hdot hb' hc t
    · exact broken_blank name.ne_nil hname hb (Or.inr (Or.inr (by decide))) _

/-- A line that begins with a broken key is skipped. -/
theorem step_skip {key : Key} {before after : Blank} {v : Spelled}
    (hline : line.statement = .pair key before after v)
    (h : ∃ u ∈ key.text, isKeyChar u = false) : step fraction state line.text = state := by
  obtain ⟨front, blanks, c, rest, hkey, hfront, hblanks, hnil, hquote, hc⟩ := (broken_key h).shape
  have hcspace : isSpace c = false := by
    rcases hc with rfl | rfl | hc
    · decide
    · decide
    · exact isSpace_of_isKeyChar hc
  have hcne : c ≠ 35 ∧ c ≠ 61 ∧ c ≠ 91 := by
    rcases hc with rfl | rfl | hc
    · decide
    · decide
    · refine ⟨(isPlain_of_isKeyChar hc).2.2.1, ?_, (isPlain_of_isKeyChar hc).2.2.2.1⟩
      rintro rfl
      revert hc
      decide
  let start : JsString := front ++ (blanks ++ [c])
  have hstart : Visible start := by
    have hlast : Visible [c] := visible_of_not_space (by simp) (by simpa using hcspace)
    cases front with
    | nil =>
      show Visible ([] ++ (blanks ++ [c]))
      rw [hnil rfl]
      exact hlast
    | cons u front =>
      exact (visible_of_keyChars (List.cons_ne_nil _ _) hfront).append hlast blanks
  have hkept : ∀ r, ∃ r', stripFrom .outside (start ++ r) = start ++ r' := by
    intro r
    have hplain : Passes (front ++ blanks) := (passes_name hfront).append
      (token_of_plain (m := 0) fun u hu => isPlain_of_blank (hblanks u hu)).passes
    refine ⟨stripFrom (Scan.outside.next c) r, ?_⟩
    have hsplit : ∀ r, start ++ r = (front ++ blanks) ++ c :: r := by simp [start]
    rw [hsplit, hplain, stripFrom, if_neg fun hand => hcne.1 hand.2, hsplit]
  have hwhole : ∃ r, line.text = line.indent.text ++ (start ++ r) := by
    rw [Line.text, hline, Statement.text, hkey]
    exact ⟨rest ++ (before.text ++ 61 :: (after.text ++ (v.text ++ (line.trail.text ++
      commentText line.comment)))), by simp [start]⟩
  obtain ⟨r, hr⟩ := hwhole
  obtain ⟨r', hr'⟩ := hkept r
  obtain ⟨r'', hr''⟩ := exists_trim (blank_space line.indent) hstart r'
  have hcontent : content line = front ++ (blanks ++ c :: r'') := by
    rw [content, stripComment, hr, (token_blank (m := 0) line.indent).passes, hr', hr'']
    simp [start]
  have hhead : (content line).head? ≠ some 91 := by
    rw [hcontent]
    cases front with
    | nil =>
      rw [hnil rfl, List.nil_append, List.nil_append, List.head?_cons]
      exact fun heq => hcne.2.2 (Option.some.inj heq)
    | cons u front =>
      rw [List.cons_append, List.head?_cons]
      exact fun heq =>
        (isPlain_of_isKeyChar (hfront u List.mem_cons_self)).2.2.2.1 (Option.some.inj heq)
  have hnokey : blanks = [] → isKeyChar c = false := by
    intro hb
    rcases hquote hb with rfl | rfl <;> decide
  have hpair : pair (content line) = none := by
    rw [hcontent]
    exact pair_of_ne hfront (fun u hu => isSpace_of_blank (hblanks u hu)) hnokey hcspace hcne.2.1
  rw [step_eq, bracketName_of_head (by decide) hhead, bracketName_of_head (by decide) hhead, hpair]

/-! ## Where the lines of the text end -/

/-- No line ends within the text. -/
def OneLine (t : JsString) : Prop :=
  ∀ u ∈ t, u ≠ 10 ∧ u ≠ 13

instance : DecidablePred OneLine := fun t => List.decidableBAll _ t

theorem OneLine.append (h : OneLine s) (h' : OneLine t) : OneLine (s ++ t) :=
  List.forall_mem_append.mpr ⟨h, h'⟩

theorem OneLine.cons {u : UInt16} (hlf : u ≠ 10) (hcr : u ≠ 13) (h : OneLine t) :
    OneLine (u :: t) :=
  List.forall_mem_cons.mpr ⟨⟨hlf, hcr⟩, h⟩

theorem oneLine_nil : OneLine [] :=
  fun _ h => by cases h

/-- A line ends with a control character. -/
theorem oneLine_of_le (h : ∀ u ∈ t, u = 9 ∨ 32 ≤ u.toNat) : OneLine t := by
  intro u hu
  rcases h u hu with rfl | hle
  · decide
  · constructor <;> rintro rfl <;> revert hle <;> decide

theorem oneLine_of_printable (h : ∀ u ∈ t, IsPrintable u) : OneLine t :=
  oneLine_of_le fun u hu => (h u hu).imp_right And.left

theorem oneLine_blank (b : Blank) : OneLine b.text :=
  oneLine_of_le fun u hu => by
    rcases b.blank u hu with rfl | rfl
    · exact Or.inr (by decide)
    · exact Or.inl rfl

theorem oneLine_comment (comment : Option Comment) : OneLine (commentText comment) := by
  cases comment with
  | none => exact oneLine_nil
  | some comment => exact (oneLine_of_printable comment.printable).cons (by decide) (by decide)

theorem oneLine_gap {gap : Gap} (h : gap.Flat) : OneLine gap.text := by
  rw [gap_text_of_flat h]
  exact oneLine_blank gap.tail

theorem oneLine_pieces (pieces : List Piece) :
    OneLine (34 :: (pieces.flatMap Piece.text ++ [34])) := by
  have hpiece : ∀ p : Piece, OneLine p.text := by
    intro p
    cases p with
    | plain u hprintable _ _ => exact oneLine_of_printable (by simpa [Piece.text] using hprintable)
    | escape e => cases e <;> decide
    | char c =>
      have hdigits : OneLine c.digits := oneLine_of_le fun u hu => by
        have hrange := digit_range_of_areDigits c.areDigits hu
        omega
      rw [Piece.text]
      split_ifs
      · exact (hdigits.cons (by decide) (by decide)).cons (by decide) (by decide)
      · exact (hdigits.cons (by decide) (by decide)).cons (by decide) (by decide)
  have hpieces : OneLine (pieces.flatMap Piece.text) := by
    intro u hu
    obtain ⟨p, -, hp⟩ := List.mem_flatMap.mp hu
    exact hpiece p u hp
  exact (hpieces.append (by decide)).cons (by decide) (by decide)

theorem oneLine_literal (l : Literal) : OneLine (39 :: (l.text ++ [39])) :=
  ((oneLine_of_printable l.printable).append (by decide)).cons
    (by decide) (by decide)

theorem oneLine_keyChars (h : ∀ u ∈ t, isKeyChar u = true) : OneLine t :=
  oneLine_of_le fun u hu => by
    rcases isKeyChar_range (h u hu) with h | h | h | rfl | rfl | rfl
    · omega
    · omega
    · omega
    · exact Or.inr (by decide)
    · exact Or.inr (by decide)
    · exact Or.inr (by decide)

theorem oneLine_simpleKey (k : SimpleKey) : OneLine k.text := by
  cases k with
  | bare name => exact oneLine_keyChars fun u hu => isKeyChar_of_isBare (name.bare u hu)
  | basic pieces => exact oneLine_pieces pieces
  | literal l => exact oneLine_literal l

theorem oneLine_key (key : Key) : OneLine key.text := by
  obtain ⟨init, last⟩ := key
  induction init with
  | nil => exact oneLine_simpleKey last
  | cons part init ih =>
    rw [key_text_cons]
    exact (oneLine_simpleKey part.1).append ((oneLine_blank part.2.1).append
      (((oneLine_blank part.2.2).append ih).cons (by decide) (by decide)))

mutual

theorem oneLine_text : ∀ {v : Spelled}, Tracked v → OneLine v.text
  | .basic pieces, _ => oneLine_pieces pieces
  | .literal l, _ => oneLine_literal l
  | .integer i, _ => oneLine_of_le fun u hu => by
    rcases isNumeral_of_mem i u hu with h | h | h | rfl | rfl | rfl | rfl | rfl
    · omega
    · omega
    · omega
    all_goals exact Or.inr (by decide)
  | .boolean true, _ => by decide
  | .boolean false, _ => by decide
  | .array _, h => ((oneLine_items h).append (by decide)).cons
    (by decide) (by decide)

theorem oneLine_items : ∀ {items : Items}, AllTracked items → OneLine items.text
  | .close _, h => oneLine_gap h
  | .last _ _ _, h => ((oneLine_gap h.1).append (oneLine_text h.2.1)).append (oneLine_gap h.2.2)
  | .more _ _ _ _, h => (((oneLine_gap h.1).append (oneLine_text h.2.1)).append
    (oneLine_gap h.2.2.1)).append ((oneLine_items h.2.2.2).cons (by decide) (by decide))

end

theorem oneLine_statement {statement : Statement} (h : Readable statement) :
    OneLine statement.text := by
  cases statement with
  | empty => exact oneLine_nil
  | pair key before after v =>
    have hv : OneLine v.text := by
      rcases h.1 with hv | ⟨l, rfl⟩
      · exact oneLine_text hv
      · exact oneLine_literal l
    exact ((oneLine_key key).append (oneLine_blank before)).append
      (((oneLine_blank after).append hv).cons (by decide) (by decide))
  | table before key after =>
    exact ((((oneLine_blank before).append (oneLine_key key)).append (oneLine_blank after)).append
      (by decide)).cons (by decide) (by decide)
  | entry before key after =>
    exact (((((oneLine_blank before).append (oneLine_key key)).append
      (oneLine_blank after)).append (by decide)).cons (by decide) (by decide)).cons
      (by decide) (by decide)

theorem oneLine_line {line : Line} (h : Readable line.statement) : OneLine line.text :=
  (((oneLine_blank line.indent).append (oneLine_statement h)).append
    (oneLine_blank line.trail)).append (oneLine_comment line.comment)

theorem splitLf_ne_nil (s : JsString) : splitLf s ≠ [] := by
  cases s with
  | nil => simp [splitLf]
  | cons c s =>
    rw [splitLf]
    split_ifs
    · simp
    · cases splitLf s <;> simp [push]

theorem splitLf_append (h : ∀ u ∈ t, u ≠ 10) (s : JsString) :
    splitLf (t ++ 10 :: s) = t :: splitLf s := by
  induction t with
  | nil => rfl
  | cons c t ih =>
    rw [List.cons_append, splitLf, if_neg (h c List.mem_cons_self),
      ih fun u hu => h u (List.mem_cons_of_mem c hu), push]

theorem splitLf_of_oneLine (h : OneLine t) : splitLf t = [t] := by
  induction t with
  | nil => rfl
  | cons c t ih =>
    rw [splitLf, if_neg (h c List.mem_cons_self).1,
      ih fun u hu => h u (List.mem_cons_of_mem c hu), push]

/-- The first line of a text. -/
theorem splitLines_append (h : OneLine t) (newline : Newline) (s : JsString) :
    splitLines (t ++ (newline.text ++ s)) = t :: splitLines s := by
  have hcons : ∀ line, dropCrs (line :: splitLf s) = dropCr line :: splitLines s := by
    intro line
    obtain ⟨first, rest, heq⟩ := List.exists_cons_of_ne_nil (splitLf_ne_nil s)
    rw [splitLines, heq, dropCrs]
    simp
  cases newline with
  | lf =>
    have hdrop : dropCr t = t := by
      rw [dropCr, if_neg]
      intro hlast
      exact (h 13 (List.mem_of_mem_getLast? hlast)).2 rfl
    show dropCrs (splitLf (t ++ 10 :: s)) = _
    rw [splitLf_append fun u hu => (h u hu).1, hcons, hdrop]
  | crlf =>
    have hchars : ∀ u ∈ t ++ [13], u ≠ 10 := by
      rw [List.forall_mem_append, List.forall_mem_singleton]
      exact ⟨fun u hu => (h u hu).1, by decide⟩
    have hsplit : t ++ (Newline.crlf.text ++ s) = (t ++ [13]) ++ 10 :: s := by simp [Newline.text]
    rw [hsplit, splitLines, splitLf_append hchars, hcons, dropCr, if_pos (by simp),
      List.dropLast_concat]

/-- **The lines of the text are those of the document**, where each of them is readable. -/
theorem splitLines_text {doc : Document} (h : ∀ line ∈ doc.lines, Readable line.statement) :
    splitLines doc.text = doc.lines.map Line.text := by
  obtain ⟨ended, last⟩ := doc
  induction ended with
  | nil =>
    have hlast : OneLine last.text := oneLine_line (h last (by simp [Document.lines]))
    show dropCrs (splitLf last.text) = _
    rw [splitLf_of_oneLine hlast]
    rfl
  | cons line ended ih =>
    have hline : OneLine line.1.text := oneLine_line (h line.1 (by simp [Document.lines]))
    have htext : (Document.mk (line :: ended) last).text =
        line.1.text ++ (line.2.text ++ (Document.mk ended last).text) := by
      simp [Document.text]
    rw [htext, splitLines_append hline,
      ih fun l hl => h l (List.mem_cons_of_mem line.1 hl)]
    rfl

end Lines

end Toml
end Gate
end Sorofy
