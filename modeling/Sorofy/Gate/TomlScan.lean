import Sorofy.Foundation.Toml
import Sorofy.Gate.Toml

/-!
# What the scanners make of a value

The values of a TOML document, as they are written, under `stripComment`, `splitTopLevel` and
`parseValue`.  Where the scanners know where the strings end (`Tracked`) a value is read part by
part: `readValue` is what comes out of it, and `readValue_eq_iff` says when that is what is meant.

`Token` is a text that the scanners pass over, and so is one token behind another.
-/

namespace Sorofy
namespace Gate
namespace Toml

open Foundation Foundation.Toml

/-! ## Tokens -/

section Tokens

variable {scan : Scan} {q c : UInt16} {s t : JsString} {m : ℤ}

/-- Put a text in front of the first part. -/
def pushAll (t : JsString) (parts : List JsString) : List JsString :=
  t.foldr push parts

theorem pushAll_append (t t' : JsString) (parts : List JsString) :
    pushAll (t ++ t') parts = pushAll t (pushAll t' parts) :=
  List.foldr_append

theorem pushAll_cons_cons (t part : JsString) (parts : List JsString) :
    pushAll t (part :: parts) = (t ++ part) :: parts := by
  induction t with
  | nil => rfl
  | cons c t ih =>
    show push c (pushAll t (part :: parts)) = _
    rw [ih]
    rfl

/-- A text that both scanners pass over, when it is within so many brackets. -/
structure Token (m : ℤ) (t : JsString) : Prop where
  strip : ∀ s, stripFrom .outside (t ++ s) = t ++ stripFrom .outside s
  split : ∀ depth s, m ≤ depth →
    splitFrom .outside depth (t ++ s) = pushAll t (splitFrom .outside depth s)

theorem Token.nil : Token m [] :=
  ⟨fun _ => rfl, fun _ _ _ => rfl⟩

theorem Token.append (h : Token m s) (h' : Token m t) : Token m (s ++ t) := by
  constructor
  · intro r
    rw [List.append_assoc, h.strip, h'.strip, List.append_assoc]
  · intro depth r hdepth
    rw [List.append_assoc, h.split depth _ hdepth, h'.split depth _ hdepth, pushAll_append]

theorem Token.mono {m' : ℤ} (h : Token m t) (hle : m ≤ m') : Token m' t :=
  ⟨h.strip, fun depth s hdepth => h.split depth s (hle.trans hdepth)⟩

/-- A character without a meaning for the scanners. -/
def IsPlain (c : UInt16) : Prop :=
  c ≠ 34 ∧ c ≠ 39 ∧ c ≠ 35 ∧ c ≠ 91 ∧ c ≠ 93 ∧ c ≠ 44

instance : DecidablePred IsPlain := fun c => by
  unfold IsPlain
  infer_instance

theorem token_singleton (hc : IsPlain c) : Token m [c] := by
  obtain ⟨hdouble, hsingle, hhash, hopen, hclose, hcomma⟩ := hc
  have hnext : Scan.outside.next c = .outside := by
    rw [Scan.next, if_neg (by simp [hdouble, hsingle])]
  constructor
  · intro s
    rw [List.singleton_append, stripFrom, if_neg (by simp [hhash]), hnext]
    rfl
  · intro depth s _
    have hdeeper : deeper .outside depth c = depth := by
      rw [deeper, if_neg (by simp [hopen]), if_neg (by simp [hclose])]
    rw [List.singleton_append, splitFrom, if_neg (by simp [hcomma]), hnext, hdeeper]
    rfl

theorem token_of_plain (h : ∀ c ∈ t, IsPlain c) : Token m t := by
  induction t with
  | nil => exact Token.nil
  | cons c t ih =>
    exact (token_singleton (h c List.mem_cons_self)).append
      (ih fun d hd => h d (List.mem_cons_of_mem c hd))

/-- A comma within brackets. -/
theorem token_comma : Token 1 [44] := by
  constructor
  · intro s
    rfl
  · intro depth s hdepth
    rw [List.singleton_append, splitFrom, if_neg (by omega)]
    rfl

theorem token_brackets (h : Token 1 t) : Token 0 (91 :: (t ++ [93])) := by
  constructor
  · intro s
    have hclose : stripFrom .outside (93 :: s) = 93 :: stripFrom .outside s := rfl
    rw [List.cons_append, List.append_assoc, List.singleton_append]
    show 91 :: stripFrom .outside (t ++ 93 :: s) = _
    rw [h.strip, hclose]
    simp
  · intro depth s hdepth
    have hclose : splitFrom .outside (depth + 1) (93 :: s) = push 93 (splitFrom .outside depth s) := by
      show push 93 (splitFrom .outside (depth + 1 - 1) s) = _
      rw [Int.add_sub_cancel]
    rw [List.cons_append, List.append_assoc, List.singleton_append]
    show push 91 (splitFrom .outside (depth + 1) (t ++ 93 :: s)) = _
    rw [h.split _ _ (by omega), hclose]
    show _ = push 91 (pushAll (t ++ [93]) (splitFrom .outside depth s))
    rw [pushAll_append]
    rfl

/-! ## Quotes -/

/-- The scanner stays within quotes. -/
def Quoted : Scan → JsString → Prop
  | _, [] => True
  | scan, c :: t => scan ≠ .outside ∧ Quoted (scan.next c) t

theorem quoted_append : Quoted scan (s ++ t) ↔
    Quoted scan s ∧ Quoted (s.foldl Scan.next scan) t := by
  induction s generalizing scan with
  | nil => simp [Quoted]
  | cons c s ih => simp [Quoted, ih, and_assoc]

theorem stripFrom_quoted (h : Quoted scan t) (s : JsString) :
    stripFrom scan (t ++ s) = t ++ stripFrom (t.foldl Scan.next scan) s := by
  induction t generalizing scan with
  | nil => rfl
  | cons c t ih =>
    rw [List.cons_append, stripFrom, if_neg (fun hand => h.1 hand.1), ih h.2]
    rfl

theorem splitFrom_quoted (h : Quoted scan t) (depth : ℤ) (s : JsString) :
    splitFrom scan depth (t ++ s) =
      pushAll t (splitFrom (t.foldl Scan.next scan) depth s) := by
  induction t generalizing scan with
  | nil => rfl
  | cons c t ih =>
    have hdeeper : deeper scan depth c = depth := by
      rw [deeper, if_neg (fun hand => h.1 hand.1), if_neg (fun hand => h.1 hand.1)]
    rw [List.cons_append, splitFrom, if_neg (fun hand => h.1 hand.1), hdeeper, ih h.2]
    rfl

/-- A string: within its quotes the scanner comes back to where it was. -/
theorem token_string (hq : q = 34 ∨ q = 39) (h : Quoted (.inside q) t)
    (hend : t.foldl Scan.next (.inside q) = .inside q) : Token m (q :: (t ++ [q])) := by
  have hback : q ≠ 92 := by
    rcases hq with rfl | rfl
    · decide
    · decide
  have hopen : Scan.outside.next q = .inside q := by
    rw [Scan.next, if_pos hq]
  have hclose : (Scan.inside q).next q = .outside := by
    rw [Scan.next, if_neg hback, if_pos rfl]
  have hhash : q ≠ 35 := by
    rcases hq with rfl | rfl
    · decide
    · decide
  have hplain : q ≠ 91 ∧ q ≠ 93 ∧ q ≠ 44 := by
    rcases hq with rfl | rfl
    · decide
    · decide
  constructor
  · intro s
    rw [List.cons_append, stripFrom, if_neg (by simp [hhash]), hopen, List.append_assoc,
      stripFrom_quoted h, hend, List.singleton_append, stripFrom, if_neg (by simp), hclose]
    simp
  · intro depth s _
    have hdeeper : deeper .outside depth q = depth := by
      rw [deeper, if_neg (by simp [hplain]), if_neg (by simp [hplain])]
    have hdeeper' : deeper (.inside q) depth q = depth := by
      rw [deeper, if_neg (by simp), if_neg (by simp)]
    rw [List.cons_append, splitFrom, if_neg (by simp [hplain]), hopen, hdeeper, List.append_assoc,
      splitFrom_quoted h, hend, List.singleton_append, splitFrom, if_neg (by simp), hclose,
      hdeeper']
    show _ = push q (pushAll (t ++ [q]) (splitFrom .outside depth s))
    rw [pushAll_append]
    rfl

end Tokens

/-! ## Strings -/

section Strings

variable {u : UInt16} {t : JsString} {radix : ℕ}

theorem digit_range_of_areDigits (h : AreDigits radix t) (hu : u ∈ t) :
    48 ≤ u.toNat ∧ u.toNat ≤ 57 ∨ 97 ≤ u.toNat ∧ u.toNat ≤ 102 ∨ 65 ≤ u.toNat ∧ u.toNat ≤ 70 := by
  obtain ⟨v, hv, -⟩ := h u hu
  unfold Hex.digit? at hv
  split_ifs at hv <;> omega

theorem ne_of_toNat_ne {u v : UInt16} (h : u.toNat ≠ v.toNat) : u ≠ v := by
  rintro rfl
  exact h rfl

/-- Characters that are neither a quote nor a backslash leave a scanner within the quotes. -/
theorem quoted_plain {q : UInt16} (h : ∀ u ∈ t, u ≠ q ∧ u ≠ 92) :
    Quoted (.inside q) t ∧ t.foldl Scan.next (.inside q) = .inside q := by
  induction t with
  | nil => exact ⟨trivial, rfl⟩
  | cons u t ih =>
    obtain ⟨hquote, hback⟩ := h u List.mem_cons_self
    have hnext : (Scan.inside q).next u = .inside q := by
      rw [Scan.next, if_neg hback, if_neg hquote]
    obtain ⟨hquoted, hend⟩ := ih fun v hv => h v (List.mem_cons_of_mem u hv)
    rw [Quoted, List.foldl_cons, hnext]
    exact ⟨⟨by simp, hquoted⟩, hend⟩

theorem quoted_piece (p : Piece) :
    Quoted (.inside 34) p.text ∧ p.text.foldl Scan.next (.inside 34) = .inside 34 := by
  cases p with
  | plain u _ hquote hback =>
    exact quoted_plain (by simpa [Piece.text] using ⟨hquote, hback⟩)
  | escape e => exact ⟨⟨by simp, by simp [Scan.next], trivial⟩, rfl⟩
  | char c =>
    have hdigits : ∀ u ∈ c.digits, u ≠ 34 ∧ u ≠ 92 := by
      intro u hu
      have hrange := digit_range_of_areDigits c.areDigits hu
      exact ⟨ne_of_toNat_ne (by simp; omega), ne_of_toNat_ne (by simp; omega)⟩
    obtain ⟨hquoted, hend⟩ := quoted_plain hdigits
    rw [Piece.text]
    exact ⟨⟨by simp, by simp [Scan.next], hquoted⟩, hend⟩

theorem quoted_pieces (ps : List Piece) : Quoted (.inside 34) (ps.flatMap Piece.text) ∧
    (ps.flatMap Piece.text).foldl Scan.next (.inside 34) = .inside 34 := by
  induction ps with
  | nil => exact ⟨trivial, rfl⟩
  | cons p ps ih =>
    obtain ⟨hquoted, hend⟩ := quoted_piece p
    rw [List.flatMap_cons, quoted_append, List.foldl_append, hend]
    exact ⟨⟨hquoted, ih.1⟩, ih.2⟩

/-- How many backslashes a text ends in. -/
def backslashes (t : JsString) : ℕ :=
  (t.reverse.takeWhile (· = 92)).length

/-- In single quotes a backslash means nothing, but the scanners skip what comes behind it: where
there is one too many of them at the end, that is the quote. -/
theorem quoted_literal (h : ∀ u ∈ t, u ≠ 39) : Quoted (.inside 39) t ∧
    t.foldl Scan.next (.inside 39) =
      if backslashes t % 2 = 0 then .inside 39 else .escaped 39 := by
  induction t using List.reverseRecOn with
  | nil => exact ⟨trivial, rfl⟩
  | append_singleton t u ih =>
    obtain ⟨hquoted, hend⟩ := ih fun v hv => h v (List.mem_append_left _ hv)
    have hquote : u ≠ 39 := h u (by simp)
    rw [quoted_append, List.foldl_append, hend]
    refine ⟨⟨hquoted, ?_, trivial⟩, ?_⟩
    · split_ifs <;> simp
    · have hcount : backslashes (t ++ [u]) = if u = 92 then backslashes t + 1 else 0 := by
        rw [backslashes, List.reverse_append, List.reverse_singleton, List.singleton_append]
        by_cases hu : u = 92
        · rw [List.takeWhile_cons_of_pos (by simp [hu]), if_pos hu]
          rfl
        · rw [List.takeWhile_cons_of_neg (by simp [hu]), if_neg hu]
          rfl
      rw [hcount]
      by_cases hu : u = 92
      · subst hu
        rw [if_pos rfl]
        rcases Nat.mod_two_eq_zero_or_one (backslashes t) with heven | hodd
        · rw [if_pos heven, if_neg (by omega)]
          rfl
        · rw [if_neg (by omega), if_pos (by omega)]
          rfl
      · rw [if_neg hu, if_pos rfl]
        split_ifs
        · show (Scan.inside 39).next u = _
          rw [Scan.next, if_neg hu, if_neg hquote]
        · rfl

/-! ## `unquote` -/

/-- What a piece is read as. -/
def readPiece : Piece → JsString
  | .plain u _ _ _ => [u]
  | .escape e => [unescape e.letter]
  | .char c => (if c.digits.length = 4 then 117 else 85) :: c.digits

theorem unquoteFrom_cons_plain {q : UInt16} (hquote : u ≠ q) (hback : u = 92 → q ≠ 34)
    (s : JsString) : unquoteFrom q (u :: s) = u :: unquoteFrom q s := by
  have hescape : ¬ (u = 92 ∧ q = 34) := fun hand => hback hand.1 hand.2
  cases s with
  | nil => simp only [unquoteFrom, if_neg hquote, if_neg hescape]
  | cons next s => rw [unquoteFrom, if_neg hquote, if_neg hescape]

theorem unquoteFrom_plain {q : UInt16} (h : ∀ u ∈ t, u ≠ q ∧ (u = 92 → q ≠ 34)) (s : JsString) :
    unquoteFrom q (t ++ s) = t ++ unquoteFrom q s := by
  induction t with
  | nil => rfl
  | cons u t ih =>
    obtain ⟨hquote, hback⟩ := h u List.mem_cons_self
    rw [List.cons_append, unquoteFrom_cons_plain hquote hback,
      ih fun v hv => h v (List.mem_cons_of_mem u hv)]
    rfl

theorem unquoteFrom_quote (q : UInt16) (s : JsString) : unquoteFrom q (q :: s) = [] := by
  cases s <;> rw [unquoteFrom, if_pos rfl]

theorem unquoteFrom_piece (p : Piece) (s : JsString) :
    unquoteFrom 34 (p.text ++ s) = readPiece p ++ unquoteFrom 34 s := by
  cases p with
  | plain u _ hquote hback =>
    exact unquoteFrom_cons_plain hquote (fun h => absurd h hback) s
  | escape e => rfl
  | char c =>
    have hdigits : ∀ u ∈ c.digits, u ≠ 34 ∧ (u = 92 → (34 : UInt16) ≠ 34) := by
      intro u hu
      have hrange := digit_range_of_areDigits c.areDigits hu
      exact ⟨ne_of_toNat_ne (by simp; omega), fun h => absurd h (ne_of_toNat_ne (by simp; omega))⟩
    have hmark : unescape (if c.digits.length = 4 then 117 else 85) =
        if c.digits.length = 4 then 117 else 85 := by
      split_ifs <;> rfl
    rw [Piece.text, List.cons_append, List.cons_append, unquoteFrom, if_neg (by decide),
      if_pos ⟨rfl, rfl⟩, hmark, unquoteFrom_plain hdigits]
    rfl

theorem unquoteFrom_pieces (ps : List Piece) (s : JsString) :
    unquoteFrom 34 (ps.flatMap Piece.text ++ 34 :: s) = ps.flatMap readPiece := by
  induction ps with
  | nil => exact unquoteFrom_quote 34 s
  | cons p ps ih =>
    rw [List.flatMap_cons, List.append_assoc, unquoteFrom_piece, ih, List.flatMap_cons]

theorem unquoteFrom_literal (l : Literal) (s : JsString) :
    unquoteFrom 39 (l.text ++ 39 :: s) = l.text := by
  have hplain : ∀ u ∈ l.text, u ≠ 39 ∧ (u = 92 → (39 : UInt16) ≠ 34) :=
    fun u hu => ⟨l.unquoted u hu, fun _ => by decide⟩
  rw [unquoteFrom_plain hplain, unquoteFrom_quote, List.append_nil]

end Strings

/-! ## Values -/

/-- The string ends where the scanners think it does. -/
def Literal.Tracked (l : Literal) : Prop :=
  backslashes l.text % 2 = 0

mutual

/-- The value is within a line, and the scanners know where its strings end. -/
def Tracked : Spelled → Prop
  | .basic _ => True
  | .literal l => Literal.Tracked l
  | .integer _ => True
  | .boolean _ => True
  | .array items => AllTracked items

/-- The elements are. -/
def AllTracked : Items → Prop
  | .close gap => gap.Flat
  | .last before v after => before.Flat ∧ Tracked v ∧ after.Flat
  | .more before v after rest => before.Flat ∧ Tracked v ∧ after.Flat ∧ AllTracked rest

end

mutual

/-- What comes out of `parseValue`. -/
def readValue : Spelled → JsValue
  | .basic pieces => .string (pieces.flatMap readPiece)
  | .literal l => .string l.text
  | .integer i => if isInteger i.text = true then .number (toNumber i.text) else .string i.text
  | .boolean b => .bool b
  | .array items => .array (readItems items)

/-- What comes out of the elements. -/
def readItems : Items → List JsValue
  | .close _ => []
  | .last _ v _ => [readValue v]
  | .more _ v _ rest => readValue v :: readItems rest

end

section Values

variable {t : JsString} {m : ℤ} {gap : Gap} {v : Spelled}

theorem isPlain_of_blank {u : UInt16} (h : u = 32 ∨ u = 9) : IsPlain u := by
  rcases h with rfl | rfl
  · decide
  · decide

theorem isSpace_of_blank {u : UInt16} (h : u = 32 ∨ u = 9) : isSpace u = true := by
  rcases h with rfl | rfl
  · decide
  · decide

theorem token_blank (b : Blank) : Token m b.text :=
  token_of_plain fun u hu => isPlain_of_blank (b.blank u hu)

theorem gap_text_of_flat (h : gap.Flat) : gap.text = gap.tail.text := by
  have hbreaks : gap.breaks = [] := h
  rw [Gap.text, hbreaks]
  rfl

theorem token_gap (h : gap.Flat) : Token m gap.text := by
  rw [gap_text_of_flat h]
  exact token_blank gap.tail

/-- A character of a number. -/
def IsNumeral (u : UInt16) : Prop :=
  48 ≤ u.toNat ∧ u.toNat ≤ 57 ∨ 97 ≤ u.toNat ∧ u.toNat ≤ 102 ∨ 65 ≤ u.toNat ∧ u.toNat ≤ 70 ∨
    u = 43 ∨ u = 45 ∨ u = 95 ∨ u = 120 ∨ u = 111

theorem isPlain_of_isNumeral {u : UInt16} (h : IsNumeral u) : IsPlain u := by
  have hne : ∀ k : ℕ, k < 65536 → (k = 34 ∨ k = 39 ∨ k = 35 ∨ k = 91 ∨ k = 93 ∨ k = 44) →
      u ≠ UInt16.ofNat k := by
    rintro k hk hcases rfl
    unfold IsNumeral at h
    rcases hcases with rfl | rfl | rfl | rfl | rfl | rfl <;> revert h <;> decide
  exact ⟨hne 34 (by decide) (by simp), hne 39 (by decide) (by simp), hne 35 (by decide) (by simp),
    hne 91 (by decide) (by simp), hne 93 (by decide) (by simp), hne 44 (by decide) (by simp)⟩

theorem isNumeral_of_mem (i : Integer) : ∀ u ∈ i.text, IsNumeral u := by
  have hdigit : ∀ u ∈ i.first ++ i.more.flatten, IsNumeral u := by
    intro u hu
    have hrange := digit_range_of_areDigits i.areDigits hu
    unfold IsNumeral
    omega
  intro u hu
  rw [Integer.text, List.mem_append, List.mem_append, List.mem_append] at hu
  rcases hu with hsign | hmark | hfirst | hmore
  · cases hs : i.sign <;> rw [hs] at hsign <;> simp [Sign.text] at hsign <;> simp [IsNumeral, hsign]
  · cases hb : i.base <;> rw [hb] at hmark <;> simp [Base.mark] at hmark <;>
      rcases hmark with rfl | rfl <;> simp [IsNumeral]
  · exact hdigit u (List.mem_append_left _ hfirst)
  · obtain ⟨g, hg, hmem⟩ := List.mem_flatMap.mp hmore
    rcases List.mem_cons.mp hmem with rfl | hmem
    · simp [IsNumeral]
    · exact hdigit u (List.mem_append_right _ (List.mem_flatten_of_mem hg hmem))

/-- The spelling of an integer that `parseValue` takes for a number. -/
structure IsPlainInteger (i : Integer) : Prop where
  decimal : i.base = .decimal
  no_plus : i.sign ≠ .plus
  no_groups : i.more = []

theorem unsigned_of_ne (h : t.head? ≠ some 45) : unsigned t = t := by
  unfold unsigned
  split
  · exact absurd rfl h
  · rfl

theorem isDigit_of_areDigits (h : AreDigits 10 t) : ∀ u ∈ t, isDigit u = true := by
  intro u hu
  obtain ⟨v, hv, hlt⟩ := h u hu
  unfold Hex.digit? at hv
  split_ifs at hv with hdigit hlower hupper
  · simpa [isDigit] using hdigit
  · cases hv
    omega
  · cases hv
    omega

theorem head_first (i : Integer) : i.first.head? ≠ some 45 := by
  intro h
  have hmem : (45 : UInt16) ∈ i.first := List.mem_of_mem_head? h
  have hrange := digit_range_of_areDigits i.areDigits (List.mem_append_left _ hmem)
  revert hrange
  decide

/-- The digits of an integer in the plain spelling. -/
theorem text_of_plain {i : Integer} (h : IsPlainInteger i) :
    i.text = i.sign.text ++ i.first ∧ i.magnitude = number 10 i.first ∧
      ∀ u ∈ i.first, isDigit u = true := by
  have hdigits := i.areDigits
  rw [h.decimal, h.no_groups, List.flatten_nil, List.append_nil] at hdigits
  refine ⟨?_, ?_, isDigit_of_areDigits hdigits⟩
  · rw [Integer.text, h.decimal, h.no_groups]
    simp [Base.mark]
  · rw [Integer.magnitude, h.decimal, h.no_groups, List.flatten_nil, List.append_nil]
    rfl

theorem unsigned_text_of_plain {i : Integer} (h : IsPlainInteger i) :
    unsigned i.text = i.first := by
  rw [(text_of_plain h).1]
  cases hs : i.sign with
  | none => exact unsigned_of_ne (head_first i)
  | plus => exact absurd hs h.no_plus
  | minus => rfl

theorem isInteger_iff (i : Integer) : isInteger i.text = true ↔ IsPlainInteger i := by
  constructor
  · intro h
    have hall : ∀ u ∈ unsigned i.text, isDigit u = true := by
      simp only [isInteger, ne_eq, Bool.decide_and, Bool.and_eq_true, decide_eq_true_eq,
        List.all_eq_true] at h
      exact h.2
    have hbase : i.base = .decimal := by
      by_contra hne
      have hsign : i.sign = .none := i.unsigned hne
      rw [Integer.text, hsign] at hall
      cases hb : i.base <;> rw [hb] at hall <;> simp [Sign.text, Base.mark, unsigned, isDigit] at hall
      exact hne hb
    have hmore : i.more = [] := by
      by_contra hne
      obtain ⟨g, more, hcons⟩ := List.exists_cons_of_ne_nil hne
      have hmem : (95 : UInt16) ∈ unsigned i.text := by
        rw [Integer.text, hbase, hcons]
        cases hs : i.sign with
        | none =>
          rw [unsigned_of_ne]
          · simp [Sign.text, Base.mark]
          · rw [Sign.text, Base.mark, List.nil_append, List.nil_append,
              List.head?_append_of_ne_nil _ i.first_ne_nil]
            exact head_first i
        | plus => simp [Sign.text, Base.mark, unsigned]
        | minus => simp [Sign.text, Base.mark, unsigned]
      exact absurd (hall 95 hmem) (by decide)
    refine ⟨hbase, fun hplus => ?_, hmore⟩
    have hmem : (43 : UInt16) ∈ unsigned i.text := by
      rw [Integer.text, hplus]
      simp [Sign.text, unsigned]
    exact absurd (hall 43 hmem) (by decide)
  · intro h
    have hne : i.first ≠ [] := i.first_ne_nil
    simp only [isInteger, unsigned_text_of_plain h, ne_eq, hne, not_false_eq_true, true_and,
      decide_eq_true_eq, List.all_eq_true]
    exact (text_of_plain h).2.2

theorem isFraction_text (i : Integer) : isFraction i.text = false := by
  unfold isFraction
  split
  · rename_i digits heq
    have hmem : (46 : UInt16) ∈ unsigned i.text := by
      refine (List.dropWhile_sublist (l := unsigned i.text) isDigit).subset ?_
      rw [heq]
      exact List.mem_cons_self
    have hdot : (46 : UInt16) ∈ i.text := by
      unfold unsigned at hmem
      split at hmem
      · rename_i htext
        rw [htext]
        exact List.mem_cons_of_mem _ hmem
      · exact hmem
    exact absurd (isNumeral_of_mem i 46 hdot) (by unfold IsNumeral; decide)
  · rfl

theorem parseDigits_eq (h : AreDigits 10 t) : parseDigits t = number 10 t := by
  have hloop : ∀ n, t.foldl (fun n u => 10 * n + (u.toNat - 48)) n =
      t.foldl (fun n u => 10 * n + (Hex.digit? u.toNat).getD 0) n := by
    induction t with
    | nil => exact fun n => rfl
    | cons u t ih =>
      intro n
      have hdigit := isDigit_of_areDigits h u List.mem_cons_self
      simp only [isDigit, decide_eq_true_eq] at hdigit
      have hvalue : Hex.digit? u.toNat = some (u.toNat - 48) := by
        rw [Hex.digit?, if_pos hdigit]
      rw [List.foldl_cons, List.foldl_cons, hvalue, Option.getD_some,
        ih fun v hv => h v (List.mem_cons_of_mem u hv)]
  exact hloop 0

theorem toNumber_of_ne (h : t.head? ≠ some 45) : toNumber t = roundNat (parseDigits t) := by
  unfold toNumber
  split
  · exact absurd rfl h
  · rfl

/-- A number in the plain spelling is the one that is meant, if it is not rounded. -/
theorem toNumber_eq_iff {i : Integer} (h : IsPlainInteger i) :
    toNumber i.text = i.value ↔ roundNat i.magnitude = i.magnitude := by
  obtain ⟨htext, hmagnitude, -⟩ := text_of_plain h
  have hdigits := i.areDigits
  rw [h.decimal, h.no_groups, List.flatten_nil, List.append_nil] at hdigits
  have hparse : parseDigits i.first = i.magnitude := (parseDigits_eq hdigits).trans hmagnitude.symm
  cases hs : i.sign with
  | none =>
    rw [htext, hs, Sign.text, List.nil_append, toNumber_of_ne (head_first i), hparse,
      Integer.value, hs]
    exact Int.ofNat_inj
  | plus => exact absurd hs h.no_plus
  | minus =>
    rw [htext, hs, Integer.value, hs]
    show -((roundNat (parseDigits i.first) : ℕ) : ℤ) = -(i.magnitude : ℤ) ↔ _
    rw [hparse, neg_inj]
    exact Int.ofNat_inj

/-! ## The text of a value -/

/-- The text begins and ends with something to see. -/
structure Visible (t : JsString) : Prop where
  ne_nil : t ≠ []
  head : ∀ u ∈ t.head?, isSpace u = false
  last : ∀ u ∈ t.getLast?, isSpace u = false

theorem visible_of_not_space (hne : t ≠ []) (h : ∀ u ∈ t, isSpace u = false) : Visible t :=
  ⟨hne, fun u hu => h u (List.mem_of_mem_head? hu), fun u hu => h u (List.mem_of_mem_getLast? hu)⟩

theorem visible_between {u w : UInt16} (hu : isSpace u = false) (hw : isSpace w = false) :
    Visible (u :: (t ++ [w])) := by
  refine ⟨List.cons_ne_nil _ _, ?_, ?_⟩
  · intro x hx
    cases hx
    exact hu
  · intro x hx
    rw [← List.cons_append, List.getLast?_append_of_ne_nil _ (List.cons_ne_nil _ _)] at hx
    cases hx
    exact hw

theorem Visible.append {s : JsString} (hs : Visible s) (ht : Visible t) (r : JsString) :
    Visible (s ++ (r ++ t)) := by
  refine ⟨by simp [hs.ne_nil], ?_, ?_⟩
  · rw [List.head?_append_of_ne_nil _ hs.ne_nil]
    exact hs.head
  · rw [← List.append_assoc, List.getLast?_append_of_ne_nil _ ht.ne_nil]
    exact ht.last

theorem isSpace_of_isNumeral {u : UInt16} (h : IsNumeral u) : isSpace u = false := by
  unfold IsNumeral at h
  simp only [isSpace, decide_eq_false_iff_not, List.mem_cons, List.not_mem_nil, or_false]
  rcases h with h | h | h | rfl | rfl | rfl | rfl | rfl
  all_goals first | omega | decide

theorem integer_text_ne_nil (i : Integer) : i.text ≠ [] := by
  intro h
  rw [Integer.text, List.append_eq_nil_iff, List.append_eq_nil_iff, List.append_eq_nil_iff] at h
  exact i.first_ne_nil h.2.2.1

theorem visible_text (v : Spelled) : Visible v.text := by
  cases v with
  | basic pieces => exact visible_between (by decide) (by decide)
  | literal l => exact visible_between (by decide) (by decide)
  | integer i =>
    exact visible_of_not_space (integer_text_ne_nil i) fun u hu =>
      isSpace_of_isNumeral (isNumeral_of_mem i u hu)
  | boolean b =>
    cases b <;> exact visible_of_not_space (by decide) (List.forall_iff_forall_mem.mp (by decide))
  | array items => exact visible_between (by decide) (by decide)

theorem rdropWhile_append {p : UInt16 → Bool} {after : JsString} (h : ∀ u ∈ after, p u = true) :
    (t ++ after).rdropWhile p = t.rdropWhile p := by
  rw [List.rdropWhile, List.rdropWhile, List.reverse_append, List.dropWhile_append_of_pos]
  exact fun u hu => h u (List.mem_reverse.mp hu)

/-- What is blank around a text that can be seen is trimmed. -/
theorem trim_between {before after : JsString} (hbefore : ∀ u ∈ before, isSpace u = true)
    (ht : Visible t) (hafter : ∀ u ∈ after, isSpace u = true) : trim (before ++ t ++ after) = t := by
  have hfront : (before ++ t ++ after).dropWhile isSpace = t ++ after := by
    rw [List.append_assoc, List.dropWhile_append_of_pos hbefore]
    obtain ⟨u, t, rfl⟩ := List.exists_cons_of_ne_nil ht.ne_nil
    rw [List.cons_append, List.dropWhile_cons_of_neg]
    simp [ht.head u rfl]
  rw [trim, hfront, rdropWhile_append hafter, List.rdropWhile_eq_self_iff]
  intro hne
  simp [ht.last _ (List.getLast?_eq_some_getLast hne)]

theorem trim_visible (ht : Visible t) : trim t = t := by
  have h : trim ([] ++ t ++ []) = t := trim_between (by simp) ht (by simp)
  rwa [List.nil_append, List.append_nil] at h

/-- Nothing of a text that can be seen is trimmed, whatever comes behind it. -/
theorem exists_trim {before : JsString} (hbefore : ∀ u ∈ before, isSpace u = true)
    (ht : Visible t) (r : JsString) : ∃ r', trim (before ++ (t ++ r)) = t ++ r' := by
  have hfront : (before ++ (t ++ r)).dropWhile isSpace = t ++ r := by
    rw [List.dropWhile_append_of_pos hbefore]
    obtain ⟨u, t, rfl⟩ := List.exists_cons_of_ne_nil ht.ne_nil
    rw [List.cons_append, List.dropWhile_cons_of_neg]
    simp [ht.head u rfl]
  have hback : t.rdropWhile isSpace = t := by
    rw [List.rdropWhile_eq_self_iff]
    intro hne
    simp [ht.last _ (List.getLast?_eq_some_getLast hne)]
  rw [trim, hfront, List.rdropWhile, List.reverse_append, List.dropWhile_append]
  split_ifs
  · exact ⟨[], by rw [List.append_nil]; exact hback⟩
  · exact ⟨r.rdropWhile isSpace, by rw [List.reverse_append, List.reverse_reverse]; rfl⟩

theorem trim_space {after : JsString} (h : ∀ u ∈ after, isSpace u = true) : trim after = [] := by
  have hfront : after.dropWhile isSpace = [] := List.dropWhile_eq_nil_iff.mpr h
  rw [trim, hfront]
  rfl

theorem gap_space (h : gap.Flat) : ∀ u ∈ gap.text, isSpace u = true := by
  rw [gap_text_of_flat h]
  exact fun u hu => isSpace_of_blank (gap.tail.blank u hu)

theorem bracketed_text (t : JsString) : bracketed (91 :: (t ++ [93])) = t := by
  have hmem : (93 : UInt16) ∈ 91 :: (t ++ [93]) := by simp
  rw [bracketed, if_pos hmem, ← List.cons_append, List.rdropWhile_concat_neg _ _ _ (by decide),
    List.dropLast_concat]
  rfl

mutual

/-- The scanners pass over a value. -/
theorem token_text : ∀ {v : Spelled}, Tracked v → Token 0 v.text
  | .basic pieces, _ =>
    token_string (Or.inl rfl) (quoted_pieces pieces).1 (quoted_pieces pieces).2
  | .literal l, h => by
    obtain ⟨hquoted, hend⟩ := quoted_literal l.unquoted
    have heven : backslashes l.text % 2 = 0 := h
    rw [if_pos heven] at hend
    exact token_string (Or.inr rfl) hquoted hend
  | .integer i, _ => token_of_plain fun u hu => isPlain_of_isNumeral (isNumeral_of_mem i u hu)
  | .boolean true, _ => token_of_plain (List.forall_iff_forall_mem.mp (by decide))
  | .boolean false, _ => token_of_plain (List.forall_iff_forall_mem.mp (by decide))
  | .array _, h => token_brackets (token_items h)

/-- Within the brackets the commas do not matter. -/
theorem token_items : ∀ {items : Items}, AllTracked items → Token 1 items.text
  | .close _, h => token_gap h
  | .last _ _ _, h =>
    ((token_gap h.1).append ((token_text h.2.1).mono (by decide))).append (token_gap h.2.2)
  | .more _ _ _ _, h =>
    (((token_gap h.1).append ((token_text h.2.1).mono (by decide))).append
      (token_gap h.2.2.1)).append (token_comma.append (token_items h.2.2.2))

end

/-- The parts between the commas. -/
def parts : Items → List JsString
  | .close gap => [gap.text]
  | .last before v after => [before.text ++ v.text ++ after.text]
  | .more before v after rest => (before.text ++ v.text ++ after.text) :: parts rest

theorem token_item {before after : Gap} (hbefore : before.Flat) (hv : Tracked v)
    (hafter : after.Flat) : Token 0 (before.text ++ v.text ++ after.text) :=
  ((token_gap hbefore).append (token_text hv)).append (token_gap hafter)

/-- **A list is split at its commas**, and at no other. -/
theorem splitTopLevel_text : ∀ {items : Items}, AllTracked items →
    splitTopLevel items.text = parts items
  | .close gap, h => by
    have hsplit := (token_gap (m := 0) h).split 0 [] le_rfl
    rw [List.append_nil] at hsplit
    rw [splitTopLevel, Items.text, hsplit, splitFrom, pushAll_cons_cons, List.append_nil, parts]
  | .last before v after, h => by
    have hsplit := (token_item h.1 h.2.1 h.2.2).split 0 [] le_rfl
    rw [List.append_nil] at hsplit
    rw [splitTopLevel, Items.text, hsplit, splitFrom, pushAll_cons_cons, List.append_nil, parts]
  | .more before v after rest, h => by
    have hrest := splitTopLevel_text h.2.2.2
    rw [splitTopLevel] at hrest
    rw [splitTopLevel, Items.text, (token_item h.1 h.2.1 h.2.2.1).split 0 _ le_rfl, splitFrom,
      if_pos ⟨rfl, rfl, rfl⟩, hrest, pushAll_cons_cons, List.append_nil, parts]

theorem trim_item {before after : Gap} (hbefore : before.Flat) (hafter : after.Flat) :
    trim (before.text ++ v.text ++ after.text) = v.text :=
  trim_between (gap_space hbefore) (visible_text v) (gap_space hafter)

theorem filter_visible (v : Spelled) (ts : List JsString) :
    (v.text :: ts).filter (· ≠ []) = v.text :: ts.filter (· ≠ []) :=
  List.filter_cons_of_pos (decide_eq_true (visible_text v).ne_nil)

variable {fraction : JsString → JsValue} {depth : ℕ}

theorem valueTo_string {q : UInt16} {s : JsString} (hq : q = 34 ∨ q = 39) :
    valueTo fraction (depth + 1) (q :: s) = .string (unquoteFrom q s) := by
  have hbracket : ¬ (q :: s).head? = some 91 := by
    rcases hq with rfl | rfl <;> simp
  have hquote : (q :: s).head? = some 34 ∨ (q :: s).head? = some 39 := by
    rcases hq with rfl | rfl <;> simp
  rw [valueTo, if_neg hbracket, if_pos hquote]
  rfl

theorem valueTo_integer (i : Integer) :
    valueTo fraction (depth + 1) i.text = readValue (.integer i) := by
  have hmem : ∀ u, ¬ IsNumeral u → u ∉ i.text := fun u hu h => hu (isNumeral_of_mem i u h)
  have hhead : ∀ u, ¬ IsNumeral u → i.text.head? ≠ some u :=
    fun u hu h => hmem u hu (List.mem_of_mem_head? h)
  have hword : ∀ s : JsString, (∃ u ∈ s, ¬ IsNumeral u) → i.text ≠ s := by
    rintro s ⟨u, hu, hnot⟩ rfl
    exact hmem u hnot hu
  rw [valueTo, if_neg (hhead 91 (by unfold IsNumeral; decide)), if_neg,
    if_neg (hword _ ⟨116, by decide, by unfold IsNumeral; decide⟩),
    if_neg (hword _ ⟨108, by decide, by unfold IsNumeral; decide⟩), isFraction_text]
  · rfl
  · rintro (h | h)
    · exact hhead 34 (by unfold IsNumeral; decide) h
    · exact hhead 39 (by unfold IsNumeral; decide) h

mutual

/-- **A value is read part by part.** -/
theorem valueTo_text : ∀ {v : Spelled} {depth : ℕ}, Tracked v → v.text.length ≤ depth →
    valueTo fraction (depth + 1) v.text = readValue v
  | .basic pieces, _, _, _ => by
    rw [Spelled.text, valueTo_string (Or.inl rfl), unquoteFrom_pieces, readValue]
  | .literal l, _, _, _ => by
    rw [Spelled.text, valueTo_string (Or.inr rfl), unquoteFrom_literal, readValue]
  | .integer i, _, _, _ => valueTo_integer i
  | .boolean true, _, _, _ => rfl
  | .boolean false, _, _, _ => rfl
  | .array items, depth, h, hdepth => by
    have hlen : items.text.length + 2 ≤ depth := by
      rw [Spelled.text, List.length_cons, List.length_append] at hdepth
      exact hdepth
    obtain ⟨depth, rfl⟩ : ∃ d, depth = d + 1 := ⟨depth - 1, by omega⟩
    rw [Spelled.text, valueTo, if_pos List.head?_cons, bracketed_text, splitTopLevel_text h,
      valueTo_parts h (by omega), readValue]

/-- The parts that are not blank are the elements. -/
theorem valueTo_parts : ∀ {items : Items} {depth : ℕ}, AllTracked items →
    items.text.length ≤ depth →
    (((parts items).map trim).filter (· ≠ [])).map (valueTo fraction (depth + 1)) =
      readItems items
  | .close gap, _, h, _ => by
    rw [parts, List.map_singleton, trim_space (gap_space h), readItems]
    rfl
  | .last before v after, _, h, hdepth => by
    rw [Items.text, List.length_append, List.length_append] at hdepth
    rw [parts, List.map_singleton, trim_item h.1 h.2.2, filter_visible,
      List.filter_nil, List.map_singleton, valueTo_text h.2.1 (by omega), readItems]
  | .more before v after rest, _, h, hdepth => by
    rw [Items.text, List.length_append, List.length_append, List.length_append,
      List.length_cons] at hdepth
    rw [parts, List.map_cons, trim_item h.1 h.2.2.1, filter_visible,
      List.map_cons, valueTo_text h.2.1 (by omega), valueTo_parts h.2.2.2 (by omega), readItems]

end

end Values

/-! ## What is meant -/

mutual

/-- A value in the browser. -/
def meant : Value → JsValue
  | .string s => .string s
  | .integer n => .number n
  | .boolean b => .bool b
  | .array vs => .array (allMeant vs)

def allMeant : List Value → List JsValue
  | [] => []
  | v :: vs => meant v :: allMeant vs

end

/-- The escapes that `unquote` knows. -/
def ExactPiece : Piece → Prop
  | .plain _ _ _ _ => True
  | .escape e => e ≠ .backspace ∧ e ≠ .formFeed
  | .char _ => False

mutual

/-- The spellings that `parseValue` knows: no escapes but `\n`, `\t`, `\r`, `\"` and `\\`, and only
integers in plain decimal digits that are not rounded. -/
def Exact : Spelled → Prop
  | .basic pieces => ∀ p ∈ pieces, ExactPiece p
  | .literal _ => True
  | .integer i => IsPlainInteger i ∧ roundNat i.magnitude = i.magnitude
  | .boolean _ => True
  | .array items => AllExact items

/-- The elements are. -/
def AllExact : Items → Prop
  | .close _ => True
  | .last _ v _ => Exact v
  | .more _ v _ rest => Exact v ∧ AllExact rest

end

theorem length_encodeChar_le (c : Char) : (Utf16.encode [c]).length ≤ 2 := by
  rw [Utf16.encode_cons, Utf16.encode, List.flatMap_nil, List.append_nil, Utf16.encodeChar]
  split_ifs <;> simp

/-- What is read for a piece is at least as long as what is meant. -/
theorem length_value_le (ps : List Piece) :
    (ps.flatMap Piece.value).length ≤ (ps.flatMap readPiece).length := by
  induction ps with
  | nil => exact le_rfl
  | cons p ps ih =>
    have hp : p.value.length ≤ (readPiece p).length := by
      cases p with
      | plain u _ _ _ => exact le_rfl
      | escape e => exact le_rfl
      | char c =>
        refine (length_encodeChar_le c.char).trans ?_
        rw [readPiece, List.length_cons]
        have hlength := c.length
        omega
    rw [List.flatMap_cons, List.flatMap_cons, List.length_append, List.length_append]
    omega

theorem readPieces_eq_iff (ps : List Piece) :
    ps.flatMap readPiece = ps.flatMap Piece.value ↔ ∀ p ∈ ps, ExactPiece p := by
  induction ps with
  | nil => simp
  | cons p ps ih =>
    rw [List.flatMap_cons, List.flatMap_cons, List.forall_mem_cons, ← ih]
    cases p with
    | plain u _ _ _ => simp [readPiece, Piece.value, ExactPiece]
    | escape e => cases e <;> simp [readPiece, Piece.value, ExactPiece, Escape.letter, Escape.char,
        unescape]
    | char c =>
      -- the number of the character is longer than the character
      refine iff_of_false (fun h => ?_) (fun h => h.1)
      have hlen := congrArg List.length h
      have hrest := length_value_le ps
      have hchar : (Piece.char c).value.length ≤ 2 := length_encodeChar_le c.char
      have hlength := c.length
      rw [List.length_append, List.length_append, readPiece, List.length_cons] at hlen
      omega

mutual

/-- **Only what is spelled in one of these ways is read as it is meant.** -/
theorem readValue_eq_iff : ∀ v : Spelled, readValue v = meant v.value ↔ Exact v
  | .basic pieces => by
    rw [readValue, Spelled.value, meant, JsValue.string.injEq, readPieces_eq_iff, Exact]
  | .literal l => iff_of_true rfl trivial
  | .integer i => by
    rw [readValue, Spelled.value, meant, Exact]
    by_cases hplain : IsPlainInteger i
    · rw [if_pos ((isInteger_iff i).mpr hplain), JsValue.number.injEq, toNumber_eq_iff hplain]
      exact (and_iff_right hplain).symm
    · rw [if_neg fun h => hplain ((isInteger_iff i).mp h)]
      exact iff_of_false (by simp) fun h => hplain h.1
  | .boolean b => iff_of_true rfl trivial
  | .array items => by
    rw [readValue, Spelled.value, meant, JsValue.array.injEq, readItems_eq_iff, Exact]

theorem readItems_eq_iff : ∀ items : Items,
    readItems items = allMeant items.values ↔ AllExact items
  | .close _ => iff_of_true rfl trivial
  | .last _ v _ => by
    rw [readItems, Items.values, allMeant, allMeant, List.cons.injEq, readValue_eq_iff,
      and_iff_left rfl, AllExact]
  | .more _ v _ rest => by
    rw [readItems, Items.values, allMeant, List.cons.injEq, readValue_eq_iff, readItems_eq_iff,
      AllExact]

end

end Toml
end Gate
end Sorofy
