import Sorofy.Api.Attest
import Sorofy.Foundation.Words

/-!
# What the command printed is scrubbed

`redact` takes whatever has the shape of a secret key out of what the `stellar` command printed,
before any of it reaches the log or the database.

It looks at the words of the text, that is at what stands between characters other than letters and
digits.  A key is blanked where it is such a word, and is left where a letter or a digit stands next
to it, as behind the `m` that ends a colour code (`redact_clean_iff`).  What is made of the scrubbed
text is as clean as the text is (`clean_of_submit`).
-/

namespace Sorofy
namespace Api

open Foundation VerifierCore
open Words

/-- The list has the shape of a secret key. -/
def Secret (k : List Char) : Prop :=
  isSecret k = true

/-- Nothing in the text has the shape of a secret key. -/
def Clean (text : String) : Prop :=
  ¬ Occurs Secret text.toList

/-- What cannot be in a word. -/
def isSeparator (c : Char) : Bool :=
  !isAlphanumeric c

/-- What a secret is replaced by. -/
def marker : List Char :=
  "S…redacted".toList

/-- What becomes of a word. -/
def redactWord (word : List Char) : List Char :=
  if isSecret word = true then marker else word

/-! ## The shape -/

section Shape

variable {k text : List Char}

theorem Secret.length (h : Secret k) : k.length = 56 := by
  simp only [Secret, isSecret, decide_eq_true_eq] at h
  exact h.1

theorem Secret.head (h : Secret k) : 'S' ∈ k := by
  simp only [Secret, isSecret, decide_eq_true_eq] at h
  exact List.mem_of_head? h.2.1

theorem isAlphanumeric_of_base32 {c : Char} (h : (c.isUpper || ('2' ≤ c && c ≤ '7')) = true) :
    isAlphanumeric c = true := by
  rw [isAlphanumeric, Char.isAlphanum, Bool.or_eq_true]
  rcases Bool.or_eq_true _ _ ▸ h with hupper | hdigit
  · have halpha : c.isAlpha = true := (Bool.or_eq_true c.isUpper c.isLower).mpr (Or.inl hupper)
    exact Or.inl halpha
  · simp only [Bool.and_eq_true, decide_eq_true_eq] at hdigit
    have hlow : '0' ≤ c := Char.le_trans (show '0' ≤ '2' by decide) hdigit.1
    have hhigh : c ≤ '9' := Char.le_trans hdigit.2 (show '7' ≤ '9' by decide)
    exact Or.inr (by simpa [Char.isDigit] using ⟨hlow, hhigh⟩)

/-- A secret is one word. -/
theorem Secret.isWord (h : Secret k) : IsWord isSeparator k := by
  simp only [Secret, isSecret, decide_eq_true_eq] at h
  obtain ⟨-, hhead, htail⟩ := h
  cases k with
  | nil => cases hhead
  | cons c k =>
    intro a ha
    rw [isSeparator, Bool.not_eq_false']
    rcases List.mem_cons.1 ha with rfl | ha
    · cases hhead
      decide
    · exact isAlphanumeric_of_base32 (List.all_eq_true.1 htail a ha)

/-- What is too short holds no secret. -/
theorem not_occurs_of_length (h : text.length < 56) : ¬ Occurs Secret text := by
  rintro ⟨k, hk, hinside⟩
  have hle := hinside.length_le
  rw [hk.length] at hle
  omega

/-- Nor does what is without an `S`. -/
theorem not_occurs_of_not_mem (h : 'S' ∉ text) : ¬ Occurs Secret text := by
  rintro ⟨k, hk, hinside⟩
  exact h (hinside.subset hk.head)

theorem not_occurs_of_infix {text' : List Char} (h : ¬ Occurs Secret text)
    (hinside : text' <:+: text) : ¬ Occurs Secret text' := by
  rintro ⟨k, hk, hk'⟩
  exact h ⟨k, hk, hk'.trans hinside⟩

end Shape

/-! ## Word by word -/

section Pieces

variable {w rest : List Char} {c : Char}

theorem splitInclusive_word (hw : IsWord isSeparator w) (hne : w ≠ []) :
    splitInclusive isSeparator w = [w] := by
  induction w with
  | nil => exact absurd rfl hne
  | cons a w ih =>
    have ha : ¬ isSeparator a = true := by simp [hw a List.mem_cons_self]
    rw [splitInclusive, if_neg ha]
    cases w with
    | nil => rfl
    | cons b w =>
      rw [ih (fun x hx => hw x (List.mem_cons_of_mem a hx)) (List.cons_ne_nil b w)]

/-- A piece ends with the first separator. -/
theorem splitInclusive_append_cons (hw : IsWord isSeparator w) (hc : isSeparator c = true) :
    splitInclusive isSeparator (w ++ c :: rest) =
      (w ++ [c]) :: splitInclusive isSeparator rest := by
  induction w with
  | nil => rw [List.nil_append, splitInclusive, if_pos hc, List.nil_append]
  | cons a w ih =>
    have ha : ¬ isSeparator a = true := by simp [hw a List.mem_cons_self]
    rw [List.cons_append, splitInclusive, if_neg ha,
      ih fun x hx => hw x (List.mem_cons_of_mem a hx), List.cons_append]

theorem takeWhile_word (hw : IsWord isSeparator w) : w.takeWhile isAlphanumeric = w := by
  rw [List.takeWhile_eq_self_iff]
  exact fun a ha => by simpa [isSeparator] using hw a ha

theorem redactPiece_word (hw : IsWord isSeparator w) : redactPiece w = redactWord w := by
  have hdrop : w.dropWhile isAlphanumeric = [] := by
    rw [List.dropWhile_eq_nil_iff]
    exact fun a ha => by simpa [isSeparator] using hw a ha
  simp only [redactPiece, takeWhile_word hw, hdrop, List.append_nil]
  rfl

theorem redactPiece_append (hw : IsWord isSeparator w) (hc : isSeparator c = true) :
    redactPiece (w ++ [c]) = redactWord w ++ [c] := by
  have hall : ∀ a ∈ w, isAlphanumeric a = true :=
    fun a ha => by simpa [isSeparator] using hw a ha
  have hnot : ¬ isAlphanumeric c = true := by simpa [isSeparator] using hc
  have htake : (w ++ [c]).takeWhile isAlphanumeric = w := by
    rw [List.takeWhile_append_of_pos hall, List.takeWhile_cons_of_neg hnot, List.append_nil]
  have hdrop : (w ++ [c]).dropWhile isAlphanumeric = [c] := by
    rw [List.dropWhile_append_of_pos hall, List.dropWhile_cons_of_neg hnot]
  simp only [redactPiece, htake, hdrop, redactWord]
  split_ifs <;> rfl

/-- `redact`, on the characters of the text. -/
def redactChars (text : List Char) : List Char :=
  (splitInclusive isSeparator text).flatMap redactPiece

theorem toList_redact (text : String) : (redact text).toList = redactChars text.toList := by
  rw [redact, String.toList_ofList]
  rfl

/-- **Redaction replaces words.** -/
theorem wordByWord_redactChars : WordByWord isSeparator redactWord redactChars where
  word w hw := by
    by_cases hne : w = []
    · rw [hne]
      decide
    · rw [redactChars, splitInclusive_word hw hne, List.flatMap_singleton, redactPiece_word hw]
  append_cons w c rest hw hc := by
    rw [redactChars, splitInclusive_append_cons hw hc, List.flatMap_cons,
      redactPiece_append hw hc, List.append_assoc, List.singleton_append]
    rfl

end Pieces

/-- No letter or digit stands next to what has the shape of a secret key. -/
def StandsAlone (text : String) : Prop :=
  Delimited isSeparator Secret text.toList

theorem clean_redact_iff (text : String) : Clean (redact text) ↔ StandsAlone text := by
  rw [Clean, toList_redact]
  exact not_occurs_iff (fun k hk => hk.length) (fun k hk => hk.isWord)
    (not_occurs_of_length (show marker.length < 56 by decide)) (fun w hw => if_pos hw)
    (fun w hw => if_neg hw) wordByWord_redactChars text.toList

/-! ## What is made of it -/

/-- What a submission leaves for the log and the database. -/
def recordedTexts : Except SubmitError (Option String) → List String
  | .ok txHash => txHash.toList
  | .error (.permanent why) => [why]
  | .error (.transient why) => [why]

section Submissions

variable {stderr : String} {line : List Char}

/-- A line of a text is a part of it. -/
theorem infix_of_mem_splitOn {text : List Char} (h : line ∈ text.splitOn '\n') :
    line <:+: text := by
  induction text using induction_words (· == '\n') with
  | word w hw =>
    have hnot : '\n' ∉ w := fun hmem => by simpa using hw '\n' hmem
    rw [List.splitOn_eq_singleton hnot, List.mem_singleton] at h
    exact h ▸ List.infix_refl _
  | append_cons w c rest hw hc ih =>
    have hnot : '\n' ∉ w := fun hmem => by simpa using hw '\n' hmem
    obtain rfl : c = '\n' := by simpa using hc
    rw [List.splitOn_append_cons_self_of_not_mem hnot, List.mem_cons] at h
    rcases h with rfl | h
    · exact (List.prefix_append line _).isInfix
    · exact (ih h).trans ((List.suffix_cons _ rest).trans (List.suffix_append w _)).isInfix

theorem trim_inside : trim line <:+: line := by
  have hleft : (line.dropWhile fun c => isWhitespace c) <:+: line :=
    (List.dropWhile_suffix _).isInfix
  refine List.IsInfix.trans ?_ hleft
  rw [trim, ← List.reverse_infix, List.reverse_reverse]
  exact (List.dropWhile_suffix _).isInfix

theorem clean_lastMeaningfulLine (h : Clean stderr) : Clean (lastMeaningfulLine stderr) := by
  rw [Clean, lastMeaningfulLine, String.toList_ofList]
  cases hfind : ((stderr.toList.splitOn '\n').reverse.map trim).find? (· ≠ []) with
  | none =>
    rw [Option.getD_none]
    exact not_occurs_of_length (by decide +kernel)
  | some line =>
    rw [Option.getD_some]
    obtain ⟨whole, hwhole, rfl⟩ := List.mem_map.1 (List.mem_of_find?_eq_some hfind)
    have hpart : (trim whole).take 500 <:+: stderr.toList :=
      (List.take_prefix 500 _).isInfix.trans
        (trim_inside.trans (infix_of_mem_splitOn (List.mem_reverse.1 hwhole)))
    exact not_occurs_of_infix h hpart

/-- A transaction is named in hexadecimal. -/
theorem clean_transactionHash {txHash : String} (h : transactionHash stderr = some txHash) :
    Clean txHash := by
  obtain ⟨marker, -, htoken⟩ := List.exists_of_findSome?_eq_some h
  simp only [tokenAfter, Option.bind_eq_bind, Option.bind_eq_some_iff] at htoken
  obtain ⟨rest, -, htoken⟩ := htoken
  split_ifs at htoken with hhex
  cases htoken
  rw [Clean, String.toList_ofList]
  refine not_occurs_of_not_mem fun hmem => ?_
  exact absurd (List.all_eq_true.1 hhex.2 'S' hmem) (by decide)

/-- What a refusal is recorded as names no more than an error number. -/
theorem clean_classify (h : Clean stderr) :
    ∀ s ∈ recordedTexts (.error (classify stderr)), Clean s := by
  intro s hs
  unfold classify at hs
  split at hs
  · rw [List.mem_singleton.1 hs]
    exact not_occurs_of_not_mem (by decide +kernel)
  · rw [List.mem_singleton.1 hs]
    exact not_occurs_of_not_mem (by decide +kernel)
  · rw [List.mem_singleton.1 hs]
    exact not_occurs_of_not_mem (by decide +kernel)
  · rename_i code _ _ _ _
    rw [List.mem_singleton.1 hs]
    refine not_occurs_of_not_mem ?_
    have hdigits : 'S' ∉ (toString code).toList := by
      intro hmem
      rw [Nat.toString_eq_ofList_toDigits, String.toList_ofList] at hmem
      exact absurd (Nat.isDigit_of_mem_toDigits (by decide) (by decide) hmem) (by decide)
    simp only [String.toList_append, List.mem_append, not_or]
    exact ⟨⟨by decide +kernel, hdigits⟩, by decide +kernel⟩
  · rw [List.mem_singleton.1 hs]
    exact clean_lastMeaningfulLine h

/-- **What is recorded about a submission is clean** where the scrubbed text is. -/
theorem clean_of_submit {cli : String} {success : Bool} (h : Clean (redact stderr)) :
    ∀ s ∈ recordedTexts (submit cli (.exited success stderr)), Clean s := by
  unfold submit
  cases success with
  | true =>
    intro s hs
    exact clean_transactionHash (Option.mem_toList.1 hs)
  | false => exact clean_classify h

end Submissions

/-- **Nothing of the shape of a secret key is left by redaction exactly when every such thing stands
alone**, and then nothing of the kind is recorded about the submission either. -/
theorem redacts_iff (text : String) :
    (Clean (redact text) ↔ StandsAlone text) ∧
      (StandsAlone text → ∀ cli success,
        ∀ s ∈ recordedTexts (submit cli (.exited success text)), Clean s) := by
  have hclean : Clean (redact text) ↔ StandsAlone text := clean_redact_iff text
  exact ⟨hclean, fun halone cli success => clean_of_submit (hclean.2 halone)⟩

/-! ## A key behind a colour code -/

namespace Sample

/-- A key. -/
def secretKey : String :=
  "SCJKQJ2LKMXGPGYHWFPQ5ZLQXGXGKQZ4NHLMQ7NPTTJMHVVQWZ5BFN2X"

/-- The key in bold, as a terminal shows it. -/
def boldKey : String :=
  "error: could not use \x1b[1m" ++ secretKey ++ "\x1b[0m as a source"

/-- The colour code ends with a letter, and the key is left. -/
theorem bold_key_left : redact boldKey = boldKey ∧ ¬ Clean (redact boldKey) := by
  have hsame : redactChars boldKey.toList = boldKey.toList := by decide +kernel
  have hsecret : isSecret secretKey.toList = true := by decide +kernel
  have hleft : secretKey.toList <:+: boldKey.toList := by decide +kernel
  have hredact : redact boldKey = boldKey :=
    String.toList_inj.1 ((toList_redact boldKey).trans hsame)
  refine ⟨hredact, fun hclean => ?_⟩
  rw [hredact] at hclean
  exact hclean ⟨secretKey.toList, hsecret, hleft⟩

end Sample

end Api
end Sorofy
