import Mathlib.Algebra.Order.Ring.Int
import Sorofy.Foundation.Hex
import Sorofy.Foundation.Keyed
import Sorofy.Foundation.Text

/-!
# TOML

Documents of keys with strings, integers, booleans and arrays of these, with tables and arrays of
tables: how they can be written, and what they mean.  A text is a list of UTF-16 code units.

What is written is a syntax tree with all that a writer has a choice about, so that every text of
a document is `Document.text` of one tree.  A value has a meaning by itself (`Spelled.value`); a
document has one by the statements, each of which goes on from the fields that the ones before it
have defined (`Document.eval`), and has none where a key is defined twice.
-/

namespace Foundation
namespace Toml

/-- A text: its code units. -/
abbrev Text := List UInt16

/-! ## How a value is written -/

/-- No control character, but for the tab. -/
def IsPrintable (u : UInt16) : Prop :=
  u = 9 ∨ 32 ≤ u.toNat ∧ u ≠ 127

instance : DecidablePred IsPrintable := fun u => by
  unfold IsPrintable
  infer_instance

/-- A character of a bare key. -/
def isBare (u : UInt16) : Bool :=
  48 ≤ u.toNat ∧ u.toNat ≤ 57 ∨ 65 ≤ u.toNat ∧ u.toNat ≤ 90 ∨ 97 ≤ u.toNat ∧ u.toNat ≤ 122 ∨
    u = 95 ∨ u = 45

/-- Spaces and tabs. -/
structure Blank where
  text : Text
  blank : ∀ u ∈ text, u = 32 ∨ u = 9

/-- What stands behind a `#`. -/
structure Comment where
  text : Text
  printable : ∀ u ∈ text, IsPrintable u

inductive Newline where
  | lf
  | crlf

def Newline.text : Newline → Text
  | lf => [10]
  | crlf => [13, 10]

/-- What may stand between the elements of an array: blanks, and ends of lines with comments. -/
structure Gap where
  breaks : List (Blank × Option Comment × Newline)
  tail : Blank

/-- A comment with its `#`, if there is one. -/
def commentText (comment : Option Comment) : Text :=
  match comment with
  | some comment => 35 :: comment.text
  | none => []

def Gap.text (gap : Gap) : Text :=
  (gap.breaks.flatMap fun line => line.1.text ++ commentText line.2.1 ++ line.2.2.text) ++
    gap.tail.text

/-- The gap is within a line. -/
def Gap.Flat (gap : Gap) : Prop :=
  gap.breaks = []

/-- What may follow a backslash, but for the numbers of characters. -/
inductive Escape where
  | backspace
  | tab
  | newline
  | formFeed
  | carriageReturn
  | quote
  | backslash
  deriving DecidableEq

namespace Escape

/-- The letter that is written. -/
def letter : Escape → UInt16
  | backspace => 98
  | tab => 116
  | newline => 110
  | formFeed => 102
  | carriageReturn => 114
  | quote => 34
  | backslash => 92

/-- The character that is meant. -/
def char : Escape → UInt16
  | backspace => 8
  | tab => 9
  | newline => 10
  | formFeed => 12
  | carriageReturn => 13
  | quote => 34
  | backslash => 92

end Escape

/-- The number that digits stand for. -/
def number (radix : ℕ) (digits : Text) : ℕ :=
  digits.foldl (fun n u => radix * n + (Hex.digit? u.toNat).getD 0) 0

/-- All are digits. -/
def AreDigits (radix : ℕ) (digits : Text) : Prop :=
  ∀ u ∈ digits, ∃ v, Hex.digit? u.toNat = some v ∧ v < radix

/-- The number of a character in four or eight hexadecimal digits. -/
structure CharNumber where
  digits : Text
  char : Char
  length : digits.length = 4 ∨ digits.length = 8
  areDigits : AreDigits 16 digits
  number_eq : number 16 digits = char.toNat

/-- A piece of a string in double quotes. -/
inductive Piece where
  | plain (u : UInt16) (hprintable : IsPrintable u) (hquote : u ≠ 34) (hbackslash : u ≠ 92)
  | escape (e : Escape)
  | char (c : CharNumber)

namespace Piece

def text : Piece → Text
  | plain u _ _ _ => [u]
  | escape e => [92, e.letter]
  | char c => 92 :: (if c.digits.length = 4 then 117 else 85) :: c.digits

def value : Piece → Text
  | plain u _ _ _ => [u]
  | escape e => [e.char]
  | char c => Utf16.encode [c.char]

end Piece

/-- The inside of a string in single quotes, where no character has a special meaning. -/
structure Literal where
  text : Text
  printable : ∀ u ∈ text, IsPrintable u
  unquoted : ∀ u ∈ text, u ≠ 39

inductive Sign where
  | none
  | plus
  | minus
  deriving DecidableEq

def Sign.text : Sign → Text
  | none => []
  | plus => [43]
  | minus => [45]

inductive Base where
  | decimal
  | hex
  | octal
  | binary
  deriving DecidableEq

def Base.radix : Base → ℕ
  | decimal => 10
  | hex => 16
  | octal => 8
  | binary => 2

/-- What is written in front of the digits. -/
def Base.mark : Base → Text
  | decimal => []
  | hex => [48, 120]
  | octal => [48, 111]
  | binary => [48, 98]

/-- A 64-bit integer, its digits in groups with an underscore between them. -/
structure Integer where
  sign : Sign
  base : Base
  first : Text
  more : List Text
  first_ne_nil : first ≠ []
  more_ne_nil : ∀ g ∈ more, g ≠ []
  areDigits : AreDigits base.radix (first ++ more.flatten)
  unsigned : base ≠ .decimal → sign = .none
  no_zeros : base = .decimal →
    first ++ more.flatten = [48] ∨ (first ++ more.flatten).head? ≠ some 48
  fits : number base.radix (first ++ more.flatten) < 2 ^ 63 ∨
    sign = .minus ∧ number base.radix (first ++ more.flatten) = 2 ^ 63

namespace Integer

def text (i : Integer) : Text :=
  i.sign.text ++ (i.base.mark ++ (i.first ++ i.more.flatMap fun g => 95 :: g))

/-- The number without its sign. -/
def magnitude (i : Integer) : ℕ :=
  number i.base.radix (i.first ++ i.more.flatten)

def value (i : Integer) : ℤ :=
  match i.sign with
  | .minus => -i.magnitude
  | _ => i.magnitude

end Integer

mutual

/-- A value as it is written. -/
inductive Spelled where
  | basic (pieces : List Piece)
  | literal (l : Literal)
  | integer (i : Integer)
  | boolean (b : Bool)
  | array (items : Items)

/-- What stands behind the bracket of an array. -/
inductive Items where
  | close (gap : Gap)
  | last (before : Gap) (v : Spelled) (after : Gap)
  | more (before : Gap) (v : Spelled) (after : Gap) (rest : Items)

end

/-- A value. -/
inductive Value where
  | string (s : Text)
  | integer (n : ℤ)
  | boolean (b : Bool)
  | array (vs : List Value)

mutual

def Spelled.text : Spelled → Text
  | .basic pieces => 34 :: (pieces.flatMap Piece.text ++ [34])
  | .literal l => 39 :: (l.text ++ [39])
  | .integer i => i.text
  | .boolean true => [116, 114, 117, 101]
  | .boolean false => [102, 97, 108, 115, 101]
  | .array items => 91 :: (items.text ++ [93])

/-- The text between the brackets. -/
def Items.text : Items → Text
  | .close gap => gap.text
  | .last before v after => before.text ++ v.text ++ after.text
  | .more before v after rest => before.text ++ v.text ++ after.text ++ 44 :: rest.text

end

mutual

/-- What is meant. -/
def Spelled.value : Spelled → Value
  | .basic pieces => .string (pieces.flatMap Piece.value)
  | .literal l => .string l.text
  | .integer i => .integer i.value
  | .boolean b => .boolean b
  | .array items => .array items.values

def Items.values : Items → List Value
  | .close _ => []
  | .last _ v _ => [v.value]
  | .more _ v _ rest => v.value :: rest.values

end

/-! ## How a document is written -/

/-- A name without any quotes. -/
structure Bare where
  text : Text
  ne_nil : text ≠ []
  bare : ∀ u ∈ text, isBare u = true

inductive SimpleKey where
  | bare (name : Bare)
  | basic (pieces : List Piece)
  | literal (l : Literal)

namespace SimpleKey

def text : SimpleKey → Text
  | bare name => name.text
  | basic pieces => 34 :: (pieces.flatMap Piece.text ++ [34])
  | literal l => 39 :: (l.text ++ [39])

/-- The name that is meant. -/
def name : SimpleKey → Text
  | bare name => name.text
  | basic pieces => pieces.flatMap Piece.value
  | literal l => l.text

end SimpleKey

/-- A key: names with dots between them. -/
structure Key where
  init : List (SimpleKey × Blank × Blank)
  last : SimpleKey

namespace Key

def text (key : Key) : Text :=
  (key.init.flatMap fun part => part.1.text ++ part.2.1.text ++ 46 :: part.2.2.text) ++
    key.last.text

/-- The names in front of the last dot. -/
def path (key : Key) : List Text :=
  key.init.map fun part => part.1.name

def names (key : Key) : List Text :=
  key.path ++ [key.last.name]

end Key

/-- What a line says; one with an array may go over several lines of the text. -/
inductive Statement where
  | empty
  | pair (key : Key) (before after : Blank) (v : Spelled)
  | table (before : Blank) (key : Key) (after : Blank)
  | entry (before : Blank) (key : Key) (after : Blank)

def Statement.text : Statement → Text
  | empty => []
  | pair key before after v => key.text ++ before.text ++ 61 :: (after.text ++ v.text)
  | table before key after => 91 :: (before.text ++ key.text ++ after.text ++ [93])
  | entry before key after => 91 :: 91 :: (before.text ++ key.text ++ after.text ++ [93, 93])

structure Line where
  indent : Blank
  statement : Statement
  trail : Blank
  comment : Option Comment

def Line.text (line : Line) : Text :=
  line.indent.text ++ line.statement.text ++ line.trail.text ++ commentText line.comment

/-- The lines, the last of which need not be ended. -/
structure Document where
  ended : List (Line × Newline)
  last : Line

namespace Document

def text (doc : Document) : Text :=
  (doc.ended.flatMap fun line => line.1.text ++ line.2.text) ++ doc.last.text

def lines (doc : Document) : List Line :=
  doc.ended.map Prod.fst ++ [doc.last]

end Document

/-! ## What a document means -/

/-- A field: a value, a table, or an array of tables. -/
inductive Node (α : Type) where
  | leaf (v : α)
  | table (fields : List (Text × Node α))
  | tables (entries : List (List (Text × Node α)))

/-- The fields of a table. -/
abbrev Fields (α : Type) := List (Text × Node α)

variable {α : Type}

/-- Change the table at a path.  Tables on the way that are not there yet are added, and an array
of tables stands for its last. -/
def within (change : Fields α → Option (Fields α)) : List Text → Fields α → Option (Fields α)
  | [], fields => change fields
  | k :: path, fields =>
    match fields.lookup k with
    | none => do
      let inner ← within change path []
      pure (fields ++ [(k, .table inner)])
    | some (.leaf _) => none
    | some (.table inner) => do
      let inner ← within change path inner
      pure (Keyed.put Prod.fst fields (k, .table inner))
    | some (.tables entries) => do
      let inner ← entries.getLast?
      let inner ← within change path inner
      pure (Keyed.put Prod.fst fields (k, .tables (entries.dropLast ++ [inner])))

/-- A key gets its value once. -/
def define (k : Text) (v : α) (fields : Fields α) : Option (Fields α) :=
  match fields.lookup k with
  | none => some (fields ++ [(k, .leaf v)])
  | some _ => none

/-- The table of a section, which may be there for the sake of a table in it. -/
def openTable (k : Text) (fields : Fields α) : Option (Fields α) :=
  match fields.lookup k with
  | none => some (fields ++ [(k, .table [])])
  | some (.table _) => some fields
  | some _ => none

/-- A new entry of an array of tables. -/
def openEntry (k : Text) (fields : Fields α) : Option (Fields α) :=
  match fields.lookup k with
  | none => some (fields ++ [(k, .tables [[]])])
  | some (.tables entries) => some (Keyed.put Prod.fst fields (k, .tables (entries ++ [[]])))
  | some _ => none

/-- What has been read: the fields of the document, and the path of the table it is in. -/
structure Scope (α : Type) where
  fields : Fields α
  current : List Text

/-- What a statement adds. -/
def Statement.eval (scope : Scope Spelled) : Statement → Option (Scope Spelled)
  | empty => some scope
  | pair key _ _ v => do
    let fields ← within (define key.last.name v) (scope.current ++ key.path) scope.fields
    pure { scope with fields }
  | table _ key _ => do
    let fields ← within (openTable key.last.name) key.path scope.fields
    pure { fields, current := key.names }
  | entry _ key _ => do
    let fields ← within (openEntry key.last.name) key.path scope.fields
    pure { fields, current := key.names }

/-- What a list of statements adds. -/
def run (scope : Scope Spelled) : List Statement → Option (Scope Spelled)
  | [] => some scope
  | statement :: rest => do
    let scope ← statement.eval scope
    run scope rest

/-- The fields of a document, if it is valid. -/
def Document.eval (doc : Document) : Option (Fields Spelled) :=
  (run ⟨[], []⟩ (doc.lines.map Line.statement)).map Scope.fields

end Toml
end Foundation
