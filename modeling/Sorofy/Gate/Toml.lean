import Sorofy.Gate.Chain

/-!
# Reading a `stellar.toml`

`web/gate/lib/toml.js`.  The three scanners of the module know about quotes in the same way:
`Scan` says where one of them is, and a backslash within quotes skips what comes behind it.

A number is an integer here, rounded as a number of the browser is.  A decimal fraction is none, so
what it is converted to is a parameter.  An object is pointed to by where it hangs in the root;
the object that `__proto__` names, where nothing else has been put there, is the prototype that
all objects share.
-/

namespace Sorofy
namespace Gate

open Foundation

namespace Toml

/-! ## Quotes -/

/-- Where a scanner is: outside of quotes, within quotes of a kind, or behind a backslash there. -/
inductive Scan where
  | outside
  | inside (quote : UInt16)
  | escaped (quote : UInt16)
  deriving DecidableEq

/-- Where it is behind a character. -/
def Scan.next : Scan → UInt16 → Scan
  | outside, c => if c = 34 ∨ c = 39 then inside c else outside
  | inside q, c => if c = 92 then escaped q else if c = q then outside else inside q
  | escaped q, _ => inside q

/-- `stripComment`, from where the scanner is. -/
def stripFrom : Scan → JsString → JsString
  | _, [] => []
  | scan, c :: s => if scan = .outside ∧ c = 35 then [] else c :: stripFrom (scan.next c) s

/-- `stripComment`. -/
def stripComment (line : JsString) : JsString :=
  stripFrom .outside line

/-- Put a character in front of the first part. -/
def push (c : UInt16) : List JsString → List JsString
  | [] => [[c]]
  | part :: parts => (c :: part) :: parts

/-- The depth of brackets behind a character. -/
def deeper (scan : Scan) (depth : ℤ) (c : UInt16) : ℤ :=
  if scan = .outside ∧ c = 91 then depth + 1
  else if scan = .outside ∧ c = 93 then depth - 1
  else depth

/-- `splitTopLevel`, from where the scanner is. -/
def splitFrom : Scan → ℤ → JsString → List JsString
  | _, _, [] => [[]]
  | scan, depth, c :: s =>
    if scan = .outside ∧ c = 44 ∧ depth = 0 then [] :: splitFrom scan depth s
    else push c (splitFrom (scan.next c) (deeper scan depth c) s)

/-- `splitTopLevel`. -/
def splitTopLevel (inner : JsString) : List JsString :=
  splitFrom .outside 0 inner

/-- What a character behind a backslash stands for. -/
def unescape (next : UInt16) : UInt16 :=
  if next = 110 then 10 else if next = 116 then 9 else if next = 114 then 13 else next

/-- The loop of `unquote`, behind the quote.  There is no character behind a last backslash. -/
def unquoteFrom (q : UInt16) : JsString → JsString
  | [] => []
  | [c] => if c = q then [] else if c = 92 ∧ q = 34 then js "undefined" else [c]
  | c :: next :: s =>
    if c = q then []
    else if c = 92 ∧ q = 34 then unescape next :: unquoteFrom q s
    else c :: unquoteFrom q (next :: s)

/-- `unquote`. -/
def unquote (raw : JsString) : JsString :=
  match raw with
  | [] => []
  | q :: s => unquoteFrom q s

/-! ## Values -/

/-- The nearest number with 53 binary digits: of two, the one whose last digit is 0. -/
def roundNat (n : ℕ) : ℕ :=
  let unit := 2 ^ (n.log2 - 52)
  let rest := n % unit
  if unit < 2 * rest ∨ unit = 2 * rest ∧ n / unit % 2 = 1 then (n / unit + 1) * unit
  else n / unit * unit

/-- `Number(raw)`, for an integer in decimal digits. -/
def toNumber (raw : JsString) : ℤ :=
  match raw with
  | 45 :: digits => -(roundNat (parseDigits digits))
  | digits => roundNat (parseDigits digits)

/-- The digits behind a sign, if there is one. -/
def unsigned (raw : JsString) : JsString :=
  match raw with
  | 45 :: digits => digits
  | digits => digits

/-- `/^-?\d+$/`. -/
def isInteger (raw : JsString) : Bool :=
  unsigned raw ≠ [] ∧ (unsigned raw).all isDigit = true

/-- `/^-?\d*\.\d+$/`. -/
def isFraction (raw : JsString) : Bool :=
  match (unsigned raw).dropWhile isDigit with
  | 46 :: digits => digits ≠ [] ∧ digits.all isDigit = true
  | _ => false

/-- `raw.slice(1, raw.lastIndexOf(']'))`. -/
def bracketed (raw : JsString) : JsString :=
  if 93 ∈ raw then ((raw.rdropWhile (· ≠ 93)).dropLast).drop 1 else raw.dropLast.drop 1

/-- `parseValue`, to the given depth.  `fraction` is `Number(raw)` for a decimal fraction. -/
def valueTo (fraction : JsString → JsValue) : ℕ → JsString → JsValue
  | 0, _ => .string []
  | depth + 1, raw =>
    if raw.head? = some 91 then
      .array ((((splitTopLevel (bracketed raw)).map trim).filter (· ≠ [])).map
        (valueTo fraction depth))
    else if raw.head? = some 34 ∨ raw.head? = some 39 then .string (unquote raw)
    else if raw = js "true" then .bool true
    else if raw = js "false" then .bool false
    else if isInteger raw = true then .number (toNumber raw)
    else if isFraction raw = true then fraction raw
    else .string raw

/-- `parseValue`. -/
def parseValue (fraction : JsString → JsValue) (raw : JsString) : JsValue :=
  valueTo fraction (raw.length + 1) raw

/-! ## Lines -/

/-- `/[A-Za-z0-9_.-]/`. -/
def isKeyChar (u : UInt16) : Bool :=
  isWord u ∨ u = 46 ∨ u = 45

/-- `/./`. -/
def isDot (u : UInt16) : Bool :=
  u ≠ 10 ∧ u ≠ 13 ∧ u ≠ 0x2028 ∧ u ≠ 0x2029

/-- A name in brackets: `/^\[\[\s*([A-Za-z0-9_.-]+)\s*\]\]$/`, with as many brackets as given. -/
def bracketName (brackets : ℕ) (line : JsString) : Option JsString :=
  let name := trim ((line.drop brackets).take (line.length - 2 * brackets))
  if 2 * brackets ≤ line.length ∧ line.take brackets = List.replicate brackets 91 ∧
      line.drop (line.length - brackets) = List.replicate brackets 93 ∧
      name ≠ [] ∧ name.all isKeyChar = true then
    some name
  else none

/-- `/^([A-Za-z0-9_.-]+)\s*=\s*(.+)$/`. -/
def pair (line : JsString) : Option (JsString × JsString) :=
  let key := line.takeWhile isKeyChar
  match (line.dropWhile isKeyChar).dropWhile isSpace with
  | 61 :: s =>
    let raw := s.dropWhile isSpace
    if key ≠ [] ∧ raw ≠ [] ∧ raw.all isDot = true then some (key, raw) else none
  | _ => none

/-- `text.split('\n')`. -/
def splitLf : JsString → List JsString
  | [] => [[]]
  | c :: s => if c = 10 then [] :: splitLf s else push c (splitLf s)

/-- A line without the `'\r'` at its end. -/
def dropCr (line : JsString) : JsString :=
  if line.getLast? = some 13 then line.dropLast else line

/-- All but the last without the `'\r'` at their end. -/
def dropCrs : List JsString → List JsString
  | [] => []
  | [line] => [line]
  | line :: lines => dropCr line :: dropCrs lines

/-- `text.split(/\r?\n/)`. -/
def splitLines (text : JsString) : List JsString :=
  dropCrs (splitLf text)

/-! ## The document -/

/-- The object `target`. -/
inductive Target where
  | root
  /-- The object under this name. -/
  | table (key : JsString)
  /-- The last element of the array under this name. -/
  | entry (key : JsString)
  /-- The prototype that all objects share. -/
  | shared

/-- What the loop works on. -/
structure State where
  root : JsValue
  shared : JsValue
  target : Target

/-- `{}`. -/
def emptyObject : JsValue :=
  .object [] .null

/-- `root[key]`, where `null` stands for the prototype that all objects share. -/
def State.slot (state : State) (key : JsString) : JsValue :=
  match state.root with
  | .object own proto =>
    if key = js "__proto__" then proto
    else
      match (JsValue.object own proto).get key with
      | .undefined => state.shared.get key
      | v => v
  | _ => .undefined

/-- `target[key] = value`. -/
def State.assign (state : State) (key : JsString) (value : JsValue) : State :=
  match state.target with
  | .root => { state with root := state.root.set key value }
  | .table name =>
    { state with root := state.root.set name ((state.slot name).set key value) }
  | .entry name =>
    match state.slot name with
    | .array elems =>
      let last := (elems.getLast?.getD emptyObject).set key value
      { state with root := state.root.set name (.array (elems.dropLast ++ [last])) }
    | _ => state
  | .shared => { state with shared := state.shared.set key value }

/-- `[[ARRAY_OF_TABLES]]`. -/
def State.openEntry (state : State) (key : JsString) : State :=
  match state.slot key with
  | .array elems =>
    { state with root := state.root.set key (.array (elems ++ [emptyObject])), target := .entry key }
  | _ => { state with root := state.root.set key (.array [emptyObject]), target := .entry key }

/-- `[TABLE]`. -/
def State.openTable (state : State) (key : JsString) : State :=
  match state.slot key with
  | .object _ _ => { state with target := .table key }
  | .null => { state with target := .shared }
  | _ => { state with root := state.root.set key emptyObject, target := .table key }

/-- One pass through the loop. -/
def step (fraction : JsString → JsValue) (state : State) (rawLine : JsString) : State :=
  let line := trim (stripComment rawLine)
  match bracketName 2 line with
  | some key => state.openEntry key
  | none =>
    match bracketName 1 line with
    | some key => state.openTable key
    | none =>
      match pair line with
      | some (key, raw) => state.assign key (parseValue fraction (trim raw))
      | none => state

/-- The state before the first line. -/
def start : State where
  root := emptyObject
  shared := emptyObject
  target := .root

/-- The state behind the last line. -/
def finish (fraction : JsString → JsValue) (text : JsString) : State :=
  (splitLines text).foldl (step fraction) start

end Toml

/-- `parseToml`. -/
def parseToml (rt : Runtime) (fraction : JsString → JsValue) (text : JsValue) : JsValue :=
  (Toml.finish fraction (text.toString rt)).root

end Gate
end Sorofy
