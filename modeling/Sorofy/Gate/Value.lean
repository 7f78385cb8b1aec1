import Sorofy.Foundation.Keyed
import Sorofy.Gate.Claim

/-!
# Values of the browser

What the network and the Stellar SDK hand to the gate is a value of a dynamically typed language,
of whatever shape they please: `JsValue`, with the operations the gate applies to such a value.
Reading a property of `undefined` or `null` throws (`read`); every other primitive has none of the
properties read here.

Numbers are integers, with `none` for `NaN`.  What the language itself does with a value of the
wrong kind, where it converts it to a number or to a string, is part of the `Runtime`, as are the
Unicode tables and `JSON.stringify`.
-/

namespace Sorofy
namespace Gate

open Foundation

/-- A value. -/
inductive JsValue where
  | undefined
  | null
  | bool (b : Bool)
  | number (n : ℤ)
  | bigint (n : ℤ)
  | string (s : JsString)
  | array (elems : List JsValue)
  /-- The own properties, and the prototype, which is `null` unless it was set. -/
  | object (own : List (JsString × JsValue)) (proto : JsValue)

/-- What the language and its tables do, where the gate does not decide it. -/
structure Runtime where
  /-- The lower case of a string that is not ASCII. -/
  unicode : JsString → JsString
  /-- The string a `TextDecoder` makes of bytes that are not ASCII. -/
  utf8 : List UInt8 → JsString
  sha256 : Sha256
  /-- The number a value that is none is converted to. -/
  toNumber : JsValue → Option ℤ
  /-- The string a value that is none is converted to. -/
  toString : JsValue → JsString
  /-- `JSON.stringify(v)`, which has no text for `undefined` and throws for a `BigInt`. -/
  stringify : JsValue → Except JsString (Option JsString)

namespace JsValue

/-- `v === undefined || v === null`. -/
def isNullish : JsValue → Bool
  | .undefined => true
  | .null => true
  | _ => false

/-- `v ?? w`. -/
def orElse (v w : JsValue) : JsValue :=
  if v.isNullish then w else v

/-- Whether `v` counts as true. -/
def truthy : JsValue → Bool
  | .undefined => false
  | .null => false
  | .bool b => b
  | .number n => n ≠ 0
  | .bigint n => n ≠ 0
  | .string s => s ≠ []
  | .array _ => true
  | .object _ _ => true

/-- `typeof v === 'object'`, for a `v` that counts as true. -/
def isObject : JsValue → Bool
  | .array _ => true
  | .object _ _ => true
  | _ => false

/-- `v?.name`. -/
def get (v : JsValue) (name : JsString) : JsValue :=
  match v with
  | .object own proto =>
    match own.lookup name with
    | some value => value
    | none => proto.get name
  | _ => .undefined

/-- `name in v`, for an object. -/
def has (v : JsValue) (name : JsString) : Bool :=
  match v with
  | .object own proto => (own.lookup name).isSome || proto.has name
  | _ => false

/-- `v.name`. -/
def read (v : JsValue) (name : JsString) : Except JsString JsValue :=
  if v.isNullish then throw (js "Cannot read properties of " ++
    (match v with
      | .null => js "null"
      | _ => js "undefined") ++ js " (reading '" ++ name ++ js "')")
  else pure (v.get name)

/-- The decimal digits of an index, as the name of a property. -/
def indexName (i : ℕ) : JsString :=
  js (ToString.toString i)

/-- `v?.[i]`. -/
def index (v : JsValue) (i : ℕ) : JsValue :=
  match v with
  | .array elems => elems.getD i .undefined
  | .string s =>
    match s[i]? with
    | some u => .string [u]
    | none => .undefined
  | v => v.get (indexName i)

/-- `v?.length`. -/
def length (v : JsValue) : JsValue :=
  match v with
  | .array elems => .number elems.length
  | .string s => .number s.length
  | v => v.get (js "length")

/-- `Object.keys(v)`, for an object. -/
def keys (v : JsValue) : List JsString :=
  match v with
  | .array elems => (List.range elems.length).map indexName
  | .object own _ => own.map Prod.fst
  | _ => []

/-- The number `v` is converted to, with `none` for `NaN`. -/
def toNumber (rt : Runtime) (v : JsValue) : Option ℤ :=
  match v with
  | .number n => some n
  | v => rt.toNumber v

/-- The string `v` is converted to. -/
def toString (rt : Runtime) (v : JsValue) : JsString :=
  match v with
  | .string s => s
  | v => rt.toString v

/-- `out[name] = value`, on an object: the prototype is set under its own name, where only an
object or `null` will do. -/
def set (out : JsValue) (name : JsString) (value : JsValue) : JsValue :=
  match out with
  | .object own proto =>
    if name = js "__proto__" then
      if value.isObject then .object own value
      else
        match value with
        | .null => .object own .null
        | _ => .object own proto
    else .object (Keyed.put Prod.fst own (name, value)) proto
  | v => v

/-- The elements a `for … of` loop over `v` sees.  A string is taken code unit by code unit: none
of them has a property. -/
def iterate (v : JsValue) : Except JsString (List JsValue) :=
  match v with
  | .array elems => pure elems
  | .string s => pure (s.map fun u => .string [u])
  | _ => throw (js "object is not iterable")

end JsValue

/-- `a < b` on numbers: false when either is `NaN`. -/
def numLt (a b : Option ℤ) : Bool :=
  match a, b with
  | some m, some n => m < n
  | _, _ => false

namespace Sample

/-- A language whose tables are not consulted. -/
def runtime : Runtime where
  unicode := id
  utf8 := fun _ => []
  sha256 := fun _ => BytesN.fill 32 7
  toNumber := fun _ => none
  toString := fun _ => []
  stringify := fun _ => .ok none

/-- The JSON object with these properties. -/
def json (own : List (String × JsValue)) : JsValue :=
  .object (own.map fun p => (js p.1, p.2)) .null

theorem json_get_head {name : String} {v : JsValue} {own : List (String × JsValue)} :
    (json ((name, v) :: own)).get (js name) = v := by
  simp [json, JsValue.get]

theorem json_get_tail {name name' : String} {v : JsValue} {own : List (String × JsValue)}
    (h : js name ≠ js name') :
    (json ((name', v) :: own)).get (js name) = (json own).get (js name) := by
  have hne : (js name == js name') = false := beq_false_of_ne h
  simp [json, JsValue.get, List.lookup_cons, hne]

end Sample

end Gate
end Sorofy
