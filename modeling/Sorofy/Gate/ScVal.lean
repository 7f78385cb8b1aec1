import Sorofy.Gate.Discovery

/-!
# Every value the reader covers

The values of the kinds that `web/gate/lib/xdr.js` knows, however they are nested: their XDR, and
what they are in the browser.

`reads_encode` says that the reader is the inverse of the encoding, whatever comes behind it.  The
induction is on the value, and the number of its bytes bounds the depth.
-/

namespace Sorofy
namespace Gate

open Foundation
open Registry (Bytes32)

/-- A value of one of the kinds the reader covers.  A container is optional: it may be absent. -/
inductive ScVal where
  | u32 (n : ℕ)
  | symbol (name : JsString)
  | bytes (s : List UInt8)
  | address (a : ScAddress)
  | absentVec
  | vec (elems : List ScVal)
  | absentMap
  | map (fields : List (JsString × ScVal))

/-- The kind of an address. -/
def ScAddress.kind : ScAddress → JsString
  | account _ => js "account"
  | contract _ => js "contract"

/-- A symbol of at most so many characters, which are letters, digits and underscores. -/
structure IsSymbol (limit : ℕ) (name : JsString) : Prop where
  length_le : name.length ≤ limit
  word : ∀ u ∈ name, isWord u = true

namespace ScVal

/-- The values there are: what is counted fits the word that counts it, and the keys of a map are
distinct symbols, none of them `__proto__`. -/
inductive WellFormed (limit : ℕ) : ScVal → Prop
  | u32 {n : ℕ} (hn : n < 2 ^ 32) : WellFormed limit (.u32 n)
  | symbol {name : JsString} (hname : IsSymbol limit name) : WellFormed limit (.symbol name)
  | bytes {s : List UInt8} (hs : s.length < 2 ^ 32) : WellFormed limit (.bytes s)
  | address (a : ScAddress) : WellFormed limit (.address a)
  | absentVec : WellFormed limit .absentVec
  | vec {elems : List ScVal} (hlen : elems.length < 2 ^ 32)
      (helems : ∀ x ∈ elems, WellFormed limit x) : WellFormed limit (.vec elems)
  | absentMap : WellFormed limit .absentMap
  | map {fields : List (JsString × ScVal)} (hlen : fields.length < 2 ^ 32)
      (hkeys : ∀ field ∈ fields, IsSymbol limit field.1 ∧ field.1 ≠ js "__proto__")
      (hdistinct : (fields.map Prod.fst).Nodup)
      (hvalues : ∀ field ∈ fields, WellFormed limit field.2) : WellFormed limit (.map fields)

mutual

/-- The XDR. -/
def encode : ScVal → List UInt8
  | .u32 n => Xdr.u32 n
  | .symbol name => Xdr.symbol name
  | .bytes s => Xdr.bytes s
  | .address a => Xdr.address a
  | .absentVec => toBeBytes 16 ++ toBeBytes 0
  | .vec elems => toBeBytes 16 ++ toBeBytes 1 ++ toBeBytes elems.length ++ encodeAll elems
  | .absentMap => toBeBytes 17 ++ toBeBytes 0
  | .map fields => Xdr.map (encodeFields fields)

/-- The XDR of one value after the other. -/
def encodeAll : List ScVal → List UInt8
  | [] => []
  | x :: xs => encode x ++ encodeAll xs

/-- The XDR of the values of a map. -/
def encodeFields : List (JsString × ScVal) → List (JsString × List UInt8)
  | [] => []
  | (name, x) :: fields => (name, encode x) :: encodeFields fields

end

mutual

/-- The value in the browser: what is bytes there is lowercase hex here, and a container that is
absent is one that is empty. -/
def toJs : ScVal → JsValue
  | .u32 n => .number n
  | .symbol name => .string name
  | .bytes s => .string (hexString s)
  | .address a =>
    .object [(js "kind", .string a.kind), (js "key", .string (hexString a.key.toList))] .null
  | .absentVec => .array []
  | .vec elems => .array (allToJs elems)
  | .absentMap => .object [] .null
  | .map fields => .object (fieldsToJs fields) .null

/-- The elements of an array. -/
def allToJs : List ScVal → List JsValue
  | [] => []
  | x :: xs => toJs x :: allToJs xs

/-- The properties of an object. -/
def fieldsToJs : List (JsString × ScVal) → List (JsString × JsValue)
  | [] => []
  | (name, x) :: fields => (name, toJs x) :: fieldsToJs fields

end

@[simp] theorem encodeAll_eq (xs : List ScVal) : encodeAll xs = xs.flatMap encode := by
  induction xs with
  | nil => rfl
  | cons x xs ih => rw [encodeAll, ih, List.flatMap_cons]

@[simp] theorem allToJs_eq (xs : List ScVal) : allToJs xs = xs.map toJs := by
  induction xs with
  | nil => rfl
  | cons x xs ih => rw [allToJs, ih, List.map_cons]

@[simp] theorem encodeFields_eq (fields : List (JsString × ScVal)) :
    encodeFields fields = fields.map fun field => (field.1, field.2.encode) := by
  induction fields with
  | nil => rfl
  | cons field fields ih => rw [encodeFields, ih, List.map_cons]

@[simp] theorem fieldsToJs_eq (fields : List (JsString × ScVal)) :
    fieldsToJs fields = fields.map fun field => (field.1, field.2.toJs) := by
  induction fields with
  | nil => rfl
  | cons field fields ih => rw [fieldsToJs, ih, List.map_cons]

/-- There is a type in front of every value. -/
theorem four_le_length_encode (x : ScVal) : 4 ≤ x.encode.length := by
  cases x with
  | address a => cases a <;> simp [encode, Xdr.address, toBeBytes]
  | _ => simp [encode, Xdr.u32, Xdr.symbol, Xdr.bytes, Xdr.map, toBeBytes]

end ScVal

/-! ## Reading back -/

section Reading

variable {rt : Runtime} {limit depth depth' fuel : ℕ} {b : List UInt8} {v : JsValue}

theorem Reads.mono (h : Reads rt depth b v) (hle : depth ≤ depth') : Reads rt depth' b v :=
  fun fuel rest hfuel => h fuel rest (hle.trans hfuel)

theorem reads_u32 {n : ℕ} (hn : n < 2 ^ 32) : Reads rt 1 (Xdr.u32 n) (.number n) := by
  rw [Xdr.u32]
  refine reads_of_body (by decide) fun fuel rest _ => ?_
  simp only [Reader.body, bind_eq_ok, pure_eq_ok]
  exact ⟨_, u32_toBeBytes hn rest, rfl⟩

/-- A flag that says that a container is absent. -/
theorem reads_absent {type : ℕ}
    (htype : type = 16 ∧ v = .array [] ∨ type = 17 ∧ v = Reader.emptyObject) :
    Reads rt 1 (toBeBytes type ++ toBeBytes 0) v := by
  rcases htype with ⟨rfl, rfl⟩ | ⟨rfl, rfl⟩
  all_goals
    refine reads_of_body (by decide) fun fuel rest _ => ?_
    simp only [Reader.body, bind_eq_ok]
    exact ⟨_, u32_toBeBytes (by decide) rest, rfl⟩

theorem length_le_length_flatMap {α : Type} {f : α → List UInt8} {a : α} {as : List α}
    (h : a ∈ as) : (f a).length ≤ (as.flatMap f).length := by
  rw [List.flatMap_def]
  exact (List.sublist_flatten_of_mem (List.mem_map_of_mem h)).length_le

/-- The elements are read one after the other. -/
theorem elements_encode {xs : List ScVal} (h : ∀ x ∈ xs, Reads rt depth x.encode x.toJs)
    (hfuel : depth ≤ fuel) (rest : List UInt8) :
    Reader.elements (Reader.value rt fuel) xs.length (xs.flatMap ScVal.encode ++ rest) =
      .ok (xs.map ScVal.toJs, rest) := by
  induction xs with
  | nil => rfl
  | cons x xs ih =>
    have hhead := h x List.mem_cons_self fuel (xs.flatMap ScVal.encode ++ rest) hfuel
    have htail := ih fun y hy => h y (List.mem_cons_of_mem x hy)
    rw [List.flatMap_cons, List.append_assoc]
    simp only [List.length_cons, Reader.elements, bind_eq_ok, pure_eq_ok]
    exact ⟨_, hhead, _, htail, rfl⟩

theorem reads_vec {xs : List ScVal} (hlen : xs.length < 2 ^ 32)
    (h : ∀ x ∈ xs, Reads rt depth x.encode x.toJs) :
    Reads rt (depth + 1) (ScVal.vec xs).encode (ScVal.vec xs).toJs := by
  rw [ScVal.encode, ScVal.toJs, ScVal.encodeAll_eq, ScVal.allToJs_eq, List.append_assoc,
    List.append_assoc]
  refine reads_of_body (by decide) fun fuel rest hfuel => ?_
  rw [List.append_assoc, List.append_assoc]
  simp only [Reader.body, bind_eq_ok]
  refine ⟨_, u32_toBeBytes (by decide) _, ?_⟩
  rw [if_neg Nat.one_ne_zero]
  simp only [bind_eq_ok, pure_eq_ok]
  exact ⟨_, u32_toBeBytes hlen _, _, elements_encode h hfuel rest, rfl⟩

/-- A property that is not there yet is put behind the others. -/
theorem set_new {own : List (JsString × JsValue)} {proto : JsValue} {name : JsString}
    (hproto : name ≠ js "__proto__") (hnew : name ∉ own.map Prod.fst) :
    (JsValue.object own proto).set name v = .object (own ++ [(name, v)]) proto := by
  simp only [JsValue.set, if_neg hproto, Keyed.put, if_neg hnew]

/-- Distinct keys become the properties, in their order. -/
theorem set_fields {fields : List Field} {own : List (JsString × JsValue)}
    (hproto : ∀ field ∈ fields, field.name ≠ js "__proto__")
    (hdistinct : (own.map Prod.fst ++ fields.map Field.name).Nodup) :
    fields.foldl (fun out field => out.set field.name field.value) (JsValue.object own .null) =
      JsValue.object (own ++ fields.map fun field => (field.name, field.value)) .null := by
  induction fields generalizing own with
  | nil => rw [List.map_nil, List.append_nil, List.foldl_nil]
  | cons field fields ih =>
    have hnew : field.name ∉ own.map Prod.fst := by
      intro hmem
      exact (List.nodup_append.mp hdistinct).2.2 _ hmem _ List.mem_cons_self rfl
    rw [List.foldl_cons, set_new (hproto field List.mem_cons_self) hnew, ih]
    · rw [List.append_assoc, List.map_cons, List.singleton_append]
    · exact fun f hf => hproto f (List.mem_cons_of_mem field hf)
    · rw [List.map_append, List.append_assoc]
      exact hdistinct

theorem IsSymbol.isAscii {name : JsString} (h : IsSymbol limit name) (hlimit : limit < 2 ^ 32) :
    IsAscii name := by
  refine ⟨h.length_le.trans_lt hlimit, fun u hu => ?_⟩
  have hword := h.word u hu
  simp only [isWord, isDigit, Bool.decide_or, Bool.decide_and, Bool.or_eq_true, Bool.and_eq_true,
    decide_eq_true_eq] at hword
  omega

theorem reads_fields {fields : List (JsString × ScVal)} (hlen : fields.length < 2 ^ 32)
    (h : ∀ field ∈ fields, IsAscii field.1 ∧ field.1 ≠ js "__proto__" ∧
      Reads rt field.2.encode.length field.2.encode field.2.toJs)
    (hdistinct : (fields.map Prod.fst).Nodup) :
    Reads rt (ScVal.map fields).encode.length (ScVal.map fields).encode
      (ScVal.map fields).toJs := by
  let body : JsString × ScVal → List UInt8 := fun field => Xdr.symbol field.1 ++ field.2.encode
  let items : List Field := fields.map fun field => ⟨field.1, field.2.encode, field.2.toJs⟩
  have hitems : ∀ item ∈ items, IsAscii item.name ∧
      Reads rt ((fields.flatMap body).length + 1) item.bytes item.value := by
    intro item hitem
    obtain ⟨field, hfield, rfl⟩ := List.mem_map.mp hitem
    obtain ⟨hname, -, hread⟩ := h field hfield
    have hbody : (body field).length ≤ (fields.flatMap body).length :=
      length_le_length_flatMap hfield
    rw [List.length_append] at hbody
    exact ⟨hname, hread.mono (by omega)⟩
  have hproto : ∀ item ∈ items, item.name ≠ js "__proto__" := by
    intro item hitem
    obtain ⟨field, hfield, rfl⟩ := List.mem_map.mp hitem
    exact (h field hfield).2.1
  have hnames : items.map Field.name = fields.map Prod.fst := List.map_map ..
  have hencode : (ScVal.map fields).encode =
      Xdr.map (items.map fun item => (item.name, item.bytes)) := by
    rw [ScVal.encode, ScVal.encodeFields_eq, List.map_map]
    rfl
  have hvalue : (ScVal.map fields).toJs =
      items.foldl (fun out item => out.set item.name item.value) Reader.emptyObject := by
    rw [Reader.emptyObject, set_fields hproto (by rwa [hnames]), ScVal.toJs,
      ScVal.fieldsToJs_eq, List.map_map]
    rfl
  rw [hvalue, hencode]
  refine (reads_map (by rwa [List.length_map]) hitems (Nat.le_add_left ..)).mono ?_
  rw [Xdr.map, List.append_assoc, List.append_assoc, List.length_append, List.length_append,
    List.length_append, List.flatMap_map, List.flatMap_map]
  show _ ≤ 4 + (4 + (4 + (fields.flatMap body).length))
  omega

/-- **The reader is the inverse of the encoding**, at every nesting and whatever comes behind. -/
theorem reads_encode {x : ScVal} (h : x.WellFormed limit) (hlimit : limit < 2 ^ 32) :
    Reads rt x.encode.length x.encode x.toJs := by
  induction h with
  | u32 hn => exact (reads_u32 hn).mono (le_trans (by decide) (ScVal.four_le_length_encode _))
  | symbol hname =>
    exact (reads_symbol (hname.isAscii hlimit)).mono
      (le_trans (by decide) (ScVal.four_le_length_encode _))
  | bytes hs =>
    rw [ScVal.toJs, ← toHex_eq]
    exact (reads_bytes hs).mono (le_trans (by decide) (ScVal.four_le_length_encode _))
  | address a =>
    have hvalue : (ScVal.address a).toJs = addressValue a := by
      cases a <;> simp [ScVal.toJs, addressValue, toHex_eq, ScAddress.kind, ScAddress.key]
    rw [hvalue]
    exact (reads_address a).mono (le_trans (by decide) (ScVal.four_le_length_encode _))
  | absentVec => exact (reads_absent (Or.inl ⟨rfl, rfl⟩)).mono (by decide)
  | absentMap => exact (reads_absent (Or.inr ⟨rfl, rfl⟩)).mono (by decide)
  | @vec elems hlen _ ih =>
    -- no element has as many bytes as the whole
    have hdepth : ∀ x ∈ elems, Reads rt (elems.flatMap ScVal.encode).length x.encode x.toJs :=
      fun x hx => (ih x hx).mono (length_le_length_flatMap hx)
    refine (reads_vec hlen hdepth).mono ?_
    rw [ScVal.encode, ScVal.encodeAll_eq, List.append_assoc, List.append_assoc]
    simp [toBeBytes]
  | @map fields hlen hkeys hdistinct _ ih =>
    exact (reads_fields hlen (fun field hfield => ⟨(hkeys field hfield).1.isAscii hlimit,
      (hkeys field hfield).2, ih field hfield⟩) hdistinct)

/-! ## Hex -/

variable {hex : JsString}

/-- A digit is neither white space nor a letter beyond ASCII. -/
theorem digit?_of_isHex {u : UInt16} (hu : isHex u = true) : ∃ v, Hex.digit? u.toNat = some v := by
  simp only [isHex, isLowerHex, Bool.decide_or, Bool.decide_and, Bool.or_eq_true, Bool.and_eq_true,
    decide_eq_true_eq] at hu
  unfold Hex.digit?
  split_ifs with hdigit hlower hupper
  · exact ⟨_, rfl⟩
  · exact ⟨_, rfl⟩
  · exact ⟨_, rfl⟩
  · omega

variable (rt) in
/-- Digits of either case spell a digest. -/
theorem exists_digest (hlen : hex.length = 64) (hhex : ∀ u ∈ hex, isHex u = true) :
    trim hex = hex ∧ ∃ digest : Bytes32, toLowerCase rt.unicode hex = hexString digest.toList := by
  have hcodes : (hex.map UInt16.toNat).length = 2 * 32 := by rw [List.length_map, hlen]
  obtain ⟨bytes, hbytes, hcount⟩ := Hex.exists_decode hcodes (by
    intro c hc
    obtain ⟨u, hu, rfl⟩ := List.mem_map.mp hc
    exact digit?_of_isHex (hhex u hu))
  have hrange : ∀ u ∈ hex, u.toNat < 128 ∧ isSpace u = false := by
    intro u hu
    have h := Hex.range_of_decode hbytes (List.mem_map_of_mem hu)
    simp only [isSpace, decide_eq_false_iff_not, List.mem_cons, List.not_mem_nil, or_false]
    omega
  refine ⟨trim_of_not_space fun u hu => (hrange u hu).2, ⟨bytes, hcount⟩, ?_⟩
  rw [toLowerCase_of_ascii fun u hu => (hrange u hu).1, hexString,
    ← Hex.map_lower_of_decode hbytes, List.map_map, List.map_map]
  rfl

theorem decodeScVal_btoa_encode {x : ScVal} (h : x.WellFormed limit) (hlimit : limit < 2 ^ 32) :
    decodeScVal rt (.string (btoa x.encode)) = .ok x.toJs :=
  decodeScVal_btoa (reads_encode h hlimit) le_rfl

/-- **The reader covers what it says it does.**  A value of the kinds it knows is decoded from the
base64 of its XDR, and no byte of that is left; and what `bytesScValBase64` writes for a hash, in
either case, is decoded as the hash in lowercase.  So the topic that the scan asks for is that of a
digest exactly if the reader reads the topic of the digest as the hash asked for. -/
theorem decodeScVal_spec (rt : Runtime) :
    (∀ limit < 2 ^ 32, ∀ x : ScVal, x.WellFormed limit →
      decodeScVal rt (.string (btoa x.encode)) = .ok x.toJs ∧
      Reader.value rt x.encode.length x.encode = .ok (x.toJs, [])) ∧
    (∀ hex : JsString, hex.length = 64 → (∀ u ∈ hex, isHex u = true) →
      (∃ topic, bytesScValBase64 rt hex = .ok topic ∧
        decodeScVal rt (.string topic) = .ok (.string (toLowerCase rt.unicode hex))) ∧
      ∀ digest : Bytes32,
        bytesScValBase64 rt hex = .ok (btoa (ScVal.bytes digest.toList).encode) ↔
        decodeScVal rt (.string (btoa (ScVal.bytes digest.toList).encode)) =
          .ok (.string (toLowerCase rt.unicode hex))) := by
  have hbytes : ∀ digest : Bytes32,
      decodeScVal rt (.string (btoa (ScVal.bytes digest.toList).encode)) =
        .ok (.string (hexString digest.toList)) := by
    intro digest
    have hwell : (ScVal.bytes digest.toList).WellFormed 0 :=
      .bytes (by rw [digest.length_toList]; decide)
    exact decodeScVal_btoa_encode hwell (by decide)
  refine ⟨fun limit hlimit x hx => ⟨decodeScVal_btoa_encode hx hlimit, ?_⟩, ?_⟩
  · have hread : Reads rt x.encode.length x.encode x.toJs := reads_encode hx hlimit
    have hall := hread x.encode.length [] le_rfl
    rwa [List.append_nil] at hall
  · intro hex hlen hhex
    obtain ⟨htrim, asked, hlower⟩ := exists_digest rt hlen hhex
    have htopic : ∀ digest : Bytes32, toLowerCase rt.unicode hex = hexString digest.toList →
        bytesScValBase64 rt hex = .ok (btoa (ScVal.bytes digest.toList).encode) := by
      intro digest hdigest
      exact bytesScValBase64_of_lower (by rw [htrim, hdigest])
    refine ⟨⟨_, htopic asked hlower, by rw [hbytes asked, hlower]⟩, fun digest => ?_⟩
    rw [hbytes digest]
    constructor
    · intro h
      -- the topics agree, so they are decoded alike
      have hsame := Except.ok.inj ((htopic asked hlower).symm.trans h)
      rw [← hbytes digest, ← hsame, hbytes asked, hlower]
    · intro h
      have hsame := JsValue.string.inj (Except.ok.inj h)
      exact htopic digest hsame.symm

end Reading

namespace Sample

/-- A map with a nested vector. -/
def scVal : ScVal :=
  .map [(js "input_digest", .vec [.u32 7, .bytes [0xAB], .absentMap]),
    (js "verifier", .address (.contract (BytesN.fill 32 1)))]

theorem scVal_wellFormed : scVal.WellFormed 32 := by
  have hname : ∀ name ∈ [js "input_digest", js "verifier"],
      IsSymbol 32 name ∧ name ≠ js "__proto__" := by
    intro name hname
    rcases List.mem_pair.mp hname with rfl | rfl
    · exact ⟨⟨by decide, List.all_eq_true.mp rfl⟩, by decide⟩
    · exact ⟨⟨by decide, List.all_eq_true.mp rfl⟩, by decide⟩
  refine .map (by decide) ?_ (by decide) ?_
  · intro field hfield
    rcases List.mem_pair.mp hfield with rfl | rfl
    · exact hname _ (by simp)
    · exact hname _ (by simp)
  · intro field hfield
    rcases List.mem_pair.mp hfield with rfl | rfl
    · refine .vec (by decide) fun x hx => ?_
      simp only [List.mem_cons, List.not_mem_nil, or_false] at hx
      rcases hx with rfl | rfl | rfl
      · exact .u32 (by decide)
      · exact .bytes (by decide)
      · exact .absentMap
    · exact .address _

/-- The vector of the map is an array, and a hash in upper case is found. -/
theorem scVal_decoded :
    decodeScVal runtime (.string (btoa scVal.encode)) = .ok scVal.toJs ∧
    ∃ topic, bytesScValBase64 runtime (List.replicate 64 65) = .ok topic ∧
      decodeScVal runtime (.string topic) = .ok (.string (List.replicate 64 97)) := by
  have h := decodeScVal_spec runtime
  have hdigit : ∀ u ∈ List.replicate 64 (65 : UInt16), isHex u = true := by
    intro u hu
    rw [List.eq_of_mem_replicate hu]
    decide
  exact ⟨(h.1 32 (by decide) scVal scVal_wellFormed).1,
    (h.2 (List.replicate 64 65) List.length_replicate hdigit).1⟩

end Sample

end Gate
end Sorofy
