import Sorofy.Gate.Chain
import Sorofy.Registry.Types

/-!
# The registry's events on the wire

What the RPC hands out for an event the registry published: the topics and the value of a
`contractevent`, each an `ScVal` in XDR and base64.  The name of the event and the fields marked as
topics come first, and the other fields are a map, in the order of their names.

`claimFromEvent` reads back what an attestation says, and nothing from any other event
(`claimFromEvent_of_carries`).
-/

namespace Sorofy
namespace Gate

open Foundation
open Registry (Bytes32 Event)

/-- An address of the ledger. -/
inductive ScAddress where
  | account (key : Bytes32)
  | contract (id : Bytes32)
  deriving DecidableEq

/-- The 32 bytes of an address. -/
def ScAddress.key : ScAddress → Bytes32
  | account key => key
  | contract id => id

/-! ## Values -/

namespace Xdr

/-- A field of variable length, filled up to a multiple of four bytes. -/
def filled (s : List UInt8) : List UInt8 :=
  s ++ List.replicate (padded s.length - s.length) 0

/-- A 32-bit number. -/
def u32 (n : ℕ) : List UInt8 :=
  toBeBytes 3 ++ toBeBytes n

/-- A 128-bit number, in two's complement. -/
def i128 (n : ℤ) : List UInt8 :=
  toBeBytes 10 ++ [3, 2, 1, 0].flatMap fun i => toBeBytes ((n % 2 ^ 128).toNat / 2 ^ (32 * i))

/-- A symbol, whose characters are ASCII. -/
def symbol (name : JsString) : List UInt8 :=
  toBeBytes 15 ++ toBeBytes name.length ++ filled (name.map fun u => UInt8.ofNat u.toNat)

/-- A byte string. -/
def bytes (s : List UInt8) : List UInt8 :=
  toBeBytes 13 ++ toBeBytes s.length ++ filled s

/-- An address.  The key of an account comes behind its type. -/
def address : ScAddress → List UInt8
  | .account key => toBeBytes 18 ++ toBeBytes 0 ++ toBeBytes 0 ++ key.toList
  | .contract id => toBeBytes 18 ++ toBeBytes 1 ++ id.toList

/-- A map from symbols. -/
def map (fields : List (JsString × List UInt8)) : List UInt8 :=
  toBeBytes 17 ++ toBeBytes 1 ++ toBeBytes fields.length ++
    fields.flatMap fun field => symbol field.1 ++ field.2

end Xdr

/-- The topics of an event. -/
def topics : Event ScAddress → List (List UInt8)
  | .staked verifier _ => [Xdr.symbol (js "staked"), Xdr.address verifier]
  | .unstakeRequested verifier _ _ =>
    [Xdr.symbol (js "unstake_requested"), Xdr.address verifier]
  | .withdrawn verifier _ => [Xdr.symbol (js "withdrawn"), Xdr.address verifier]
  | .attested verifier wasmHash _ _ =>
    [Xdr.symbol (js "attested"), Xdr.address verifier, Xdr.bytes wasmHash.toList]
  | .slashed verifier wasmHash _ _ =>
    [Xdr.symbol (js "slashed"), Xdr.address verifier, Xdr.bytes wasmHash.toList]

/-- The value of an event. -/
def data : Event ScAddress → List UInt8
  | .staked _ amount => Xdr.map [(js "amount", Xdr.i128 amount)]
  | .unstakeRequested _ amount releaseLedger =>
    Xdr.map [(js "amount", Xdr.i128 amount), (js "release_ledger", Xdr.u32 releaseLedger)]
  | .withdrawn _ amount => Xdr.map [(js "amount", Xdr.i128 amount)]
  | .attested _ _ inputDigest rebuiltHash =>
    Xdr.map [(js "input_digest", Xdr.bytes inputDigest.toList),
      (js "rebuilt_hash", Xdr.bytes rebuiltHash.toList)]
  | .slashed _ _ inputDigest amount =>
    Xdr.map [(js "amount", Xdr.i128 amount), (js "input_digest", Xdr.bytes inputDigest.toList)]

/-- The object the RPC hands out for an event, as far as it is read. -/
structure Carries (ledger : ℕ) (event : Event ScAddress) (v : JsValue) : Prop where
  present : v.isNullish = false
  topic : v.get (js "topic") = .array ((topics event).map fun b => .string (btoa b))
  value : v.get (js "value") = .string (btoa (data event))
  ledger : v.get (js "ledger") = .number ledger

/-- What an event says about a claim. -/
def claimOf (ledger : ℕ) : Event ScAddress → Option EventClaim
  | .attested verifier wasmHash inputDigest rebuiltHash =>
    some
      { wasmHash := toHex wasmHash.toList
        inputDigest := toHex inputDigest.toList
        rebuiltHash := .string (toHex rebuiltHash.toList)
        verifier := .string (toHex verifier.key.toList)
        ledger := .number ledger }
  | _ => none

/-! ## Reading back -/

section Reading

variable {rt : Runtime} {b rest s : List UInt8} {name : JsString} {v : JsValue} {depth fuel n : ℕ}

/-- The bytes are read as this value, whatever comes behind them. -/
def Reads (rt : Runtime) (depth : ℕ) (b : List UInt8) (v : JsValue) : Prop :=
  ∀ fuel rest, depth ≤ fuel → Reader.value rt fuel (b ++ rest) = .ok (v, rest)

theorem u32_toBeBytes (hn : n < 2 ^ 32) (rest : List UInt8) :
    Reader.u32 (toBeBytes n ++ rest) = .ok (n, rest) := by
  rw [Reader.u32, okOr_eq_ok]
  exact Codec.u32.decode_encode n hn rest

theorem length_filled (s : List UInt8) : (Xdr.filled s).length = padded s.length := by
  rw [Xdr.filled, List.length_append, List.length_replicate]
  unfold padded
  omega

theorem bytes_filled (s rest : List UInt8) :
    Reader.bytes s.length (Xdr.filled s ++ rest) = .ok (s, rest) := by
  simp only [Reader.bytes, bind_eq_ok, ensure_eq_ok, pure_eq_ok, Prod.mk.injEq]
  refine ⟨(), ?_, ?_, ?_⟩
  · rw [List.length_append, length_filled]
    unfold padded
    omega
  · rw [Xdr.filled, List.append_assoc, List.take_left]
  · rw [← length_filled, List.drop_left]

theorem bytes_thirtyTwo (key : Bytes32) (rest : List UInt8) :
    Reader.bytes 32 (key.toList ++ rest) = .ok (key.toList, rest) := by
  have hfilled : Xdr.filled key.toList = key.toList := by
    rw [Xdr.filled, key.length_toList]
    exact List.append_nil _
  have hread := bytes_filled key.toList rest
  rwa [hfilled, key.length_toList] at hread

/-- One value, behind its type. -/
theorem reads_of_body {type : ℕ} (htype : type < 2 ^ 32)
    (h : ∀ fuel rest, depth ≤ fuel →
      Reader.body rt (Reader.value rt fuel) type (b ++ rest) = .ok (v, rest)) :
    Reads rt (depth + 1) (toBeBytes type ++ b) v := by
  intro fuel rest hfuel
  obtain ⟨fuel, rfl⟩ : ∃ k, fuel = k + 1 := ⟨fuel - 1, by omega⟩
  rw [List.append_assoc]
  simp only [Reader.value, bind_eq_ok]
  exact ⟨_, u32_toBeBytes htype _, h fuel rest (by omega)⟩

/-- The name is one of ASCII characters. -/
def IsAscii (name : JsString) : Prop :=
  name.length < 2 ^ 32 ∧ ∀ u ∈ name, u.toNat < 128

instance : Decidable (IsAscii name) :=
  @instDecidableAnd _ _ (Nat.decLt _ _) (List.decidableBAll _ _)

theorem textDecode_ascii (h : IsAscii name) :
    textDecode rt (name.map fun u => UInt8.ofNat u.toNat) = name := by
  have hbyte : ∀ u ∈ name, (UInt8.ofNat u.toNat).toNat = u.toNat := by
    intro u hu
    have hlt := h.2 u hu
    rw [UInt8.toNat_ofNat']
    omega
  have hall : (name.map fun u => UInt8.ofNat u.toNat).all (fun b => b.toNat < 128) = true := by
    rw [List.all_map, List.all_eq_true]
    intro u hu
    rw [Function.comp_apply, hbyte u hu, decide_eq_true_eq]
    exact h.2 u hu
  rw [textDecode, if_pos hall, List.map_map]
  refine (List.map_congr_left fun u hu => ?_).trans (List.map_id name)
  rw [Function.comp_apply, hbyte u hu, UInt16.ofNat_toNat, id]

theorem reads_symbol (h : IsAscii name) : Reads rt 1 (Xdr.symbol name) (.string name) := by
  rw [Xdr.symbol, List.append_assoc]
  refine reads_of_body (by decide) fun fuel rest _ => ?_
  have hlen : (name.map fun u => UInt8.ofNat u.toNat).length = name.length := List.length_map ..
  have hread := bytes_filled (name.map fun u => UInt8.ofNat u.toNat) rest
  rw [hlen] at hread
  rw [List.append_assoc]
  simp only [Reader.body, bind_eq_ok, pure_eq_ok]
  refine ⟨_, u32_toBeBytes h.1 _, _, hread, ?_⟩
  rw [textDecode_ascii h]

theorem reads_bytes (h : s.length < 2 ^ 32) :
    Reads rt 1 (Xdr.bytes s) (.string (toHex s)) := by
  rw [Xdr.bytes, List.append_assoc]
  refine reads_of_body (by decide) fun fuel rest _ => ?_
  rw [List.append_assoc]
  simp only [Reader.body, bind_eq_ok, pure_eq_ok]
  exact ⟨_, u32_toBeBytes h _, _, bytes_filled s rest, rfl⟩

/-- A digest is read as its hexadecimal digits. -/
theorem reads_digest (digest : Bytes32) :
    Reads rt 1 (Xdr.bytes digest.toList) (.string (toHex digest.toList)) :=
  reads_bytes (by rw [digest.length_toList]; decide)

/-- An address as it is read. -/
def addressValue : ScAddress → JsValue
  | .account key => .object [(js "kind", .string (js "account")), (js "key", .string (toHex
      key.toList))] .null
  | .contract id => .object [(js "kind", .string (js "contract")), (js "key", .string (toHex
      id.toList))] .null

theorem addressValue_key (a : ScAddress) :
    (addressValue a).get (js "key") = .string (toHex a.key.toList) := by
  cases a <;> rfl

theorem reads_address (a : ScAddress) : Reads rt 1 (Xdr.address a) (addressValue a) := by
  cases a with
  | account key =>
    rw [Xdr.address, List.append_assoc, List.append_assoc]
    refine reads_of_body (by decide) fun fuel rest _ => ?_
    rw [List.append_assoc, List.append_assoc]
    simp only [Reader.body, bind_eq_ok, pure_eq_ok]
    exact ⟨_, u32_toBeBytes (by decide) _, _, u32_toBeBytes (by decide) _, _,
      bytes_thirtyTwo key rest, rfl⟩
  | contract id =>
    rw [Xdr.address, List.append_assoc]
    refine reads_of_body (by decide) fun fuel rest _ => ?_
    rw [List.append_assoc]
    simp only [Reader.body, bind_eq_ok, pure_eq_ok]
    exact ⟨_, u32_toBeBytes (by decide) _, (0, id.toList ++ rest), rfl, _,
      bytes_thirtyTwo id rest, rfl⟩

/-- A field of a map, and what it is read as. -/
structure Field where
  name : JsString
  bytes : List UInt8
  value : JsValue

/-- The fields are read one after the other. -/
theorem entries_fields {fields : List Field} {out : JsValue}
    (h : ∀ field ∈ fields, IsAscii field.name ∧ Reads rt depth field.bytes field.value)
    (hone : 1 ≤ depth) (hfuel : depth ≤ fuel) (rest : List UInt8) :
    Reader.entries rt (Reader.value rt fuel) fields.length out
        ((fields.flatMap fun field => Xdr.symbol field.name ++ field.bytes) ++ rest) =
      .ok (fields.foldl (fun out field => out.set field.name field.value) out, rest) := by
  induction fields generalizing out with
  | nil => rfl
  | cons field fields ih =>
    obtain ⟨hname, hvalue⟩ := h field List.mem_cons_self
    have hrest := @ih (out.set field.name field.value) fun f hf =>
      h f (List.mem_cons_of_mem _ hf)
    rw [List.flatMap_cons, List.append_assoc, List.append_assoc]
    simp only [List.length_cons, Reader.entries, bind_eq_ok]
    exact ⟨_, reads_symbol hname fuel _ (by omega), _, hvalue fuel _ hfuel, hrest⟩

theorem reads_map {fields : List Field} (hlen : fields.length < 2 ^ 32)
    (h : ∀ field ∈ fields, IsAscii field.name ∧ Reads rt depth field.bytes field.value)
    (hone : 1 ≤ depth) :
    Reads rt (depth + 1) (Xdr.map (fields.map fun field => (field.name, field.bytes)))
      (fields.foldl (fun out field => out.set field.name field.value) Reader.emptyObject) := by
  rw [Xdr.map, List.append_assoc, List.append_assoc, List.length_map, List.flatMap_map]
  refine reads_of_body (by decide) fun fuel rest hfuel => ?_
  rw [List.append_assoc, List.append_assoc]
  simp only [Reader.body, bind_eq_ok]
  refine ⟨_, u32_toBeBytes (by decide) _, ?_⟩
  rw [if_neg Nat.one_ne_zero]
  simp only [bind_eq_ok]
  exact ⟨_, u32_toBeBytes hlen _, entries_fields h hone hfuel rest⟩

theorem b64ToBytes_btoa (b : List UInt8) : b64ToBytes (btoa b) = .ok b := by
  have hchar : ∀ c ∈ Base64.encode b, (UInt16.toNat ∘ UInt16.ofNat) c = id c := by
    intro c hc
    have hlt := Base64.encode_lt c hc
    rw [Function.comp_apply, UInt16.toNat_ofNat']
    exact Nat.mod_eq_of_lt (by omega)
  rw [b64ToBytes, okOr_eq_ok, btoa, List.map_map]
  rw [List.map_congr_left hchar, List.map_id, Base64.decode_encode]

/-- What is read from bytes is decoded from their base64. -/
theorem decodeScVal_btoa (h : Reads rt depth b v) (hdepth : depth ≤ b.length) :
    decodeScVal rt (.string (btoa b)) = .ok v := by
  have hread := h b.length [] hdepth
  rw [List.append_nil] at hread
  simp only [decodeScVal, JsValue.toString, bind_eq_ok, pure_eq_ok]
  exact ⟨b, b64ToBytes_btoa b, _, hread, rfl⟩

/-! ## What an event says -/

variable {ledger : ℕ} {event : Event ScAddress}

/-- Whatever comes behind its type, a value takes four bytes. -/
theorem four_le_length (type : ℕ) (b : List UInt8) : 4 ≤ (toBeBytes type ++ b).length := by
  rw [List.length_append]
  exact Nat.le_add_right 4 b.length

theorem decode_symbol (h : IsAscii name) :
    decodeScVal rt (.string (btoa (Xdr.symbol name))) = .ok (.string name) := by
  refine decodeScVal_btoa (reads_symbol h) ?_
  rw [Xdr.symbol, List.append_assoc]
  exact le_trans (by decide) (four_le_length ..)

theorem decode_digest (digest : Bytes32) :
    decodeScVal rt (.string (btoa (Xdr.bytes digest.toList))) =
      .ok (.string (toHex digest.toList)) := by
  refine decodeScVal_btoa (reads_digest digest) ?_
  rw [Xdr.bytes, List.append_assoc]
  exact le_trans (by decide) (four_le_length ..)

theorem decode_address (a : ScAddress) :
    decodeScVal rt (.string (btoa (Xdr.address a))) = .ok (addressValue a) := by
  refine decodeScVal_btoa (reads_address a) ?_
  cases a <;>
  · simp only [Xdr.address, List.append_assoc]
    exact le_trans (by decide) (four_le_length ..)

/-- The value of an attestation is an object with its two digests. -/
theorem decode_attested (verifier : ScAddress) (wasmHash inputDigest rebuiltHash : Bytes32) :
    ∃ v, decodeScVal rt
        (.string (btoa (data (.attested verifier wasmHash inputDigest rebuiltHash)))) = .ok v ∧
      v.get (js "input_digest") = .string (toHex inputDigest.toList) ∧
      v.get (js "rebuilt_hash") = .string (toHex rebuiltHash.toList) := by
  let digest : Field :=
    ⟨js "input_digest", Xdr.bytes inputDigest.toList, .string (toHex inputDigest.toList)⟩
  let rebuilt : Field :=
    ⟨js "rebuilt_hash", Xdr.bytes rebuiltHash.toList, .string (toHex rebuiltHash.toList)⟩
  have hfields : ∀ field ∈ [digest, rebuilt],
      IsAscii field.name ∧ Reads rt 1 field.bytes field.value := by
    intro field hfield
    rcases List.mem_pair.1 hfield with rfl | rfl
    · exact ⟨show IsAscii (js "input_digest") by decide, reads_digest inputDigest⟩
    · exact ⟨show IsAscii (js "rebuilt_hash") by decide, reads_digest rebuiltHash⟩
  have hcount : [digest, rebuilt].length < 2 ^ 32 := show 2 < 2 ^ 32 by decide
  have hmap := reads_map hcount hfields le_rfl
  have hlen : 1 + 1 ≤ (Xdr.map ([digest, rebuilt].map fun f => (f.name, f.bytes))).length := by
    rw [Xdr.map, List.append_assoc, List.append_assoc]
    exact le_trans (by decide) (four_le_length ..)
  exact ⟨_, decodeScVal_btoa hmap hlen, rfl, rfl⟩

/-- **An attestation is read back, and nothing else is taken for one.** -/
theorem claimFromEvent_of_carries {v : JsValue} (h : Carries ledger event v) :
    claimFromEvent rt v = .ok (claimOf ledger event) := by
  have hread : v.read (js "topic") =
      .ok (.array ((topics event).map fun b => .string (btoa b))) := by
    unfold JsValue.read
    rw [if_neg (by rw [h.present]; decide), h.topic]
    rfl
  have hthree : ¬ numLt (some 3) (some 3) = true := by decide
  unfold claimFromEvent
  simp only [bind_eq_ok]
  refine ⟨_, hread, ?_⟩
  cases event with
  | staked verifier amount => rfl
  | unstakeRequested verifier amount releaseLedger => rfl
  | withdrawn verifier amount => rfl
  | slashed verifier wasmHash inputDigest amount =>
    -- three topics, but another name
    refine (if_neg hthree).trans ?_
    simp only [bind_eq_ok]
    exact ⟨_, decode_symbol (show IsAscii (js "slashed") by decide), rfl⟩
  | attested verifier wasmHash inputDigest rebuiltHash =>
    obtain ⟨value, hvalue, hdigest, hrebuilt⟩ :=
      @decode_attested rt verifier wasmHash inputDigest rebuiltHash
    refine (if_neg hthree).trans ?_
    simp only [bind_eq_ok]
    refine ⟨_, decode_symbol (show IsAscii (js "attested") by decide), ?_⟩
    refine (if_neg (not_not_intro rfl)).trans ?_
    simp only [bind_eq_ok]
    refine ⟨_, decode_digest wasmHash, value, ?_, ?_⟩
    · rw [h.value]
      exact hvalue
    · rw [hdigest]
      simp only [bind_eq_ok]
      refine ⟨_, decode_address verifier, ?_⟩
      rw [hrebuilt, h.ledger, addressValue_key]
      rfl

end Reading

end Gate
end Sorofy
