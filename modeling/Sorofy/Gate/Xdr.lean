import Mathlib.Algebra.Group.Int.Defs
import Sorofy.Foundation.Base64
import Sorofy.Gate.Value

/-!
# Reading an `ScVal`

`web/gate/lib/xdr.js`.  The reader's position is the list of the bytes it has not read; what a
field is padded with is skipped where there is any.

A value that contains values is read by recursion, and each of them takes at least the four bytes
of its type.  So as many bytes as there are bound the depth of the recursion (`value_fuel`).
-/

namespace Sorofy
namespace Gate

open Foundation

/-- `atob`, with the bytes of the binary string it returns. -/
def b64ToBytes (b64 : JsString) : Except JsString (List UInt8) :=
  okOr (Base64.decode (b64.map UInt16.toNat))
    (js "The string to be decoded is not correctly encoded.")

/-- `btoa`, of the binary string with these bytes. -/
def btoa (bytes : List UInt8) : JsString :=
  (Base64.encode bytes).map UInt16.ofNat

/-- `padded`. -/
def padded (n : ℕ) : ℕ :=
  n + (4 - n % 4) % 4

/-- `new TextDecoder().decode(bytes)`: ASCII bytes are the characters they number. -/
def textDecode (rt : Runtime) (bytes : List UInt8) : JsString :=
  if bytes.all (fun b => b.toNat < 128) then bytes.map fun b => UInt16.ofNat b.toNat
  else rt.utf8 bytes

namespace Reader

/-- What a read gives: a value, and what is left to read. -/
abbrev Read (α : Type) : Type := List UInt8 → Except JsString (α × List UInt8)

/-- `u32`. -/
def u32 : Read ℕ := fun b =>
  okOr (Codec.u32.decode b) (js "XDR: ran off the end")

/-- `bytes`. -/
def bytes (n : ℕ) : Read (List UInt8) := fun b => do
  ensure (n ≤ b.length) (js "XDR: ran off the end")
  pure (b.take n, b.drop (padded n))

/-- The elements of a vector. -/
def elements (value : Read JsValue) : ℕ → Read (List JsValue)
  | 0, b => pure ([], b)
  | n + 1, b => do
    let (v, b) ← value b
    let (vs, b) ← elements value n b
    pure (v :: vs, b)

/-- The loop over the entries of a map. -/
def entries (rt : Runtime) (value : Read JsValue) : ℕ → JsValue → Read JsValue
  | 0, out, b => pure (out, b)
  | n + 1, out, b => do
    let (k, b) ← value b
    let (v, b) ← value b
    entries rt value n (out.set (k.toString rt) v) b

/-- The type of its key, which follows an account. -/
def keyType (kind : ℕ) : Read ℕ := fun b =>
  if kind = 0 then u32 b else pure (0, b)

/-- The object without properties. -/
def emptyObject : JsValue :=
  .object [] .null

/-- The value of a type, where `value` reads the values it contains. -/
def body (rt : Runtime) (value : Read JsValue) : ℕ → Read JsValue
  | 3, b => do
    let (n, b) ← u32 b
    pure (.number n, b)
  | 15, b => do
    let (n, b) ← u32 b
    let (s, b) ← bytes n b
    pure (.string (textDecode rt s), b)
  | 13, b => do
    let (n, b) ← u32 b
    let (s, b) ← bytes n b
    pure (.string (toHex s), b)
  | 18, b => do
    let (kind, b) ← u32 b
    let (_, b) ← keyType kind b
    let (key, b) ← bytes 32 b
    pure (.object [(js "kind", .string (if kind = 0 then js "account" else js "contract")),
      (js "key", .string (toHex key))] .null, b)
  | 16, b => do
    let (present, b) ← u32 b
    if present = 0 then pure (.array [], b)
    else
      let (len, b) ← u32 b
      let (vs, b) ← elements value len b
      pure (.array vs, b)
  | 17, b => do
    let (present, b) ← u32 b
    if present = 0 then pure (emptyObject, b)
    else
      let (len, b) ← u32 b
      entries rt value len emptyObject b
  | type, _ => throw (js ("XDR: unsupported ScVal type " ++ ToString.toString type))

/-- `value`, to the given depth. -/
def value (rt : Runtime) : ℕ → Read JsValue
  | 0, _ => throw (js "XDR: ran off the end")
  | fuel + 1, b => do
    let (type, b) ← u32 b
    body rt (value rt fuel) type b

end Reader

/-- `decodeScVal`. -/
def decodeScVal (rt : Runtime) (b64 : JsValue) : Except JsString JsValue := do
  let b ← b64ToBytes (b64.toString rt)
  let (v, _) ← Reader.value rt b.length b
  pure v

/-! ## How much is read -/

namespace Reader

variable {rt : Runtime} {b rest : List UInt8}

theorem u32_length {n : ℕ} (h : u32 b = .ok (n, rest)) : rest.length + 4 = b.length := by
  rw [u32, okOr_eq_ok] at h
  match b with
  | _ :: _ :: _ :: _ :: _ =>
    cases h
    rfl
  | [] | [_] | [_, _] | [_, _, _] => cases h

theorem bytes_length {n : ℕ} {s : List UInt8} (h : bytes n b = .ok (s, rest)) :
    rest.length ≤ b.length := by
  simp only [bytes, bind_eq_ok, ensure_eq_ok, pure_eq_ok, Prod.mk.injEq] at h
  obtain ⟨-, -, -, rfl⟩ := h
  rw [List.length_drop]
  exact Nat.sub_le ..

/-- A read that leaves no more than it found. -/
def Shrinks {α : Type} (r : Read α) : Prop :=
  ∀ b a rest, r b = .ok (a, rest) → rest.length ≤ b.length

theorem u32_shrinks : Shrinks u32 := fun _ _ _ h => by
  have hlen := u32_length h
  omega

theorem keyType_shrinks (kind : ℕ) : Shrinks (keyType kind) := by
  intro b t rest h
  unfold keyType at h
  split at h
  · exact u32_shrinks _ _ _ h
  · cases h
    exact le_rfl

theorem elements_shrinks {value : Read JsValue} (hvalue : Shrinks value) (n : ℕ) :
    Shrinks (elements value n) := by
  induction n with
  | zero =>
    intro b vs rest h
    cases h
    exact le_rfl
  | succ n ih =>
    intro b vs rest h
    simp only [elements, bind_eq_ok, pure_eq_ok] at h
    obtain ⟨⟨v, b₁⟩, hv, ⟨vs', b₂⟩, hvs, heq⟩ := h
    cases heq
    exact (ih _ _ _ hvs).trans (hvalue _ _ _ hv)

theorem entries_shrinks {value : Read JsValue} (hvalue : Shrinks value) (n : ℕ) (out : JsValue) :
    Shrinks (entries rt value n out) := by
  induction n generalizing out with
  | zero =>
    intro b v rest h
    cases h
    exact le_rfl
  | succ n ih =>
    intro b v rest h
    simp only [entries, bind_eq_ok] at h
    obtain ⟨⟨k, b₁⟩, hk, ⟨v', b₂⟩, hv, hrest⟩ := h
    exact ((ih _ _ _ _ hrest).trans (hvalue _ _ _ hv)).trans (hvalue _ _ _ hk)

theorem body_shrinks {value : Read JsValue} (hvalue : Shrinks value) (type : ℕ) :
    Shrinks (body rt value type) := by
  intro b v rest h
  unfold body at h
  split at h
  · simp only [bind_eq_ok, pure_eq_ok] at h
    obtain ⟨⟨n, b₁⟩, hn, heq⟩ := h
    cases heq
    exact u32_shrinks _ _ _ hn
  · simp only [bind_eq_ok, pure_eq_ok] at h
    obtain ⟨⟨n, b₁⟩, hn, ⟨s, b₂⟩, hs, heq⟩ := h
    cases heq
    exact (bytes_length hs).trans (u32_shrinks _ _ _ hn)
  · simp only [bind_eq_ok, pure_eq_ok] at h
    obtain ⟨⟨n, b₁⟩, hn, ⟨s, b₂⟩, hs, heq⟩ := h
    cases heq
    exact (bytes_length hs).trans (u32_shrinks _ _ _ hn)
  · simp only [bind_eq_ok, pure_eq_ok] at h
    obtain ⟨⟨kind, b₁⟩, hkind, ⟨t, b₂⟩, ht, ⟨key, b₃⟩, hkey, heq⟩ := h
    cases heq
    exact ((bytes_length hkey).trans (keyType_shrinks kind _ _ _ ht)).trans
      (u32_shrinks _ _ _ hkind)
  · simp only [bind_eq_ok] at h
    obtain ⟨⟨present, b₁⟩, hpresent, h⟩ := h
    split at h
    · cases h
      exact u32_shrinks _ _ _ hpresent
    · simp only [bind_eq_ok, pure_eq_ok] at h
      obtain ⟨⟨len, b₂⟩, hlen, ⟨vs, b₃⟩, hvs, heq⟩ := h
      cases heq
      exact ((elements_shrinks hvalue _ _ _ _ hvs).trans (u32_shrinks _ _ _ hlen)).trans
        (u32_shrinks _ _ _ hpresent)
  · simp only [bind_eq_ok] at h
    obtain ⟨⟨present, b₁⟩, hpresent, h⟩ := h
    split at h
    · cases h
      exact u32_shrinks _ _ _ hpresent
    · simp only [bind_eq_ok] at h
      obtain ⟨⟨len, b₂⟩, hlen, h⟩ := h
      exact ((entries_shrinks hvalue _ _ _ _ _ h).trans (u32_shrinks _ _ _ hlen)).trans
        (u32_shrinks _ _ _ hpresent)
  · cases h

theorem value_shrinks (fuel : ℕ) : Shrinks (value rt fuel) := by
  induction fuel with
  | zero =>
    intro b v rest h
    cases h
  | succ fuel ih =>
    intro b v rest h
    simp only [value, bind_eq_ok] at h
    obtain ⟨⟨type, b₁⟩, htype, h⟩ := h
    exact (body_shrinks ih type _ _ _ h).trans (u32_shrinks _ _ _ htype)

/-! ## The depth is enough -/

section Agreement

variable {r r' : Read JsValue} {n : ℕ}

theorem elements_congr (hr : Shrinks r) (h : ∀ c, c.length ≤ b.length → r c = r' c) :
    elements r n b = elements r' n b := by
  induction n generalizing b with
  | zero => rfl
  | succ n ih =>
    rw [elements, elements, ← h b le_rfl]
    cases hv : r b with
    | error e => rfl
    | ok p =>
      have hle := hr b p.1 p.2 hv
      have hrest := ih fun c hc => h c (hc.trans hle)
      show (elements r n p.2 >>= _) = elements r' n p.2 >>= _
      rw [hrest]

theorem entries_congr {out : JsValue} (hr : Shrinks r)
    (h : ∀ c, c.length ≤ b.length → r c = r' c) :
    entries rt r n out b = entries rt r' n out b := by
  induction n generalizing b out with
  | zero => rfl
  | succ n ih =>
    rw [entries, entries, ← h b le_rfl]
    cases hk : r b with
    | error e => rfl
    | ok p =>
      have hle := hr b p.1 p.2 hk
      show (r p.2 >>= _) = r' p.2 >>= _
      rw [← h p.2 hle]
      cases hv : r p.2 with
      | error e => rfl
      | ok q => exact ih fun c hc => h c ((hc.trans (hr _ _ _ hv)).trans hle)

theorem body_congr (hr : Shrinks r) (h : ∀ c, c.length ≤ b.length → r c = r' c) (type : ℕ) :
    body rt r type b = body rt r' type b := by
  have hread : ∀ {b₁ : List UInt8} {n : ℕ}, u32 b = .ok (n, b₁) → ∀ {b₂ : List UInt8} {m : ℕ},
      u32 b₁ = .ok (m, b₂) → ∀ c, c.length ≤ b₂.length → r c = r' c := by
    intro b₁ n hn b₂ m hm c hc
    exact h c ((hc.trans (u32_shrinks _ _ _ hm)).trans (u32_shrinks _ _ _ hn))
  unfold body
  split
  all_goals try rfl
  · cases hp : u32 b with
    | error e => rfl
    | ok p =>
      cases hl : u32 p.2 with
      | error e => simp only [Except.bind, bind, hl]
      | ok q => simp only [Except.bind, bind, hl, elements_congr hr (hread hp hl)]
  · cases hp : u32 b with
    | error e => rfl
    | ok p =>
      cases hl : u32 p.2 with
      | error e => simp only [Except.bind, bind, hl]
      | ok q => simp only [Except.bind, bind, hl, entries_congr hr (hread hp hl)]

end Agreement

theorem value_succ {fuel : ℕ} (h : b.length ≤ fuel) :
    value rt (fuel + 1) b = value rt fuel b := by
  induction fuel generalizing b with
  | zero =>
    rw [List.length_eq_zero_iff.1 (Nat.le_zero.1 h)]
    rfl
  | succ fuel ih =>
    rw [value, value]
    cases htype : u32 b with
    | error e => rfl
    | ok p =>
      have hlen := u32_length htype
      refine body_congr (value_shrinks _) (fun c hc => ih ?_) p.1
      omega

/-- **No value is cut off**: where there are no more bytes than the depth, more depth changes
nothing. -/
theorem value_fuel {fuel : ℕ} (h : b.length ≤ fuel) :
    value rt fuel b = value rt b.length b := by
  induction fuel with
  | zero => rw [Nat.le_zero.1 h]
  | succ fuel ih =>
    rcases Nat.lt_or_ge fuel b.length with hlt | hge
    · rw [show b.length = fuel + 1 by omega]
    · rw [value_succ hge, ih hge]

end Reader
end Gate
end Sorofy
