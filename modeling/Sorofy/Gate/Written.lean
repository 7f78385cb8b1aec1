import Sorofy.Gate.ScVal

/-!
# What the reader accepts

`web/gate/lib/xdr.js` promises that every value it cannot read throws.  It does not look at all
that it reads: it takes any flag but 0 for "present", any kind of address but 0 for a contract, any
key for that of an Ed25519 account, any padding, and it is content with what it has read when
there is more.

`Written` is a value with the bytes it passes over, so that what it returns for is what such a
value can look like (`value_eq_ok`).  The ways in which it can differ from an encoding are listed
by `Sloppy`.  Both directions go along the bytes, which are fewer for a value within another.
-/

namespace Sorofy
namespace Gate

open Foundation
open Registry (Bytes32)

/-- A value as it is written, with what an encoder has no choice about. -/
inductive Written where
  | u32 (n : ℕ)
  | symbol (s pad : List UInt8)
  | bytes (s pad : List UInt8)
  | account (keyType : ℕ) (key : Bytes32)
  | contract (kind : ℕ) (id : Bytes32)
  | absentVec
  | vec (flag : ℕ) (elems : List Written)
  | absentMap
  | map (flag : ℕ) (fields : List (Written × Written))

/-- How many bytes a field of this length is filled up with. -/
def padding (n : ℕ) : ℕ :=
  (4 - n % 4) % 4

/-- The field may be followed by this padding: what is missing is missing at the end. -/
def Pads (n : ℕ) (pad rest : List UInt8) : Prop :=
  pad.length ≤ padding n ∧ (pad.length < padding n → rest = [])

namespace Written

/-- The number of its type. -/
def type : Written → ℕ
  | .u32 _ => 3
  | .symbol _ _ => 15
  | .bytes _ _ => 13
  | .account _ _ => 18
  | .contract _ _ => 18
  | .absentVec => 16
  | .vec _ _ => 16
  | .absentMap => 17
  | .map _ _ => 17

mutual

/-- The bytes behind the type. -/
def content : Written → List UInt8
  | .u32 n => toBeBytes n
  | .symbol s pad => toBeBytes s.length ++ (s ++ pad)
  | .bytes s pad => toBeBytes s.length ++ (s ++ pad)
  | .account keyType key => toBeBytes 0 ++ (toBeBytes keyType ++ key.toList)
  | .contract kind id => toBeBytes kind ++ id.toList
  | .absentVec => toBeBytes 0
  | .vec flag elems => toBeBytes flag ++ (toBeBytes elems.length ++ renderAll elems)
  | .absentMap => toBeBytes 0
  | .map flag fields => toBeBytes flag ++ (toBeBytes fields.length ++ renderFields fields)

/-- One value after the other. -/
def renderAll : List Written → List UInt8
  | [] => []
  | w :: ws => toBeBytes w.type ++ content w ++ renderAll ws

/-- Each key with its value. -/
def renderFields : List (Written × Written) → List UInt8
  | [] => []
  | (k, v) :: fields =>
    toBeBytes k.type ++ content k ++ (toBeBytes v.type ++ content v ++ renderFields fields)

end

/-- The bytes. -/
def render (w : Written) : List UInt8 :=
  toBeBytes w.type ++ w.content

mutual

/-- What is counted fits its word, what is said to be present is, and nothing is missing but the
padding at the end of all. -/
def Fits : Written → List UInt8 → Prop
  | .u32 n, _ => n < 2 ^ 32
  | .symbol s pad, rest => s.length < 2 ^ 32 ∧ Pads s.length pad rest
  | .bytes s pad, rest => s.length < 2 ^ 32 ∧ Pads s.length pad rest
  | .account keyType _, _ => keyType < 2 ^ 32
  | .contract kind _, _ => kind < 2 ^ 32 ∧ kind ≠ 0
  | .absentVec, _ => True
  | .vec flag elems, rest =>
    flag < 2 ^ 32 ∧ flag ≠ 0 ∧ elems.length < 2 ^ 32 ∧ AllFit elems rest
  | .absentMap, _ => True
  | .map flag fields, rest =>
    flag < 2 ^ 32 ∧ flag ≠ 0 ∧ fields.length < 2 ^ 32 ∧ FieldsFit fields rest

/-- The elements fit, each with the next ones behind it. -/
def AllFit : List Written → List UInt8 → Prop
  | [], _ => True
  | w :: ws, rest => Fits w (renderAll ws ++ rest) ∧ AllFit ws rest

/-- The fields fit, each with the next ones behind it. -/
def FieldsFit : List (Written × Written) → List UInt8 → Prop
  | [], _ => True
  | (k, v) :: fields, rest =>
    Fits k (v.render ++ (renderFields fields ++ rest)) ∧ Fits v (renderFields fields ++ rest) ∧
      FieldsFit fields rest

end

mutual

/-- What the reader makes of it. -/
def toJs (rt : Runtime) : Written → JsValue
  | .u32 n => .number n
  | .symbol s _ => .string (textDecode rt s)
  | .bytes s _ => .string (toHex s)
  | .account _ key => addressValue (.account key)
  | .contract _ id => addressValue (.contract id)
  | .absentVec => .array []
  | .vec _ elems => .array (allToJs rt elems)
  | .absentMap => Reader.emptyObject
  | .map _ fields => setAll rt fields Reader.emptyObject

/-- The elements of an array. -/
def allToJs (rt : Runtime) : List Written → List JsValue
  | [] => []
  | w :: ws => toJs rt w :: allToJs rt ws

/-- The properties are set one after the other, each under the string that its key is. -/
def setAll (rt : Runtime) : List (Written × Written) → JsValue → JsValue
  | [], out => out
  | (k, v) :: fields, out => setAll rt fields (out.set ((toJs rt k).toString rt) (toJs rt v))

end

end Written

/-! ## What is read -/

section Reading

variable {rt : Runtime} {b rest s : List UInt8} {n N : ℕ} {v : JsValue}

theorem u32_eq_ok : Reader.u32 b = .ok (n, rest) ↔ n < 2 ^ 32 ∧ b = toBeBytes n ++ rest := by
  constructor
  · intro h
    rw [Reader.u32, okOr_eq_ok] at h
    rcases b with _ | ⟨b₃, _ | ⟨b₂, _ | ⟨b₁, _ | ⟨b₀, tail⟩⟩⟩⟩
    case cons.cons.cons.cons =>
      cases h
      have h₃ := b₃.toNat_lt
      have h₂ := b₂.toNat_lt
      have h₁ := b₁.toNat_lt
      have h₀ := b₀.toNat_lt
      have hbyte : ∀ (c : UInt8) (m : ℕ), m % 256 = c.toNat → UInt8.ofNat m = c := by
        intro c m hm
        rw [← UInt8.toNat_inj, UInt8.toNat_ofNat']
        exact hm
      refine ⟨by omega, ?_⟩
      rw [toBeBytes, hbyte b₃ _ (by omega), hbyte b₂ _ (by omega), hbyte b₁ _ (by omega),
        hbyte b₀ _ (by omega)]
      rfl
    all_goals cases h
  · rintro ⟨hn, rfl⟩
    exact u32_toBeBytes hn rest

theorem padded_eq (n : ℕ) : padded n = n + padding n := rfl

theorem bytes_eq_ok : Reader.bytes n b = .ok (s, rest) ↔
    s.length = n ∧ ∃ pad, b = s ++ (pad ++ rest) ∧ Pads n pad rest := by
  simp only [Reader.bytes, bind_eq_ok, ensure_eq_ok, pure_eq_ok, Prod.mk.injEq, exists_const]
  constructor
  · rintro ⟨hle, rfl, rfl⟩
    refine ⟨List.length_take_of_le hle, (b.drop n).take (padding n), ?_, List.length_take_le .., ?_⟩
    · rw [padded_eq, ← List.drop_drop, List.take_append_drop, List.take_append_drop]
    · intro hshort
      rw [List.length_take, List.length_drop] at hshort
      rw [padded_eq, List.drop_eq_nil_iff]
      omega
  · rintro ⟨rfl, pad, rfl, hle, hshort⟩
    refine ⟨by simp, List.take_left, ?_⟩
    rw [padded_eq, ← List.drop_drop, List.drop_left]
    rcases hle.lt_or_eq with hlt | heq
    · rw [hshort hlt, List.append_nil, List.drop_eq_nil_iff]
      exact hle
    · rw [← heq, List.drop_left]

/-- What is read from at most `N` bytes is what a value can look like. -/
def Accepts (rt : Runtime) (N : ℕ) (r : Reader.Read JsValue) : Prop :=
  ∀ b v rest, b.length ≤ N → (r b = .ok (v, rest) ↔
    ∃ w : Written, w.Fits rest ∧ b = w.render ++ rest ∧ w.toJs rt = v)

variable {r : Reader.Read JsValue}

theorem elements_eq_ok (hr : Accepts rt N r) (hb : b.length ≤ N) {vs : List JsValue} :
    Reader.elements r n b = .ok (vs, rest) ↔ ∃ ws : List Written, ws.length = n ∧
      Written.AllFit ws rest ∧ b = Written.renderAll ws ++ rest ∧ Written.allToJs rt ws = vs := by
  induction n generalizing b vs with
  | zero =>
    simp only [Reader.elements, pure_eq_ok, Prod.mk.injEq]
    constructor
    · rintro ⟨rfl, rfl⟩
      exact ⟨[], rfl, trivial, rfl, rfl⟩
    · rintro ⟨ws, hlen, -, rfl, rfl⟩
      rw [List.length_eq_zero_iff.mp hlen]
      exact ⟨rfl, rfl⟩
  | succ n ih =>
    simp only [Reader.elements, bind_eq_ok, pure_eq_ok]
    constructor
    · rintro ⟨⟨v, b₁⟩, hv, ⟨vs', b₂⟩, hvs, heq⟩
      cases heq
      obtain ⟨w, hfit, rfl, rfl⟩ := (hr _ _ _ hb).mp hv
      have hb₁ : b₁.length ≤ N := by
        rw [List.length_append] at hb
        omega
      obtain ⟨ws, rfl, hfits, rfl, rfl⟩ := (ih hb₁).mp hvs
      exact ⟨w :: ws, rfl, ⟨hfit, hfits⟩, (List.append_assoc ..).symm, rfl⟩
    · rintro ⟨ws, hlen, hfits, rfl, rfl⟩
      cases ws with
      | nil => cases hlen
      | cons w ws =>
        have happ : Written.renderAll (w :: ws) ++ rest =
            w.render ++ (Written.renderAll ws ++ rest) := List.append_assoc ..
        rw [happ] at hb ⊢
        have hws : (Written.renderAll ws ++ rest).length ≤ N := by
          rw [List.length_append] at hb
          omega
        exact ⟨_, (hr _ _ _ hb).mpr ⟨w, hfits.1, rfl, rfl⟩, _,
          (ih hws).mpr ⟨ws, Nat.succ.inj hlen, hfits.2, rfl, rfl⟩, rfl⟩

theorem entries_eq_ok (hr : Accepts rt N r) (hb : b.length ≤ N) {out : JsValue} :
    Reader.entries rt r n out b = .ok (v, rest) ↔ ∃ fields : List (Written × Written),
      fields.length = n ∧ Written.FieldsFit fields rest ∧ b = Written.renderFields fields ++ rest ∧
        Written.setAll rt fields out = v := by
  induction n generalizing b out with
  | zero =>
    simp only [Reader.entries, pure_eq_ok, Prod.mk.injEq]
    constructor
    · rintro ⟨rfl, rfl⟩
      exact ⟨[], rfl, trivial, rfl, rfl⟩
    · rintro ⟨fields, hlen, -, rfl, rfl⟩
      rw [List.length_eq_zero_iff.mp hlen]
      exact ⟨rfl, rfl⟩
  | succ n ih =>
    simp only [Reader.entries, bind_eq_ok]
    constructor
    · rintro ⟨⟨_, b₁⟩, hk, ⟨_, b₂⟩, hv, hrest⟩
      obtain ⟨k, hkfit, rfl, rfl⟩ := (hr _ _ _ hb).mp hk
      have hb₁ : b₁.length ≤ N := by
        rw [List.length_append] at hb
        omega
      obtain ⟨w, hwfit, rfl, rfl⟩ := (hr _ _ _ hb₁).mp hv
      have hb₂ : b₂.length ≤ N := by
        rw [List.length_append] at hb₁
        omega
      obtain ⟨fields, rfl, hfits, rfl, rfl⟩ := (ih hb₂).mp hrest
      refine ⟨(k, w) :: fields, rfl, ⟨hkfit, hwfit, hfits⟩, ?_, rfl⟩
      simp [Written.renderFields, Written.render]
    · rintro ⟨fields, hlen, hfits, rfl, rfl⟩
      cases fields with
      | nil => cases hlen
      | cons field fields =>
        obtain ⟨k, w⟩ := field
        have happ : Written.renderFields ((k, w) :: fields) ++ rest =
            k.render ++ (w.render ++ (Written.renderFields fields ++ rest)) := by
          simp [Written.renderFields, Written.render]
        rw [happ] at hb ⊢
        have hb₁ : (w.render ++ (Written.renderFields fields ++ rest)).length ≤ N := by
          rw [List.length_append] at hb
          omega
        have hb₂ : (Written.renderFields fields ++ rest).length ≤ N := by
          rw [List.length_append] at hb₁
          omega
        exact ⟨_, (hr _ _ _ hb).mpr ⟨k, hfits.1, rfl, rfl⟩, _,
          (hr _ _ _ hb₁).mpr ⟨w, hfits.2.1, rfl, rfl⟩,
          (ih hb₂).mpr ⟨fields, Nat.succ.inj hlen, hfits.2.2, rfl, rfl⟩⟩

theorem bytes_thirtyTwo_eq_ok : Reader.bytes 32 b = .ok (s, rest) ↔
    ∃ key : Bytes32, s = key.toList ∧ b = key.toList ++ rest := by
  rw [bytes_eq_ok]
  constructor
  · rintro ⟨hlen, pad, rfl, hle, -⟩
    have hpad : pad = [] := List.length_eq_zero_iff.mp (Nat.le_zero.mp hle)
    exact ⟨⟨s, hlen⟩, rfl, by rw [hpad, List.nil_append]⟩
  · rintro ⟨key, rfl, rfl⟩
    exact ⟨key.length_toList, [], rfl, Nat.zero_le _, fun h => absurd h (by decide)⟩

/-- Behind its type, what a value can look like is read. -/
theorem body_of_fits (hr : Accepts rt N r) {w : Written} (hfit : w.Fits rest)
    (hb : (w.content ++ rest).length ≤ N) :
    Reader.body rt r w.type (w.content ++ rest) = .ok (w.toJs rt, rest) := by
  cases w with
  | u32 n =>
    simp only [Written.type, Reader.body, bind_eq_ok, pure_eq_ok]
    exact ⟨_, u32_toBeBytes hfit rest, rfl⟩
  | symbol s pad =>
    simp only [Written.type, Written.content, List.append_assoc, Reader.body, bind_eq_ok,
      pure_eq_ok]
    exact ⟨_, u32_toBeBytes hfit.1 _, _, bytes_eq_ok.mpr ⟨rfl, pad, rfl, hfit.2⟩, rfl⟩
  | bytes s pad =>
    simp only [Written.type, Written.content, List.append_assoc, Reader.body, bind_eq_ok,
      pure_eq_ok]
    exact ⟨_, u32_toBeBytes hfit.1 _, _, bytes_eq_ok.mpr ⟨rfl, pad, rfl, hfit.2⟩, rfl⟩
  | account keyType key =>
    simp only [Written.type, Written.content, List.append_assoc, Reader.body, bind_eq_ok,
      pure_eq_ok]
    exact ⟨_, u32_toBeBytes (by decide) _, _, u32_toBeBytes hfit _, _,
      bytes_thirtyTwo key rest, rfl⟩
  | contract kind id =>
    simp only [Written.type, Written.content, List.append_assoc, Reader.body, bind_eq_ok,
      pure_eq_ok]
    have hkind : Reader.keyType kind (id.toList ++ rest) = .ok (0, id.toList ++ rest) := by
      rw [Reader.keyType, if_neg hfit.2, pure_eq_ok]
    refine ⟨_, u32_toBeBytes hfit.1 _, _, hkind, _, bytes_thirtyTwo id rest, ?_⟩
    rw [if_neg hfit.2]
    rfl
  | absentVec =>
    simp only [Written.type, Reader.body, bind_eq_ok]
    exact ⟨_, u32_toBeBytes (by decide) rest, rfl⟩
  | vec flag elems =>
    obtain ⟨hflag, hpresent, hlen, hfits⟩ := hfit
    rw [Written.content, List.append_assoc, List.append_assoc] at hb ⊢
    have helems : (Written.renderAll elems ++ rest).length ≤ N := by
      rw [List.length_append, List.length_append] at hb
      omega
    simp only [Written.type, Reader.body, bind_eq_ok]
    refine ⟨_, u32_toBeBytes hflag _, ?_⟩
    rw [if_neg hpresent]
    simp only [bind_eq_ok, pure_eq_ok]
    exact ⟨_, u32_toBeBytes hlen _, _,
      (elements_eq_ok hr helems).mpr ⟨elems, rfl, hfits, rfl, rfl⟩, rfl⟩
  | absentMap =>
    simp only [Written.type, Reader.body, bind_eq_ok]
    exact ⟨_, u32_toBeBytes (by decide) rest, rfl⟩
  | map flag fields =>
    obtain ⟨hflag, hpresent, hlen, hfits⟩ := hfit
    rw [Written.content, List.append_assoc, List.append_assoc] at hb ⊢
    have hfields : (Written.renderFields fields ++ rest).length ≤ N := by
      rw [List.length_append, List.length_append] at hb
      omega
    simp only [Written.type, Reader.body, bind_eq_ok]
    refine ⟨_, u32_toBeBytes hflag _, ?_⟩
    rw [if_neg hpresent]
    simp only [bind_eq_ok]
    exact ⟨_, u32_toBeBytes hlen _,
      (entries_eq_ok hr hfields).mpr ⟨fields, rfl, hfits, rfl, rfl⟩⟩

/-- Behind a type, nothing else is read. -/
theorem exists_of_body (hr : Accepts rt N r) (hb : b.length ≤ N) {type : ℕ}
    (h : Reader.body rt r type b = .ok (v, rest)) :
    ∃ w : Written, w.type = type ∧ w.Fits rest ∧ b = w.content ++ rest ∧ w.toJs rt = v := by
  unfold Reader.body at h
  split at h
  · simp only [bind_eq_ok, pure_eq_ok] at h
    obtain ⟨⟨n, b₁⟩, hn, heq⟩ := h
    cases heq
    obtain ⟨hlt, rfl⟩ := u32_eq_ok.mp hn
    exact ⟨.u32 n, rfl, hlt, rfl, rfl⟩
  · simp only [bind_eq_ok, pure_eq_ok] at h
    obtain ⟨⟨n, b₁⟩, hn, ⟨s, b₂⟩, hs, heq⟩ := h
    cases heq
    obtain ⟨hlt, rfl⟩ := u32_eq_ok.mp hn
    obtain ⟨rfl, pad, rfl, hpad⟩ := bytes_eq_ok.mp hs
    exact ⟨.symbol s pad, rfl, ⟨hlt, hpad⟩, by simp [Written.content], rfl⟩
  · simp only [bind_eq_ok, pure_eq_ok] at h
    obtain ⟨⟨n, b₁⟩, hn, ⟨s, b₂⟩, hs, heq⟩ := h
    cases heq
    obtain ⟨hlt, rfl⟩ := u32_eq_ok.mp hn
    obtain ⟨rfl, pad, rfl, hpad⟩ := bytes_eq_ok.mp hs
    exact ⟨.bytes s pad, rfl, ⟨hlt, hpad⟩, by simp [Written.content], rfl⟩
  · simp only [bind_eq_ok, pure_eq_ok] at h
    obtain ⟨⟨kind, b₁⟩, hkind, ⟨keyType, b₂⟩, hkeyType, ⟨s, b₃⟩, hkey, heq⟩ := h
    cases heq
    obtain ⟨hlt, rfl⟩ := u32_eq_ok.mp hkind
    obtain ⟨key, rfl, rfl⟩ := bytes_thirtyTwo_eq_ok.mp hkey
    unfold Reader.keyType at hkeyType
    split at hkeyType
    · rename_i haccount
      subst haccount
      obtain ⟨hltKey, rfl⟩ := u32_eq_ok.mp hkeyType
      exact ⟨.account keyType key, rfl, hltKey, by simp [Written.content], rfl⟩
    · rename_i hcontract
      cases hkeyType
      refine ⟨.contract kind key, rfl, ⟨hlt, hcontract⟩, by simp [Written.content], ?_⟩
      rw [if_neg hcontract]
      rfl
  · simp only [bind_eq_ok] at h
    obtain ⟨⟨flag, b₁⟩, hflag, h⟩ := h
    obtain ⟨hlt, rfl⟩ := u32_eq_ok.mp hflag
    split at h
    · rename_i habsent
      cases h
      have hzero : flag = 0 := habsent
      exact ⟨.absentVec, rfl, trivial, by rw [hzero]; rfl, rfl⟩
    · rename_i hpresent
      simp only [bind_eq_ok, pure_eq_ok] at h
      obtain ⟨⟨len, b₂⟩, hlen, ⟨vs, b₃⟩, hvs, heq⟩ := h
      cases heq
      obtain ⟨hltLen, rfl⟩ := u32_eq_ok.mp hlen
      have hb₂ : b₂.length ≤ N := by
        rw [List.length_append, List.length_append] at hb
        omega
      obtain ⟨elems, rfl, hfits, rfl, rfl⟩ := (elements_eq_ok hr hb₂).mp hvs
      exact ⟨.vec flag elems, rfl, ⟨hlt, hpresent, hltLen, hfits⟩, by simp [Written.content], rfl⟩
  · simp only [bind_eq_ok] at h
    obtain ⟨⟨flag, b₁⟩, hflag, h⟩ := h
    obtain ⟨hlt, rfl⟩ := u32_eq_ok.mp hflag
    split at h
    · rename_i habsent
      cases h
      have hzero : flag = 0 := habsent
      exact ⟨.absentMap, rfl, trivial, by rw [hzero]; rfl, rfl⟩
    · rename_i hpresent
      simp only [bind_eq_ok] at h
      obtain ⟨⟨len, b₂⟩, hlen, h⟩ := h
      obtain ⟨hltLen, rfl⟩ := u32_eq_ok.mp hlen
      have hb₂ : b₂.length ≤ N := by
        rw [List.length_append, List.length_append] at hb
        omega
      obtain ⟨fields, rfl, hfits, rfl, rfl⟩ := (entries_eq_ok hr hb₂).mp h
      exact ⟨.map flag fields, rfl, ⟨hlt, hpresent, hltLen, hfits⟩, by simp [Written.content], rfl⟩
  · cases h

theorem Written.type_lt (w : Written) : w.type < 2 ^ 32 := by
  cases w <;> simp [type]

theorem accepts_value (fuel : ℕ) : Accepts rt fuel (Reader.value rt fuel) := by
  induction fuel with
  | zero =>
    intro b v rest hb
    rw [List.length_eq_zero_iff.mp (Nat.le_zero.mp hb)]
    constructor
    · intro h
      cases h
    · rintro ⟨w, -, hb, -⟩
      cases hb
  | succ fuel ih =>
    intro b v rest hb
    simp only [Reader.value, bind_eq_ok]
    constructor
    · rintro ⟨⟨type, b₁⟩, htype, h⟩
      obtain ⟨-, rfl⟩ := u32_eq_ok.mp htype
      have hb₁ : b₁.length ≤ fuel := by
        rw [List.length_append] at hb
        have hfour : (toBeBytes type).length = 4 := rfl
        omega
      obtain ⟨w, rfl, hfit, rfl, rfl⟩ := exists_of_body ih hb₁ h
      exact ⟨w, hfit, (List.append_assoc ..).symm, rfl⟩
    · rintro ⟨w, hfit, rfl, rfl⟩
      rw [Written.render, List.append_assoc] at hb ⊢
      have hb₁ : (w.content ++ rest).length ≤ fuel := by
        rw [List.length_append] at hb
        have hfour : (toBeBytes w.type).length = 4 := rfl
        omega
      exact ⟨_, u32_toBeBytes w.type_lt _, body_of_fits ih hfit hb₁⟩

/-- **What is decoded is what a value can look like**, with anything behind it. -/
theorem decodeScVal_eq_ok : decodeScVal rt (.string (btoa b)) = .ok v ↔
    ∃ (w : Written) (rest : List UInt8), w.Fits rest ∧ b = w.render ++ rest ∧ w.toJs rt = v := by
  simp only [decodeScVal, JsValue.toString, bind_eq_ok, pure_eq_ok]
  constructor
  · rintro ⟨b', hb', ⟨v', rest⟩, hread, rfl⟩
    rw [b64ToBytes_btoa] at hb'
    cases hb'
    obtain ⟨w, hw⟩ := (accepts_value b.length b v' rest le_rfl).mp hread
    exact ⟨w, rest, hw⟩
  · rintro ⟨w, rest, hw⟩
    exact ⟨b, b64ToBytes_btoa b, (v, rest), (accepts_value b.length b v rest le_rfl).mpr ⟨w, hw⟩,
      rfl⟩

end Reading

/-! ## What is an encoding -/

/-- `SCSYMBOL_LIMIT`. -/
def symbolLimit : ℕ := 32

/-- The characters with these numbers. -/
def chars (s : List UInt8) : JsString :=
  s.map fun b => UInt16.ofNat b.toNat

/-- The padding an encoder writes. -/
def zeros (n : ℕ) : List UInt8 :=
  List.replicate (padding n) 0

namespace Written

/-- The text of a symbol. -/
def symbol? : Written → Option JsString
  | .symbol s _ => some (chars s)
  | _ => none

/-- The ways in which what the reader passes over, or does not look at, differs from an encoding,
in the value itself or in one within. -/
inductive Sloppy : Written → Prop
  | text {s pad : List UInt8} (h : ¬ IsSymbol symbolLimit (chars s)) : Sloppy (.symbol s pad)
  | symbolPad {s pad : List UInt8} (h : pad ≠ zeros s.length) : Sloppy (.symbol s pad)
  | bytesPad {s pad : List UInt8} (h : pad ≠ zeros s.length) : Sloppy (.bytes s pad)
  | keyType {keyType : ℕ} {key : Bytes32} (h : keyType ≠ 0) : Sloppy (.account keyType key)
  | kind {kind : ℕ} {id : Bytes32} (h : kind ≠ 1) : Sloppy (.contract kind id)
  | vecFlag {flag : ℕ} {elems : List Written} (h : flag ≠ 1) : Sloppy (.vec flag elems)
  | elem {flag : ℕ} {elems : List Written} {w : Written} (hw : w ∈ elems) (h : Sloppy w) :
    Sloppy (.vec flag elems)
  | mapFlag {flag : ℕ} {fields : List (Written × Written)} (h : flag ≠ 1) :
    Sloppy (.map flag fields)
  | keyKind {flag : ℕ} {fields : List (Written × Written)} {field : Written × Written}
    (hfield : field ∈ fields) (h : field.1.symbol? = none) : Sloppy (.map flag fields)
  | proto {flag : ℕ} {fields : List (Written × Written)} {field : Written × Written}
    (hfield : field ∈ fields) (h : field.1.symbol? = some (js "__proto__")) :
    Sloppy (.map flag fields)
  | repeated {flag : ℕ} {fields : List (Written × Written)}
    (h : ¬ (fields.map fun field => field.1.symbol?).Nodup) : Sloppy (.map flag fields)
  | key {flag : ℕ} {fields : List (Written × Written)} {field : Written × Written}
    (hfield : field ∈ fields) (h : Sloppy field.1) : Sloppy (.map flag fields)
  | value {flag : ℕ} {fields : List (Written × Written)} {field : Written × Written}
    (hfield : field ∈ fields) (h : Sloppy field.2) : Sloppy (.map flag fields)

mutual

/-- The value an encoder would have written. -/
def meaning : Written → ScVal
  | .u32 n => .u32 n
  | .symbol s _ => .symbol (chars s)
  | .bytes s _ => .bytes s
  | .account _ key => .address (.account key)
  | .contract _ id => .address (.contract id)
  | .absentVec => .absentVec
  | .vec _ elems => .vec (meanings elems)
  | .absentMap => .absentMap
  | .map _ fields => .map (fieldMeanings fields)

/-- The elements of a vector. -/
def meanings : List Written → List ScVal
  | [] => []
  | w :: ws => meaning w :: meanings ws

/-- The fields of a map. -/
def fieldMeanings : List (Written × Written) → List (JsString × ScVal)
  | [] => []
  | (k, v) :: fields => (k.symbol?.getD [], meaning v) :: fieldMeanings fields

end

/-- The bytes are the encoding of the value, and are read as the value. -/
structure Encodes (rt : Runtime) (w : Written) (x : ScVal) : Prop where
  wellFormed : x.WellFormed symbolLimit
  encode : x.encode = w.render
  toJs : x.toJs = w.toJs rt

end Written

section Encodings

variable {rt : Runtime} {rest tail s pad : List UInt8} {n : ℕ} {w : Written}

theorem filled_eq (s : List UInt8) : Xdr.filled s = s ++ zeros s.length := by
  rw [Xdr.filled, zeros, padded_eq, Nat.add_sub_cancel_left]

theorem length_chars (s : List UInt8) : (chars s).length = s.length :=
  List.length_map ..

theorem bytes_chars (s : List UInt8) : (chars s).map (fun u => UInt8.ofNat u.toNat) = s := by
  rw [chars, List.map_map]
  refine (List.map_congr_left fun b _ => ?_).trans (List.map_id s)
  have hb := b.toNat_lt
  have hcode : (UInt16.ofNat b.toNat).toNat = b.toNat :=
    UInt16.toNat_ofNat_of_lt' (show b.toNat < 65536 by omega)
  rw [Function.comp_apply, hcode, UInt8.ofNat_toNat, id]

theorem encode_symbol_chars (s : List UInt8) :
    (ScVal.symbol (chars s)).encode = (Written.symbol s (zeros s.length)).render := by
  rw [ScVal.encode, Xdr.symbol, bytes_chars, filled_eq, length_chars, Written.render,
    Written.content, Written.type, List.append_assoc]

theorem textDecode_chars (h : IsSymbol symbolLimit (chars s)) : textDecode rt s = chars s := by
  have hread : textDecode rt ((chars s).map fun u => UInt8.ofNat u.toNat) = chars s :=
    textDecode_ascii (h.isAscii (by decide))
  rwa [bytes_chars] at hread

namespace Written

@[simp] theorem meanings_eq (ws : List Written) : meanings ws = ws.map meaning := by
  induction ws with
  | nil => rfl
  | cons w ws ih => rw [meanings, ih, List.map_cons]

@[simp] theorem fieldMeanings_eq (fields : List (Written × Written)) : fieldMeanings fields =
    fields.map fun field => (field.1.symbol?.getD [], field.2.meaning) := by
  induction fields with
  | nil => rfl
  | cons field fields ih => rw [fieldMeanings, ih, List.map_cons]

@[simp] theorem renderAll_eq (ws : List Written) : renderAll ws = ws.flatMap render := by
  induction ws with
  | nil => rfl
  | cons w ws ih => rw [renderAll, ih, List.flatMap_cons, render]

@[simp] theorem renderFields_eq (fields : List (Written × Written)) :
    renderFields fields = fields.flatMap fun field => field.1.render ++ field.2.render := by
  induction fields with
  | nil => rfl
  | cons field fields ih =>
    simp only [renderFields, ih, List.flatMap_cons, render, List.append_assoc]

@[simp] theorem allToJs_eq (ws : List Written) : allToJs rt ws = ws.map (toJs rt) := by
  induction ws with
  | nil => rfl
  | cons w ws ih => rw [allToJs, ih, List.map_cons]

/-- The properties that are set. -/
theorem setAll_eq (fields : List (Written × Written)) (out : JsValue) : setAll rt fields out =
    (fields.map fun field => Field.mk ((field.1.toJs rt).toString rt) field.2.render
      (field.2.toJs rt)).foldl (fun out field => out.set field.name field.value) out := by
  induction fields generalizing out with
  | nil => rfl
  | cons field fields ih => rw [setAll, ih, List.map_cons, List.foldl_cons]

variable (rt) in
/-- A key that an encoder could have written is a symbol, and is read as its text. -/
theorem encodes_key (hkind : w.symbol? ≠ none) (h : ¬ w.Sloppy) :
    ∃ name, w.symbol? = some name ∧ IsSymbol symbolLimit name ∧
      (ScVal.symbol name).encode = w.render ∧ (w.toJs rt).toString rt = name := by
  cases w with
  | symbol s pad =>
    have htext : IsSymbol symbolLimit (chars s) := not_not.mp fun hnot => h (.text hnot)
    have hpad : pad = zeros s.length := not_not.mp fun hnot => h (.symbolPad hnot)
    subst hpad
    exact ⟨chars s, rfl, htext, encode_symbol_chars s, textDecode_chars htext⟩
  | _ => exact absurd rfl hkind

theorem encodes_vec {flag : ℕ} {elems : List Written} (hfit : (vec flag elems).Fits rest)
    (hflag : flag = 1) (ih : ∀ w ∈ elems, Encodes rt w w.meaning) :
    Encodes rt (vec flag elems) (vec flag elems).meaning := by
  have hwell : ∀ x ∈ elems.map meaning, x.WellFormed symbolLimit := by
    intro x hx
    obtain ⟨w, hw, rfl⟩ := List.mem_map.mp hx
    exact (ih w hw).wellFormed
  have hencode : (elems.map meaning).flatMap ScVal.encode = elems.flatMap render := by
    rw [List.flatMap_map, List.flatMap_def, List.flatMap_def]
    exact congrArg List.flatten (List.map_congr_left fun w hw => (ih w hw).encode)
  have hjs : (elems.map meaning).map ScVal.toJs = elems.map (toJs rt) := by
    rw [List.map_map]
    exact List.map_congr_left fun w hw => (ih w hw).toJs
  subst hflag
  constructor
  · rw [meaning, meanings_eq]
    exact .vec (by rw [List.length_map]; exact hfit.2.2.1) hwell
  · rw [meaning, meanings_eq, ScVal.encode, ScVal.encodeAll_eq, hencode, List.length_map, render,
      content, renderAll_eq, type, List.append_assoc, List.append_assoc]
  · rw [meaning, meanings_eq, ScVal.toJs, ScVal.allToJs_eq, hjs, toJs, allToJs_eq]

theorem encodes_map {flag : ℕ} {fields : List (Written × Written)}
    (hfit : (map flag fields).Fits rest) (h : ¬ (map flag fields).Sloppy)
    (ih : ∀ field ∈ fields, Encodes rt field.2 field.2.meaning) :
    Encodes rt (map flag fields) (map flag fields).meaning := by
  have hflag : flag = 1 := not_not.mp fun hnot => h (.mapFlag hnot)
  let name : Written × Written → JsString := fun field => field.1.symbol?.getD []
  have hkey : ∀ field ∈ fields, field.1.symbol? = some (name field) ∧
      IsSymbol symbolLimit (name field) ∧ (ScVal.symbol (name field)).encode = field.1.render ∧
      (field.1.toJs rt).toString rt = name field := by
    intro field hfield
    obtain ⟨text, hsome, hkey⟩ := encodes_key rt
      (fun hnone => h (.keyKind hfield hnone)) fun hkey => h (.key hfield hkey)
    have hname : name field = text := by
      show field.1.symbol?.getD [] = text
      rw [hsome, Option.getD_some]
    rw [hname]
    exact ⟨hsome, hkey⟩
  have hproto : ∀ field ∈ fields, name field ≠ js "__proto__" := by
    intro field hfield heq
    refine h (.proto hfield ?_)
    rw [(hkey field hfield).1, heq]
  have hdistinct : (fields.map name).Nodup := by
    refine List.Nodup.of_map some ?_
    have hsymbol : fields.map (some ∘ name) = fields.map fun field => field.1.symbol? :=
      List.map_congr_left fun field hfield => (hkey field hfield).1.symm
    rw [List.map_map, hsymbol]
    exact not_not.mp fun hnot => h (.repeated hnot)
  have hmeaning : (map flag fields).meaning =
      .map (fields.map fun field => (name field, field.2.meaning)) := by
    rw [meaning, fieldMeanings_eq]
  have hencode : ∀ field ∈ fields, Xdr.symbol (name field) ++ field.2.meaning.encode =
      field.1.render ++ field.2.render := by
    intro field hfield
    rw [← (hkey field hfield).2.2.1, (ih field hfield).encode, ScVal.encode]
  have hitem : ∀ field ∈ fields, Field.mk ((field.1.toJs rt).toString rt) field.2.render
      (field.2.toJs rt) = Field.mk (name field) field.2.render field.2.meaning.toJs := by
    intro field hfield
    rw [(hkey field hfield).2.2.2, (ih field hfield).toJs]
  subst hflag
  rw [hmeaning]
  constructor
  · refine .map (by rw [List.length_map]; exact hfit.2.2.1) ?_ (by rwa [List.map_map]) ?_
    · intro entry hentry
      obtain ⟨field, hfield, rfl⟩ := List.mem_map.mp hentry
      exact ⟨(hkey field hfield).2.1, hproto field hfield⟩
    · intro entry hentry
      obtain ⟨field, hfield, rfl⟩ := List.mem_map.mp hentry
      exact (ih field hfield).wellFormed
  · rw [ScVal.encode, ScVal.encodeFields_eq, Xdr.map, render, content, type, renderFields_eq,
      List.length_map, List.length_map, List.flatMap_map, List.flatMap_map, List.append_assoc,
      List.append_assoc, List.flatMap_def, List.flatMap_def]
    congr 4
    exact List.map_congr_left hencode
  · rw [toJs, setAll_eq, List.map_congr_left hitem, Reader.emptyObject, set_fields, ScVal.toJs,
      ScVal.fieldsToJs_eq, List.map_map, List.map_map, List.nil_append]
    · rfl
    · intro item hitem
      obtain ⟨field, hfield, rfl⟩ := List.mem_map.mp hitem
      exact hproto field hfield
    · rw [List.map_map]
      exact hdistinct

theorem toJs_address (a : ScAddress) : (ScVal.address a).toJs = addressValue a := by
  cases a <;> simp [ScVal.toJs, addressValue, toHex_eq, ScAddress.kind, ScAddress.key]

theorem AllFit.exists_fits {ws : List Written} (h : AllFit ws rest) :
    ∀ w ∈ ws, ∃ rest', w.Fits rest' := by
  induction ws with
  | nil => simp
  | cons w ws ih =>
    intro w' hw'
    rcases List.mem_cons.mp hw' with rfl | hw'
    · exact ⟨_, h.1⟩
    · exact ih h.2 w' hw'

theorem FieldsFit.exists_fits {fields : List (Written × Written)} (h : FieldsFit fields rest) :
    ∀ field ∈ fields, ∃ rest', field.2.Fits rest' := by
  induction fields with
  | nil => simp
  | cons field fields ih =>
    intro field' hfield'
    rcases List.mem_cons.mp hfield' with rfl | hfield'
    · exact ⟨_, h.2.1⟩
    · exact ih h.2.2 field' hfield'

theorem sizeOf_snd_lt {fields : List (Written × Written)} {field : Written × Written}
    (h : field ∈ fields) : sizeOf field.2 < sizeOf fields := by
  have hlt := List.sizeOf_lt_of_mem h
  rw [show sizeOf field = 1 + sizeOf field.1 + sizeOf field.2 from rfl] at hlt
  omega

/-- **What is not sloppy is an encoding.** -/
theorem encodes_meaning : ∀ {w : Written} {rest : List UInt8}, w.Fits rest → ¬ w.Sloppy →
    Encodes rt w w.meaning
  | .u32 n, _, hfit, _ => ⟨.u32 hfit, rfl, rfl⟩
  | .symbol s pad, _, _, h => by
    obtain ⟨name, hsome, hname, hencode, hjs⟩ :=
      encodes_key (w := .symbol s pad) rt (Option.some_ne_none _) h
    cases hsome
    exact ⟨.symbol hname, hencode, congrArg JsValue.string hjs.symm⟩
  | .bytes s pad, _, hfit, h => by
    have hpad : pad = zeros s.length := not_not.mp fun hnot => h (.bytesPad hnot)
    subst hpad
    refine ⟨.bytes hfit.1, ?_, ?_⟩
    · rw [meaning, ScVal.encode, Xdr.bytes, filled_eq, render, content, type, List.append_assoc]
    · rw [meaning, ScVal.toJs, toJs, toHex_eq]
  | .account keyType key, _, _, h => by
    have hzero : keyType = 0 := not_not.mp fun hnot => h (.keyType hnot)
    subst hzero
    exact ⟨.address _, rfl, (toJs_address (.account key))⟩
  | .contract kind id, _, _, h => by
    have hone : kind = 1 := not_not.mp fun hnot => h (.kind hnot)
    subst hone
    exact ⟨.address _, rfl, (toJs_address (.contract id))⟩
  | .absentVec, _, _, _ => ⟨.absentVec, rfl, rfl⟩
  | .vec flag elems, _, hfit, h => by
    refine encodes_vec hfit (not_not.mp fun hnot => h (.vecFlag hnot)) fun w hw => ?_
    obtain ⟨rest', hrest'⟩ := hfit.2.2.2.exists_fits w hw
    exact encodes_meaning hrest' fun hsloppy => h (.elem hw hsloppy)
  | .absentMap, _, _, _ => ⟨.absentMap, rfl, rfl⟩
  | .map flag fields, _, hfit, h => by
    refine encodes_map hfit h fun field hfield => ?_
    obtain ⟨rest', hrest'⟩ := hfit.2.2.2.exists_fits field hfield
    have hsize := sizeOf_snd_lt hfield
    exact encodes_meaning hrest' fun hsloppy => h (.value hfield hsloppy)
termination_by w => w

/-! ## An encoding is read in one way -/

theorem toBeBytes_inj {m : ℕ} {a c : List UInt8} (hm : m < 2 ^ 32) (hn : n < 2 ^ 32)
    (h : toBeBytes m ++ a = toBeBytes n ++ c) : m = n ∧ a = c :=
  Codec.u32.prefix_free hm hn h

/-- Behind the padding of an encoder, nothing else can be taken for the padding. -/
theorem eq_zeros_of_pads (h : Pads n pad rest) (heq : zeros n ++ tail = pad ++ rest) :
    pad = zeros n ∧ tail = rest := by
  have hzeros : (zeros n).length = padding n := List.length_replicate
  rcases h.1.lt_or_eq with hlt | hlen
  · rw [h.2 hlt, List.append_nil] at heq
    have hlen := congrArg List.length heq
    rw [List.length_append] at hlen
    omega
  · obtain ⟨rfl, rfl⟩ := List.append_inj heq (by rw [hzeros, hlen])
    exact ⟨rfl, rfl⟩

/-- The types agree, and so does what comes behind them. -/
theorem content_eq {type : ℕ} {content : List UInt8} (htype : type < 2 ^ 32)
    (h : toBeBytes type ++ content ++ tail = w.render ++ rest) :
    type = w.type ∧ content ++ tail = w.content ++ rest := by
  rw [render, List.append_assoc, List.append_assoc] at h
  exact toBeBytes_inj htype w.type_lt h

/-- A field of variable length, written by an encoder and read. -/
theorem field_eq {t : List UInt8} (ht : t.length < 2 ^ 32) (hs : s.length < 2 ^ 32)
    (hpad : Pads s.length pad rest)
    (h : toBeBytes t.length ++ Xdr.filled t ++ tail = toBeBytes s.length ++ (s ++ pad) ++ rest) :
    s = t ∧ pad = zeros t.length ∧ tail = rest := by
  rw [List.append_assoc, List.append_assoc, filled_eq, List.append_assoc, List.append_assoc] at h
  obtain ⟨hlen, hbody⟩ := toBeBytes_inj ht hs h
  obtain ⟨rfl, hzeros⟩ := List.append_inj hbody hlen
  exact ⟨rfl, eq_zeros_of_pads hpad hzeros⟩

theorem chars_bytes {name : JsString} (h : IsAscii name) :
    chars (name.map fun u => UInt8.ofNat u.toNat) = name := by
  rw [chars, List.map_map]
  refine (List.map_congr_left fun u hu => ?_).trans (List.map_id name)
  have hlt := h.2 u hu
  have hbyte : (UInt8.ofNat u.toNat).toNat = u.toNat :=
    UInt8.toNat_ofNat_of_lt' (show u.toNat < 256 by omega)
  rw [Function.comp_apply, hbyte, UInt16.ofNat_toNat, id]

theorem symbol_of_encode {name : JsString} (hname : IsAscii name) (hfit : w.Fits rest)
    (h : Xdr.symbol name ++ tail = w.render ++ rest) :
    ∃ s, w = .symbol s (zeros s.length) ∧ chars s = name ∧ tail = rest := by
  rw [Xdr.symbol, List.append_assoc (toBeBytes 15)] at h
  obtain ⟨htype, hcontent⟩ := content_eq (by decide) h
  cases w with
  | symbol s pad =>
    have hlen : (name.map fun u => UInt8.ofNat u.toNat).length = name.length := List.length_map ..
    rw [content, ← hlen] at hcontent
    obtain ⟨rfl, rfl, rfl⟩ := field_eq (by rw [hlen]; exact hname.1) hfit.1 hfit.2 hcontent
    exact ⟨_, rfl, chars_bytes hname, rfl⟩
  | _ => cases htype

theorem not_sloppy_symbol {name : JsString} (hname : IsSymbol symbolLimit name)
    (hs : chars s = name) : ¬ (symbol s (zeros s.length)).Sloppy := by
  intro h
  cases h with
  | text htext => exact htext (hs ▸ hname)
  | symbolPad hpad => exact hpad rfl

theorem not_sloppy_address (a : ScAddress) (hfit : w.Fits rest)
    (h : Xdr.address a ++ tail = w.render ++ rest) : tail = rest ∧ ¬ w.Sloppy := by
  have hkey : ∀ {key key' : Bytes32}, key.toList ++ tail = key'.toList ++ rest → tail = rest :=
    fun {key key'} heq =>
      (List.append_inj heq (key.length_toList.trans key'.length_toList.symm)).2
  cases a with
  | account key =>
    rw [Xdr.address, List.append_assoc, List.append_assoc] at h
    obtain ⟨htype, hcontent⟩ := content_eq (by decide) h
    cases w with
    | account keyType key' =>
      rw [content, List.append_assoc, List.append_assoc] at hcontent
      obtain ⟨-, hbody⟩ := toBeBytes_inj (by decide) (by decide) hcontent
      obtain ⟨rfl, hbytes⟩ := toBeBytes_inj (by decide) hfit hbody
      refine ⟨hkey hbytes, fun hsloppy => ?_⟩
      cases hsloppy with
      | keyType h => exact h rfl
    | contract kind id =>
      rw [content, List.append_assoc] at hcontent
      exact absurd (toBeBytes_inj (by decide) hfit.1 hcontent).1.symm hfit.2
    | _ => cases htype
  | contract id =>
    rw [Xdr.address, List.append_assoc] at h
    obtain ⟨htype, hcontent⟩ := content_eq (by decide) h
    cases w with
    | account keyType key' =>
      rw [content, List.append_assoc] at hcontent
      cases (toBeBytes_inj (by decide) (by decide) hcontent).1
    | contract kind id' =>
      rw [content, List.append_assoc] at hcontent
      obtain ⟨rfl, hrest⟩ := toBeBytes_inj (by decide) hfit.1 hcontent
      refine ⟨hkey hrest, fun hsloppy => ?_⟩
      cases hsloppy with
      | kind h => exact h rfl
    | _ => cases htype

/-- An encoding has nothing sloppy in it, nor behind it. -/
def OnlyClean (x : ScVal) : Prop :=
  ∀ {w : Written} {rest tail : List UInt8}, w.Fits rest → x.encode ++ tail = w.render ++ rest →
    tail = rest ∧ ¬ w.Sloppy

theorem elems_not_sloppy {xs : List ScVal} {ws : List Written} (h : ∀ x ∈ xs, OnlyClean x)
    (hlen : xs.length = ws.length) (hfits : AllFit ws rest)
    (heq : xs.flatMap ScVal.encode ++ tail = renderAll ws ++ rest) :
    tail = rest ∧ ∀ w ∈ ws, ¬ w.Sloppy := by
  induction xs generalizing ws with
  | nil =>
    rw [List.length_eq_zero_iff.mp hlen.symm] at heq ⊢
    exact ⟨heq, by simp⟩
  | cons x xs ih =>
    cases ws with
    | nil => cases hlen
    | cons w ws =>
      rw [List.flatMap_cons, renderAll, ← render, List.append_assoc, List.append_assoc] at heq
      obtain ⟨hnext, hw⟩ := h x List.mem_cons_self hfits.1 heq
      obtain ⟨hrest, hws⟩ := ih (fun y hy => h y (List.mem_cons_of_mem x hy))
        (Nat.succ.inj hlen) hfits.2 hnext
      exact ⟨hrest, List.forall_mem_cons.mpr ⟨hw, hws⟩⟩

theorem fields_not_sloppy {xs : List (JsString × ScVal)} {fields : List (Written × Written)}
    (hkeys : ∀ x ∈ xs, IsSymbol symbolLimit x.1) (h : ∀ x ∈ xs, OnlyClean x.2)
    (hlen : xs.length = fields.length) (hfits : FieldsFit fields rest)
    (heq : (xs.flatMap fun x => Xdr.symbol x.1 ++ x.2.encode) ++ tail =
      renderFields fields ++ rest) :
    tail = rest ∧ (fields.map fun field => field.1.symbol?) = xs.map (fun x => some x.1) ∧
      ∀ field ∈ fields, ¬ field.1.Sloppy ∧ ¬ field.2.Sloppy := by
  induction xs generalizing fields with
  | nil =>
    rw [List.length_eq_zero_iff.mp hlen.symm] at heq ⊢
    exact ⟨heq, rfl, by simp⟩
  | cons x xs ih =>
    cases fields with
    | nil => cases hlen
    | cons field fields =>
      obtain ⟨k, v⟩ := field
      rw [List.flatMap_cons, renderFields, ← render, ← render, List.append_assoc,
        List.append_assoc, List.append_assoc, List.append_assoc] at heq
      have hname := hkeys x List.mem_cons_self
      obtain ⟨s, rfl, hs, hvalue⟩ := symbol_of_encode (hname.isAscii (by decide)) hfits.1 heq
      obtain ⟨hnext, hv⟩ := h x List.mem_cons_self hfits.2.1 hvalue
      obtain ⟨hrest, hsymbols, hfields⟩ := ih (fun y hy => hkeys y (List.mem_cons_of_mem x hy))
        (fun y hy => h y (List.mem_cons_of_mem x hy)) (Nat.succ.inj hlen) hfits.2.2 hnext
      refine ⟨hrest, ?_, List.forall_mem_cons.mpr ⟨⟨not_sloppy_symbol hname hs, hv⟩, hfields⟩⟩
      rw [List.map_cons, List.map_cons, hsymbols, symbol?, hs]

theorem onlyClean_of_wellFormed {x : ScVal} (h : x.WellFormed symbolLimit) : OnlyClean x := by
  induction h with
  | u32 hn =>
    intro w rest tail hfit heq
    obtain ⟨htype, hcontent⟩ := content_eq (by decide) heq
    cases w with
    | u32 m =>
      obtain ⟨rfl, rfl⟩ := toBeBytes_inj hn hfit hcontent
      exact ⟨rfl, fun hsloppy => by cases hsloppy⟩
    | _ => cases htype
  | symbol hname =>
    intro w rest tail hfit heq
    obtain ⟨s, rfl, hs, hrest⟩ := symbol_of_encode (hname.isAscii (by decide)) hfit heq
    exact ⟨hrest, not_sloppy_symbol hname hs⟩
  | bytes hs =>
    intro w rest tail hfit heq
    rw [ScVal.encode, Xdr.bytes, List.append_assoc (toBeBytes 13)] at heq
    obtain ⟨htype, hcontent⟩ := content_eq (by decide) heq
    cases w with
    | bytes s pad =>
      obtain ⟨rfl, rfl, hrest⟩ := field_eq hs hfit.1 hfit.2 hcontent
      refine ⟨hrest, fun hsloppy => ?_⟩
      cases hsloppy with
      | bytesPad h => exact h rfl
    | _ => cases htype
  | address a => exact not_sloppy_address a
  | absentVec =>
    intro w rest tail hfit heq
    obtain ⟨htype, hcontent⟩ := content_eq (by decide) heq
    cases w with
    | absentVec =>
      exact ⟨(toBeBytes_inj (by decide) (by decide) hcontent).2, fun hsloppy => by cases hsloppy⟩
    | vec flag elems =>
      rw [content, List.append_assoc] at hcontent
      exact absurd (toBeBytes_inj (by decide) hfit.1 hcontent).1.symm hfit.2.1
    | _ => cases htype
  | vec hlen _ ih =>
    intro w rest tail hfit heq
    rw [ScVal.encode, ScVal.encodeAll_eq, List.append_assoc, List.append_assoc] at heq
    obtain ⟨htype, hcontent⟩ := content_eq (by decide) heq
    cases w with
    | absentVec => cases (toBeBytes_inj (by decide) (by decide) hcontent).1
    | vec flag elems =>
      rw [content, List.append_assoc, List.append_assoc] at hcontent
      obtain ⟨rfl, hbody⟩ := toBeBytes_inj (by decide) hfit.1 hcontent
      obtain ⟨hcount, hall⟩ := toBeBytes_inj hlen hfit.2.2.1 hbody
      obtain ⟨hrest, helems⟩ := elems_not_sloppy ih hcount hfit.2.2.2 hall
      refine ⟨hrest, fun hsloppy => ?_⟩
      cases hsloppy with
      | vecFlag h => exact h rfl
      | elem hw h => exact helems _ hw h
    | _ => cases htype
  | absentMap =>
    intro w rest tail hfit heq
    obtain ⟨htype, hcontent⟩ := content_eq (by decide) heq
    cases w with
    | absentMap =>
      exact ⟨(toBeBytes_inj (by decide) (by decide) hcontent).2, fun hsloppy => by cases hsloppy⟩
    | map flag fields =>
      rw [content, List.append_assoc] at hcontent
      exact absurd (toBeBytes_inj (by decide) hfit.1 hcontent).1.symm hfit.2.1
    | _ => cases htype
  | @map xs hlen hkeys hdistinct _ ih =>
    intro w rest tail hfit heq
    rw [ScVal.encode, ScVal.encodeFields_eq, Xdr.map, List.append_assoc, List.append_assoc,
      List.length_map, List.flatMap_map] at heq
    obtain ⟨htype, hcontent⟩ := content_eq (by decide) heq
    cases w with
    | absentMap => cases (toBeBytes_inj (by decide) (by decide) hcontent).1
    | map flag fields =>
      rw [content, List.append_assoc, List.append_assoc] at hcontent
      obtain ⟨rfl, hbody⟩ := toBeBytes_inj (by decide) hfit.1 hcontent
      obtain ⟨hcount, hall⟩ := toBeBytes_inj hlen hfit.2.2.1 hbody
      obtain ⟨hrest, hsymbols, hfields⟩ := fields_not_sloppy
        (fun x hx => (hkeys x hx).1) ih hcount hfit.2.2.2 hall
      have hsymbol : ∀ field ∈ fields, ∃ x ∈ xs, some x.1 = field.1.symbol? := by
        intro field hfield
        have hmem := List.mem_map_of_mem (f := fun field => field.1.symbol?) hfield
        rw [hsymbols] at hmem
        exact List.mem_map.mp hmem
      refine ⟨hrest, fun hsloppy => ?_⟩
      cases hsloppy with
      | mapFlag h => exact h rfl
      | keyKind hfield h =>
        obtain ⟨x, -, hx⟩ := hsymbol _ hfield
        rw [h] at hx
        cases hx
      | proto hfield h =>
        obtain ⟨x, hmem, hx⟩ := hsymbol _ hfield
        rw [h] at hx
        exact (hkeys x hmem).2 (Option.some.inj hx)
      | repeated h =>
        refine h ?_
        have hsome : xs.map (fun x => some x.1) = (xs.map Prod.fst).map some :=
          (List.map_map ..).symm
        rw [hsymbols, hsome]
        exact hdistinct.map (Option.some_injective _)
      | key hfield h => exact (hfields _ hfield).1 h
      | value hfield h => exact (hfields _ hfield).2 h
    | _ => cases htype

end Written

end Encodings

/-! ## Where the reader guesses -/

section Guessing

variable {rt : Runtime} {b : List UInt8}

/-- What is returned for the bytes is the value that they encode; for bytes that encode none,
nothing is. -/
def NeverGuesses (rt : Runtime) (b : List UInt8) : Prop :=
  ∀ v, decodeScVal rt (.string (btoa b)) = .ok v →
    ∃ x : ScVal, x.WellFormed symbolLimit ∧ x.encode = b ∧ x.toJs = v

/-- The bytes are those of a value as it can be written, which is sloppy or has bytes behind it. -/
def LooselyWritten (b : List UInt8) : Prop :=
  ∃ (w : Written) (rest : List UInt8), w.Fits rest ∧ b = w.render ++ rest ∧
    (w.Sloppy ∨ rest ≠ [])

theorem not_neverGuesses (h : LooselyWritten b) : ¬ NeverGuesses rt b := by
  obtain ⟨w, rest, hfit, rfl, hslip⟩ := h
  intro hstrict
  obtain ⟨x, hwell, hencode, -⟩ := hstrict _ (decodeScVal_eq_ok.mpr ⟨w, rest, hfit, rfl, rfl⟩)
  rw [← List.append_nil x.encode] at hencode
  obtain ⟨hrest, hclean⟩ := Written.onlyClean_of_wellFormed hwell hfit hencode
  rcases hslip with hsloppy | hmore
  · exact hclean hsloppy
  · exact hmore hrest.symm

/-- **The reader guesses exactly at what is loosely written.** -/
theorem neverGuesses_iff (rt : Runtime) (b : List UInt8) :
    NeverGuesses rt b ↔ ¬ LooselyWritten b := by
  constructor
  · exact fun hstrict hmore => not_neverGuesses hmore hstrict
  · intro h v hv
    obtain ⟨w, rest, hfit, rfl, rfl⟩ := decodeScVal_eq_ok.mp hv
    have hclean : ¬ w.Sloppy := fun hsloppy => h ⟨w, rest, hfit, rfl, Or.inl hsloppy⟩
    have hrest : rest = [] := not_not.mp fun hne => h ⟨w, rest, hfit, rfl, Or.inr hne⟩
    have hx : w.Encodes rt w.meaning := Written.encodes_meaning hfit hclean
    rw [hrest, List.append_nil]
    exact ⟨w.meaning, hx.wellFormed, hx.encode, hx.toJs⟩

end Guessing

namespace Sample

/-- A multiplexed account, which is an address of kind 2: its number and its key. -/
def muxedAccount : List UInt8 :=
  toBeBytes 18 ++ toBeBytes 2 ++ List.replicate 8 9 ++ List.replicate 32 7

/-- It is returned as a contract, whose id is made of the number and the front of the key. -/
theorem muxedAccount_guessed :
    decodeScVal runtime (.string (btoa muxedAccount)) =
      .ok (addressValue (.contract ⟨List.replicate 8 9 ++ List.replicate 24 7, rfl⟩)) ∧
    ¬ NeverGuesses runtime muxedAccount := by
  have hfit : (Written.contract 2 ⟨List.replicate 8 9 ++ List.replicate 24 7, rfl⟩).Fits
      (List.replicate 8 7) := ⟨by decide, by decide⟩
  have hbytes : muxedAccount =
      (Written.contract 2 ⟨List.replicate 8 9 ++ List.replicate 24 7, rfl⟩).render ++
        List.replicate 8 7 := rfl
  exact ⟨decodeScVal_eq_ok.mpr ⟨_, _, hfit, hbytes, rfl⟩,
    not_neverGuesses ⟨_, _, hfit, hbytes, Or.inl (.kind (by decide))⟩⟩

end Sample

end Gate
end Sorofy
