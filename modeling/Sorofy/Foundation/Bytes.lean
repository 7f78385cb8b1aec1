import Mathlib.Algebra.Group.Nat.Defs
import Mathlib.Data.List.Basic

/-!
# Byte strings of a fixed length
-/

namespace Foundation

/-- A byte string of exactly `n` bytes. -/
structure BytesN (n : ℕ) where
  toList : List UInt8
  length_toList : toList.length = n
  deriving DecidableEq

namespace BytesN

variable {n : ℕ}

attribute [simp] length_toList

theorem toList_injective : Function.Injective (toList : BytesN n → List UInt8) := by
  rintro ⟨l, hl⟩ ⟨m, hm⟩ h
  cases (show l = m from h)
  rfl

@[simp] theorem toList_inj {a b : BytesN n} : a.toList = b.toList ↔ a = b :=
  toList_injective.eq_iff

/-- The byte string that repeats one byte. -/
def fill (n : ℕ) (b : UInt8) : BytesN n := ⟨List.replicate n b, List.length_replicate⟩

/-- The byte string with these bytes, if there are `n` of them. -/
def ofList? (n : ℕ) (l : List UInt8) : Option (BytesN n) :=
  if h : l.length = n then some ⟨l, h⟩ else none

theorem ofList?_eq_some {l : List UInt8} {b : BytesN n} :
    ofList? n l = some b ↔ l = b.toList := by
  unfold ofList?
  by_cases h : l.length = n
  · rw [dif_pos h, Option.some.injEq]
    constructor
    · rintro rfl
      rfl
    · intro hl
      exact toList_injective hl
  · rw [dif_neg h]
    constructor
    · intro hb
      exact absurd hb (by simp)
    · rintro rfl
      exact absurd b.length_toList h

end BytesN
end Foundation
