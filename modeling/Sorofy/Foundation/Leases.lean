import Mathlib.Logic.Function.Basic
import Mathlib.Order.Lattice

/-!
# A store whose entries are leased

A store with expiring entries: each entry is kept at least until the time its lease runs to, and
from then on the store may drop it whenever it likes.  Writing an entry keeps it for the present
time and shortens no lease; a lease can be extended.

What a user of the store may rely on is `Kept`: an entry that is kept through a time cannot be
evicted before that time is over.
-/

namespace Foundation

variable {κ ν : Type}

/-- An entry, and the last time at which the store must still have it. -/
structure Lease (ν : Type) where
  value : ν
  through : ℕ
  deriving DecidableEq, Repr

/-- A store of leased entries. -/
structure Leases (κ ν : Type) where
  entry : κ → Option (Lease ν)

namespace Leases

/-- The store without entries. -/
def empty : Leases κ ν := ⟨fun _ => none⟩

/-- The value under a key. -/
def get (l : Leases κ ν) (k : κ) : Option ν := (l.entry k).map Lease.value

/-- The entry under the key is kept through the time. -/
def Kept (l : Leases κ ν) (k : κ) (time : ℕ) : Prop := ∃ e, l.entry k = some e ∧ time ≤ e.through

/-- The entry under the key, if there is one, may be dropped now. -/
def Expired (l : Leases κ ν) (now : ℕ) (k : κ) : Prop := ∀ e, l.entry k = some e → e.through < now

instance (l : Leases κ ν) (now : ℕ) (k : κ) : Decidable (l.Expired now k) :=
  decidable_of_iff (∀ e ∈ l.entry k, e.through < now) Iff.rfl

variable [DecidableEq κ]

/-- Write a value now: a lease that runs longer stays. -/
def set (l : Leases κ ν) (now : ℕ) (k : κ) (v : ν) : Leases κ ν :=
  ⟨Function.update l.entry k (some ⟨v, max now (((l.entry k).map Lease.through).getD 0)⟩)⟩

/-- Extend the lease of an entry. -/
def extend (l : Leases κ ν) (k : κ) (time : ℕ) : Leases κ ν :=
  ⟨Function.update l.entry k ((l.entry k).map fun e => { e with through := max e.through time })⟩

/-- Drop an entry. -/
def evict (l : Leases κ ν) (k : κ) : Leases κ ν :=
  ⟨Function.update l.entry k none⟩

variable {l : Leases κ ν} {now time time' : ℕ} {k k' : κ} {v : ν}

@[simp] theorem entry_set_of_ne (h : k' ≠ k) : (l.set now k v).entry k' = l.entry k' :=
  Function.update_of_ne h ..

@[simp] theorem entry_extend_of_ne (h : k' ≠ k) : (l.extend k time).entry k' = l.entry k' :=
  Function.update_of_ne h ..

@[simp] theorem entry_evict_of_ne (h : k' ≠ k) : (l.evict k).entry k' = l.entry k' :=
  Function.update_of_ne h ..

@[simp] theorem entry_set_self : (l.set now k v).entry k =
    some ⟨v, max now (((l.entry k).map Lease.through).getD 0)⟩ :=
  Function.update_self ..

@[simp] theorem entry_extend_self : (l.extend k time).entry k =
    (l.entry k).map fun e => { e with through := max e.through time } :=
  Function.update_self ..

@[simp] theorem entry_evict_self : (l.evict k).entry k = none :=
  Function.update_self ..

omit [DecidableEq κ] in
@[simp] theorem get_empty : (empty : Leases κ ν).get k = none := rfl

@[simp] theorem get_set_self : (l.set now k v).get k = some v := by
  simp [get]

@[simp] theorem get_set_of_ne (h : k' ≠ k) : (l.set now k v).get k' = l.get k' := by
  simp [get, h]

@[simp] theorem get_extend : (l.extend k time).get k' = l.get k' := by
  by_cases h : k' = k
  · subst h
    cases he : l.entry k' <;> simp [get, he]
  · simp [get, h]

@[simp] theorem get_evict_self : (l.evict k).get k = none := by
  simp [get]

@[simp] theorem get_evict_of_ne (h : k' ≠ k) : (l.evict k).get k' = l.get k' := by
  simp [get, h]

/-- What was just written is kept for now. -/
theorem kept_set_self : (l.set now k v).Kept k now :=
  ⟨_, entry_set_self, le_max_left _ _⟩

/-- An entry that is there is kept as long as its lease is extended to. -/
theorem kept_extend_self (h : (l.get k).isSome) : (l.extend k time).Kept k time := by
  obtain ⟨e, he⟩ : ∃ e, l.entry k = some e := by
    rw [← Option.isSome_iff_exists]
    simpa [get] using h
  exact ⟨{ e with through := max e.through time }, by simp [he], le_max_right _ _⟩

/-- Writing another entry leaves this one. -/
theorem Kept.set_of_ne (h : l.Kept k' time) (hk : k' ≠ k) : (l.set now k v).Kept k' time := by
  obtain ⟨e, he, hle⟩ := h
  exact ⟨e, by rw [entry_set_of_ne hk, he], hle⟩

/-- Extending a lease shortens none. -/
theorem Kept.extend (h : l.Kept k' time) : (l.extend k time').Kept k' time := by
  obtain ⟨e, he, hle⟩ := h
  by_cases hk : k' = k
  · subst hk
    exact ⟨{ e with through := max e.through time' }, by simp [he], hle.trans (le_max_left _ _)⟩
  · exact ⟨e, by rw [entry_extend_of_ne hk, he], hle⟩

/-- Dropping another entry leaves this one. -/
theorem Kept.evict_of_ne (h : l.Kept k' time) (hk : k' ≠ k) : (l.evict k).Kept k' time := by
  obtain ⟨e, he, hle⟩ := h
  exact ⟨e, by rw [entry_evict_of_ne hk, he], hle⟩

omit [DecidableEq κ] in
/-- **What may be dropped** is not kept through the present. -/
theorem Kept.lt_of_expired (h : l.Kept k time) (hexp : l.Expired now k) : time < now := by
  obtain ⟨e, he, hle⟩ := h
  exact hle.trans_lt (hexp e he)

end Leases
end Foundation
