import Mathlib.Order.Bounds.Defs
import Sorofy.Foundation.Plurality
import Sorofy.Registry.Types

/-!
# The tally

`tally_of` finds the most common rebuilt hash of a list of attestations, how many hold it, and
how many different hashes there are, by a loop over all pairs of positions.  This file is that
loop and what it computes:

* `countHash_eq`: the inner loop counts one hash and tells whether its position is the first
  that holds it;
* `tallyOf_snd`: the tally is the length, the largest multiplicity and the number of different
  hashes;
* `count_tallyOf_fst`, `tallyOf_fst_of_majority`, `tallyOf_fst_of_unanimous`: which hash the
  loop returns;
* `tallyOf_spec`: all of it in one statement, with the order of the list out of the way.
-/

namespace Sorofy
namespace Registry

open Foundation
open Plurality

variable {Address : Type}

/-- The rebuilt hashes of a list of attestations. -/
def hashes (atts : List (Attestation Address)) : List Bytes32 :=
  atts.map Attestation.rebuiltHash

theorem length_hashes (atts : List (Attestation Address)) : (hashes atts).length = atts.length :=
  List.length_map ..

/-- One round of the inner loop of `tally_of`: position `j` against the hash at `i`. -/
def visitPair (atts : List (Attestation Address)) (i : Fin atts.length) :
    ℕ × Bool → Fin atts.length → ℕ × Bool :=
  fun (count, firstSeen) j =>
    if (atts.get j).rebuiltHash = (atts.get i).rebuiltHash then
      (count + 1, if j < i then false else firstSeen)
    else (count, firstSeen)

/-- The inner loop of `tally_of` at position `i`: how many attestations hold its hash, and
whether no earlier one does. -/
def countHash (atts : List (Attestation Address)) (i : Fin atts.length) : ℕ × Bool :=
  (List.finRange atts.length).foldl (visitPair atts i) (0, true)

/-- What the outer loop of `tally_of` carries. -/
structure Scan where
  top : Bytes32
  topCount : ℕ
  distinct : ℕ

/-- One round of the outer loop of `tally_of`. -/
def Scan.visit (atts : List (Attestation Address)) (scan : Scan) (i : Fin atts.length) : Scan :=
  let (count, firstSeen) := countHash atts i
  let distinct := if firstSeen then scan.distinct + 1 else scan.distinct
  if scan.topCount < count then ⟨(atts.get i).rebuiltHash, count, distinct⟩
  else ⟨scan.top, scan.topCount, distinct⟩

/-- `tally_of`: the most common rebuilt hash, and the counts around it. -/
def tallyOf (atts : List (Attestation Address)) : Bytes32 × Tally :=
  let scan := (List.finRange atts.length).foldl (Scan.visit atts) ⟨BytesN.fill 32 0, 0, 0⟩
  (scan.top, ⟨atts.length, scan.topCount, scan.distinct⟩)

/-! ## The inner loop -/

theorem lt_length_hashes {atts : List (Attestation Address)} (i : Fin atts.length) :
    i.val < (hashes atts).length := by
  rw [length_hashes]
  exact i.isLt

theorem getElem_hashes {atts : List (Attestation Address)} (i : Fin atts.length)
    (hi : i.val < (hashes atts).length) : (hashes atts)[i.val] = (atts.get i).rebuiltHash := by
  simp [hashes]

theorem take_length_hashes (atts : List (Attestation Address)) :
    (hashes atts).take atts.length = hashes atts := by
  rw [← length_hashes, List.take_length]

/-- What the inner loop knows after `k` positions: how many of them hold the hash at `i`, and
whether one of those before `i` does. -/
def CoversPair (atts : List (Attestation Address)) (i : Fin atts.length) (k : ℕ)
    (acc : ℕ × Bool) : Prop :=
  acc.1 = ((hashes atts).take k).count (atts.get i).rebuiltHash ∧
    acc.2 = decide ((atts.get i).rebuiltHash ∉ (hashes atts).take (min k i))

theorem CoversPair.visitPair {atts : List (Attestation Address)} {i j : Fin atts.length}
    {acc : ℕ × Bool} (h : CoversPair atts i j acc) :
    CoversPair atts i (j + 1) (visitPair atts i acc j) := by
  obtain ⟨count, firstSeen⟩ := acc
  obtain ⟨hcount, hfirst⟩ := h
  have hj := List.take_succ_eq_append_getElem (lt_length_hashes j)
  rw [getElem_hashes j] at hj
  simp only at hcount hfirst
  unfold CoversPair Registry.visitPair
  generalize (atts.get i).rebuiltHash = hash at *
  generalize (atts.get j).rebuiltHash = seen at *
  have hcount' : ((hashes atts).take (j + 1)).count hash =
      if seen = hash then count + 1 else count := by
    rw [hj, List.count_append, List.count_singleton, hcount]
    by_cases heq : seen = hash <;> simp [heq]
  by_cases hji : j < i
  · have hmin : min (j.val + 1) i.val = j.val + 1 := by omega
    have hmin' : min j.val i.val = j.val := by omega
    rw [hmin, hcount', hj]
    rw [hmin'] at hfirst
    by_cases heq : seen = hash
    · simp [heq, hji]
    · simp [heq, hfirst, Ne.symm heq]
  · have hmin : min (j.val + 1) i.val = min j.val i.val := by omega
    rw [hmin, hcount', hfirst]
    by_cases heq : seen = hash <;> simp [heq, hji]

/-- The inner loop counts the hash at `i`, and notices whether it occurs before `i`. -/
theorem countHash_eq (atts : List (Attestation Address)) (i : Fin atts.length) :
    countHash atts i =
      ((hashes atts).count (atts.get i).rebuiltHash,
        decide ((atts.get i).rebuiltHash ∉ (hashes atts).take i)) := by
  have hloop : CoversPair atts i atts.length (countHash atts i) :=
    foldl_finRange_invariant (P := CoversPair atts i) ⟨by simp, by simp⟩ fun _ _ h => h.visitPair
  obtain ⟨hcount, hfirst⟩ := hloop
  rw [take_length_hashes] at hcount
  rw [min_eq_right i.isLt.le] at hfirst
  exact Prod.ext hcount hfirst

/-! ## The outer loop -/

/-- What the outer loop knows after `k` positions. -/
structure Scan.Covers (atts : List (Attestation Address)) (k : ℕ) (scan : Scan) : Prop where
  topCount_eq : scan.topCount = largestAmong (hashes atts) k
  distinct_eq : scan.distinct = different ((hashes atts).take k)
  count_top : 0 < k → (hashes atts).count scan.top = scan.topCount

theorem Scan.Covers.visit {atts : List (Attestation Address)} {i : Fin atts.length} {scan : Scan}
    (h : Scan.Covers atts i scan) : Scan.Covers atts (i + 1) (Scan.visit atts scan i) := by
  have hi := lt_length_hashes i
  have hlargest := largestAmong_succ hi
  have hdifferent := different_take_succ hi
  rw [getElem_hashes i] at hlargest hdifferent
  have hdistinct : (if decide ((atts.get i).rebuiltHash ∉ (hashes atts).take i) = true then
      scan.distinct + 1 else scan.distinct) = different ((hashes atts).take (i + 1)) := by
    rw [hdifferent, h.distinct_eq]
    simp
  have htop := h.topCount_eq
  unfold Scan.visit
  rw [countHash_eq]
  by_cases hlt : scan.topCount < (hashes atts).count (atts.get i).rebuiltHash
  · simp only [hlt, if_true]
    refine ⟨?_, hdistinct, fun _ => rfl⟩
    rw [hlargest, ← htop]
    exact (max_eq_right hlt.le).symm
  · simp only [hlt, if_false]
    refine ⟨?_, hdistinct, fun _ => h.count_top ?_⟩
    · rw [hlargest, ← htop]
      exact (max_eq_left (not_lt.mp hlt)).symm
    -- at the first position the count is positive, so the branch was the other one
    by_contra hzero
    have hi0 : i.val = 0 := by omega
    have hcount : 0 < (hashes atts).count (atts.get i).rebuiltHash := by
      rw [← getElem_hashes i hi]
      exact List.count_pos_iff.mpr (List.getElem_mem hi)
    rw [hi0, largestAmong_zero] at htop
    omega

theorem covers_tallyOf (atts : List (Attestation Address)) :
    Scan.Covers atts atts.length
      ((List.finRange atts.length).foldl (Scan.visit atts) ⟨BytesN.fill 32 0, 0, 0⟩) :=
  foldl_finRange_invariant (P := Scan.Covers atts)
    ⟨by simp, by simp, fun h => absurd h (lt_irrefl 0)⟩ fun _ _ h => h.visit

/-! ## The result -/

/-- **The tally**: length, largest multiplicity, number of different hashes. -/
theorem tallyOf_snd (atts : List (Attestation Address)) :
    (tallyOf atts).2 = ⟨atts.length, largest (hashes atts), different (hashes atts)⟩ := by
  have h := covers_tallyOf atts
  have htop := h.topCount_eq
  have hdistinct := h.distinct_eq
  rw [largestAmong_of_length_le (le_of_eq (length_hashes atts))] at htop
  rw [take_length_hashes] at hdistinct
  exact congrArg₂ (Tally.mk atts.length) htop hdistinct

/-- The hash returned occurs `topCount` times, once there is any. -/
theorem count_tallyOf_fst {atts : List (Attestation Address)} (hne : atts ≠ []) :
    (hashes atts).count (tallyOf atts).1 = largest (hashes atts) := by
  have hcount := (covers_tallyOf atts).count_top (List.length_pos_iff.mpr hne)
  have htop := congrArg Tally.topCount (tallyOf_snd atts)
  exact hcount.trans htop

/-- A hash held by a strict majority is the one returned. -/
theorem tallyOf_fst_of_majority {atts : List (Attestation Address)} {hash : Bytes32}
    (h : atts.length < 2 * (hashes atts).count hash) : (tallyOf atts).1 = hash := by
  have hne : atts ≠ [] := by
    rintro rfl
    simp [hashes] at h
  rw [← length_hashes] at h
  have hle := count_le_largest (hashes atts) hash
  refine majority_unique (l := hashes atts) ?_ h
  rw [count_tallyOf_fst hne]
  omega

/-- When all attestations agree, their hash is the one returned. -/
theorem tallyOf_fst_of_unanimous {atts : List (Attestation Address)} {hash : Bytes32}
    (hne : atts ≠ []) (h : ∀ b ∈ hashes atts, b = hash) : (tallyOf atts).1 = hash := by
  refine tallyOf_fst_of_majority ?_
  have hpos := List.length_pos_iff.mpr hne
  rw [List.count_eq_length.mpr fun b hb => (h b hb).symm, length_hashes]
  omega

/-- The largest multiplicity is the greatest of all multiplicities, zero for no attestations. -/
theorem isGreatest_largest (atts : List (Attestation Address)) :
    IsGreatest {n | ∃ hash, (hashes atts).count hash = n} (largest (hashes atts)) := by
  constructor
  · by_cases hne : hashes atts = []
    · exact ⟨BytesN.fill 32 0, by rw [hne]; rfl⟩
    · obtain ⟨hash, -, hcount⟩ := exists_count_eq_largest hne
      exact ⟨hash, hcount⟩
  · rintro n ⟨hash, rfl⟩
    exact count_le_largest _ hash

/-- One different hash: there are attestations, and they agree. -/
theorem different_hashes_eq_one_iff {atts : List (Attestation Address)} :
    different (hashes atts) = 1 ↔
      atts ≠ [] ∧ ∀ a ∈ atts, ∀ b ∈ atts, a.rebuiltHash = b.rebuiltHash := by
  rw [different_eq_one_iff]
  constructor
  · rintro ⟨hash, hne, hall⟩
    refine ⟨fun h => hne (by rw [h]; rfl), fun a ha b hb => ?_⟩
    have hmem : ∀ c ∈ atts, c.rebuiltHash = hash :=
      fun c hc => hall _ (List.mem_map.mpr ⟨c, hc, rfl⟩)
    rw [hmem a ha, hmem b hb]
  · rintro ⟨hne, hall⟩
    obtain ⟨a, ha⟩ := List.exists_mem_of_ne_nil atts hne
    refine ⟨a.rebuiltHash, fun h => hne (List.map_eq_nil_iff.mp h), fun hash hmem => ?_⟩
    obtain ⟨b, hb, rfl⟩ := List.mem_map.mp hmem
    exact hall b hb a ha

/-- The order of the attestations does not change how many hold a hash. -/
theorem count_hashes_of_perm {atts atts' : List (Attestation Address)} (h : atts'.Perm atts)
    (hash : Bytes32) : (hashes atts').count hash = (hashes atts).count hash :=
  (h.map Attestation.rebuiltHash).count_eq hash

/-- **What `tally_of` returns**, for a list of any length and order. -/
theorem tallyOf_spec (atts : List (Attestation Address)) :
    (tallyOf atts).2.total = atts.length ∧
    IsGreatest {n | ∃ hash, (hashes atts).count hash = n} (tallyOf atts).2.topCount ∧
    (atts = [] → (tallyOf atts).2.topCount = 0) ∧
    (tallyOf atts).2.distinct = (hashes atts).toFinset.card ∧
    (atts ≠ [] → (hashes atts).count (tallyOf atts).1 = (tallyOf atts).2.topCount) ∧
    ((tallyOf atts).2.distinct = 1 ↔
      atts ≠ [] ∧ ∀ a ∈ atts, ∀ b ∈ atts, a.rebuiltHash = b.rebuiltHash) ∧
    (∀ hash, atts.length < 2 * (hashes atts).count hash →
      ∀ atts', atts'.Perm atts → (tallyOf atts').1 = hash) := by
  rw [tallyOf_snd]
  refine ⟨rfl, isGreatest_largest atts, ?_, rfl, count_tallyOf_fst, different_hashes_eq_one_iff,
    ?_⟩
  · rintro rfl
    rfl
  · intro hash hmajority atts' hperm
    refine tallyOf_fst_of_majority ?_
    rw [hperm.length_eq, count_hashes_of_perm hperm]
    exact hmajority

end Registry
end Sorofy
