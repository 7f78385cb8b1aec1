import Mathlib.Algebra.Order.Field.Basic
import Mathlib.Tactic.Linarith
import Mathlib.Tactic.Ring
import Mathlib.Tactic.SplitIfs

/-!
# Token buckets

A bucket gains tokens at a fixed rate, up to its burst, and each request takes one.  Numbers are
those of any ordered field.

What a request gets depends only on how far the bucket has refilled (`take_congr`), and a bucket
that has refilled stays full until the next request (`refilled_eq_burst_of_le`), so a full bucket
may as well be forgotten.

`Credit` is the account of one bucket over an interval of time: what was granted in it and what is
left to grant.  A request that is not earlier than the one before keeps it (`Credit.take`), and it
bounds what is granted by the burst and what the interval refills (`Credit.total`).
-/

namespace Foundation

universe u

/-- How many tokens a bucket holds at most, and how many it gains in a unit of time. -/
structure TokenRate (K : Type u) [Field K] [LinearOrder K] where
  burst : K
  refill : K
  burst_nonneg : 0 ≤ burst
  refill_pos : 0 < refill

/-- A bucket: its tokens, as of the last request. -/
structure TokenBucket (K : Type u) where
  tokens : K
  last : K
  deriving DecidableEq

namespace TokenBucket

variable {K : Type u} [Field K] [LinearOrder K] (rate : TokenRate K)

/-- A bucket that was filled now. -/
def full (now : K) : TokenBucket K := ⟨rate.burst, now⟩

/-- The tokens a bucket would hold at a time.  It gains none for a time before the last request. -/
def refilled (b : TokenBucket K) (now : K) : K :=
  min (b.tokens + max (now - b.last) 0 * rate.refill) rate.burst

/-- A request: it takes a token, or is told how long it takes until there is one. -/
def take (b : TokenBucket K) (now : K) : TokenBucket K × Except K Unit :=
  let tokens := b.refilled rate now
  if 1 ≤ tokens then (⟨tokens - 1, now⟩, .ok ())
  else (⟨tokens, now⟩, .error ((1 - tokens) / rate.refill))

variable {rate} {b b' : TokenBucket K} {now now' : K}

/-- What a request gets depends on how far the bucket has refilled. -/
theorem take_congr (h : b.refilled rate now = b'.refilled rate now) :
    b.take rate now = b'.take rate now := by
  simp only [take, h]

@[simp] theorem last_take : (b.take rate now).1.last = now := by
  unfold take
  dsimp only
  split_ifs <;> rfl

theorem refilled_le_burst : b.refilled rate now ≤ rate.burst :=
  min_le_right _ _

theorem refilled_full : (full rate now).refilled rate now = rate.burst := by
  simp [refilled, full]

variable [IsStrictOrderedRing K]

theorem refilled_mono (h : now ≤ now') : b.refilled rate now ≤ b.refilled rate now' := by
  refine min_le_min_right _ ?_
  have helapsed : max (now - b.last) 0 ≤ max (now' - b.last) 0 :=
    max_le_max_right 0 (sub_le_sub_right h b.last)
  have hgain := mul_le_mul_of_nonneg_right helapsed rate.refill_pos.le
  linarith

/-- A bucket that has refilled stays full. -/
theorem refilled_eq_burst_of_le (hfull : b.refilled rate now = rate.burst) (h : now ≤ now') :
    b.refilled rate now' = rate.burst := by
  refine le_antisymm refilled_le_burst ?_
  rw [← hfull]
  exact refilled_mono h

/-- No bucket gains more than the time since its last request refills. -/
theorem refilled_le (h : b.last ≤ now) :
    b.refilled rate now ≤ b.tokens + rate.refill * (now - b.last) := by
  refine (min_le_left _ _).trans_eq ?_
  rw [max_eq_left (sub_nonneg.2 h), mul_comm]

theorem refilled_nonneg (h : 0 ≤ b.tokens) : 0 ≤ b.refilled rate now := by
  refine le_min ?_ rate.burst_nonneg
  have hgain := mul_nonneg (le_max_right (now - b.last) 0) rate.refill_pos.le
  exact add_nonneg h hgain

/-! ## The account of one bucket -/

/-- The account of a bucket over the interval from `lo` to `hi`, of whose requests so many were
granted. -/
structure Credit (rate : TokenRate K) (lo hi : K) (granted : ℕ) (b : TokenBucket K) : Prop where
  tokens_nonneg : 0 ≤ b.tokens
  before : b.last < lo → granted = 0
  during : lo ≤ b.last → b.last ≤ hi →
    (granted : K) + b.tokens ≤ rate.burst + rate.refill * (b.last - lo)
  total : (granted : K) ≤ rate.burst + rate.refill * (hi - lo)

variable {lo hi : K} {granted : ℕ}

theorem credit_full (h : lo ≤ hi) : Credit rate lo hi 0 (full rate now) where
  tokens_nonneg := rate.burst_nonneg
  before _ := rfl
  during hlo _ := by
    have hgain := mul_nonneg rate.refill_pos.le (sub_nonneg.2 hlo)
    simpa [full] using hgain
  total := by
    have hgain := mul_nonneg rate.refill_pos.le (sub_nonneg.2 h)
    simpa using add_nonneg rate.burst_nonneg hgain

/-- What a refilled bucket may still grant, for a request during the interval. -/
theorem Credit.refilled (hcredit : Credit rate lo hi granted b) (hlast : b.last ≤ now)
    (hlo : lo ≤ now) (hhi : now ≤ hi) :
    (granted : K) + b.refilled rate now ≤ rate.burst + rate.refill * (now - lo) := by
  rcases lt_or_ge b.last lo with hearly | hlate
  · -- nothing was granted yet, and the bucket holds a burst at most
    have hgain := mul_nonneg rate.refill_pos.le (sub_nonneg.2 hlo)
    rw [hcredit.before hearly, Nat.cast_zero, zero_add]
    exact refilled_le_burst.trans (le_add_of_nonneg_right hgain)
  · calc (granted : K) + b.refilled rate now
        ≤ granted + (b.tokens + rate.refill * (now - b.last)) := by
          have hgain : b.refilled rate now ≤ _ := refilled_le hlast
          linarith
      _ ≤ rate.burst + rate.refill * (b.last - lo) + rate.refill * (now - b.last) := by
          have hspent := hcredit.during hlate (hlast.trans hhi)
          linarith
      _ = rate.burst + rate.refill * (now - lo) := by ring

/-- **A request that is not earlier than the one before keeps the account.** -/
theorem Credit.take (hcredit : Credit rate lo hi granted b) (hlast : b.last ≤ now) :
    Credit rate lo hi
      (granted + if (b.take rate now).2 = .ok () ∧ lo ≤ now ∧ now ≤ hi then 1 else 0)
      (b.take rate now).1 := by
  have hnonneg : 0 ≤ b.refilled rate now := refilled_nonneg hcredit.tokens_nonneg
  have hinside : lo ≤ now → now ≤ hi → _ := hcredit.refilled hlast
  have hgain : lo ≤ now → now ≤ hi → rate.refill * (now - lo) ≤ rate.refill * (hi - lo) :=
    fun _ hhi => mul_le_mul_of_nonneg_left (sub_le_sub_right hhi lo) rate.refill_pos.le
  unfold TokenBucket.take
  by_cases htoken : 1 ≤ b.refilled rate now
  · by_cases hcounts : lo ≤ now ∧ now ≤ hi
    · have hbound := hinside hcounts.1 hcounts.2
      have hmore := hgain hcounts.1 hcounts.2
      simp only [if_pos htoken, true_and, if_pos hcounts]
      refine ⟨by linarith, fun hearly => absurd hcounts.1 (not_le.2 hearly), fun _ _ => ?_, ?_⟩
      · push_cast
        linarith
      · push_cast
        linarith
    · simp only [if_pos htoken, true_and, if_neg hcounts, Nat.add_zero]
      refine ⟨by linarith, fun hearly => hcredit.before (hlast.trans_lt hearly), ?_, hcredit.total⟩
      exact fun hlo hhi => absurd ⟨hlo, hhi⟩ hcounts
  · simp only [if_neg htoken, reduceCtorEq, false_and, if_false, Nat.add_zero]
    exact ⟨hnonneg, fun hearly => hcredit.before (hlast.trans_lt hearly), hinside, hcredit.total⟩

end TokenBucket
end Foundation
