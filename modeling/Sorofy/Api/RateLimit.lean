import Mathlib.Algebra.Order.Ring.Rat
import Mathlib.Logic.Function.Basic
import Mathlib.Tactic.NormNum
import Sorofy.Foundation.History
import Sorofy.Foundation.Keyed
import Sorofy.Foundation.TokenBucket

/-!
# The rate limit

`crates/api/src/server.rs`: one token bucket for each principal, in a map that makes room by
dropping the buckets that have refilled.  Tokens and seconds are rationals.

A caller reads its clock before it takes the lock of the map, so the times of successive checks may
go back.  A run of the limiter is any sequence of checks, with any times.

A bucket that has refilled answers like a new one, so that dropping it goes unnoticed as long as its
client does not come back with an earlier time (`InOrder`).  Then the limiter answers like one that
keeps every bucket (`Run.forever`), and grants no more than a bucket can (`Run.granted_le`).  A check
with an earlier time sets its bucket back, and the time in between refills it twice
(`Sample.refilled_twice`).
-/

namespace Sorofy
namespace Api

open Foundation History Keyed
open TokenBucket (full take)

/-! ## The limiter -/

/-- A limiter: the rate of its buckets, and how many clients it keeps track of. -/
structure RateLimiter where
  rate : TokenRate ℚ
  maxClients : ℕ

/-- A bucket for each client. -/
abbrev Buckets : Type :=
  AList fun _ : String => TokenBucket ℚ

namespace RateLimiter

variable (limiter : RateLimiter) (map : Buckets) (key : String) (now : ℚ)

/-- When the map is full and the client is new, the buckets that have refilled are dropped. -/
def makeRoom : Buckets :=
  if limiter.maxClients ≤ map.entries.length ∧ key ∉ map then
    retain (fun bucket => bucket.refilled limiter.rate now < limiter.rate.burst) map
  else map

/-- `check_at`. -/
def checkAt : Buckets × Except ℚ Unit :=
  let map := limiter.makeRoom map key now
  let bucket := (map.lookup key).getD (full limiter.rate now)
  let (bucket, answer) := take limiter.rate bucket now
  (map.insert key bucket, answer)

end RateLimiter

/-- `RATE_LIMIT_BURST`, `RATE_LIMIT_REFILL_PER_SEC`. -/
def rateLimit : TokenRate ℚ where
  burst := 10
  refill := 1
  burst_nonneg := by decide
  refill_pos := by decide

/-- The limiter of the service, with `MAX_TRACKED_CLIENTS`. -/
def rateLimiter : RateLimiter where
  rate := rateLimit
  maxClients := 4096

/-- One check: whose request, the time it read, and what it got. -/
structure Check where
  key : String
  now : ℚ
  answer : Except ℚ Unit
  deriving DecidableEq

namespace RateLimiter

/-- One caller has the lock. -/
def Step (limiter : RateLimiter) (map : Buckets) (check : Check) (map' : Buckets) : Prop :=
  limiter.checkAt map check.key check.now = (map', check.answer)

/-- A run of the limiter: from no buckets it has reached `map` by the checks `h`. -/
abbrev Run (limiter : RateLimiter) (h : List (Transition Buckets Check)) (map : Buckets) : Prop :=
  Path limiter.Step ∅ h map

/-- The checks of a run. -/
def checks {σ : Type} (h : List (Transition σ Check)) : List Check :=
  h.map Transition.label

/-- How many requests of a client were granted, of those with times in the interval. -/
def granted (key : String) (lo hi : ℚ) (cs : List Check) : ℕ :=
  cs.countP fun c => c.key = key ∧ c.answer = .ok () ∧ lo ≤ c.now ∧ c.now ≤ hi

/-! ## Keeping every bucket -/

/-- A limiter that keeps one bucket for each client, forever. -/
def checkForever (rate : TokenRate ℚ) (buckets : String → Option (TokenBucket ℚ)) (key : String)
    (now : ℚ) : (String → Option (TokenBucket ℚ)) × Except ℚ Unit :=
  let (bucket, answer) := take rate ((buckets key).getD (full rate now)) now
  (Function.update buckets key (some bucket), answer)

/-- One caller of that limiter. -/
def ForeverStep (rate : TokenRate ℚ) (buckets : String → Option (TokenBucket ℚ)) (check : Check)
    (buckets' : String → Option (TokenBucket ℚ)) : Prop :=
  checkForever rate buckets check.key check.now = (buckets', check.answer)

/-- A run of that limiter. -/
abbrev ForeverRun (rate : TokenRate ℚ)
    (h : List (Transition (String → Option (TokenBucket ℚ)) Check))
    (buckets : String → Option (TokenBucket ℚ)) : Prop :=
  Path (ForeverStep rate) (fun _ => none) h buckets

section MakeRoom

variable {limiter : RateLimiter} {map : Buckets} {key k : String} {now : ℚ} {b : TokenBucket ℚ}

/-- Whoever is checked keeps its bucket. -/
theorem lookup_makeRoom_self : (limiter.makeRoom map key now).lookup key = map.lookup key := by
  unfold makeRoom
  split_ifs with hroom
  · rw [lookup_retain, AList.lookup_eq_none.2 hroom.2, Option.filter_none]
  · rfl

theorem lookup_of_makeRoom (h : (limiter.makeRoom map key now).lookup k = some b) :
    map.lookup k = some b := by
  unfold makeRoom at h
  split_ifs at h with hroom
  · rw [lookup_retain, Option.filter_eq_some_iff] at h
    exact h.1
  · exact h

/-- A bucket that was dropped had refilled. -/
theorem refilled_of_makeRoom (hthere : map.lookup k = some b)
    (hgone : (limiter.makeRoom map key now).lookup k = none) :
    b.refilled limiter.rate now = limiter.rate.burst := by
  unfold makeRoom at hgone
  split_ifs at hgone with hroom
  · rw [lookup_retain, hthere, Option.filter_some_eq_none] at hgone
    exact le_antisymm TokenBucket.refilled_le_burst (not_lt.1 (by simpa using hgone))
  · rw [hthere] at hgone
    cases hgone

end MakeRoom

/-- What a check gets, and where it leaves its bucket. -/
def taken (limiter : RateLimiter) (map : Buckets) (check : Check) : TokenBucket ℚ × Except ℚ Unit :=
  take limiter.rate ((map.lookup check.key).getD (full limiter.rate check.now)) check.now

/-- **What a check does**: it drops buckets that have refilled, and sets its own. -/
theorem Step.eq {limiter : RateLimiter} {map map' : Buckets} {check : Check}
    (hstep : limiter.Step map check map') :
    map' = (limiter.makeRoom map check.key check.now).insert check.key (limiter.taken map check).1 ∧
      (limiter.taken map check).2 = check.answer := by
  rw [Step, checkAt] at hstep
  simp only [lookup_makeRoom_self, Prod.mk.injEq] at hstep
  exact ⟨hstep.1.symm, hstep.2⟩

/-- What is dropped is another bucket, and it had refilled. -/
theorem Step.refilled {limiter : RateLimiter} {map map' : Buckets} {check : Check} {key : String}
    {b : TokenBucket ℚ} (hstep : limiter.Step map check map') (hthere : map.lookup key = some b)
    (hgone : map'.lookup key = none) :
    b.refilled limiter.rate check.now = limiter.rate.burst := by
  obtain ⟨rfl, -⟩ := hstep.eq
  have hkey : key ≠ check.key := by
    rintro rfl
    rw [AList.lookup_insert] at hgone
    cases hgone
  rw [AList.lookup_insert_ne hkey] at hgone
  exact refilled_of_makeRoom hthere hgone

/-! ## Forgetting goes unnoticed -/

/-- The later check is no earlier for its own client, and its bucket would be full by then if it was
dropped by the other. -/
def InOrder (rate : TokenRate ℚ) (e e' : Transition Buckets Check) : Prop :=
  (e.label.key = e'.label.key → e.label.now ≤ e'.label.now) ∧
    ∀ b, e.pre.lookup e'.label.key = some b → e.post.lookup e'.label.key = none →
      b.refilled rate e'.label.now = rate.burst

instance (rate : TokenRate ℚ) (e e' : Transition Buckets Check) : Decidable (InOrder rate e e') :=
  decidable_of_iff
    ((e.label.key = e'.label.key → e.label.now ≤ e'.label.now) ∧
      ∀ b ∈ e.pre.lookup e'.label.key, e.post.lookup e'.label.key = none →
        b.refilled rate e'.label.now = rate.burst)
    Iff.rfl

/-- The map holds the buckets of the other limiter but for some that the run has dropped. -/
structure Remembers (h : List (Transition Buckets Check)) (map : Buckets)
    (buckets : String → Option (TokenBucket ℚ)) : Prop where
  kept : ∀ key b, map.lookup key = some b → buckets key = some b
  dropped : ∀ key b, buckets key = some b → map.lookup key = none →
    ∃ e ∈ h, e.pre.lookup key = some b ∧ e.post.lookup key = none

section Simulation

variable {limiter : RateLimiter} {map map' : Buckets} {h : List (Transition Buckets Check)}
  {check : Check} {buckets : String → Option (TokenBucket ℚ)}

/-- A dropped bucket answers like a new one. -/
theorem Remembers.taken_eq (hmem : Remembers h map buckets)
    (horder : ∀ e ∈ h, InOrder limiter.rate e ⟨map, check, map'⟩) :
    take limiter.rate ((buckets check.key).getD (full limiter.rate check.now)) check.now =
      limiter.taken map check := by
  unfold taken
  cases hthere : map.lookup check.key with
  | some b => rw [hmem.kept check.key b hthere]
  | none =>
    cases hold : buckets check.key with
    | none => rfl
    | some b =>
      obtain ⟨e, he, hpre, hpost⟩ := hmem.dropped check.key b hold hthere
      have hfull := (horder e he).2 b hpre hpost
      exact TokenBucket.take_congr (hfull.trans TokenBucket.refilled_full.symm)

/-- **One check**: both limiters answer alike, and the map goes on holding what it should. -/
theorem Remembers.step (hmem : Remembers h map buckets)
    (hstep : limiter.Step map check map')
    (horder : ∀ e ∈ h, InOrder limiter.rate e ⟨map, check, map'⟩) :
    ∃ buckets', ForeverStep limiter.rate buckets check buckets' ∧
      Remembers (h ++ [⟨map, check, map'⟩]) map' buckets' := by
  have hsame := hmem.taken_eq horder
  obtain ⟨rfl, hanswer⟩ := hstep.eq
  refine ⟨Function.update buckets check.key (some (limiter.taken map check).1), ?_, ?_, ?_⟩
  · rw [ForeverStep, checkForever, hsame]
    exact Prod.ext rfl hanswer
  · intro key b hb
    by_cases hkey : key = check.key
    · rw [hkey, AList.lookup_insert] at hb
      rw [hkey, Function.update_self, hb]
    · rw [AList.lookup_insert_ne hkey] at hb
      rw [Function.update_of_ne hkey]
      exact hmem.kept key b (lookup_of_makeRoom hb)
  · intro key b hb hgone
    have hkey : key ≠ check.key := by
      rintro rfl
      rw [AList.lookup_insert] at hgone
      cases hgone
    rw [Function.update_of_ne hkey] at hb
    cases hpre : map.lookup key with
    | none =>
      obtain ⟨e, he, hdropped⟩ := hmem.dropped key b hb hpre
      exact ⟨e, List.mem_append_left _ he, hdropped⟩
    | some b' =>
      have hsome : some b' = some b := (hmem.kept key b' hpre).symm.trans hb
      exact ⟨_, List.mem_append_right _ List.mem_cons_self, hpre.trans hsome, hgone⟩

/-- **A run whose checks are in order is a run of the limiter that keeps every bucket**: each check
gets the same answer. -/
theorem Run.forever (hrun : limiter.Run h map) (horder : h.Pairwise (InOrder limiter.rate)) :
    ∃ k buckets, ForeverRun limiter.rate k buckets ∧ checks k = checks h ∧
      Remembers h map buckets := by
  refine hrun.invariant
    (P := fun h map => h.Pairwise (InOrder limiter.rate) → ∃ k buckets,
      ForeverRun limiter.rate k buckets ∧ checks k = checks h ∧ Remembers h map buckets)
    ?_ ?_ horder
  · intro _
    refine ⟨[], _, Path.nil, rfl, ?_, ?_⟩
    · intro key b hb
      cases hb
    · intro key b hb
      cases hb
  · intro h map check map' _ ih hstep horder
    obtain ⟨hbefore, -, hlast⟩ := List.pairwise_append.1 horder
    obtain ⟨k, buckets, hk, hchecks, hmem⟩ := ih hbefore
    obtain ⟨buckets', hforever, hmem'⟩ :=
      hmem.step hstep fun e he => hlast e he _ List.mem_cons_self
    refine ⟨_, buckets', hk.snoc hforever, ?_, hmem'⟩
    simp only [checks, List.map_append, List.map_singleton] at hchecks ⊢
    rw [hchecks]

/-- Checks whose times do not go back are in order. -/
theorem Run.inOrder (hrun : limiter.Run h map)
    (hordered : h.Pairwise fun e e' => e.label.now ≤ e'.label.now) :
    h.Pairwise (InOrder limiter.rate) := by
  refine hordered.imp_of_mem fun {e e'} he _ hle => ⟨fun _ => hle, fun b hpre hpost => ?_⟩
  obtain ⟨-, -, -, -, hstep, -⟩ := hrun.split he
  exact TokenBucket.refilled_eq_burst_of_le (hstep.refilled hpre hpost) hle

/-- **Making room is invisible**: where times do not go back, each check gets the answer, and the
wait, that it would get if every bucket were kept. -/
theorem Run.same_answers (hrun : limiter.Run h map)
    (hordered : h.Pairwise fun e e' => e.label.now ≤ e'.label.now) :
    ∃ k buckets, ForeverRun limiter.rate k buckets ∧ checks k = checks h := by
  obtain ⟨k, buckets, hk, hchecks, -⟩ := hrun.forever (hrun.inOrder hordered)
  exact ⟨k, buckets, hk, hchecks⟩

end Simulation

/-! ## What is granted -/

/-- The account of a client, next to its bucket: a client that was never checked has none. -/
def Account (rate : TokenRate ℚ) (lo hi : ℚ) (key : String) (cs : List Check) :
    Option (TokenBucket ℚ) → Prop
  | none => ∀ c ∈ cs, c.key ≠ key
  | some b => TokenBucket.Credit rate lo hi (granted key lo hi cs) b ∧
      ∃ c ∈ cs, c.key = key ∧ c.now = b.last

section Granted

variable {rate : TokenRate ℚ} {lo hi : ℚ} {key : String} {cs : List Check} {check : Check}

theorem granted_snoc : granted key lo hi (cs ++ [check]) = granted key lo hi cs +
    if check.key = key ∧ check.answer = .ok () ∧ lo ≤ check.now ∧ check.now ≤ hi then 1 else 0 := by
  simp only [granted, List.countP_append, List.countP_singleton, decide_eq_true_eq]

theorem granted_eq_zero (h : ∀ c ∈ cs, c.key ≠ key) : granted key lo hi cs = 0 := by
  rw [granted, List.countP_eq_zero]
  intro c hc
  simp [h c hc]

/-- A bucket that is there was last set by a check, and the next is no earlier. -/
theorem Account.credit {b : Option (TokenBucket ℚ)} (haccount : Account rate lo hi key cs b)
    (hle : lo ≤ hi) (horder : ∀ c ∈ cs, c.key = key → c.now ≤ check.now) :
    TokenBucket.Credit rate lo hi (granted key lo hi cs) (b.getD (full rate check.now)) ∧
      (b.getD (full rate check.now)).last ≤ check.now := by
  cases b with
  | none =>
    rw [granted_eq_zero haccount]
    exact ⟨TokenBucket.credit_full hle, le_rfl⟩
  | some b =>
    obtain ⟨hcredit, c, hc, hkey, hlast⟩ := haccount
    exact ⟨hcredit, hlast ▸ horder c hc hkey⟩

/-- **One check** goes to the account of its client, and no other. -/
theorem Account.step {buckets buckets' : String → Option (TokenBucket ℚ)}
    (haccount : Account rate lo hi key cs (buckets key)) (hle : lo ≤ hi)
    (hstep : ForeverStep rate buckets check buckets')
    (horder : ∀ c ∈ cs, c.key = check.key → c.now ≤ check.now) :
    Account rate lo hi key (cs ++ [check]) (buckets' key) := by
  rw [ForeverStep, checkForever] at hstep
  simp only [Prod.mk.injEq] at hstep
  obtain ⟨rfl, hanswer⟩ := hstep
  by_cases hkey : key = check.key
  · subst hkey
    obtain ⟨hcredit, hlast⟩ := haccount.credit hle horder
    have hnext := hcredit.take hlast
    rw [hanswer] at hnext
    rw [Function.update_self]
    refine ⟨?_, check, List.mem_append_right _ List.mem_cons_self, rfl, ?_⟩
    · rw [granted_snoc]
      simpa using hnext
    · exact TokenBucket.last_take.symm
  · rw [Function.update_of_ne hkey]
    have hsame : granted key lo hi (cs ++ [check]) = granted key lo hi cs := by
      rw [granted_snoc, if_neg fun h => hkey h.1.symm, Nat.add_zero]
    cases hb : buckets key with
    | none =>
      rw [hb] at haccount
      intro c hc
      rcases List.mem_append.1 hc with hc | hc
      · exact haccount c hc
      · rw [List.mem_singleton.1 hc]
        exact fun h => hkey h.symm
    | some b =>
      rw [hb] at haccount
      obtain ⟨hcredit, c, hc, hlast⟩ := haccount
      exact ⟨hsame ▸ hcredit, c, List.mem_append_left _ hc, hlast⟩

/-- **The account of a client goes on**, in every run whose checks of each client are in the order
of their times. -/
theorem ForeverRun.account {k : List (Transition (String → Option (TokenBucket ℚ)) Check)}
    {buckets : String → Option (TokenBucket ℚ)} (hrun : ForeverRun rate k buckets) (hle : lo ≤ hi)
    (horder : (checks k).Pairwise fun c c' => c.key = c'.key → c.now ≤ c'.now) :
    Account rate lo hi key (checks k) (buckets key) := by
  refine hrun.invariant
    (P := fun k buckets => ((checks k).Pairwise fun c c' => c.key = c'.key → c.now ≤ c'.now) →
      Account rate lo hi key (checks k) (buckets key)) ?_ ?_ horder
  · intro _ c hc
    cases hc
  · intro k buckets check buckets' _ ih hstep horder
    rw [checks, List.map_append, List.map_singleton] at horder ⊢
    obtain ⟨hbefore, -, hlast⟩ := List.pairwise_append.1 horder
    exact (ih hbefore).step hle hstep fun c hc => hlast c hc check List.mem_cons_self

theorem Account.bound {b : Option (TokenBucket ℚ)} (haccount : Account rate lo hi key cs b)
    (hle : lo ≤ hi) : (granted key lo hi cs : ℚ) ≤ rate.burst + rate.refill * (hi - lo) := by
  cases b with
  | none =>
    have hcredit : TokenBucket.Credit rate lo hi 0 (full rate lo) := TokenBucket.credit_full hle
    rw [granted_eq_zero haccount]
    exact hcredit.total
  | some b => exact haccount.1.total

/-- **No client is granted more than its burst and what is refilled**, in any interval of time, in
every run whose checks are in order. -/
theorem Run.granted_le {limiter : RateLimiter} {h : List (Transition Buckets Check)}
    {map : Buckets} (hrun : limiter.Run h map) (horder : h.Pairwise (InOrder limiter.rate))
    (key : String) (t d : ℚ) (hd : 0 ≤ d) :
    (granted key t (t + d) (checks h) : ℚ) ≤ limiter.rate.burst + limiter.rate.refill * d := by
  obtain ⟨k, buckets, hk, hchecks, -⟩ := hrun.forever horder
  have hkeys : (checks k).Pairwise fun c c' => c.key = c'.key → c.now ≤ c'.now := by
    rw [hchecks, checks, List.pairwise_map]
    exact horder.imp fun hinorder => hinorder.1
  have hle : t ≤ t + d := le_add_of_nonneg_right hd
  have haccount : Account limiter.rate t (t + d) key (checks k) (buckets key) :=
    hk.account hle hkeys
  have hbound := haccount.bound hle
  rwa [hchecks, add_sub_cancel_left] at hbound

end Granted

/-! ## Scripts -/

section Execution

variable (limiter : RateLimiter)

/-- The history of checks with these clients and times. -/
def play : Buckets → List (String × ℚ) → List (Transition Buckets Check)
  | _, [] => []
  | map, call :: calls =>
    let (map', answer) := limiter.checkAt map call.1 call.2
    ⟨map, ⟨call.1, call.2, answer⟩, map'⟩ :: play map' calls

/-- The map after them. -/
def played : Buckets → List (String × ℚ) → Buckets
  | map, [] => map
  | map, call :: calls => played (limiter.checkAt map call.1 call.2).1 calls

/-- Any clients may check, at any times. -/
theorem path_play (map : Buckets) (calls : List (String × ℚ)) :
    Path limiter.Step map (play limiter map calls) (played limiter map calls) := by
  induction calls generalizing map with
  | nil => exact Path.nil
  | cons call calls ih =>
    have hstep : limiter.Step map ⟨call.1, call.2, (limiter.checkAt map call.1 call.2).2⟩
        (limiter.checkAt map call.1 call.2).1 := rfl
    exact (Path.single hstep).trans (ih _)

end Execution

/-! ## A check with an earlier time -/

namespace Sample

/-- A limiter that makes room at every new client. -/
def small : RateLimiter where
  rate := rateLimit
  maxClients := 1

/-- One client comes back after another, when its bucket has been dropped. -/
def comesBack : List (String × ℚ) :=
  [("tok:a", 0), ("tok:b", 3), ("tok:a", 3)]

/-- The client that comes back gets the answers it would get if its bucket had been kept. -/
theorem comesBack_same_answers :
    ¬ "tok:a" ∈ played small ∅ (comesBack.take 2) ∧
      ∃ k buckets, ForeverRun small.rate k buckets ∧
        checks k = checks (play small ∅ comesBack) := by
  have hordered : (play small ∅ comesBack).Pairwise fun e e' => e.label.now ≤ e'.label.now := by
    decide +kernel
  exact ⟨by decide +kernel, Run.same_answers (path_play small ∅ comesBack) hordered⟩

/-- Two clients whose checks take the lock in another order than they read the clock. -/
def swapped : List (String × ℚ) :=
  [("tok:a", 1), ("tok:b", 0), ("tok:a", 2), ("tok:b", 1)]

/-- Each of them is in order. -/
theorem swapped_granted_le :
    (granted "tok:a" 1 (1 + 1) (checks (play rateLimiter ∅ swapped)) : ℚ) ≤
      rateLimiter.rate.burst + rateLimiter.rate.refill * 1 := by
  have horder : (play rateLimiter ∅ swapped).Pairwise (InOrder rateLimiter.rate) := by
    decide +kernel
  exact Run.granted_le (path_play rateLimiter ∅ swapped) horder "tok:a" 1 1 zero_le_one

/-- A client spends its burst, and one of its callers read the clock a second before. -/
def setBack : List (String × ℚ) :=
  List.replicate 10 ("tok:a", 1) ++ [("tok:a", 0), ("tok:a", 1)]

/-- The second in between refills the bucket twice: eleven requests are granted at one time. -/
theorem refilled_twice :
    rateLimiter.Run (play rateLimiter ∅ setBack) (played rateLimiter ∅ setBack) ∧
      granted "tok:a" 1 (1 + 0) (checks (play rateLimiter ∅ setBack)) = 11 ∧
      ¬ (granted "tok:a" 1 (1 + 0) (checks (play rateLimiter ∅ setBack)) : ℚ) ≤
        rateLimiter.rate.burst + rateLimiter.rate.refill * 0 := by
  have heleven : granted "tok:a" 1 (1 + 0) (checks (play rateLimiter ∅ setBack)) = 11 := by
    decide +kernel
  refine ⟨path_play rateLimiter ∅ setBack, heleven, ?_⟩
  rw [heleven]
  norm_num [rateLimiter, rateLimit]

end Sample

end RateLimiter
end Api
end Sorofy
