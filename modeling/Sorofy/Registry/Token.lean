import Sorofy.Registry.Types

/-!
# The token the registry holds

The registry is deployed against any SEP-41 token and calls two of its functions, `transfer`
and `burn`.  `Token` is that interface: a state, the balances it gives, and the two calls, each
of which succeeds with a new state or fails as a whole.  What the registry relies on is stated
beside it, one property at a time:

* `Token.Exact`: a successful call moves or burns exactly the requested amount;
* `Token.FitsI128`: balances are nonnegative `i128` values;
* `Token.BurnsHeld`: an amount that is held can be burned.

`Vrfy.token` is the VRFY token of `contracts/vrfy-token`, and it has all three.
-/

namespace Sorofy
namespace Registry

variable {Address : Type}

/-- What the registry uses of a SEP-41 token.  A failing call is `none`: it traps, and the host
keeps nothing of it. -/
structure Token (Address : Type) where
  State : Type
  balance : State → Address → ℤ
  transfer : State → Address → Address → ℤ → Option State
  burn : State → Address → ℤ → Option State

namespace Token

/-- Every call moves or burns exactly the requested amount, or fails. -/
structure Exact [DecidableEq Address] (T : Token Address) : Prop where
  balance_transfer : ∀ {s s' : T.State} {src dst : Address} {amount : ℤ},
    T.transfer s src dst amount = some s' → ∀ a, T.balance s' a =
      T.balance s a - (if a = src then amount else 0) + (if a = dst then amount else 0)
  balance_burn : ∀ {s s' : T.State} {src : Address} {amount : ℤ},
    T.burn s src amount = some s' → ∀ a, T.balance s' a =
      T.balance s a - (if a = src then amount else 0)

/-- Balances are nonnegative `i128` values. -/
def FitsI128 (T : Token Address) : Prop := ∀ s a, 0 ≤ T.balance s a ∧ T.balance s a ≤ i128Max

/-- An amount that is held can be burned. -/
def BurnsHeld (T : Token Address) : Prop :=
  ∀ s a amount, 0 ≤ amount → amount ≤ T.balance s a → ∃ s', T.burn s a amount = some s'

end Token

/-! ## The VRFY token -/

namespace Vrfy

/-- The balances of the VRFY token.  A balance is read as zero where none was written, and what
is written is a nonnegative `i128`. -/
structure Balances (Address : Type) where
  readBalance : Address → ℤ
  nonneg : ∀ a, 0 ≤ readBalance a
  fits : ∀ a, readBalance a ≤ i128Max

variable [DecidableEq Address]

/-- `write_balance`. -/
def writeBalance (b : Balances Address) (addr : Address) (amount : ℤ) (h0 : 0 ≤ amount)
    (hfit : amount ≤ i128Max) : Balances Address where
  readBalance := Function.update b.readBalance addr amount
  nonneg a := by
    by_cases ha : a = addr
    · rw [ha, Function.update_self]
      exact h0
    · rw [Function.update_of_ne ha]
      exact b.nonneg a
  fits a := by
    by_cases ha : a = addr
    · rw [ha, Function.update_self]
      exact hfit
    · rw [Function.update_of_ne ha]
      exact b.fits a

/-- `receive_balance`: the addition is checked. -/
def receiveBalance (b : Balances Address) (addr : Address) (amount : ℤ) (h0 : 0 ≤ amount) :
    Option (Balances Address) :=
  if h : b.readBalance addr + amount ≤ i128Max then
    some (writeBalance b addr (b.readBalance addr + amount)
      (Int.add_nonneg (b.nonneg addr) h0) h)
  else none

/-- `spend_balance`: panics when the balance is insufficient. -/
def spendBalance (b : Balances Address) (addr : Address) (amount : ℤ) (h0 : 0 ≤ amount) :
    Option (Balances Address) :=
  if h : b.readBalance addr < amount then none
  else
    some (writeBalance b addr (b.readBalance addr - amount)
      (Int.sub_nonneg_of_le (Int.not_lt.mp h))
      (Int.le_trans (Int.sub_le_self _ h0) (b.fits addr)))

/-- `Token::transfer`, with the authorization of `from` granted. -/
def transfer (b : Balances Address) (src dst : Address) (amount : ℤ) :
    Option (Balances Address) :=
  if h : amount < 0 then none
  else (spendBalance b src amount (Int.not_lt.mp h)).bind fun b' =>
    receiveBalance b' dst amount (Int.not_lt.mp h)

/-- `Token::burn`, with the authorization of `from` granted. -/
def burn (b : Balances Address) (src : Address) (amount : ℤ) : Option (Balances Address) :=
  if h : amount < 0 then none
  else spendBalance b src amount (Int.not_lt.mp h)

/-- The VRFY token. -/
def token (Address : Type) [DecidableEq Address] : Token Address where
  State := Balances Address
  balance := Balances.readBalance
  transfer := transfer
  burn := burn

theorem readBalance_of_receiveBalance {b b' : Balances Address} {addr : Address} {amount : ℤ}
    {h0 : 0 ≤ amount} (h : receiveBalance b addr amount h0 = some b') (a : Address) :
    b'.readBalance a = b.readBalance a + if a = addr then amount else 0 := by
  unfold receiveBalance at h
  split_ifs at h
  cases Option.some.inj h
  by_cases ha : a = addr
  · subst ha
    simp [writeBalance]
  · simp [writeBalance, ha]

theorem readBalance_of_spendBalance {b b' : Balances Address} {addr : Address} {amount : ℤ}
    {h0 : 0 ≤ amount} (h : spendBalance b addr amount h0 = some b') (a : Address) :
    b'.readBalance a = b.readBalance a - if a = addr then amount else 0 := by
  unfold spendBalance at h
  split_ifs at h
  cases Option.some.inj h
  by_cases ha : a = addr
  · subst ha
    simp [writeBalance]
  · simp [writeBalance, ha]

/-- The VRFY token moves and burns exactly the requested amount. -/
theorem token_exact : (token Address).Exact where
  balance_transfer := by
    intro s s' src dst amount h a
    change transfer s src dst amount = some s' at h
    unfold transfer at h
    split_ifs at h with hneg
    obtain ⟨b, hspend, hreceive⟩ := Option.bind_eq_some_iff.mp h
    change s'.readBalance a = s.readBalance a - _ + _
    rw [readBalance_of_receiveBalance hreceive, readBalance_of_spendBalance hspend]
  balance_burn := by
    intro s s' src amount h a
    change burn s src amount = some s' at h
    unfold burn at h
    split_ifs at h with hneg
    exact readBalance_of_spendBalance h a

theorem token_fitsI128 : (token Address).FitsI128 :=
  fun s a => ⟨Balances.nonneg s a, Balances.fits s a⟩

/-- The VRFY token burns whatever the holder has. -/
theorem token_burnsHeld : (token Address).BurnsHeld := by
  intro (s : Balances Address) a amount h0 (hle : amount ≤ s.readBalance a)
  have hneg : ¬ amount < 0 := Int.not_lt.mpr h0
  have hheld : ¬ s.readBalance a < amount := Int.not_lt.mpr hle
  have hburn : (burn s a amount).isSome := by
    rw [burn, dif_neg hneg, spendBalance, dif_neg hheld]
    rfl
  exact Option.isSome_iff_exists.mp hburn

end Vrfy
end Registry
end Sorofy
