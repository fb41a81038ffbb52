import FuelSequencer.App.Environment
import FuelSequencer.Lib.Address
import FuelSequencer.Lib.Math

/-! # Lists of coins

The SDK keeps a list of coins sorted by denomination, so that a list is read as the
amount it holds of each denomination. Its functions on lists are known here only by
what they do to these amounts.
-/
namespace FuelSequencer.Bridge
open Go Wire Exec Lib Wiring

/-- The amount of a denomination in a list. -/
def amountOf (coins : Coins) (denom : GoString) : ℤ :=
  (coins.map fun c => if c.denom = denom then c.amount else 0).sum

/-- Sorted by valid denominations, none of them twice, without negative amounts. -/
structure WellFormed (coins : Coins) : Prop where
  sorted : coins.Pairwise fun a b => a.denom < b.denom
  denoms : ∀ c ∈ coins, isValidDenom c.denom
  nonneg : ∀ c ∈ coins, 0 ≤ c.amount

/-- `Coins.IsValid`. -/
def coinsIsValid (coins : Coins) : Bool :=
  decide (coins.Pairwise (fun a b => a.denom < b.denom) ∧
    ∀ c ∈ coins, isValidDenom c.denom ∧ 0 < c.amount)

variable {coins : Coins} {c : Coin} {denom : GoString}

@[simp] theorem amountOf_nil (denom : GoString) : amountOf [] denom = 0 := rfl

@[simp] theorem amountOf_cons (c : Coin) (coins : Coins) (denom : GoString) :
    amountOf (c :: coins) denom = (if c.denom = denom then c.amount else 0) + amountOf coins denom := rfl

theorem amountOf_nonneg (h : ∀ c ∈ coins, 0 ≤ c.amount) (denom : GoString) : 0 ≤ amountOf coins denom := by
  refine List.sum_nonneg fun x hx => ?_
  obtain ⟨c, hc, rfl⟩ := List.mem_map.mp hx
  split_ifs
  · exact h c hc
  · exact le_rfl

theorem amountOf_eq_zero (h : ∀ c ∈ coins, c.denom ≠ denom) : amountOf coins denom = 0 := by
  refine List.sum_eq_zero fun x hx => ?_
  obtain ⟨c, hc, rfl⟩ := List.mem_map.mp hx
  exact if_neg (h c hc)

/-- A sorted list holds of a denomination what its one coin says. -/
theorem amountOf_of_mem (hsorted : coins.Pairwise fun a b => a.denom < b.denom) (hc : c ∈ coins) :
    amountOf coins c.denom = c.amount := by
  induction coins with
  | nil => cases hc
  | cons e coins ih =>
    obtain ⟨hlt, hsorted⟩ := List.pairwise_cons.mp hsorted
    rcases List.mem_cons.mp hc with rfl | hc
    · rw [amountOf_cons, if_pos rfl, amountOf_eq_zero fun d hd => (hlt d hd).ne', add_zero]
    · rw [amountOf_cons, if_neg (hlt c hc).ne, zero_add, ih hsorted hc]

theorem exists_mem_of_amountOf_ne (h : amountOf coins denom ≠ 0) : ∃ c ∈ coins, c.denom = denom := by
  by_contra hnone
  exact h (amountOf_eq_zero fun c hc heq => hnone ⟨c, hc, heq⟩)

/-- Changing the amounts one by one changes the amount of each denomination. -/
theorem amountOf_map (g : ℤ → ℤ) (hg : g 0 = 0) (hsorted : coins.Pairwise fun a b => a.denom < b.denom) :
    amountOf (coins.map fun c => ⟨c.denom, g c.amount⟩) denom = g (amountOf coins denom) := by
  induction coins with
  | nil => exact hg.symm
  | cons c coins ih =>
    obtain ⟨hlt, hsorted⟩ := List.pairwise_cons.mp hsorted
    rw [List.map_cons, amountOf_cons, amountOf_cons, ih hsorted]
    by_cases heq : c.denom = denom
    · rw [if_pos heq, if_pos heq, amountOf_eq_zero fun d hd => heq ▸ (hlt d hd).ne', hg, add_zero, add_zero]
    · rw [if_neg heq, if_neg heq, zero_add, zero_add]

namespace WellFormed

theorem nil : WellFormed [] := ⟨.nil, by simp, by simp⟩

theorem single (hdenom : isValidDenom c.denom) (hamount : 0 ≤ c.amount) : WellFormed [c] :=
  ⟨List.pairwise_singleton _ _, by simpa using hdenom, by simpa using hamount⟩

theorem amountOf_nonneg (h : WellFormed coins) (denom : GoString) : 0 ≤ amountOf coins denom :=
  Bridge.amountOf_nonneg h.nonneg denom

theorem map {g : ℤ → ℤ} (h : WellFormed coins) (hg : ∀ x, 0 ≤ x → 0 ≤ g x) :
    WellFormed (coins.map fun c => ⟨c.denom, g c.amount⟩) where
  sorted := List.pairwise_map.mpr h.sorted
  denoms := by
    intro c hc
    obtain ⟨e, he, rfl⟩ := List.mem_map.mp hc
    exact h.denoms e he
  nonneg := by
    intro c hc
    obtain ⟨e, he, rfl⟩ := List.mem_map.mp hc
    exact hg _ (h.nonneg e he)

end WellFormed

theorem wellFormed_of_coinsIsValid (h : coinsIsValid coins) : WellFormed coins := by
  obtain ⟨hsorted, hcoins⟩ := of_decide_eq_true h
  exact ⟨hsorted, fun c hc => (hcoins c hc).1, fun c hc => (hcoins c hc).2.le⟩

/-! ## The functions of the SDK -/

/-- What the SDK's functions do to well-formed lists. `Int` holds 256 bits, so that sums
within them do not panic. -/
structure CoinLaws (sdk : Sdk) : Prop where
  add : ∀ {a b c : Coins}, WellFormed a → WellFormed b → sdk.coinsAdd a b = .ok c →
    WellFormed c ∧ ∀ denom, amountOf c denom = amountOf a denom + amountOf b denom
  add_ok : ∀ {a b : Coins}, WellFormed a → WellFormed b →
    (∀ denom, amountOf a denom + amountOf b denom < 2 ^ maxBitLen) → ∃ c, sdk.coinsAdd a b = .ok c
  sub : ∀ {a b c : Coins}, WellFormed a → WellFormed b → sdk.coinsSub a b = .ok c →
    WellFormed c ∧ ∀ denom, amountOf c denom = amountOf a denom - amountOf b denom
  sub_ok : ∀ {a b : Coins}, WellFormed a → WellFormed b →
    (∀ denom, amountOf a denom < 2 ^ maxBitLen) → (∀ denom, amountOf b denom ≤ amountOf a denom) →
      ∃ c, sdk.coinsSub a b = .ok c
  safeSub : ∀ {a b : Coins}, WellFormed a → WellFormed b → (sdk.coinsSafeSub a b).2 = false →
    WellFormed (sdk.coinsSafeSub a b).1 ∧
      ∀ denom, amountOf (sdk.coinsSafeSub a b).1 denom = amountOf a denom - amountOf b denom
  min_nil : ∀ a : Coins, sdk.coinsMin a [] = []
  isAllPositive : ∀ a : Coins, sdk.coinsIsAllPositive a ↔ a ≠ [] ∧ ∀ c ∈ a, 0 < c.amount
  isAllGTE : ∀ {a b : Coins}, WellFormed a → WellFormed b → sdk.coinsIsAllGTE a b →
    ∀ denom, amountOf b denom ≤ amountOf a denom
  newContinuousVestingAccount : ∀ {account : BaseAccount} {coins : Coins} {startTime endTime : ℤ}
    {vesting : ContinuousVestingAccount},
    sdk.newContinuousVestingAccount account coins startTime endTime = .ok vesting →
      startTime < endTime ∧ vesting = ⟨account, coins, startTime, endTime⟩
  newContinuousVestingAccount_ok : ∀ {account : BaseAccount} {coins : Coins} {startTime endTime : ℤ},
    account.pubKey = none → coins ≠ [] → coinsIsValid coins → startTime < endTime → 0 ≤ endTime →
      sdk.newContinuousVestingAccount account coins startTime endTime =
        .ok ⟨account, coins, startTime, endTime⟩

end FuelSequencer.Bridge
