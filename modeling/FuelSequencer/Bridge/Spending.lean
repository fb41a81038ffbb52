import FuelSequencer.Bridge.VestingHistory
import FuelSequencer.Exec.Runs

/-! # The balance of an owned account

Deposits, the passing of time, delegations and spending move the balance of an account
and what it locks. Whatever happens, and through every change of the account's type, the
balance covers the locked coins.
-/
namespace FuelSequencer.Bridge
open Go Wire Exec Lib Wiring

/-! ## Deposits to an account -/

/-- The account a deposit to an owned address finds or creates. -/
def targetAccount (sdk : Sdk) (existingAcc : Option Account) (accAddress : Bytes) (ethAddress : GoString) :
    EthOwnedAccount :=
  match existingAcc with
  | none => newEthOwnedBaseAccountWithAddress sdk accAddress ethAddress
  | some acc => normaliseExistingAccount acc ethAddress

/-- The account with the coins of a deposit on its schedules. -/
def depositedAccount (sdk : Sdk) (params : Params) (vestingDuration : Duration) (coins : Coins)
    (acc : EthOwnedAccount) : Outcome GoString EthOwnedAccount :=
  if vestingDuration > 0 then do
    let times ← wrapping id (params.vestingTimesFromVestingDuration vestingDuration)
    acc.addVestingCoins sdk coins times.1 times.2
  else .ok acc

theorem generateSequencerAccount_eq {W : Type} (app : App W) (ethAddress : GoString)
    (vestingDuration : Duration) (coins : Coins) :
    generateSequencerAccountFromEthereumDeposit app ethAddress vestingDuration coins = (do
      let accAddress ← ofOutcome (wrapping id
        (generateSequencerAddressFromEthereumAddress app.sdk ethAddress))
      let s ← get
      let existingAcc := app.modules.getAccount s.world accAddress
      let acc ← ofOutcome (depositedAccount app.sdk s.bridge.params vestingDuration coins
        (targetAccount app.sdk existingAcc accAddress ethAddress))
      let accI ← numberedAccount app existingAcc acc
      inWorld (app.modules.setAccount accI)
      return accAddress) := rfl

/-! ## An account, its balance and the time -/

structure Holder where
  account : EthOwnedAccount
  balance : ℤ
  time : Time

inductive Move where
  | deposit (params : Params) (vestingDuration : Duration) (amount : ℤ)
  | advance (time : Time)
  | delegate (amount : ℤ)
  | undelegate (amount : ℤ)
  | spend (amount : ℤ)

/-- What may happen to an account. The bank delegates within the balance and what the
account does not refuse, and spends within what is not locked. -/
inductive Move.Step (sdk : Sdk) (denom : GoString) : Holder → Move → Holder → Prop where
  | deposit {h : Holder} {params : Params} {vestingDuration : Duration} {amount : ℤ} {token : Coin}
      {tokens : Coins} {account : EthOwnedAccount} :
      newCoin denom amount = .ok token → newCoins token = .ok tokens →
      depositedAccount sdk params vestingDuration tokens h.account = .ok account →
      Step sdk denom h (.deposit params vestingDuration amount) ⟨account, h.balance + amount, h.time⟩
  | advance {h : Holder} {time : Time} : h.time ≤ time →
      Step sdk denom h (.advance time) ⟨h.account, h.balance, time⟩
  | delegate {h : Holder} {amount : ℤ} {balances tokens : Coins} :
      newCoins ⟨denom, h.balance⟩ = .ok balances → newCoins ⟨denom, amount⟩ = .ok tokens →
      amount ≤ h.balance → h.account.trackDelegation sdk h.time balances tokens = .ok () →
      Step sdk denom h (.delegate amount) ⟨h.account, h.balance - amount, h.time⟩
  | undelegate {h : Holder} {amount : ℤ} {tokens : Coins} :
      newCoins ⟨denom, amount⟩ = .ok tokens → h.account.trackUndelegation sdk tokens = .ok () →
      Step sdk denom h (.undelegate amount) ⟨h.account, h.balance + amount, h.time⟩
  | spend {h : Holder} {amount : ℤ} {locked : Coins} :
      h.account.lockedCoins sdk h.time = .ok locked → 0 ≤ amount →
      amount ≤ h.balance - amountOf locked denom →
      Step sdk denom h (.spend amount) ⟨h.account, h.balance - amount, h.time⟩

/-- The amount a move brings to the schedules at most. -/
def Move.deposited : Move → ℤ
  | .deposit _ _ amount => amount
  | _ => 0

def deposited (moves : List Move) : ℤ := (moves.map Move.deposited).sum

/-! ## What a step does -/

variable {sdk : Sdk} {denom : GoString} {h h' : Holder} {move : Move} {moves : List Move} {coin : Coin}
  {coins : Coins} {a a' : EthOwnedAccount}

theorem newCoins_eq_ok (hcoins : newCoins coin = .ok coins) :
    WellFormed coins ∧ 0 ≤ coin.amount ∧
      ∀ denom, amountOf coins denom = if coin.denom = denom then coin.amount else 0 := by
  unfold newCoins at hcoins
  split at hcoins
  next hzero =>
    obtain rfl := Except.ok.inj hcoins
    refine ⟨.nil, hzero.ge, fun denom => ?_⟩
    rw [amountOf_nil, hzero, ite_self]
  next =>
    obtain ⟨_, hvalid, hcoins⟩ := except_bind_eq_ok.mp hcoins
    obtain ⟨hdenom, hamount⟩ := not_or.mp (failIf_eq_ok.mp hvalid)
    obtain rfl := Except.ok.inj hcoins
    refine ⟨.single (not_not.mp hdenom) (not_lt.mp hamount), not_lt.mp hamount, fun denom => ?_⟩
    rw [amountOf_cons, amountOf_nil, add_zero]

theorem newCoins_of_pos {amount : ℤ} (hdenom : isValidDenom denom) (hamount : 0 < amount) :
    newCoins ⟨denom, amount⟩ = .ok [⟨denom, amount⟩] := by
  rw [newCoins, if_neg hamount.ne', failIf_of_not (not_or.mpr ⟨not_not.mpr hdenom, hamount.not_gt⟩)]
  rfl

/-- A deposit leaves the schedules alone or adds its coins to them. -/
theorem depositedAccount_cases (laws : CoinLaws sdk) {params : Params} {vestingDuration : Duration}
    (hd : depositedAccount sdk params vestingDuration coins a = .ok a') :
    (vestingDuration ≤ 0 ∧ a' = a) ∨ (0 < vestingDuration ∧
      addToInfos sdk coins (unixSeconds params.vestingStartTime)
        (unixSeconds (params.vestingStartTime + vestingDuration)) a.schedules = .ok a'.schedules) := by
  unfold depositedAccount at hd
  split at hd
  next hpos =>
    obtain ⟨times, htimes, hd⟩ := except_bind_eq_ok.mp hd
    obtain ⟨_, -, htimes⟩ := except_bind_eq_ok.mp (wrapping_eq_ok.mp htimes)
    obtain rfl := Except.ok.inj htimes
    have hstart : (if vestingDuration > vestingStartTimeDelay then
        params.vestingStartTime + vestingStartTimeDelay else params.vestingStartTime) =
        params.vestingStartTime := by
      rw [vestingStartTimeDelay, add_zero, ite_self]
    refine .inr ⟨hpos, ?_⟩
    have hinfos := (addVestingCoins_eq_ok laws hd).1
    dsimp only at hinfos
    rwa [hstart] at hinfos
  next hnonpos => exact .inl ⟨not_lt.mp hnonpos, (Except.ok.inj hd).symm⟩

/-- A tracked delegation stays within the balance that is not locked. -/
theorem trackVestingDelegation_le (laws : CoinLaws sdk) {locked : Outcome GoString Coins}
    {lockedCoins balance : Coins} (hlocked : locked = .ok lockedCoins) (hwf : WellFormed lockedCoins)
    (hbalance : WellFormed balance) (hcoins : WellFormed coins)
    (ht : trackVestingDelegation sdk locked balance coins = .ok ()) (denom : GoString)
    (hle : amountOf lockedCoins denom ≤ amountOf balance denom) :
    amountOf coins denom ≤ amountOf balance denom - amountOf lockedCoins denom := by
  subst hlocked
  obtain ⟨_, -, ht⟩ := except_bind_eq_ok.mp ht
  rw [ok_bind] at ht
  have hgte := not_not.mp (failIf_eq_ok.mp ht)
  cases hneg : (sdk.coinsSafeSub balance lockedCoins).2 with
  | true =>
    rw [hneg, if_pos rfl] at hgte
    have hzero := laws.isAllGTE .nil hcoins hgte denom
    rw [amountOf_nil] at hzero
    linarith
  | false =>
    rw [hneg, if_neg Bool.false_ne_true] at hgte
    obtain ⟨hspendable, hamounts⟩ := laws.safeSub hbalance hwf hneg
    rw [← hamounts denom]
    exact laws.isAllGTE hspendable hcoins hgte denom

/-! ## The invariant -/

/-- The schedules hold no more than was deposited, and the balance covers what they lock. -/
structure Covered (denom : GoString) (moves : List Move) (h : Holder) : Prop where
  sound : Sound h.account.schedules
  locked_le : total h.account.schedules (·.unvested denom (unixSeconds h.time)) ≤ h.balance
  original_le : ∀ d, total h.account.schedules (·.original d) ≤ deposited moves
  deposited_nonneg : 0 ≤ deposited moves

theorem deposited_append (moves : List Move) (move : Move) :
    deposited (moves ++ [move]) = deposited moves + move.deposited := by
  simp [deposited]

namespace Covered

theorem deposit (laws : CoinLaws sdk) (hc : Covered denom moves h) {params : Params}
    {vestingDuration : Duration} {amount : ℤ} {token : Coin} (htoken : newCoin denom amount = .ok token)
    (htokens : newCoins token = .ok coins)
    (hd : depositedAccount sdk params vestingDuration coins h.account = .ok a') :
    Covered denom (moves ++ [.deposit params vestingDuration amount]) ⟨a', h.balance + amount, h.time⟩ := by
  obtain ⟨-, hamount, rfl⟩ := newCoin_eq_ok.mp htoken
  obtain ⟨hwf, -, hamounts⟩ := newCoins_eq_ok htokens
  have hsum : deposited (moves ++ [.deposit params vestingDuration amount]) = deposited moves + amount :=
    deposited_append _ _
  have hnonneg : 0 ≤ deposited moves + amount := add_nonneg hc.deposited_nonneg hamount
  rcases depositedAccount_cases laws hd with ⟨-, rfl⟩ | ⟨-, hinfos⟩
  · refine ⟨hc.sound, ?_, fun d => ?_, hsum ▸ hnonneg⟩
    · exact hc.locked_le.trans (le_add_of_nonneg_right hamount)
    · rw [hsum]
      exact (hc.original_le d).trans (le_add_of_nonneg_right hamount)
  · refine ⟨sound_addToInfos laws hc.sound hwf hinfos, ?_, fun d => ?_, hsum ▸ hnonneg⟩
    · have hgrow := total_unvested_addToInfos laws hc.sound hwf hinfos denom (unixSeconds h.time)
      rw [hamounts, if_pos rfl] at hgrow
      exact hgrow.trans (add_le_add_left hc.locked_le amount)
    · have hle : amountOf coins d ≤ amount := by
        rw [hamounts]
        split_ifs
        · exact le_rfl
        · exact hamount
      rw [total_original_addToInfos laws hc.sound hwf hinfos, hsum]
      exact add_le_add (hc.original_le d) hle

theorem advance (hc : Covered denom moves h) {time : Time} (hle : h.time ≤ time) :
    Covered denom moves ⟨h.account, h.balance, time⟩ where
  sound := hc.sound
  locked_le := (hc.sound.unvested_anti denom (Int.ediv_le_ediv (by norm_num) hle)).trans hc.locked_le
  original_le := hc.original_le
  deposited_nonneg := hc.deposited_nonneg

/-- A change of the balance that leaves the locked coins covered. -/
theorem rebalance (hc : Covered denom moves h) {balance : ℤ}
    (hle : total h.account.schedules (·.unvested denom (unixSeconds h.time)) ≤ balance) :
    Covered denom moves ⟨h.account, balance, h.time⟩ :=
  ⟨hc.sound, hle, hc.original_le, hc.deposited_nonneg⟩

theorem delegate (laws : CoinLaws sdk) (hc : Covered denom moves h) {amount : ℤ} {balances tokens : Coins}
    (hbalances : newCoins ⟨denom, h.balance⟩ = .ok balances) (htokens : newCoins ⟨denom, amount⟩ = .ok tokens)
    (hle : amount ≤ h.balance) (ht : h.account.trackDelegation sdk h.time balances tokens = .ok ()) :
    total h.account.schedules (·.unvested denom (unixSeconds h.time)) ≤ h.balance - amount := by
  obtain ⟨hbwf, -, hbalance⟩ := newCoins_eq_ok hbalances
  obtain ⟨htwf, -, hamount⟩ := newCoins_eq_ok htokens
  have hbalance := hbalance denom
  have hamount := hamount denom
  rw [if_pos rfl] at hbalance hamount
  -- Every vesting account refuses by the same check, on the coins it locks.
  have hvesting : trackVestingDelegation sdk (h.account.lockedCoins sdk h.time) balances tokens = .ok () →
      total h.account.schedules (·.unvested denom (unixSeconds h.time)) ≤ h.balance - amount := by
    intro ht'
    obtain ⟨locked, hlocked, -⟩ := except_bind_eq_ok.mp (except_bind_eq_ok.mp ht').choose_spec.2
    obtain ⟨hlwf, hlamount⟩ := lockedCoins_spec laws hc.sound hlocked
    have hbound := trackVestingDelegation_le laws hlocked hlwf hbwf htwf ht' denom (by
      rw [hlamount, hbalance]
      exact hc.locked_le)
    rw [hlamount, hbalance, hamount] at hbound
    linarith
  cases haccount : h.account with
  | base account owner => exact sub_nonneg.mpr hle
  | continuousVesting account owner =>
    rw [haccount] at ht hvesting
    exact hvesting ht
  | multiContinuousVesting account infos owner =>
    rw [haccount] at ht hvesting
    exact hvesting ht

theorem step (laws : CoinLaws sdk) (hc : Covered denom moves h) (hstep : Move.Step sdk denom h move h') :
    Covered denom (moves ++ [move]) h' := by
  have hsame : move.deposited = 0 → Covered denom moves h' → Covered denom (moves ++ [move]) h' := by
    intro hzero hc'
    have hsum : deposited (moves ++ [move]) = deposited moves := by rw [deposited_append, hzero, add_zero]
    exact ⟨hc'.sound, hc'.locked_le, fun d => hsum ▸ hc'.original_le d, hsum ▸ hc'.deposited_nonneg⟩
  cases hstep with
  | deposit htoken htokens hd => exact hc.deposit laws htoken htokens hd
  | advance hle => exact hsame rfl (hc.advance hle)
  | delegate hbalances htokens hle ht => exact hsame rfl (hc.rebalance (hc.delegate laws hbalances htokens hle ht))
  | undelegate htokens _ =>
    have hamount := (newCoins_eq_ok htokens).2.1
    exact hsame rfl (hc.rebalance (hc.locked_le.trans (le_add_of_nonneg_right hamount)))
  | spend hlocked _ hle =>
    rw [(lockedCoins_spec laws hc.sound hlocked).2] at hle
    exact hsame rfl (hc.rebalance (by linarith))

end Covered

/-- In every history of an account the balance covers what is locked, and the locked coins
are computed as long as the decimals of what was deposited do not overflow. -/
theorem balance_covers_locked (laws : CoinLaws sdk) {account : BaseAccount} {owner : GoString} {time : Time}
    (hrun : Runs (Move.Step sdk denom) ⟨.base account owner, 0, time⟩ moves h) :
    (∀ locked, h.account.lockedCoins sdk h.time = .ok locked → amountOf locked denom ≤ h.balance) ∧
      (FitsDec (deposited moves) → ∃ locked, h.account.lockedCoins sdk h.time = .ok locked) := by
  have hstart : Covered denom [] ⟨.base account owner, 0, time⟩ :=
    ⟨fun _ hinfo => absurd hinfo List.not_mem_nil, le_rfl, fun _ => le_rfl, le_rfl⟩
  have hcovered : Covered denom moves h :=
    hrun.invariant (I := Covered denom) hstart fun hc hstep => hc.step laws hstep
  refine ⟨fun locked hlocked => ?_, fun hfits => ?_⟩
  · rw [(lockedCoins_spec laws hcovered.sound hlocked).2]
    exact hcovered.locked_le
  · exact lockedCoins_ok laws hcovered.sound (fun d => hfits.mono (hcovered.original_le d)) h.time

/-! ## A history through all types of accounts -/

section History

variable {params : Params} {vestingDuration : Duration} {amount : ℤ}

theorem Move.Step.deposit_of_pos (hdenom : isValidDenom denom) (hamount : 0 < amount)
    (hd : depositedAccount sdk params vestingDuration [⟨denom, amount⟩] h.account = .ok a) :
    Move.Step sdk denom h (.deposit params vestingDuration amount) ⟨a, h.balance + amount, h.time⟩ :=
  .deposit (newCoin_eq_ok.mpr ⟨hdenom, hamount.le, rfl⟩) (newCoins_of_pos hdenom hamount) hd

theorem Move.Step.delegate_of_pos (hdenom : isValidDenom denom) (hamount : 0 < amount) (hle : amount ≤ h.balance)
    (ht : h.account.trackDelegation sdk h.time [⟨denom, h.balance⟩] [⟨denom, amount⟩] = .ok ()) :
    Move.Step sdk denom h (.delegate amount) ⟨h.account, h.balance - amount, h.time⟩ :=
  .delegate (newCoins_of_pos hdenom (hamount.trans_le hle)) (newCoins_of_pos hdenom hamount) hle ht

theorem Move.Step.undelegate_of_pos (hdenom : isValidDenom denom) (hamount : 0 < amount)
    (ht : h.account.trackUndelegation sdk [⟨denom, amount⟩] = .ok ()) :
    Move.Step sdk denom h (.undelegate amount) ⟨h.account, h.balance + amount, h.time⟩ :=
  .undelegate (newCoins_of_pos hdenom hamount) ht

end History

/-- The reference params with another vesting start. -/
def laterParams : Params := { Reference.params with vestingStartTime := 5 * 10 ^ 9 }

def historyMoves : List Move :=
  [.deposit Reference.params 0 50, .delegate 20, .deposit Reference.params (10 * 10 ^ 9) 100,
    .advance (4 * 10 ^ 9), .deposit laterParams (10 * 10 ^ 9) 7, .undelegate 20, .delegate 60, .spend 3]

/-- The account of the examples without schedules, with one and with two of them. -/
def bareAccount : EthOwnedAccount := .base ⟨[], none, 0, 0⟩ []
def vestingAccount : EthOwnedAccount :=
  .continuousVesting ⟨⟨[], none, 0, 0⟩, [⟨Reference.ufuel, 100⟩], 0, 10⟩ []
def multiAccount : EthOwnedAccount :=
  .multiContinuousVesting ⟨[], none, 0, 0⟩ [⟨[⟨Reference.ufuel, 100⟩], 0, 10⟩, ⟨[⟨Reference.ufuel, 7⟩], 5, 15⟩] []

theorem historyRuns : Runs (Move.Step Reference.sdk Reference.ufuel) ⟨bareAccount, 0, 0⟩ historyMoves
    ⟨multiAccount, 94, 4 * 10 ^ 9⟩ := by
  have hdenom : isValidDenom Reference.ufuel := by decide +kernel
  have h₁ : Move.Step Reference.sdk Reference.ufuel ⟨bareAccount, 0, 0⟩ (.deposit Reference.params 0 50)
      ⟨bareAccount, 50, 0⟩ :=
    .deposit_of_pos hdenom (by decide) rfl
  have h₂ : Move.Step Reference.sdk Reference.ufuel ⟨bareAccount, 50, 0⟩ (.delegate 20) ⟨bareAccount, 30, 0⟩ :=
    .delegate_of_pos hdenom (by decide) (by decide) rfl
  have h₃ : Move.Step Reference.sdk Reference.ufuel ⟨bareAccount, 30, 0⟩
      (.deposit Reference.params (10 * 10 ^ 9) 100) ⟨vestingAccount, 130, 0⟩ :=
    .deposit_of_pos hdenom (by decide) (by decide +kernel)
  have h₄ : Move.Step Reference.sdk Reference.ufuel ⟨vestingAccount, 130, 0⟩ (.advance (4 * 10 ^ 9))
      ⟨vestingAccount, 130, 4 * 10 ^ 9⟩ :=
    .advance (by decide)
  have h₅ : Move.Step Reference.sdk Reference.ufuel ⟨vestingAccount, 130, 4 * 10 ^ 9⟩
      (.deposit laterParams (10 * 10 ^ 9) 7) ⟨multiAccount, 137, 4 * 10 ^ 9⟩ :=
    .deposit_of_pos hdenom (by decide) (by decide +kernel)
  have h₆ : Move.Step Reference.sdk Reference.ufuel ⟨multiAccount, 137, 4 * 10 ^ 9⟩ (.undelegate 20)
      ⟨multiAccount, 157, 4 * 10 ^ 9⟩ :=
    .undelegate_of_pos hdenom (by decide) (by decide +kernel)
  have h₇ : Move.Step Reference.sdk Reference.ufuel ⟨multiAccount, 157, 4 * 10 ^ 9⟩ (.delegate 60)
      ⟨multiAccount, 97, 4 * 10 ^ 9⟩ :=
    .delegate_of_pos hdenom (by decide) (by decide) (by decide +kernel)
  have hlocked : multiAccount.lockedCoins Reference.sdk (4 * 10 ^ 9) = .ok [⟨Reference.ufuel, 67⟩] := by
    decide +kernel
  have h₈ : Move.Step Reference.sdk Reference.ufuel ⟨multiAccount, 97, 4 * 10 ^ 9⟩ (.spend 3)
      ⟨multiAccount, 94, 4 * 10 ^ 9⟩ :=
    .spend hlocked (by decide) (by decide +kernel)
  exact .cons h₁ (.cons h₂ (.cons h₃ (.cons h₄ (.cons h₅ (.cons h₆ (.cons h₇ (.single h₈)))))))

theorem balance_covers_locked_history : ∃ locked,
    multiAccount.lockedCoins Reference.sdk (4 * 10 ^ 9) = .ok locked ∧ amountOf locked Reference.ufuel ≤ 94 := by
  obtain ⟨hle, hlocked⟩ := balance_covers_locked Reference.sdk_coinLaws historyRuns
  obtain ⟨locked, hlocked⟩ := hlocked (by unfold FitsDec; decide +kernel)
  exact ⟨locked, hlocked, hle locked hlocked⟩

end FuelSequencer.Bridge
