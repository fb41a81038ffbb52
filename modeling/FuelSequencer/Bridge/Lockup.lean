import FuelSequencer.Bridge.Crediting

/-! # The lockup of a deposit

The seconds of a lockup are turned into nanoseconds of an `int64` before the vesting times
are computed. Where that product wraps, the schedule is another one than was asked for, or
there is none at all.
-/
namespace FuelSequencer.Bridge
open Go Wire Exec Lib Wiring

variable {W : Type} {app : App W} {s t : State W} {msg : MsgDepositFromEthereum} {amount lockup : ℤ} {u : Unit}

/-- The schedules a deposit asks for. -/
def askedSchedules (params : Params) (amount lockup : ℤ) : List VestingInfo :=
  if lockup = 0 then []
  else [⟨[⟨params.bridgeDenom, amount⟩], unixSeconds params.vestingStartTime,
    unixSeconds params.vestingStartTime + lockup⟩]

/-- The schedules a deposit to an account without any leads to. -/
def grantedSchedules (params : Params) (amount lockup : ℤ) : List VestingInfo :=
  if vestingOf lockup ≤ 0 then []
  else [⟨[⟨params.bridgeDenom, amount⟩], unixSeconds params.vestingStartTime,
    unixSeconds (params.vestingStartTime + vestingOf lockup)⟩]

theorem unixSeconds_add_seconds (time : Time) (seconds : ℤ) :
    unixSeconds (time + seconds * 10 ^ 9) = unixSeconds time + seconds := by
  unfold unixSeconds
  omega

theorem vestingOf_of_lt (hnonneg : 0 ≤ lockup) (hlt : lockup * 10 ^ 9 < 2 ^ 63) :
    vestingOf lockup = lockup * 10 ^ 9 := int64_eq_self (by omega) hlt

/-- A product that wraps falls short by at least the whole range of an `int64`. -/
theorem vestingOf_le_of_not_lt (hlt : ¬ lockup * 10 ^ 9 < 2 ^ 63) :
    vestingOf lockup ≤ lockup * 10 ^ 9 - 2 ^ 64 := by
  have hmod : vestingOf lockup % (2 ^ 64 : ℕ) = lockup * 10 ^ 9 % (2 ^ 64 : ℕ) := Int.bmod_emod
  have hbound : vestingOf lockup < ((2 ^ 64 : ℕ) + 1) / 2 := Int.bmod_lt (by norm_num)
  norm_num at hmod hbound hlt ⊢
  omega

/-- The schedule is the one asked for exactly if the nanoseconds do not wrap. -/
theorem grantedSchedules_eq_iff (params : Params) (amount : ℤ) (hnonneg : 0 ≤ lockup) :
    grantedSchedules params amount lockup = askedSchedules params amount lockup ↔ lockup * 10 ^ 9 < 2 ^ 63 := by
  unfold grantedSchedules askedSchedules
  constructor
  · intro heq
    by_contra hlt
    have hpos : lockup ≠ 0 := by
      rintro rfl
      exact hlt (by norm_num)
    have hle := vestingOf_le_of_not_lt hlt
    rw [if_neg hpos] at heq
    split_ifs at heq
    simp only [List.cons.injEq, VestingInfo.mk.injEq, and_true, true_and] at heq
    unfold unixSeconds at heq
    omega
  · intro hlt
    rw [vestingOf_of_lt hnonneg hlt]
    by_cases hzero : lockup = 0
    · rw [if_pos hzero, if_pos (by omega)]
    · rw [if_neg hzero, if_neg (by omega), unixSeconds_add_seconds]

/-- The schedules that a deposited account without schedules has. -/
theorem schedules_of_depositedAccount {sdk : Sdk} (laws : CoinLaws sdk) {params : Params} {a acc : EthOwnedAccount}
    (hnone : a.schedules = [])
    (hd : depositedAccount sdk params (vestingOf lockup) [⟨params.bridgeDenom, amount⟩] a = .ok acc) :
    acc.schedules = grantedSchedules params amount lockup := by
  unfold grantedSchedules
  rcases depositedAccount_cases laws hd with ⟨hle, rfl⟩ | ⟨hlt, hinfos⟩
  · rw [if_pos hle, hnone]
  · rw [hnone] at hinfos
    rw [if_neg (not_le.mpr hlt)]
    exact (Except.ok.inj hinfos).symm

/-- A deposit to the depositor's own account, which has no schedule yet. -/
structure FirstDeposit (app : App W) (s : State W) (msg : MsgDepositFromEthereum) (amount lockup : ℤ) : Prop where
  amount_eq : app.sdk.newIntFromString msg.amount = some amount
  amount_pos : 0 < amount
  lockup_eq : app.sdk.newIntFromString msg.lockup = some lockup
  lockup_nonneg : 0 ≤ lockup
  depositor_hex : isHexAddress msg.depositor
  depositor_free : isAddressBlocked app s msg.depositor = .ok false
  owned : RecipientOwned app msg
  stored : StoredUnder app s msg.depositor
  no_schedules : schedulesAt app.modules s.world (fromHex msg.depositor) = []

/-- The tokens end up in the account mapped from the depositor, not in the one of governance. -/
def ReachesUser (app : App W) (s t : State W) (msg : MsgDepositFromEthereum) (amount : ℤ) : Prop :=
  fromHex msg.depositor ≠ app.modules.moduleAddress govModuleName ∧
    app.modules.getBalance t.world (fromHex msg.depositor) s.bridge.params.bridgeDenom =
      app.modules.getBalance s.world (fromHex msg.depositor) s.bridge.params.bridgeDenom + amount

section Laws

variable (hlaw : app.sdk.Lawful) (laws : CoinLaws app.sdk) (bank : BankLaws app.modules)
  (accounts : AccountLaws app)

include hlaw laws bank accounts

theorem schedules_after_deposit (hdeposit : FirstDeposit app s msg amount lockup)
    (hrun : (depositFromEthereum app msg).run s = .ok u t) (huser : ReachesUser app s t msg amount) :
    schedulesAt app.modules t.world (fromHex msg.depositor) =
      grantedSchedules s.bridge.params amount lockup := by
  obtain ⟨info, -, hdenom, -, target, s₁, htarget, hsettle⟩ :=
    (run_depositFromEthereum_eq_ok hdeposit.amount_eq hdeposit.amount_pos hdeposit.lockup_eq).mp hrun
  obtain ⟨hschedules, account, hsettled, hreaches⟩ :=
    settled_settleDeposit hlaw bank hdenom hdeposit.amount_pos hsettle
  cases hd : depositedAt app s msg.depositor (vestingOf lockup) [⟨s.bridge.params.bridgeDenom, amount⟩] with
  | error f =>
    cases f with
    | panic e =>
      rw [run_depositTarget_of_panic hdeposit.depositor_hex hdeposit.depositor_free hdeposit.owned hd] at htarget
      cases htarget
    | err e =>
      -- The tokens went to governance, so that the account has the balance it had.
      rw [run_depositTarget_of_err hdeposit.depositor_hex hdeposit.depositor_free hdeposit.owned hd] at htarget
      cases htarget
      have hbalance := congrArg (fun m => m.balance (fromHex msg.depositor) s.bridge.params.bridgeDenom) hsettled.money
      simp only [moneyOf, Money.mint, Money.credit, and_true] at hbalance
      rw [if_neg (fun heq => huser.1 (heq.trans hreaches)), huser.2] at hbalance
      exact absurd hbalance (by linarith [hdeposit.amount_pos])
  | ok acc =>
    obtain ⟨w', hrun', -, hacc⟩ := run_depositTarget_of_ok hdeposit.depositor_hex hdeposit.depositor_free accounts laws
      hdeposit.stored hdeposit.owned hd
    rw [hrun'] at htarget
    cases htarget
    rw [hschedules]
    refine hacc.trans (schedules_of_depositedAccount laws ?_ hd)
    rw [schedules_targetAccount]
    exact hdeposit.no_schedules

/-- The account has the schedule that was asked for exactly if the nanoseconds of the lockup
fit an `int64`. -/
theorem lockup_schedule_iff (hdeposit : FirstDeposit app s msg amount lockup)
    (hrun : (depositFromEthereum app msg).run s = .ok u t) (huser : ReachesUser app s t msg amount) :
    schedulesAt app.modules t.world (fromHex msg.depositor) = askedSchedules s.bridge.params amount lockup ↔
      lockup * 10 ^ 9 < 2 ^ 63 := by
  rw [schedules_after_deposit hlaw laws bank accounts hdeposit hrun huser,
    grantedSchedules_eq_iff _ _ hdeposit.lockup_nonneg]

end Laws

/-! ## Two lockups -/

/-- A deposit of the reference depositor to itself. -/
def ownDeposit (lockup : ℕ) : MsgDepositFromEthereum :=
  ⟨Reference.authority, Reference.ethText Reference.depositor, Reference.ethText Reference.depositor, decimal 100,
    decimal lockup⟩

def afterOwnDeposit (lockup : ℕ) : State Reference.Ledger :=
  final ((depositFromEthereum Reference.app (ownDeposit lockup)).run Reference.state)

theorem firstDeposit_reference {lockup : ℕ}
    (h : Reference.newIntFromString (decimal lockup) = some (lockup : ℤ)) :
    FirstDeposit Reference.app Reference.state (ownDeposit lockup) 100 lockup where
  amount_eq := by
    change Reference.newIntFromString (decimal 100) = some 100
    decide +kernel
  amount_pos := by decide
  lockup_eq := h
  lockup_nonneg := Int.natCast_nonneg lockup
  depositor_hex := by
    change isHexAddress (Reference.ethText Reference.depositor)
    decide +kernel
  depositor_free := by
    change isAddressBlocked Reference.app Reference.state (Reference.ethText Reference.depositor) = .ok false
    decide +kernel
  owned := by
    change isRecipientOwnedByDepositor (Reference.ethText Reference.depositor) (Reference.ethText Reference.depositor)
      (Reference.bech32String (fromHex (Reference.ethText Reference.depositor))) false
    decide +kernel
  stored := rfl
  no_schedules := rfl

theorem run_ownDeposit_hundred : (depositFromEthereum Reference.app (ownDeposit 100)).run Reference.state =
    .ok () (afterOwnDeposit 100) := eq_ok_of_value (by decide +kernel)

theorem reachesUser_hundred :
    ReachesUser Reference.app Reference.state (afterOwnDeposit 100) (ownDeposit 100) 100 := by
  unfold ReachesUser
  decide +kernel

theorem lockup_schedule_iff_hundred :
    schedulesAt Reference.modules (afterOwnDeposit 100).world (fromHex (ownDeposit 100).depositor) =
      askedSchedules Reference.params 100 100 :=
  (lockup_schedule_iff Reference.sdk_lawful Reference.sdk_coinLaws bankLaws accountLaws
    (firstDeposit_reference (by decide +kernel)) run_ownDeposit_hundred reachesUser_hundred).mpr (by norm_num)

/-- A lockup of more than five hundred years that ends after one second. -/
theorem wrapped_lockup_ends_after_one_second :
    FirstDeposit Reference.app Reference.state (ownDeposit 18446744075) 100 18446744075 ∧
      (depositFromEthereum Reference.app (ownDeposit 18446744075)).run Reference.state =
        .ok () (afterOwnDeposit 18446744075) ∧
      ReachesUser Reference.app Reference.state (afterOwnDeposit 18446744075) (ownDeposit 18446744075) 100 ∧
      schedulesAt Reference.modules (afterOwnDeposit 18446744075).world (fromHex (ownDeposit 18446744075).depositor) =
        [⟨[⟨Reference.ufuel, 100⟩], 0, 1⟩] := by
  refine ⟨firstDeposit_reference (by decide +kernel), eq_ok_of_value (by decide +kernel), ?_, by decide +kernel⟩
  unfold ReachesUser
  decide +kernel

end FuelSequencer.Bridge
