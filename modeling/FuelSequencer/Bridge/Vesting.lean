import FuelSequencer.Bridge.Coins
import FuelSequencer.Bridge.Deposit
import FuelSequencer.Lib.Decimal

/-! # Vesting accounts

An account owned by an Ethereum address locks the part of its coins that is not vested.
The continuous account of the SDK and each schedule of a multi account vest by the same
formula; a multi account adds up its schedules.
-/
namespace FuelSequencer.Bridge
open Go Wire Exec Lib Wiring

/-! ## Vested, vesting and locked coins -/

/-- The vested amount of one coin. -/
def scaleCoin (s : ℤ) (ovc : Coin) : Outcome GoString Coin := do
  let product ← panicking (decMul (legacyNewDec ovc.amount) s)
  let vestedAmt ← panicking (decRoundInt product)
  newCoin ovc.denom vestedAmt

/-- The coins vested at a time, as the continuous vesting account of the SDK has it. -/
def vestedCoins (originalVesting : Coins) (startTime endTime : ℤ) (blockTime : Time) :
    Outcome GoString Coins :=
  if unixSeconds blockTime ≤ startTime then .ok []
  else if unixSeconds blockTime ≥ endTime then .ok originalVesting
  else do
    let x := unixSeconds blockTime - startTime
    let y := endTime - startTime
    let s ← panicking (decQuo (legacyNewDec x) (legacyNewDec y))
    originalVesting.mapM (scaleCoin s)

def VestingInfo.getVestedCoins (info : VestingInfo) (blockTime : Time) : Outcome GoString Coins :=
  vestedCoins info.originalVesting info.startTime info.endTime blockTime

def VestingInfo.validate (sdk : Sdk) (info : VestingInfo) : Except GoString Unit := do
  failIf (info.startTime < 0) (str "start time cannot be negative")
  failIf (info.startTime ≥ info.endTime) (str "vesting start-time cannot be before end-time")
  failIf (¬ coinsIsValid info.originalVesting ∨ ¬ sdk.coinsIsAllPositive info.originalVesting)
    (str "invalid coins: " ++ sdk.coinsString info.originalVesting)

/-- No delegated coins are recorded on an owned account, so that all vesting coins are locked. -/
def lockedCoinsFromVesting (sdk : Sdk) (vestingCoins : Coins) : Outcome GoString Coins :=
  panicking (sdk.coinsSub vestingCoins (sdk.coinsMin vestingCoins []))

namespace ContinuousVestingAccount

def getVestedCoins (a : ContinuousVestingAccount) (blockTime : Time) : Outcome GoString Coins :=
  vestedCoins a.originalVesting a.startTime a.endTime blockTime

def getVestingCoins (sdk : Sdk) (a : ContinuousVestingAccount) (blockTime : Time) :
    Outcome GoString Coins := do
  let vested ← a.getVestedCoins blockTime
  panicking (sdk.coinsSub a.originalVesting vested)

def lockedCoins (sdk : Sdk) (a : ContinuousVestingAccount) (blockTime : Time) :
    Outcome GoString Coins := do
  let vesting ← a.getVestingCoins sdk blockTime
  lockedCoinsFromVesting sdk vesting

end ContinuousVestingAccount

/-- What the schedules of a multi account give together. -/
def sumCoins (sdk : Sdk) (part : VestingInfo → Outcome GoString Coins) (infos : List VestingInfo) :
    Outcome GoString Coins :=
  infos.foldlM (fun total info => do
    let coins ← part info
    panicking (sdk.coinsAdd total coins)) []

namespace EthOwnedMultiContinuousVestingAccount

def getVestedCoins (sdk : Sdk) (infos : List VestingInfo) (blockTime : Time) :
    Outcome GoString Coins := sumCoins sdk (·.getVestedCoins blockTime) infos

def getOriginalVesting (sdk : Sdk) (infos : List VestingInfo) : Outcome GoString Coins :=
  sumCoins sdk (fun info => .ok info.originalVesting) infos

def getVestingCoins (sdk : Sdk) (infos : List VestingInfo) (blockTime : Time) :
    Outcome GoString Coins := do
  let original ← getOriginalVesting sdk infos
  let vested ← getVestedCoins sdk infos blockTime
  panicking (sdk.coinsSub original vested)

def lockedCoins (sdk : Sdk) (infos : List VestingInfo) (blockTime : Time) :
    Outcome GoString Coins := do
  let vesting ← getVestingCoins sdk infos blockTime
  lockedCoinsFromVesting sdk vesting

end EthOwnedMultiContinuousVestingAccount

/-- The coins the bank keeps an account from spending. -/
def EthOwnedAccount.lockedCoins (sdk : Sdk) (a : EthOwnedAccount) (blockTime : Time) :
    Outcome GoString Coins :=
  match a with
  | .base _ _ => .ok []
  | .continuousVesting account _ => account.lockedCoins sdk blockTime
  | .multiContinuousVesting _ infos _ =>
    EthOwnedMultiContinuousVestingAccount.lockedCoins sdk infos blockTime

/-! ## Delegation -/

/-- Only spendable coins of a vesting account are delegated. -/
def trackVestingDelegation (sdk : Sdk) (lockedCoins : Outcome GoString Coins) (balance amount : Coins) :
    Outcome GoString Unit := do
  failIf (¬ sdk.coinsIsAllPositive amount)
    (Fault.panic (str "delegation attempt with zero amount in coins " ++ sdk.coinsString amount))
  let locked ← lockedCoins
  let difference := sdk.coinsSafeSub balance locked
  let spendable := if difference.2 then [] else difference.1
  failIf (¬ sdk.coinsIsAllGTE spendable amount)
    (Fault.panic (str "cannot delegate locked coins; max spendable is " ++ sdk.coinsString spendable))

def trackVestingUndelegation (sdk : Sdk) (amount : Coins) : Outcome GoString Unit :=
  failIf (¬ sdk.coinsIsAllPositive amount)
    (Fault.panic (str "undelegation attempt with zero amount in coins " ++ sdk.coinsString amount))

/-- The bank tracks the delegations of vesting accounts only. -/
def EthOwnedAccount.trackDelegation (sdk : Sdk) (a : EthOwnedAccount) (blockTime : Time)
    (balance amount : Coins) : Outcome GoString Unit :=
  match a with
  | .base _ _ => .ok ()
  | .continuousVesting account _ =>
    trackVestingDelegation sdk (account.lockedCoins sdk blockTime) balance amount
  | .multiContinuousVesting _ infos _ =>
    trackVestingDelegation sdk (EthOwnedMultiContinuousVestingAccount.lockedCoins sdk infos blockTime)
      balance amount

def EthOwnedAccount.trackUndelegation (sdk : Sdk) (a : EthOwnedAccount) (amount : Coins) :
    Outcome GoString Unit :=
  match a with
  | .base _ _ => .ok ()
  | .continuousVesting _ _ => trackVestingUndelegation sdk amount
  | .multiContinuousVesting _ _ _ => trackVestingUndelegation sdk amount

/-! ## One schedule -/

variable {sdk : Sdk} {coins : Coins} {startTime endTime : ℤ} {blockTime : Time} {denom : GoString}

/-- An amount whose decimal does not overflow. -/
def FitsDec (amount : ℤ) : Prop := amount * precisionReuse < 2 ^ maxDecBitLen

theorem FitsDec.mono {x y : ℤ} (h : FitsDec y) (hle : x ≤ y) : FitsDec x :=
  (mul_le_mul_of_nonneg_right hle (by norm_num [precisionReuse])).trans_lt h

theorem FitsDec.lt {x : ℤ} (h : FitsDec x) : x < 2 ^ maxBitLen := by
  unfold FitsDec precisionReuse maxDecBitLen at h
  unfold maxBitLen
  omega

theorem scaleCoin_eq_ok {s : ℤ} {ovc c : Coin} (hs : 0 ≤ s) (hamount : 0 ≤ ovc.amount)
    (h : scaleCoin s ovc = .ok c) : c = ⟨ovc.denom, shareOf ovc.amount s⟩ := by
  obtain ⟨product, hmul, h⟩ := except_bind_eq_ok.mp h
  obtain ⟨-, rfl⟩ := (decMul_eq_ok hamount hs).mp (panicking_eq_ok.mp hmul)
  obtain ⟨rounded, hround, h⟩ := except_bind_eq_ok.mp h
  obtain ⟨-, rfl⟩ := (decRoundInt_eq_ok hamount hs).mp (panicking_eq_ok.mp hround)
  exact (newCoin_eq_ok.mp h).2.2

theorem scaleCoin_ok {s : ℤ} {ovc : Coin} (hs : 0 ≤ s) (hone : s ≤ precisionReuse)
    (hdenom : isValidDenom ovc.denom) (hamount : 0 ≤ ovc.amount) (hfits : FitsDec ovc.amount) :
    scaleCoin s ovc = .ok ⟨ovc.denom, shareOf ovc.amount s⟩ := by
  have hproduct : (ovc.amount * s).natAbs < 2 ^ maxDecBitLen := by
    have hle := (mul_le_mul_of_nonneg_left hone hamount).trans_lt hfits
    have hpos := mul_nonneg hamount hs
    zify
    rwa [abs_of_nonneg hpos]
  have hrounded : (shareOf ovc.amount s).natAbs < 2 ^ maxBitLen := by
    have hle := (shareOf_le hamount hs hone).trans_lt hfits.lt
    zify
    rwa [abs_of_nonneg (shareOf_nonneg hamount hs)]
  rw [scaleCoin, panicking_eq_ok.mpr ((decMul_eq_ok hamount hs).mpr ⟨hproduct, rfl⟩), ok_bind,
    panicking_eq_ok.mpr ((decRoundInt_eq_ok hamount hs).mpr ⟨hrounded, rfl⟩), ok_bind]
  exact newCoin_eq_ok.mpr ⟨hdenom, shareOf_nonneg hamount hs, rfl⟩

theorem mapM_scaleCoin_eq_ok {s : ℤ} (hs : 0 ≤ s) {ov : Coins} (hnonneg : ∀ c ∈ ov, 0 ≤ c.amount)
    (h : ov.mapM (scaleCoin s) = .ok coins) :
    coins = ov.map fun c => ⟨c.denom, shareOf c.amount s⟩ := by
  have hall := except_mapM_eq_ok.mp h
  clear h
  induction hall with
  | nil => rfl
  | cons hc _ ih =>
    rw [List.map_cons, ← ih fun c hmem => hnonneg c (List.mem_cons_of_mem _ hmem)]
    rw [scaleCoin_eq_ok hs (hnonneg _ List.mem_cons_self) hc]

theorem mapM_scaleCoin_ok {s : ℤ} (hs : 0 ≤ s) (hone : s ≤ precisionReuse) {ov : Coins}
    (hov : WellFormed ov) (hfits : ∀ c ∈ ov, FitsDec c.amount) :
    ∃ coins, ov.mapM (scaleCoin s) = .ok coins := by
  refine ⟨ov.map fun c => ⟨c.denom, shareOf c.amount s⟩, except_mapM_eq_ok.mpr ?_⟩
  refine List.forall₂_map_right_iff.mpr (List.forall₂_same.mpr fun c hc => ?_)
  exact scaleCoin_ok hs hone (hov.denoms c hc) (hov.nonneg c hc) (hfits c hc)

/-- The share of the time passed is computed without overflow. -/
theorem decQuo_between {now : ℤ} (hstart : startTime < now) (hend : now < endTime) :
    decQuo (legacyNewDec (now - startTime)) (legacyNewDec (endTime - startTime)) =
      .ok (share (now - startTime) (endTime - startTime)) := by
  obtain ⟨hscale, hone⟩ := share_between hstart hend
  refine (decQuo_eq_ok (by omega) (by omega)).mpr ⟨?_, rfl⟩
  have hlt : precisionReuse < 2 ^ maxDecBitLen := by decide +kernel
  zify
  rw [abs_of_nonneg hscale]
  exact hone.trans_lt hlt

theorem vestedCoins_of_between (hstart : startTime < unixSeconds blockTime)
    (hend : unixSeconds blockTime < endTime) (ov : Coins) :
    vestedCoins ov startTime endTime blockTime =
      ov.mapM (scaleCoin (share (unixSeconds blockTime - startTime) (endTime - startTime))) := by
  rw [vestedCoins, if_neg (not_le.mpr hstart), if_neg (not_le.mpr hend)]
  dsimp only
  rw [decQuo_between hstart hend]
  rfl

theorem vestedCoins_spec {ov : Coins} (hov : WellFormed ov)
    (h : vestedCoins ov startTime endTime blockTime = .ok coins) :
    WellFormed coins ∧ ∀ denom, amountOf coins denom =
      released (amountOf ov denom) startTime endTime (unixSeconds blockTime) := by
  rcases le_or_gt (unixSeconds blockTime) startTime with hstart | hstart
  · rw [vestedCoins, if_pos hstart] at h
    obtain rfl := Except.ok.inj h
    exact ⟨.nil, fun denom => (released_of_le_start hstart).symm⟩
  rcases le_or_gt endTime (unixSeconds blockTime) with hend | hend
  · rw [vestedCoins, if_neg (not_le.mpr hstart), if_pos hend] at h
    obtain rfl := Except.ok.inj h
    exact ⟨hov, fun denom => (released_of_end_le hstart hend).symm⟩
  · have hscale := (share_between hstart hend).1
    rw [vestedCoins_of_between hstart hend] at h
    rw [mapM_scaleCoin_eq_ok hscale hov.nonneg h]
    refine ⟨hov.map fun x hx => shareOf_nonneg hx hscale, fun denom => ?_⟩
    rw [released_of_between hstart hend]
    exact amountOf_map (shareOf · _) (shareOf_zero _) hov.sorted

theorem vestedCoins_ok {ov : Coins} (hov : WellFormed ov) (hfits : ∀ c ∈ ov, FitsDec c.amount)
    (startTime endTime : ℤ) (blockTime : Time) :
    ∃ coins, vestedCoins ov startTime endTime blockTime = .ok coins := by
  rcases le_or_gt (unixSeconds blockTime) startTime with hstart | hstart
  · exact ⟨[], by rw [vestedCoins, if_pos hstart]⟩
  rcases le_or_gt endTime (unixSeconds blockTime) with hend | hend
  · exact ⟨ov, by rw [vestedCoins, if_neg (not_le.mpr hstart), if_pos hend]⟩
  · obtain ⟨hscale, hone⟩ := share_between hstart hend
    rw [vestedCoins_of_between hstart hend]
    exact mapM_scaleCoin_ok hscale hone hov hfits

end FuelSequencer.Bridge
