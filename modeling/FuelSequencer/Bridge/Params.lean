import FuelSequencer.App.Environment
import FuelSequencer.Lib.Address
import FuelSequencer.Lib.Math

/-! # Module parameters -/
namespace FuelSequencer.Bridge
open Go Wire Exec Lib Wiring

def minimumSequencerTxsAllocation : ℤ := 10 ^ 17
def maximumSequencerTxsAllocation : ℤ := 5 * 10 ^ 17
def minimumInjectedEventTxMaxBytes : UInt64 := 1024
def vestingStartTimeDelay : Duration := 0

/-- Text of a decimal with its eighteen digits after the point. -/
def decString (d : ℤ) : GoString :=
  let frac := decimal (d.natAbs % 10 ^ 18)
  (if d < 0 then str "-" else []) ++ decimal (d.natAbs / 10 ^ 18) ++ str "." ++
    List.replicate (18 - frac.length) 48 ++ frac

def errParamsInvalid (text : GoString) : GoString := text ++ str ": params are invalid"

def validateBridgeDenom (v : GoString) : Except GoString Unit :=
  failIf (v = []) (errParamsInvalid (str "bridge denom cannot be empty"))

def validateBridgeDenomTotalSupply (v : ℤ) : Except GoString Unit :=
  failIf (¬ 0 < v)
    (errParamsInvalid (str "bridge denom total supply must be positive, got: " ++ decimalInt v))

def validateEthereumProxyContractAddress (v : GoString) : Except GoString Unit :=
  failIf (¬ isHexAddress v)
    (errParamsInvalid (str "ethereum proxy contract address is invalid: " ++ v))

def validateSupplyDeltaPeriod (v : UInt64) : Except GoString Unit :=
  failIf (v = 0) (errParamsInvalid (str "supply delta period cannot be 0"))

def validateVestingStartTime (v : Time) : Except GoString Unit :=
  failIf (v = zeroTime)
    (errParamsInvalid (str "vesting start time must be set and cannot be the zero value"))

def validateBlockedAddresses (sdk : Sdk) (addrs : List GoString) : Except GoString Unit :=
  addrs.forM fun addr => do
    failIf (addr = []) (errParamsInvalid (str "blocked address cannot be empty"))
    match sdk.accAddressFromBech32 addr with
    | .ok _ => .ok ()
    | .error _ =>
      .error (errParamsInvalid (str "address " ++ addr ++ str " is not a valid Bech32 encoded address"))

def validateMaxEthBlockUpdateDelay (v : Duration) : Except GoString Unit :=
  failIf (v < 0)
    (errParamsInvalid (str "tolerance for no Ethereum block syncing cannot be negative"))

def validateInjectedEventTxMaxBytes (v : UInt64) : Except GoString Unit :=
  failIf (v < minimumInjectedEventTxMaxBytes)
    (errParamsInvalid (str "injected event tx max bytes cannot be less than " ++
      decimal minimumInjectedEventTxMaxBytes.toNat ++ str ": given " ++ decimal v.toNat))

def validateSequencerTxsAllocation (v : ℤ) : Except GoString Unit :=
  failIf (v < minimumSequencerTxsAllocation ∨ v > maximumSequencerTxsAllocation)
    (errParamsInvalid (str "expected: " ++ decString minimumSequencerTxsAllocation ++
      str " <= value <= " ++ decString maximumSequencerTxsAllocation ++ str "; actual " ++ decString v))

def Params.validate (sdk : Sdk) (p : Params) : Except GoString Unit := do
  validateBridgeDenom p.bridgeDenom
  validateBridgeDenomTotalSupply p.bridgeDenomTotalSupply
  validateEthereumProxyContractAddress p.ethereumProxyContractAddress
  validateSupplyDeltaPeriod p.supplyDeltaPeriod
  validateVestingStartTime p.vestingStartTime
  validateBlockedAddresses sdk p.additionalBlockedAddresses
  validateMaxEthBlockUpdateDelay p.maxEthBlockUpdateDelay
  validateInjectedEventTxMaxBytes p.injectedEventTxMaxBytes
  validateSequencerTxsAllocation p.sequencerTxsAllocation

def Params.vestingTimesFromVestingDuration (p : Params) (duration : Duration) :
    Except GoString (Time × Time) := do
  failIf (duration ≤ 0)
    (str "expected duration to be greater than 0: invalid vesting duration")
  let vestingStartTime :=
    if duration > vestingStartTimeDelay then p.vestingStartTime + vestingStartTimeDelay
    else p.vestingStartTime
  return (vestingStartTime, p.vestingStartTime + duration)

def Params.isMsgSupplyDeltaBlock (p : Params) (block : UInt64) : Outcome GoString Bool := do
  failIf (p.supplyDeltaPeriod = 0) (Fault.panic (str "supply delta period is zero"))
  return block % p.supplyDeltaPeriod = 0

/-- What accepted params guarantee, check by check. -/
theorem Params.validate_eq_ok {sdk : Sdk} {p : Params} (h : p.validate sdk = .ok ()) :
    p.bridgeDenom ≠ [] ∧ 0 < p.bridgeDenomTotalSupply ∧
      isHexAddress p.ethereumProxyContractAddress ∧ p.supplyDeltaPeriod ≠ 0 ∧
      p.vestingStartTime ≠ zeroTime ∧
      validateBlockedAddresses sdk p.additionalBlockedAddresses = .ok () ∧
      0 ≤ p.maxEthBlockUpdateDelay ∧ minimumInjectedEventTxMaxBytes ≤ p.injectedEventTxMaxBytes ∧
      minimumSequencerTxsAllocation ≤ p.sequencerTxsAllocation ∧
      p.sequencerTxsAllocation ≤ maximumSequencerTxsAllocation := by
  unfold Params.validate at h
  obtain ⟨_, h₁, h⟩ := except_bind_eq_ok.mp h
  obtain ⟨_, h₂, h⟩ := except_bind_eq_ok.mp h
  obtain ⟨_, h₃, h⟩ := except_bind_eq_ok.mp h
  obtain ⟨_, h₄, h⟩ := except_bind_eq_ok.mp h
  obtain ⟨_, h₅, h⟩ := except_bind_eq_ok.mp h
  obtain ⟨_, h₆, h⟩ := except_bind_eq_ok.mp h
  obtain ⟨_, h₇, h⟩ := except_bind_eq_ok.mp h
  obtain ⟨_, h₈, h₉⟩ := except_bind_eq_ok.mp h
  have h₉' := failIf_eq_ok.mp h₉
  refine ⟨failIf_eq_ok.mp h₁, not_not.mp (failIf_eq_ok.mp h₂), not_not.mp (failIf_eq_ok.mp h₃),
    failIf_eq_ok.mp h₄, failIf_eq_ok.mp h₅, h₆, not_lt.mp (failIf_eq_ok.mp h₇),
    UInt64.not_lt.mp (failIf_eq_ok.mp h₈), ?_, ?_⟩
  · exact not_lt.mp fun hlt => h₉' (Or.inl hlt)
  · exact not_lt.mp fun hlt => h₉' (Or.inr hlt)

theorem Params.isMsgSupplyDeltaBlock_eq_ok {p : Params} {block : UInt64} {b : Bool} :
    p.isMsgSupplyDeltaBlock block = .ok b ↔
      p.supplyDeltaPeriod ≠ 0 ∧ b = decide (block % p.supplyDeltaPeriod = 0) := by
  unfold Params.isMsgSupplyDeltaBlock
  rw [except_bind_eq_ok]
  constructor
  · rintro ⟨_, h, hb⟩
    cases hb
    exact ⟨failIf_eq_ok.mp h, rfl⟩
  · rintro ⟨h, rfl⟩
    exact ⟨(), failIf_eq_ok.mpr h, rfl⟩

end FuelSequencer.Bridge
