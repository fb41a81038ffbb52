import FuelSequencer.Bridge.Params
import FuelSequencer.Bridge.State

/-! # Addresses and accounts

Ethereum addresses map to Sequencer addresses through the address codec of the
app. A deposit to an owned address gets or creates its account and adds the
deposited coins to the account's vesting schedule.
-/
namespace FuelSequencer.Bridge
open Go Wire Exec Lib Wiring

def moduleName : GoString := str "bridge"
def govModuleName : GoString := str "gov"

/-- The text of the zero Ethereum address. -/
def nullEthereumAddress : GoString := str "0x0000000000000000000000000000000000000000"

variable {W : Type}

/-- What the SDK's functions for texts of addresses do. -/
structure AddressLaws (sdk : Sdk) : Prop where
  accAddressFromBech32_string : ∀ {bz : Bytes}, verifyAddressFormat bz = .ok () →
    sdk.accAddressFromBech32 (sdk.accAddressString bz) = .ok bz
  bech32StringToBytes_string : ∀ {bz : Bytes}, verifyAddressFormat bz = .ok () →
    sdk.bech32StringToBytes (sdk.accAddressString bz) = .ok bz
  /-- The text of an account starts with the human-readable part. -/
  string_text : ∀ bz : Bytes, verifyAddressFormat bz = .ok () →
    isBlank (sdk.accAddressString bz) = false ∧ isHexAddress (sdk.accAddressString bz) = false
  accAddress_format : ∀ {text : GoString} {bz : Bytes}, sdk.accAddressFromBech32 text = .ok bz →
    verifyAddressFormat bz = .ok ()
  valAddress_format : ∀ {text : GoString} {bz : Bytes}, sdk.valAddressFromBech32 text = .ok bz →
    verifyAddressFormat bz = .ok ()
  codec_format : ∀ {text : GoString} {bz : Bytes}, sdk.bech32StringToBytes text = .ok bz →
    verifyAddressFormat bz = .ok ()

/-- The address codec of the app. -/
def stringToBytes (sdk : Sdk) (text : GoString) : Except GoString Bytes :=
  if isBlank text then .error (str "empty address string is not allowed")
  else if isHexAddress text then do
    verifyAddressFormat (fromHex text)
    return fromHex text
  else sdk.bech32StringToBytes text

def generateSequencerAddressFromEthereumAddress (sdk : Sdk) (ethAddress : GoString) :
    Except GoString Bytes := do
  failIf (¬ isHexAddress ethAddress)
    (str "invalid Ethereum address format (" ++ ethAddress ++ str "): invalid ethereum address")
  stringToBytes sdk ethAddress

/-- The blocked addresses, in the order in which the source enters them into its map. -/
def getAllBlockedBech32Addresses (app : App W) (s : State W) : Except GoString (List GoString) := do
  let validators ← app.modules.getLastValidators s.world
  let operators ← validators.mapM fun v => do
    let valAddr ← app.sdk.valAddressFromBech32 v
    return app.sdk.accAddressString valAddr
  return app.keeper.blockedAddresses ++ s.bridge.params.additionalBlockedAddresses ++ operators ++
    [app.keeper.authority]

def isAddressBlocked (app : App W) (s : State W) (address : GoString) : Except GoString Bool := do
  let blocked ← getAllBlockedBech32Addresses app s
  let addressBz ← stringToBytes app.sdk address
  return app.sdk.accAddressString addressBz ∈ blocked

def isRecipientOwnedByDepositor (depositor recipient depositorSeq : GoString)
    (seqMappingErr : Bool) : Bool :=
  recipient = nullEthereumAddress ∨ recipient = depositor ∨
    (seqMappingErr = false ∧ recipient = depositorSeq)

def newEthOwnedBaseAccountWithAddress (sdk : Sdk) (address : Bytes) (owner : GoString) :
    EthOwnedAccount :=
  .base ⟨sdk.accAddressString address, none, 0, 0⟩ owner

/-- An account of another type loses its own vesting details. -/
def normaliseExistingAccount (acc : Account) (ethAddress : GoString) : EthOwnedAccount :=
  match acc with
  | .ethOwned a => a
  | .other b => .base b ethAddress

/-- The first schedule with the start time takes the coins, its end time kept. -/
def addToInfos (sdk : Sdk) (coins : Coins) (startTime endTime : ℤ) :
    List VestingInfo → Outcome GoString (List VestingInfo)
  | [] => .ok [⟨coins, startTime, endTime⟩]
  | info :: infos =>
    if info.startTime = startTime then do
      let vesting ← panicking (sdk.coinsAdd info.originalVesting coins)
      return { info with originalVesting := vesting } :: infos
    else do
      let rest ← addToInfos sdk coins startTime endTime infos
      return info :: rest

def EthOwnedAccount.addVestingCoins (sdk : Sdk) (a : EthOwnedAccount) (coins : Coins)
    (startTime endTime : Time) : Outcome GoString EthOwnedAccount :=
  match a with
  | .base baseAccount owner => do
    let account ← wrapping id (sdk.newContinuousVestingAccount baseAccount coins
      (unixSeconds startTime) (unixSeconds endTime))
    return .continuousVesting account owner
  | .continuousVesting account owner =>
    if account.startTime = unixSeconds startTime then do
      let vesting ← panicking (sdk.coinsAdd account.originalVesting coins)
      return .continuousVesting { account with originalVesting := vesting } owner
    else do
      let infos ← addToInfos sdk coins (unixSeconds startTime) (unixSeconds endTime)
        [⟨account.originalVesting, account.startTime, account.endTime⟩]
      return .multiContinuousVesting account.baseAccount infos owner
  | .multiContinuousVesting baseAccount infos owner => do
    let infos ← addToInfos sdk coins (unixSeconds startTime) (unixSeconds endTime) infos
    return .multiContinuousVesting baseAccount infos owner

/-- Only a new account is given an account number. -/
def numberedAccount (app : App W) (existingAcc : Option Account) (acc : EthOwnedAccount) :
    Run W Account :=
  match existingAcc with
  | none => inWorld (app.modules.newAccount (.ethOwned acc))
  | some _ => pure (.ethOwned acc)

def generateSequencerAccountFromEthereumDeposit (app : App W) (ethAddress : GoString)
    (vestingDuration : Duration) (coins : Coins) : Run W Bytes := do
  let accAddress ← ofOutcome (wrapping id
    (generateSequencerAddressFromEthereumAddress app.sdk ethAddress))
  let s ← get
  let existingAcc := app.modules.getAccount s.world accAddress
  let acc := match existingAcc with
    | none => newEthOwnedBaseAccountWithAddress app.sdk accAddress ethAddress
    | some a => normaliseExistingAccount a ethAddress
  let acc ← ofOutcome (if vestingDuration > 0 then do
      let times ← wrapping id (s.bridge.params.vestingTimesFromVestingDuration vestingDuration)
      acc.addVestingCoins app.sdk coins times.1 times.2
    else .ok acc)
  let accI ← numberedAccount app existingAcc acc
  inWorld (app.modules.setAccount accI)
  return accAddress

theorem verifyAddressFormat_fromHex {text : GoString} (h : isHexAddress text) :
    verifyAddressFormat (fromHex text) = .ok () := by
  unfold verifyAddressFormat
  rw [length_fromHex h]
  rfl

theorem stringToBytes_of_isHexAddress (sdk : Sdk) {text : GoString} (h : isHexAddress text) :
    stringToBytes sdk text = .ok (fromHex text) := by
  unfold stringToBytes
  rw [isBlank_of_isHexAddress h, if_neg (by decide), if_pos h, verifyAddressFormat_fromHex h]
  rfl

/-- The codec reads the text of an account back. -/
theorem stringToBytes_accAddressString {sdk : Sdk} (laws : AddressLaws sdk) {bz : Bytes}
    (h : verifyAddressFormat bz = .ok ()) : stringToBytes sdk (sdk.accAddressString bz) = .ok bz := by
  obtain ⟨hblank, hhex⟩ := laws.string_text bz h
  rw [stringToBytes, if_neg (by simp [hblank]), if_neg (by simp [hhex])]
  exact laws.bech32StringToBytes_string h

theorem verifyAddressFormat_of_stringToBytes {sdk : Sdk} (laws : AddressLaws sdk) {text : GoString} {bz : Bytes}
    (h : stringToBytes sdk text = .ok bz) : verifyAddressFormat bz = .ok () := by
  unfold stringToBytes at h
  split at h
  next => cases h
  next =>
    split at h
    next =>
      obtain ⟨_, hformat, hbz⟩ := except_bind_eq_ok.mp h
      exact Except.ok.inj hbz ▸ hformat
    next => exact laws.codec_format h

/-- Two accounts with one text are one account. -/
theorem accAddressString_inj {sdk : Sdk} (laws : AddressLaws sdk) {a b : Bytes} (ha : verifyAddressFormat a = .ok ())
    (hb : verifyAddressFormat b = .ok ()) (h : sdk.accAddressString a = sdk.accAddressString b) : a = b := by
  have htext := laws.accAddressFromBech32_string ha
  rw [h, laws.accAddressFromBech32_string hb] at htext
  exact (Except.ok.inj htext).symm

theorem generateSequencerAddress_of_isHexAddress (sdk : Sdk) {ethAddress : GoString}
    (h : isHexAddress ethAddress) :
    generateSequencerAddressFromEthereumAddress sdk ethAddress = .ok (fromHex ethAddress) := by
  unfold generateSequencerAddressFromEthereumAddress
  rw [failIf_of_not (not_not.mpr h)]
  exact stringToBytes_of_isHexAddress sdk h

end FuelSequencer.Bridge
