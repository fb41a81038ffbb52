import FuelSequencer.Go.Basic
import FuelSequencer.Wire.Message
import FuelSequencer.Sequencing.Types

/-! # Messages and stored values of the bridge module

Each message comes with the field list of its generated marshalling code. The
field lists leave out default values, so they determine the message.
-/
namespace FuelSequencer.Bridge
open Go Wire

structure Coin where
  denom : GoString
  amount : ℤ
deriving DecidableEq, Repr

abbrev Coins := List Coin

structure Params where
  bridgeDenom : GoString
  bridgeDenomTotalSupply : ℤ
  ethereumProxyContractAddress : GoString
  supplyDeltaPeriod : UInt64
  vestingStartTime : Time
  additionalBlockedAddresses : List GoString
  maxEthBlockUpdateDelay : Duration
  injectedEventTxMaxBytes : UInt64
  sequencerTxsAllocation : ℤ
deriving DecidableEq, Repr

structure Index where
  numInjectedTxsTotal : UInt64
  numInjectedTxsAnte : UInt64
  numFailedSpecialTxs : UInt64
deriving DecidableEq, Repr

structure SupplyDeltaInfo where
  lastSupply : ℤ
  offset : ℤ
  toReport : ℤ
deriving DecidableEq, Repr

structure MsgUpdateParams where
  authority : GoString
  params : Params
deriving DecidableEq, Repr

structure MsgSupplyDelta where
  authority : GoString
deriving DecidableEq, Repr

structure MsgWithdrawToEthereum where
  fromAddress : GoString
  toAddress : GoString
  amount : Coin
deriving DecidableEq, Repr

structure MsgDepositFromEthereum where
  authority : GoString
  depositor : GoString
  recipient : GoString
  amount : GoString
  lockup : GoString
deriving DecidableEq, Repr

structure MsgIndex where
  authority : GoString
  numInjectedEventTxs : UInt64
  newEthereumBlock : Bool
  blockNumber : UInt64
deriving DecidableEq, Repr

structure MsgSkippedEventTx where
  authority : GoString
  reasonForSkip : GoString
  ethBlockNumber : UInt64
  ethLogIndex : UInt64
  ethTxIndex : UInt64
  ethTxHash : GoString
deriving DecidableEq, Repr

/-- A packed message: its type URL and its encoding. -/
structure Any where
  typeUrl : GoString
  value : Bytes
deriving DecidableEq, Repr

/-- A decoded message; those of other modules stay packed. -/
inductive Msg where
  | updateParams (m : MsgUpdateParams)
  | supplyDelta (m : MsgSupplyDelta)
  | withdrawToEthereum (m : MsgWithdrawToEthereum)
  | depositFromEthereum (m : MsgDepositFromEthereum)
  | index (m : MsgIndex)
  | skippedEventTx (m : MsgSkippedEventTx)
  | postBlob (m : Sequencing.MsgPostBlob)
  | updateSequencingParams (m : Sequencing.MsgUpdateParams)
  | other (any : Any)
deriving DecidableEq, Repr

/-- A decoded transaction; `gas` is absent when it is not a `GasTx`. -/
structure Tx where
  msgs : List Msg
  gas : Option UInt64
deriving DecidableEq, Repr

/-! ## Accounts -/

structure BaseAccount where
  address : GoString
  pubKey : Option Bytes
  accountNumber : UInt64
  sequence : UInt64
deriving DecidableEq, Repr

structure ContinuousVestingAccount where
  baseAccount : BaseAccount
  originalVesting : Coins
  startTime : ℤ
  endTime : ℤ
deriving DecidableEq, Repr

structure VestingInfo where
  originalVesting : Coins
  startTime : ℤ
  endTime : ℤ
deriving DecidableEq, Repr

inductive EthOwnedAccount where
  | base (baseAccount : BaseAccount) (owner : GoString)
  | continuousVesting (account : ContinuousVestingAccount) (owner : GoString)
  | multiContinuousVesting (baseAccount : BaseAccount) (infos : List VestingInfo) (owner : GoString)
deriving DecidableEq, Repr

/-- A stored account; one of another type shows only what the account interface gives. -/
inductive Account where
  | ethOwned (account : EthOwnedAccount)
  | other (baseAccount : BaseAccount)
deriving DecidableEq, Repr

/-! ## Typed events and responses -/

inductive TypedEvent where
  | ethereumBlockSynced (blockNumber : UInt64) (fullSync : Bool)
  | supplyDeltaReported (supplyDelta nonce : ℤ)
  | skippedEventTx (m : MsgSkippedEventTx)
  | depositEventProcessed (depositor recipient : GoString) (amount : Coin) (lockup : GoString)
  | depositEventFailed (eventDetails : Bytes)
  | withdrawToEthereumReported (nonce : ℤ) (fromAddress toAddress : GoString) (amount : Coin)
deriving DecidableEq, Repr

/-- A nil integer of a response that was never filled is `none`. -/
structure MsgSupplyDeltaResponse where
  nonce : Option ℤ
  supplyDelta : Option ℤ
deriving DecidableEq, Repr

structure MsgWithdrawToEthereumResponse where
  nonce : ℤ
  fromAddress : GoString
  toAddress : GoString
  amount : Coin
deriving DecidableEq, Repr

/-! ## Wire form -/

def boolValue (b : Bool) : ℕ := if b then 1 else 0

def MsgSupplyDelta.fields (m : MsgSupplyDelta) : List Field := bytesField 1 m.authority

def MsgDepositFromEthereum.fields (m : MsgDepositFromEthereum) : List Field :=
  bytesField 1 m.authority ++ bytesField 2 m.depositor ++ bytesField 3 m.recipient ++
    bytesField 4 m.amount ++ bytesField 5 m.lockup

def MsgIndex.fields (m : MsgIndex) : List Field :=
  bytesField 1 m.authority ++ uintField 2 m.numInjectedEventTxs.toNat ++
    uintField 3 (boolValue m.newEthereumBlock) ++ uintField 4 m.blockNumber.toNat

def MsgSkippedEventTx.fields (m : MsgSkippedEventTx) : List Field :=
  bytesField 1 m.authority ++ bytesField 2 m.reasonForSkip ++ uintField 3 m.ethBlockNumber.toNat ++
    uintField 4 m.ethLogIndex.toNat ++ uintField 5 m.ethTxIndex.toNat ++ bytesField 6 m.ethTxHash

def Any.fields (a : Any) : List Field := bytesField 1 a.typeUrl ++ bytesField 2 a.value

def msgSupplyDeltaTypeUrl : GoString := str "/fuelsequencer.bridge.v1.MsgSupplyDelta"
def msgDepositFromEthereumTypeUrl : GoString := str "/fuelsequencer.bridge.v1.MsgDepositFromEthereum"
def msgIndexTypeUrl : GoString := str "/fuelsequencer.bridge.v1.MsgIndex"
def msgSkippedEventTxTypeUrl : GoString := str "/fuelsequencer.bridge.v1.MsgSkippedEventTx"

/-- `NewAnyWithValue` on each injected message. -/
def MsgSupplyDelta.toAny (m : MsgSupplyDelta) : Any := ⟨msgSupplyDeltaTypeUrl, encodeFields m.fields⟩
def MsgDepositFromEthereum.toAny (m : MsgDepositFromEthereum) : Any :=
  ⟨msgDepositFromEthereumTypeUrl, encodeFields m.fields⟩
def MsgIndex.toAny (m : MsgIndex) : Any := ⟨msgIndexTypeUrl, encodeFields m.fields⟩
def MsgSkippedEventTx.toAny (m : MsgSkippedEventTx) : Any :=
  ⟨msgSkippedEventTxTypeUrl, encodeFields m.fields⟩

/-- The generated `Size`, term by term. -/
def MsgIndex.size (m : MsgIndex) : ℕ :=
  (if 0 < m.authority.length then 1 + m.authority.length + varintSize m.authority.length else 0) +
  (if m.numInjectedEventTxs ≠ 0 then 1 + varintSize m.numInjectedEventTxs.toNat else 0) +
  (if m.newEthereumBlock then 2 else 0) +
  (if m.blockNumber ≠ 0 then 1 + varintSize m.blockNumber.toNat else 0)

end FuelSequencer.Bridge
