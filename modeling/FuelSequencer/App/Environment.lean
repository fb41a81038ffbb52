import FuelSequencer.Bridge.RawTx
import FuelSequencer.Exec.Transaction

/-! # What the program is given

Sidecar answers, the SDK functions the program calls, the other modules over
their own part `W` of the state, and the values fixed when the app is wired.
What the SDK is documented to do is stated once, as the fields of `Sdk.Lawful`.
-/
namespace FuelSequencer.Wiring
open Go Wire Exec Bridge

/-! ## Sidecar answers -/

inductive EventType where
  | deposit
  | authorize
  | unknown (name : GoString)
deriving DecidableEq, Repr

def EventType.name : EventType → GoString
  | .deposit => str "Deposit"
  | .authorize => str "Authorize"
  | .unknown name => name

structure Event where
  eventType : EventType
  data : Bytes
  contractAddress : GoString
  logIndex : UInt64
  txIndex : UInt64
  txHash : GoString
deriving DecidableEq, Repr

structure DepositEvent where
  depositor : GoString
  recipient : GoString
  amount : GoString
  lockup : GoString
deriving DecidableEq, Repr

structure AuthorizeEvent where
  sender : GoString
  data : Bytes
deriving DecidableEq, Repr

def DepositEvent.fields (m : DepositEvent) : List Field :=
  bytesField 1 m.depositor ++ bytesField 2 m.recipient ++ bytesField 3 m.amount ++
    bytesField 4 m.lockup

structure QueryBlockEventsResponse where
  events : List Event
  length_lt : events.length < maxLen

/-- The answer to the query for a block's events. -/
abbrev Sidecar := UInt64 → Except GoString QueryBlockEventsResponse

/-! ## SDK functions -/

structure Sdk where
  accAddressString : Bytes → GoString
  accAddressFromBech32 : GoString → Except GoString Bytes
  valAddressFromBech32 : GoString → Except GoString Bytes
  bech32StringToBytes : GoString → Except GoString Bytes
  ethAddressString : Bytes → GoString
  newIntFromString : GoString → Option ℤ
  durationString : Duration → GoString
  toLower : GoString → GoString
  eventString : Event → GoString
  msgIndexString : MsgIndex → GoString
  timeString : Time → GoString
  unmarshalDepositEvent : Bytes → Except GoString DepositEvent
  unmarshalAuthorizeEvent : Bytes → Except GoString AuthorizeEvent
  unmarshalAuthorizeTx : Bytes → Except GoString (List Any)
  /-- The codec in use is the `ProtoCodec`. -/
  isProtoCodec : Bool
  /-- Resolves a packed message and rejects fields it does not know. -/
  unpackAny : Any → Except GoString Msg
  txDecode : Bytes → Except GoString Tx
  getMsgV1Signers : Msg → Except GoString (List Bytes)
  /-- `ValidateBasic` of other modules' messages; those without one pass. -/
  validateBasicOther : Any → Except GoString Unit
  /-- `Coins.Add`; the error is the text of its panic. -/
  coinsAdd : Coins → Coins → Except GoString Coins
  /-- `Coins.Sub`; the error is the text of its panic. -/
  coinsSub : Coins → Coins → Except GoString Coins
  /-- `Coins.SafeSub`: the difference, and whether it is negative somewhere. -/
  coinsSafeSub : Coins → Coins → Coins × Bool
  coinsMin : Coins → Coins → Coins
  coinsIsAllPositive : Coins → Bool
  coinsIsAllGTE : Coins → Coins → Bool
  coinsString : Coins → GoString
  newContinuousVestingAccount : BaseAccount → Coins → ℤ → ℤ → Except GoString ContinuousVestingAccount
  emitTypedEvent : TypedEvent → Except GoString Unit

structure Sdk.Lawful (sdk : Sdk) : Prop where
  txDecode_raw : ∀ (sequence : UInt64) {anys : List Any} {msgs : List Msg},
    List.Forall₂ (fun a m => sdk.unpackAny a = .ok m) anys msgs →
      sdk.txDecode (validRawTxBytesFromAnyMsgs anys sequence) = .ok ⟨msgs, some injectedTxGasLimit⟩
  txDecode_raw_error : ∀ (sequence : UInt64) {anys : List Any} {a : Any} {e : GoString},
    a ∈ anys → sdk.unpackAny a = .error e →
      ∃ e', sdk.txDecode (validRawTxBytesFromAnyMsgs anys sequence) = .error e'
  unpackAny_supplyDelta : ∀ m : MsgSupplyDelta, sdk.unpackAny m.toAny = .ok (.supplyDelta m)
  unpackAny_depositFromEthereum : ∀ m : MsgDepositFromEthereum,
    sdk.unpackAny m.toAny = .ok (.depositFromEthereum m)
  unpackAny_index : ∀ m : MsgIndex, sdk.unpackAny m.toAny = .ok (.index m)
  unpackAny_skippedEventTx : ∀ m : MsgSkippedEventTx, sdk.unpackAny m.toAny = .ok (.skippedEventTx m)
  emitTypedEvent_ok : ∀ e, sdk.emitTypedEvent e = .ok ()
  isProtoCodec_eq : sdk.isProtoCodec = true

/-- What the runtime says when a nil pointer is followed. -/
def errNilPointer : Fault GoString :=
  .panic (str "runtime error: invalid memory address or nil pointer dereference")

/-! ## Other modules -/

structure Ctx where
  blockHeight : UInt64
  blockTime : Time

/-- What code of another module does: it changes its own part of the state and may send
messages to the bridge through the router. A failing call fails its caller; a scope runs
on a copy of the state that is written back only at a normal end. -/
inductive Routed (W : Type) where
  | done (w : W)
  | fail (fault : Fault GoString) (w : W)
  | call (w : W) (m : Msg) (next : W → Routed W)
  | scope (body : Routed W) (next : Option (Fault GoString) → W → Routed W)

structure Modules (W : Type) where
  getLastValidators : W → Except GoString (List GoString)
  getSupply : W → GoString → ℤ
  getBalance : W → Bytes → GoString → ℤ
  mintCoins : GoString → Coins → Prog GoString W Unit
  burnCoins : GoString → Coins → Prog GoString W Unit
  sendCoinsFromModuleToAccount : GoString → Bytes → Coins → Prog GoString W Unit
  sendCoinsFromModuleToModule : GoString → GoString → Coins → Prog GoString W Unit
  sendCoinsFromAccountToModule : Bytes → GoString → Coins → Prog GoString W Unit
  moduleAddress : GoString → Bytes
  /-- `GetModuleAccount`, which creates the account when there is none. -/
  getModuleAccount : GoString → Prog GoString W (Option BaseAccount)
  getAccount : W → Bytes → Option Account
  newAccount : Account → Prog GoString W Account
  setAccount : Account → Prog GoString W Unit
  /-- The router has a handler for the message. -/
  hasHandler : Msg → Bool
  handleOther : Ctx → Any → W → Routed W
  /-- The SDK's decorators before and after those of the app. -/
  anteSetup : Ctx → Bytes → Tx → Except GoString Unit
  anteRest : Ctx → Bytes → Tx → Prog GoString W Unit
  /-- A native transaction runs out of gas while its messages execute. -/
  outOfGas : Ctx → Bytes → Tx → W → Bool
  beginBlockBefore : Ctx → Prog GoString W Unit
  endBlockBefore : Ctx → W → Routed W

structure Modules.Lawful {W : Type} (modules : Modules W) : Prop where
  hasHandler_bridge : ∀ m : Msg, (∀ a, m ≠ .other a) → modules.hasHandler m
  anteSetup_raw : ∀ (ctx : Ctx) (anys : List Any) (sequence : UInt64) (msgs : List Msg),
    modules.anteSetup ctx (validRawTxBytesFromAnyMsgs anys sequence)
      ⟨msgs, some injectedTxGasLimit⟩ = .ok ()

structure Keeper where
  authority : GoString
  blockedAddresses : List GoString

/-- The keeper of the sequencing module. -/
structure SequencingKeeper where
  authority : GoString

structure App (W : Type) where
  sdk : Sdk
  modules : Modules W
  keeper : Keeper
  sequencingKeeper : SequencingKeeper

structure App.Lawful {W : Type} (app : App W) : Prop where
  sdk : app.sdk.Lawful
  modules : app.modules.Lawful

variable {sdk : Sdk}

theorem Sdk.Lawful.txDecode_single (h : sdk.Lawful) (sequence : UInt64) {a : Any} {m : Msg}
    (ha : sdk.unpackAny a = .ok m) :
    sdk.txDecode (validRawTxBytesFromAnyMsgs [a] sequence) = .ok ⟨[m], some injectedTxGasLimit⟩ :=
  h.txDecode_raw sequence (.cons ha .nil)

end FuelSequencer.Wiring
