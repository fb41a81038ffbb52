import FuelSequencer.Sidecar.Event
import FuelSequencer.Bridge.Deposit

/-! # Logs of the proxy contract

An Ethereum log becomes the event that the sidecar serves: a deposit, or an
authorization by the address of its first topic. All kinds but the authorization
itself carry exactly one message, packed here with the fields of its wire form.
-/
namespace FuelSequencer.Sidecar
open Go Wire Exec Lib Bridge Wiring

/-- An address has 20 bytes and a topic 32. -/
structure Log where
  address : Bytes
  topics : List Bytes
  data : Bytes
  blockNumber : UInt64
  txHash : Bytes
  txIndex : UInt64
  index : UInt64
  removed : Bool
  address_length : address.length = 20
  topics_length : ∀ topic ∈ topics, topic.length = 32

inductive LogKind where
  | deposit
  | delegate
  | redelegate
  | claimRewards
  | unbond
  | withdraw
  | transfer
  | vote
  | setRewardRecipient
  | grant
  | revoke
  | authorize
deriving DecidableEq, Repr

def LogKind.signature : LogKind → GoString
  | .deposit => str "Deposit(address,address,uint256,uint256)"
  | .delegate => str "Delegate(address,address,uint256)"
  | .redelegate => str "Redelegate(address,address,address,uint256)"
  | .claimRewards => str "ClaimRewards(address,address)"
  | .unbond => str "Unbond(address,address,uint256)"
  | .withdraw => str "Withdraw(address,address,uint256)"
  | .transfer => str "Transfer(address,address,uint256)"
  | .vote => str "Vote(address,uint64,uint32,string)"
  | .setRewardRecipient => str "SetRewardRecipient(address,address)"
  | .grant => str "Grant(address,address,string,uint32)"
  | .revoke => str "Revoke(address,address,string)"
  | .authorize => str "Authorize(address,bytes)"

/-- In the order of the cases of the switch. -/
def LogKind.all : List LogKind :=
  [.deposit, .delegate, .redelegate, .claimRewards, .unbond, .withdraw, .transfer, .vote,
    .setRewardRecipient, .grant, .revoke, .authorize]

/-- `UnpackIntoInterface` on the data of each kind. -/
structure ContractAbi where
  deposit : Bytes → Except GoString (ℕ × ℕ)
  /-- The kinds whose only unindexed argument is an amount. -/
  amount : LogKind → Bytes → Except GoString ℕ
  /-- The kinds without unindexed arguments. -/
  empty : LogKind → Bytes → Except GoString Unit
  vote : Bytes → Except GoString (UInt32 × GoString)
  grant : Bytes → Except GoString (GoString × UInt32)
  revoke : Bytes → Except GoString GoString
  authorize : Bytes → Except GoString Bytes

structure EthRpcClient where
  sdk : Sdk
  keccak256 : Bytes → Bytes
  contractAbi : ContractAbi
  seqBridgeDenom : GoString

/-! ## Packed messages -/

def coinFields (c : Coin) : List Field := bytesField 1 c.denom ++ bytesField 2 (decimalInt c.amount)

def coinField (number : ℕ) [NeZero number] (c : Coin) : Field :=
  messageField number (encodeFields (coinFields c))

/-- A message whose first two fields are addresses. -/
def pairMsg (typeUrl : String) (first second : GoString) (rest : List Field) : Any :=
  ⟨str typeUrl, encodeFields (bytesField 1 first ++ bytesField 2 second ++ rest)⟩

def msgDelegate (delegator validator : GoString) (amount : Coin) : Any :=
  pairMsg "/cosmos.staking.v1beta1.MsgDelegate" delegator validator [coinField 3 amount]

def msgBeginRedelegate (delegator validatorSrc validatorDst : GoString) (amount : Coin) : Any :=
  pairMsg "/cosmos.staking.v1beta1.MsgBeginRedelegate" delegator validatorSrc
    (bytesField 3 validatorDst ++ [coinField 4 amount])

def msgWithdrawDelegatorReward (delegator validator : GoString) : Any :=
  pairMsg "/cosmos.distribution.v1beta1.MsgWithdrawDelegatorReward" delegator validator []

def msgUndelegate (delegator validator : GoString) (amount : Coin) : Any :=
  pairMsg "/cosmos.staking.v1beta1.MsgUndelegate" delegator validator [coinField 3 amount]

def msgWithdrawToEthereum (sender recipient : GoString) (amount : Coin) : Any :=
  pairMsg "/fuelsequencer.bridge.v1.MsgWithdrawToEthereum" sender recipient [coinField 3 amount]

def msgSend (sender recipient : GoString) (amount : Coins) : Any :=
  pairMsg "/cosmos.bank.v1beta1.MsgSend" sender recipient (amount.map fun c => coinField 3 c)

def msgSetWithdrawAddress (delegator recipient : GoString) : Any :=
  pairMsg "/cosmos.distribution.v1beta1.MsgSetWithdrawAddress" delegator recipient []

def msgRevoke (granter grantee msgTypeUrl : GoString) : Any :=
  pairMsg "/cosmos.authz.v1beta1.MsgRevoke" granter grantee (bytesField 3 msgTypeUrl)

/-- The option is converted to the enumeration, a signed 32-bit integer. -/
def msgVote (proposalId : ℕ) (voter : GoString) (option : UInt32) (metadata : GoString) : Any :=
  ⟨str "/cosmos.gov.v1.MsgVote", encodeFields (uintField 1 proposalId ++ bytesField 2 voter ++
    uintField 3 (uint64 (Int.bmod option.toNat (2 ^ 32))) ++ bytesField 4 metadata)⟩

def genericAuthorization (msgTypeUrl : GoString) : Any :=
  ⟨str "/cosmos.authz.v1beta1.GenericAuthorization", encodeFields (bytesField 1 msgTypeUrl)⟩

/-- A grant without expiration has no timestamp. -/
def grantFields (msgTypeUrl : GoString) (expiration : UInt32) : List Field :=
  messageField 1 (encodeFields (genericAuthorization msgTypeUrl).fields) ::
    (if expiration > 0 then [messageField 2 (encodeFields (uintField 1 expiration.toNat))] else [])

def msgGrant (granter grantee msgTypeUrl : GoString) (expiration : UInt32) : Any :=
  pairMsg "/cosmos.authz.v1beta1.MsgGrant" granter grantee
    [messageField 3 (encodeFields (grantFields msgTypeUrl expiration))]

def authorizeTxFromMsg (msg : Any) : Bytes := encodeFields [messageField 1 (encodeFields msg.fields)]

def authorizeEventFields (m : AuthorizeEvent) : List Field := bytesField 1 m.sender ++ bytesField 2 m.data

/-! ## Extraction -/

def hashHex (bz : Bytes) : GoString := str "0x" ++ hexLower bz

def errIndexRange : Fault GoString := .panic (str "runtime error: index out of range")

def Log.topicAt (log : Log) (i : ℕ) : Outcome GoString Bytes := required log.topics[i]? errIndexRange

/-- The address in a topic. -/
theorem length_drop_topic {log : Log} {i : ℕ} {topic : Bytes} (h : log.topics[i]? = some topic) :
    (topic.drop 12).length = 20 := by
  rw [List.length_drop, log.topics_length topic (List.mem_of_getElem? h)]

/-- The unsigned number in big-endian bytes. -/
def bigEndian (bz : Bytes) : ℕ := bz.foldl (fun n b => n * 256 + b.toNat) 0

namespace EthRpcClient

variable (c : EthRpcClient) (log : Log)

/-- The address in a topic is its last 20 bytes. -/
def topicText (i : ℕ) : Outcome GoString GoString := do
  let topic ← log.topicAt i
  return c.sdk.ethAddressString (topic.drop 12)

def kindOf (topic : Bytes) : Option LogKind :=
  LogKind.all.find? fun kind => c.keccak256 kind.signature = topic

/-- The payload of an authorization by `sender`. -/
def authorized (sender : GoString) (data : Bytes) : EventType × Bytes :=
  (.authorize, encodeFields (authorizeEventFields ⟨sender, data⟩))

/-- One message about an amount between the addresses of two topics. -/
def amountEvent (kind : LogKind) (msg : GoString → GoString → Coin → Outcome GoString Any) :
    Outcome GoString (EventType × Bytes) := do
  let amount ← wrapping id (c.contractAbi.amount kind log.data)
  let first ← c.topicText log 1
  let second ← c.topicText log 2
  let coin ← newCoin c.seqBridgeDenom amount
  let packed ← msg first second coin
  return authorized first (authorizeTxFromMsg packed)

def depositEvent : Outcome GoString DepositEvent := do
  let (amount, lockup) ← wrapping id (c.contractAbi.deposit log.data)
  let depositor ← c.topicText log 1
  let recipient ← c.topicText log 2
  return ⟨depositor, recipient, decimal amount, decimal lockup⟩

def eventData : LogKind → Outcome GoString (EventType × Bytes)
  | .deposit => do
    let event ← c.depositEvent log
    return (.deposit, encodeFields (DepositEvent.fields event))
  | .delegate => c.amountEvent log .delegate fun d v coin => .ok (msgDelegate d v coin)
  | .redelegate => do
    let amount ← wrapping id (c.contractAbi.amount .redelegate log.data)
    let delegator ← c.topicText log 1
    let srcValidator ← c.topicText log 2
    let dstValidator ← c.topicText log 3
    let coin ← newCoin c.seqBridgeDenom amount
    return authorized delegator
      (authorizeTxFromMsg (msgBeginRedelegate delegator srcValidator dstValidator coin))
  | .claimRewards => do
    wrapping id (c.contractAbi.empty .claimRewards log.data)
    let delegator ← c.topicText log 1
    let validator ← c.topicText log 2
    return authorized delegator (authorizeTxFromMsg (msgWithdrawDelegatorReward delegator validator))
  | .unbond => c.amountEvent log .unbond fun d v coin => .ok (msgUndelegate d v coin)
  | .withdraw => c.amountEvent log .withdraw fun s r coin => .ok (msgWithdrawToEthereum s r coin)
  | .transfer => c.amountEvent log .transfer fun s r coin => do
    let coins ← newCoins coin
    return msgSend s r coins
  | .vote => do
    let (option, metadata) ← wrapping id (c.contractAbi.vote log.data)
    let voter ← c.topicText log 1
    let proposal ← log.topicAt 2
    let proposalId := bigEndian proposal % 2 ^ 64
    return authorized voter (authorizeTxFromMsg (msgVote proposalId voter option metadata))
  | .setRewardRecipient => do
    wrapping id (c.contractAbi.empty .setRewardRecipient log.data)
    let delegator ← c.topicText log 1
    let rewardRecipient ← c.topicText log 2
    return authorized delegator (authorizeTxFromMsg (msgSetWithdrawAddress delegator rewardRecipient))
  | .grant => do
    let (msgTypeUrl, expiration) ← wrapping id (c.contractAbi.grant log.data)
    let granter ← c.topicText log 1
    let grantee ← c.topicText log 2
    return authorized granter (authorizeTxFromMsg (msgGrant granter grantee msgTypeUrl expiration))
  | .revoke => do
    let msgTypeUrl ← wrapping id (c.contractAbi.revoke log.data)
    let granter ← c.topicText log 1
    let grantee ← c.topicText log 2
    return authorized granter (authorizeTxFromMsg (msgRevoke granter grantee msgTypeUrl))
  | .authorize => do
    let data ← wrapping id (c.contractAbi.authorize log.data)
    let sender ← c.topicText log 1
    return authorized sender data

/-- The event around the encoded payload. -/
def populateEvent (eventType : EventType) (data : Bytes) : Event :=
  ⟨eventType, data, c.sdk.ethAddressString log.address, log.index, log.txIndex, hashHex log.txHash⟩

/-- No event for a log of an unknown kind. -/
def extractLogDataToEvent : Outcome GoString (Option Event) := do
  let topic ← log.topicAt 0
  match c.kindOf topic with
  | none => return none
  | some kind => do
    let (eventType, data) ← c.eventData log kind
    return some (c.populateEvent log eventType data)

end EthRpcClient

end FuelSequencer.Sidecar
