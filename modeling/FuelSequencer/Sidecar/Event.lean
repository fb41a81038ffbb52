import FuelSequencer.Bridge.Messages

/-! # Events from the sidecar

Parsing and validating an event, and the transaction it becomes.
-/
namespace FuelSequencer.Wiring
open Go Wire Exec Lib Bridge

inductive ParsedEvent where
  | deposit (m : DepositEvent)
  | authorize (m : AuthorizeEvent)
deriving DecidableEq, Repr

def DepositEvent.validateBasic (sdk : Sdk) (m : DepositEvent) : Except GoString Unit :=
  match sdk.newIntFromString m.lockup with
  | none => .error (str "could not convert lockup to a valid sdk.Int")
  | some _ =>
    match sdk.newIntFromString m.amount with
    | none => .error (str "could not convert amount to a valid sdk.Int")
    | some amount => failIf (amount = 0) (str "amount must be bigger than zero")

def DepositEvent.toMsgDepositFromEthereum (m : DepositEvent) (authority : GoString) :
    MsgDepositFromEthereum :=
  ⟨authority, m.depositor, m.recipient, m.amount, m.lockup⟩

def DepositEvent.messages (m : DepositEvent) (authority : GoString) : List Any :=
  [(m.toMsgDepositFromEthereum authority).toAny]

def AuthorizeEvent.validateBasic (m : AuthorizeEvent) : Except GoString Unit :=
  failIf (¬ isHexAddress m.sender) (str "sender is not a valid hex address")

def errCodecIsNotSupported : GoString :=
  str "only the ProtoCodec may be used for receiving messages on the Sequencer: codec is not supported"

def AuthorizeEvent.messages (sdk : Sdk) (m : AuthorizeEvent) : Except GoString (List Any) := do
  failIf (sdk.isProtoCodec = false) errCodecIsNotSupported
  sdk.unmarshalAuthorizeTx m.data

def ParsedEvent.validateBasic (sdk : Sdk) : ParsedEvent → Except GoString Unit
  | .deposit m => m.validateBasic sdk
  | .authorize m => m.validateBasic

def ParsedEvent.messages (sdk : Sdk) (authority : GoString) :
    ParsedEvent → Except GoString (List Any)
  | .deposit m => .ok (m.messages authority)
  | .authorize m => m.messages sdk

namespace Event

def errCouldNotUnmarshal (e : Event) (err : GoString) : GoString :=
  str "could not unmarshal to " ++ e.eventType.name ++ str ": " ++ err

def unmarshalParsedEvent (sdk : Sdk) (e : Event) : Except GoString ParsedEvent :=
  match e.eventType with
  | .deposit => (sdk.unmarshalDepositEvent e.data).mapError e.errCouldNotUnmarshal |>.map .deposit
  | .authorize =>
    (sdk.unmarshalAuthorizeEvent e.data).mapError e.errCouldNotUnmarshal |>.map .authorize
  | .unknown name => .error (str "unknown event type: " ++ name)

def validate (sdk : Sdk) (ethereumProxyContractAddress : GoString) (e : Event) :
    Except GoString Unit := do
  failIf (e.contractAddress ≠ ethereumProxyContractAddress)
    (str "event's contract address does not match expected proxy contract address; got " ++
      e.contractAddress ++ str ", expected " ++ ethereumProxyContractAddress)
  let parsedEvent ← e.unmarshalParsedEvent sdk
  parsedEvent.validateBasic sdk

def messages (sdk : Sdk) (authority : GoString) (e : Event) : Except GoString (List Any) := do
  let parsedEvent ← e.unmarshalParsedEvent sdk
  parsedEvent.messages sdk authority

def rawTxBytes (sdk : Sdk) (authority : GoString) (sequence : UInt64) (e : Event) :
    Except GoString Bytes := do
  let messages ← e.messages sdk authority
  return validRawTxBytesFromAnyMsgs messages sequence

def errExceededMaxBytes (size maxBytes : ℕ) : GoString :=
  str "generated raw tx bytes exceeded max bytes; " ++ decimal size ++ str " > " ++ decimal maxBytes

def rawTxBytesWithMaxBytes (sdk : Sdk) (authority : GoString) (maxBytes sequence : UInt64)
    (e : Event) : Except GoString Bytes := do
  let bz ← e.rawTxBytes sdk authority sequence
  failIf (txSize bz > maxBytes.toNat) (errExceededMaxBytes (txSize bz) maxBytes.toNat)
  return bz

variable {sdk : Sdk} {e : Event} {authority : GoString} {maxBytes sequence : UInt64}

theorem rawTxBytesWithMaxBytes_eq_ok {bz : Bytes} :
    e.rawTxBytesWithMaxBytes sdk authority maxBytes sequence = .ok bz ↔
      ∃ anys, e.messages sdk authority = .ok anys ∧
        bz = validRawTxBytesFromAnyMsgs anys sequence ∧ txSize bz ≤ maxBytes.toNat := by
  unfold rawTxBytesWithMaxBytes rawTxBytes
  cases e.messages sdk authority with
  | error err => simp
  | ok anys =>
    by_cases hsize : txSize (validRawTxBytesFromAnyMsgs anys sequence) > maxBytes.toNat
    · simp only [ok_bind, except_pure, failIf_of hsize, error_bind, reduceCtorEq, Except.ok.injEq,
        exists_eq_left', false_iff, not_and]
      rintro rfl
      omega
    · simp only [ok_bind, except_pure, failIf_of_not hsize, Except.ok.injEq, exists_eq_left']
      constructor
      · rintro rfl
        exact ⟨rfl, by omega⟩
      · rintro ⟨rfl, -⟩
        rfl

/-- What a valid event of the recognised types holds. -/
theorem validate_eq_ok {proxy : GoString} (h : e.validate sdk proxy = .ok ()) :
    e.contractAddress = proxy ∧
      ((e.eventType = .deposit ∧ ∃ d, sdk.unmarshalDepositEvent e.data = .ok d ∧
          e.unmarshalParsedEvent sdk = .ok (.deposit d) ∧ d.validateBasic sdk = .ok ()) ∨
        (e.eventType = .authorize ∧ ∃ a, sdk.unmarshalAuthorizeEvent e.data = .ok a ∧
          e.unmarshalParsedEvent sdk = .ok (.authorize a) ∧ isHexAddress a.sender)) := by
  unfold validate at h
  obtain ⟨_, hc, h⟩ := except_bind_eq_ok.mp h
  obtain ⟨p, hp, hv⟩ := except_bind_eq_ok.mp h
  refine ⟨not_not.mp (failIf_eq_ok.mp hc), ?_⟩
  have hu := hp
  unfold unmarshalParsedEvent at hp
  cases ht : e.eventType with
  | deposit =>
    rw [ht] at hp
    cases hd : sdk.unmarshalDepositEvent e.data with
    | error err => rw [hd] at hp; cases hp
    | ok d =>
      rw [hd] at hp
      cases hp
      exact Or.inl ⟨rfl, d, rfl, hu, hv⟩
  | authorize =>
    rw [ht] at hp
    cases ha : sdk.unmarshalAuthorizeEvent e.data with
    | error err => rw [ha] at hp; cases hp
    | ok a =>
      rw [ha] at hp
      cases hp
      exact Or.inr ⟨rfl, a, rfl, hu, not_not.mp (failIf_eq_ok.mp hv)⟩
  | unknown name => rw [ht] at hp; cases hp

end Event

end FuelSequencer.Wiring
