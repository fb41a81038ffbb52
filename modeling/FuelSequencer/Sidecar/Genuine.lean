import FuelSequencer.Abci.Handlers
import FuelSequencer.Sidecar.Deposits
import FuelSequencer.Sidecar.Extraction

/-! # Events of the contract

An event that the sidecar made of a log of the contract is valid for the params exactly if
their text of the contract address is the one that the sidecar writes. The transaction of a
deposit is small for all numbers that a log can hold.
-/
namespace FuelSequencer.Sidecar
open Go Wire Exec Lib Bridge Wiring Abci

/-- What the libraries do with the texts and bytes of an event. -/
structure EventLaws (sdk : Sdk) : Prop where
  isHexAddress_ethAddressString : ∀ {bz : Bytes}, bz.length = 20 → isHexAddress (sdk.ethAddressString bz)
  newIntFromString_decimal : ∀ {n : ℕ}, n < 2 ^ maxBitLen → sdk.newIntFromString (decimal n) = some (n : ℤ)
  unmarshalDepositEvent_encode : ∀ m : DepositEvent, sdk.unmarshalDepositEvent (encodeFields m.fields) = .ok m
  unmarshalAuthorizeEvent_encode : ∀ m : AuthorizeEvent,
    sdk.unmarshalAuthorizeEvent (encodeFields (authorizeEventFields m)) = .ok m

/-- The numbers of a deposit are unpacked as `uint256`. -/
def ContractAbi.Unsigned (abi : ContractAbi) : Prop :=
  ∀ {data : Bytes} {amount lockup : ℕ}, abi.deposit data = .ok (amount, lockup) →
    amount < 2 ^ maxBitLen ∧ lockup < 2 ^ maxBitLen

/-- A deposit of the log, if it is one, is positive. -/
def EthRpcClient.PositiveDeposit (c : EthRpcClient) (log : Log) : Prop :=
  ∀ {topic : Bytes} {amount lockup : ℕ}, log.topics[0]? = some topic → c.kindOf topic = some .deposit →
    c.contractAbi.deposit log.data = .ok (amount, lockup) → 0 < amount

/-! ## The reference environment -/

theorem bigEndian_lt (bz : Bytes) : bigEndian bz < 256 ^ bz.length := by
  have hstep : ∀ n, bz.foldl (fun n b => n * 256 + b.toNat) n < (n + 1) * 256 ^ bz.length := by
    induction bz with
    | nil => simp
    | cons b bz ih =>
      intro n
      have hb : b.toNat < 256 := b.toNat_lt
      calc (b :: bz).foldl (fun n b => n * 256 + b.toNat) n
          < (n * 256 + b.toNat + 1) * 256 ^ bz.length := ih _
        _ ≤ ((n + 1) * 256) * 256 ^ bz.length := Nat.mul_le_mul_right _ (by omega)
        _ = (n + 1) * 256 ^ (b :: bz).length := by rw [List.length_cons, pow_succ]; ring
  simpa [bigEndian] using hstep 0

section Reference

open Reference

theorem word_lt {data : Bytes} {i n : ℕ} (h : word data i = .ok n) : n < 2 ^ maxBitLen := by
  unfold word at h
  split_ifs at h
  obtain rfl := Except.ok.inj h
  refine lt_of_lt_of_le (bigEndian_lt _) ?_
  calc 256 ^ ((data.drop (32 * i)).take 32).length
      ≤ 256 ^ 32 := Nat.pow_le_pow_right (by decide) (List.length_take_le _ _)
    _ = 2 ^ maxBitLen := by decide

theorem unsigned_contractAbi : contractAbi.Unsigned := by
  intro data amount lockup h
  obtain ⟨a, ha, h⟩ := except_bind_eq_ok.mp h
  obtain ⟨l, hl, h⟩ := except_bind_eq_ok.mp h
  obtain ⟨rfl, rfl⟩ := Prod.mk.inj (Except.ok.inj h)
  exact ⟨word_lt ha, word_lt hl⟩

theorem eventLaws : EventLaws sdk where
  isHexAddress_ethAddressString := depositLaws.isHexAddress_ethAddressString
  newIntFromString_decimal := newIntFromString_decimal
  unmarshalDepositEvent_encode := depositLaws.unmarshalDepositEvent_encode
  unmarshalAuthorizeEvent_encode m := by
    change orEof (readAuthorizeEvent _) = .ok m
    rw [readAuthorizeEvent, decodeFields_encodeFields]
    simp [authorizeEventFields, bytesAt, orEof]

end Reference

/-! ## Which events are valid -/

section Valid

variable {c : EthRpcClient} {log : Log} {e : Event} {proxy : GoString}

theorem DepositEvent.validateBasic_decimal (laws : EventLaws c.sdk) {depositor recipient : GoString} {amount lockup : ℕ}
    (hamount : amount < 2 ^ maxBitLen) (hlockup : lockup < 2 ^ maxBitLen) (hpos : 0 < amount) :
    (⟨depositor, recipient, decimal amount, decimal lockup⟩ : DepositEvent).validateBasic c.sdk = .ok () := by
  unfold Wiring.DepositEvent.validateBasic
  rw [laws.newIntFromString_decimal hlockup, laws.newIntFromString_decimal hamount]
  exact failIf_eq_ok.mpr (by omega)

/-- The payload of an extracted event parses and is valid. -/
theorem payload_valid (laws : EventLaws c.sdk) (abi : c.contractAbi.Unsigned) (hpositive : c.PositiveDeposit log)
    (h : c.extractLogDataToEvent log = .ok (some e)) :
    ∃ parsed, e.unmarshalParsedEvent c.sdk = .ok parsed ∧ parsed.validateBasic c.sdk = .ok () := by
  obtain ⟨topic, kind, r, htopic, hkind, hdata, rfl⟩ := EthRpcClient.extractLogDataToEvent_eq_some.mp h
  by_cases hdeposit : kind = .deposit
  · subst hdeposit
    obtain ⟨depositor, recipient, amount, lockup, -, -, hunpack, rfl⟩ := EthRpcClient.deposit_of_eventData hdata
    obtain ⟨hamount, hlockup⟩ := abi hunpack
    refine ⟨.deposit ⟨c.sdk.ethAddressString (depositor.drop 12), c.sdk.ethAddressString (recipient.drop 12),
      decimal amount, decimal lockup⟩, ?_, ?_⟩
    · simp only [Event.unmarshalParsedEvent, EthRpcClient.populateEvent, laws.unmarshalDepositEvent_encode,
        Except.mapError, Except.map]
    · exact DepositEvent.validateBasic_decimal laws hamount hlockup (hpositive htopic hkind hunpack)
  · obtain ⟨sender, payload, hsender, rfl⟩ := EthRpcClient.authorized_of_eventData hdata hdeposit
    refine ⟨.authorize ⟨c.sdk.ethAddressString (sender.drop 12), payload⟩, ?_, ?_⟩
    · simp only [Event.unmarshalParsedEvent, EthRpcClient.populateEvent, EthRpcClient.authorized,
        laws.unmarshalAuthorizeEvent_encode, Except.mapError, Except.map]
    · have hhex := laws.isHexAddress_ethAddressString (length_drop_topic hsender)
      exact failIf_eq_ok.mpr (by simpa using hhex)

/-- An event of the contract is valid exactly if the text of the params is the one that the sidecar
writes for the address. -/
theorem genuine_event_valid_iff (laws : EventLaws c.sdk) (abi : c.contractAbi.Unsigned)
    (hpositive : c.PositiveDeposit log) (haddress : log.address = fromHex proxy)
    (h : c.extractLogDataToEvent log = .ok (some e)) :
    e.validate c.sdk proxy = .ok () ↔ c.sdk.ethAddressString (fromHex proxy) = proxy := by
  obtain ⟨parsed, hparsed, hvalid⟩ := payload_valid laws abi hpositive h
  have hcontract : e.contractAddress = c.sdk.ethAddressString (fromHex proxy) := by
    obtain ⟨topic, kind, r, -, -, -, rfl⟩ := EthRpcClient.extractLogDataToEvent_eq_some.mp h
    rw [← haddress]
    rfl
  unfold Event.validate
  rw [hparsed, ← hcontract]
  constructor
  · intro hvalidate
    obtain ⟨_, htext, -⟩ := except_bind_eq_ok.mp hvalidate
    exact not_not.mp (failIf_eq_ok.mp htext)
  · intro htext
    exact except_bind_eq_ok.mpr ⟨(), failIf_eq_ok.mpr (not_not.mpr htext), hvalid⟩

end Valid

/-- A contract whose address has no letters, so that its text has only one case. -/
def plainContract : Bytes := List.replicate 20 0x33

/-- A deposit of 5 from this contract. -/
def plainLog : Log := { Reference.depositLog 1 5 0 with address := plainContract, address_length := rfl }

def plainEvent : Event :=
  Reference.client.populateEvent plainLog .deposit (encodeFields (DepositEvent.fields
    ⟨Reference.ethText Reference.depositor, Reference.ethText Reference.recipient, decimal 5, decimal 0⟩))

def plainText : GoString := str "0x3333333333333333333333333333333333333333"

theorem genuine_event_valid_plain : Reference.client.extractLogDataToEvent plainLog = .ok (some plainEvent) ∧
    plainEvent.validate Reference.sdk plainText = .ok () := by
  have hextract : Reference.client.extractLogDataToEvent plainLog = .ok (some plainEvent) := by decide +kernel
  have hpositive : Reference.client.PositiveDeposit plainLog := by
    intro topic amount lockup _ _ hunpack
    have hfive : Reference.client.contractAbi.deposit plainLog.data = .ok (5, 0) := by decide +kernel
    obtain ⟨rfl, rfl⟩ := Prod.mk.inj (Except.ok.inj (hfive.symm.trans hunpack))
    decide
  have haddress : plainLog.address = fromHex plainText := by decide +kernel
  refine ⟨hextract, ?_⟩
  exact (genuine_event_valid_iff eventLaws unsigned_contractAbi hpositive haddress hextract).mpr (by decide +kernel)

/-- The same address without its mark. -/
def unmarkedState : State Reference.Ledger :=
  ⟨{ Reference.store with params := { Reference.params with
      ethereumProxyContractAddress := str "3333333333333333333333333333333333333333" } },
    Reference.sequencing, Reference.ledger⟩

theorem unmarked_address_stops_blocks :
    unmarkedState.bridge.params.validate Reference.sdk = .ok () ∧
    plainLog.address = fromHex unmarkedState.bridge.params.ethereumProxyContractAddress ∧
    Reference.client.extractLogDataToEvent plainLog = .ok (some plainEvent) ∧
    (plainEvent.validate Reference.sdk unmarkedState.bridge.params.ethereumProxyContractAddress).isOk = false ∧
    (prepareProposal Reference.app (Reference.answering [plainEvent] (by decide)) none unmarkedState
      ⟨[], 22020096, 1⟩).isOk = false := by
  decide +kernel

/-! ## The size of a deposit -/

theorem length_le_of_isHexAddress {text : GoString} (h : isHexAddress text) : text.length ≤ 42 := by
  simp only [isHexAddress, Bool.decide_and, Bool.and_eq_true, decide_eq_true_eq] at h
  have hmark : text.length ≤ (trimHexMark text).length + 2 := by
    unfold trimHexMark
    split
    · split_ifs
      · rfl
      · exact Nat.le_add_right _ _
    · exact Nat.le_add_right _ _
  rw [h.1] at hmark
  exact hmark

theorem length_decimal_le {n : ℕ} (h : n < 2 ^ maxBitLen) : (decimal n).length ≤ 78 := by
  rw [decimal, List.length_map, Nat.length_toDigits_le_iff (by decide) (by decide)]
  exact lt_of_lt_of_le h (by decide)

/-- The fields of a deposit message with texts within the bounds of their kinds. -/
theorem length_depositFields_le {m : MsgDepositFromEthereum} (hauthority : m.authority.length ≤ 90)
    (hdepositor : m.depositor.length ≤ 42) (hrecipient : m.recipient.length ≤ 42) (hamount : m.amount.length ≤ 78)
    (hlockup : m.lockup.length ≤ 78) : (encodeFields m.fields).length ≤ 345 := by
  have h₁ := length_encodeFields_bytesField_le 1 (by decide) hauthority (by decide)
  have h₂ := length_encodeFields_bytesField_le 2 (by decide) hdepositor (by decide)
  have h₃ := length_encodeFields_bytesField_le 3 (by decide) hrecipient (by decide)
  have h₄ := length_encodeFields_bytesField_le 4 (by decide) hamount (by decide)
  have h₅ := length_encodeFields_bytesField_le 5 (by decide) hlockup (by decide)
  simp only [MsgDepositFromEthereum.fields, encodeFields_append, List.length_append]
  omega

theorem length_authInfo_le (sequence : UInt64) : (encodeFields (authInfoFields sequence)).length ≤ 17 := by
  have hsigner : (encodeFields (signerInfoFields sequence)).length ≤ 11 := by
    have hsize := varintSize_le_ten sequence.toNat_lt
    rw [signerInfoFields, length_encodeFields_uint64Field 3 sequence (by decide)]
    split_ifs <;> omega
  have h₁ := length_encodeField_messageField_le 1 (by decide) hsigner (by decide)
  have h₂ : (encodeField (messageField 2 (encodeFields (feeFields injectedTxGasLimit)))).length ≤ 3 := by decide
  simp only [authInfoFields, encodeFields_cons, encodeFields_nil, List.append_nil, List.length_append]
  omega

/-- The four layers around the value of the only message add at most 38 bytes to it and its type. -/
theorem txSize_single_le {any : Any} {k : ℕ} (sequence : UInt64) (hany : any.typeUrl.length + any.value.length ≤ k)
    (hk : k < 16000) : txSize (validRawTxBytesFromAnyMsgs [any] sequence) ≤ k + 38 := by
  have hfields : (encodeFields any.fields).length ≤ k + 6 := by
    have h₁ := length_encodeFields_bytesField_le 1 (by decide) (le_refl any.typeUrl.length) (by omega)
    have h₂ := length_encodeFields_bytesField_le 2 (by decide) (le_refl any.value.length) (by omega)
    simp only [Any.fields, encodeFields_append, List.length_append]
    omega
  have hbody : (encodeFields (txBodyFields [any])).length ≤ k + 9 := by
    have hmsg := length_encodeField_messageField_le 1 (by decide) hfields (by omega)
    simp only [txBodyFields, List.map_cons, List.map_nil, encodeFields_cons, encodeFields_nil, List.append_nil]
    omega
  have hraw : (validRawTxBytesFromAnyMsgs [any] sequence).length ≤ k + 32 := by
    have h₁ := length_encodeFields_bytesField_le 1 (by decide) hbody (by omega)
    have h₂ := length_encodeFields_bytesField_le 2 (by decide) (length_authInfo_le sequence) (by decide)
    simp only [validRawTxBytesFromAnyMsgs, txRawFields, encodeFields_append, List.length_append]
    omega
  have hsize : varintSize (validRawTxBytesFromAnyMsgs [any] sequence).length ≤ 2 := varintSize_le_two (by omega)
  unfold txSize
  omega

section Size

variable {c : EthRpcClient} {log : Log} {e : Event} {authority : GoString}

/-- The message of a deposit event that was extracted. -/
theorem messages_of_deposit (authority : GoString) (laws : EventLaws c.sdk) (abi : c.contractAbi.Unsigned)
    (h : c.extractLogDataToEvent log = .ok (some e)) (hdeposit : e.eventType = .deposit) :
    ∃ m : MsgDepositFromEthereum, e.messages c.sdk authority = .ok [m.toAny] ∧ m.authority = authority ∧
      m.depositor.length ≤ 42 ∧ m.recipient.length ≤ 42 ∧ m.amount.length ≤ 78 ∧ m.lockup.length ≤ 78 := by
  obtain ⟨topic, kind, r, -, -, hdata, rfl⟩ := EthRpcClient.extractLogDataToEvent_eq_some.mp h
  obtain rfl : kind = .deposit := by
    by_contra hne
    obtain ⟨sender, payload, -, rfl⟩ := EthRpcClient.authorized_of_eventData hdata hne
    cases hdeposit
  obtain ⟨depositor, recipient, amount, lockup, hdepositor, hrecipient, hunpack, rfl⟩ :=
    EthRpcClient.deposit_of_eventData hdata
  obtain ⟨hamount, hlockup⟩ := abi hunpack
  refine ⟨⟨authority, c.sdk.ethAddressString (depositor.drop 12), c.sdk.ethAddressString (recipient.drop 12),
    decimal amount, decimal lockup⟩, ?_, rfl, ?_, ?_, length_decimal_le hamount, length_decimal_le hlockup⟩
  · simp only [Event.messages, Event.unmarshalParsedEvent, EthRpcClient.populateEvent,
      laws.unmarshalDepositEvent_encode, Except.mapError, Except.map, ok_bind, ParsedEvent.messages,
      DepositEvent.messages, DepositEvent.toMsgDepositFromEthereum]
  · exact length_le_of_isHexAddress (laws.isHexAddress_ethAddressString (length_drop_topic hdepositor))
  · exact length_le_of_isHexAddress (laws.isHexAddress_ethAddressString (length_drop_topic hrecipient))

/-- The transaction of a deposit is never larger than the smallest bound that the params can set. -/
theorem deposit_tx_fits (laws : EventLaws c.sdk) (abi : c.contractAbi.Unsigned)
    (h : c.extractLogDataToEvent log = .ok (some e)) (hdeposit : e.eventType = .deposit)
    (hauthority : authority.length ≤ 90) (sequence : UInt64) :
    ∃ bz, e.rawTxBytes c.sdk authority sequence = .ok bz ∧ txSize bz ≤ minimumInjectedEventTxMaxBytes.toNat ∧
      ∀ params : Params, params.validate c.sdk = .ok () →
        e.rawTxBytesWithMaxBytes c.sdk authority params.injectedEventTxMaxBytes sequence = .ok bz := by
  obtain ⟨m, hmessages, hm, hdepositor, hrecipient, hamount, hlockup⟩ := messages_of_deposit authority laws abi h hdeposit
  rw [← hm] at hauthority
  have hfields := length_depositFields_le hauthority hdepositor hrecipient hamount hlockup
  have hurl : m.toAny.typeUrl.length = 47 := by rfl
  have hsize : txSize (validRawTxBytesFromAnyMsgs [m.toAny] sequence) ≤ minimumInjectedEventTxMaxBytes.toNat := by
    have hany : m.toAny.typeUrl.length + m.toAny.value.length ≤ 392 := by
      change m.toAny.typeUrl.length + (encodeFields m.fields).length ≤ 392
      omega
    exact (txSize_single_le sequence hany (by decide)).trans (by decide)
  refine ⟨_, ?_, hsize, fun params hparams => ?_⟩
  · rw [Event.rawTxBytes, hmessages]
    rfl
  · have hmin := (Params.validate_eq_ok hparams).2.2.2.2.2.2.2.1
    exact Event.rawTxBytesWithMaxBytes_eq_ok.mpr
      ⟨_, hmessages, rfl, hsize.trans (UInt64.le_iff_toNat_le.mp hmin)⟩

end Size

/-- The largest numbers, the last sequence and an authority of 90 characters. -/
def largestLog : Log := Reference.depositLog 1 (2 ^ 256 - 1) (2 ^ 256 - 1)

def largestEvent : Event :=
  Reference.client.populateEvent largestLog .deposit (encodeFields (DepositEvent.fields
    ⟨Reference.ethText Reference.depositor, Reference.ethText Reference.recipient, decimal (2 ^ 256 - 1),
      decimal (2 ^ 256 - 1)⟩))

def longAuthority : GoString := List.replicate 90 97

theorem deposit_tx_fits_largest : ∃ bz,
    largestEvent.rawTxBytesWithMaxBytes Reference.sdk longAuthority Reference.params.injectedEventTxMaxBytes
      (2 ^ 64 - 1) = .ok bz ∧ txSize bz ≤ minimumInjectedEventTxMaxBytes.toNat := by
  have hextract : Reference.client.extractLogDataToEvent largestLog = .ok (some largestEvent) := by decide +kernel
  have hauthority : longAuthority.length ≤ 90 := by decide
  obtain ⟨bz, -, hsize, hfits⟩ :=
    deposit_tx_fits eventLaws unsigned_contractAbi hextract rfl hauthority (2 ^ 64 - 1)
  exact ⟨bz, hfits Reference.params (by decide +kernel), hsize⟩

end FuelSequencer.Sidecar
