import FuelSequencer.Sidecar.Reference

/-! # What extraction returns

A log of a recognised kind whose data unpack becomes an event as soon as it has the topics
that its kind reads; with fewer topics the extraction panics. All kinds but the deposit
become an authorization by the address of the first topic, and all but the authorization
itself carry one message signed by this address.
-/
namespace FuelSequencer.Sidecar
open Go Wire Exec Lib Bridge Wiring

/-- How many topics the extraction reads, the signature included. -/
def LogKind.topicCount : LogKind → ℕ
  | .redelegate => 4
  | .authorize => 2
  | _ => 3

/-- The number of the field that names the signer of a message. -/
def signerField (typeUrl : GoString) : ℕ := if typeUrl = str "/cosmos.gov.v1.MsgVote" then 2 else 1

def signerOf (msg : Any) : Option GoString := (decodeFields msg.value).map (bytesAt (signerField msg.typeUrl))

/-! ## The signer of a packed message -/

section Signers

variable {first second : GoString}

theorem signerOf_pairMsg {url : String} (hurl : str url ≠ str "/cosmos.gov.v1.MsgVote") {rest : List Field}
    (hrest : repeatedAt 1 rest = []) : signerOf (pairMsg url first second rest) = some first := by
  have hbytes : bytesAt 1 (bytesField 1 first ++ (bytesField 2 second ++ rest)) = first :=
    bytesAt_bytesField_append 1 first _ (by simp [hrest])
  rw [signerOf, pairMsg, decodeFields_encodeFields, signerField, if_neg hurl, Option.map_some, List.append_assoc, hbytes]

theorem repeatedAt_coinFields (coins : Coins) : repeatedAt 1 (coins.map fun c => coinField 3 c) = [] := by
  induction coins with
  | nil => rfl
  | cons c coins ih => simpa [coinField] using ih

theorem signerOf_msgVote {proposalId : ℕ} {voter : GoString} {option : UInt32} {metadata : GoString} :
    signerOf (msgVote proposalId voter option metadata) = some voter := by
  have hbytes : bytesAt 2 (uintField 1 proposalId ++ bytesField 2 voter ++
      uintField 3 (uint64 (Int.bmod option.toNat (2 ^ 32))) ++ bytesField 4 metadata) = voter := by
    by_cases hvoter : voter = [] <;> simp [bytesAt, hvoter]
  rw [signerOf, msgVote, decodeFields_encodeFields, signerField, if_pos rfl, Option.map_some, hbytes]

end Signers

namespace EthRpcClient

variable {c : EthRpcClient} {log : Log} {kind : LogKind}

theorem topicText_eq_ok {i : ℕ} {text : GoString} : c.topicText log i = .ok text ↔
    ∃ topic, log.topics[i]? = some topic ∧ c.sdk.ethAddressString (topic.drop 12) = text := by
  simp only [topicText, Log.topicAt, except_bind_eq_ok, required_eq_ok, except_pure, Except.ok.injEq]

/-- One message signed by the address of the first topic, in an authorization by it. -/
structure OneMessage (c : EthRpcClient) (log : Log) (topic : Bytes) (msg : Any) (r : EventType × Bytes) : Prop where
  topic_eq : log.topics[1]? = some topic
  signer : signerOf msg = some (c.sdk.ethAddressString (topic.drop 12))
  payload : r = authorized (c.sdk.ethAddressString (topic.drop 12)) (authorizeTxFromMsg msg)

theorem oneMessage_of_amountEvent {msg : GoString → GoString → Coin → Outcome GoString Any} {r : EventType × Bytes}
    (hsigner : ∀ first second coin packed, msg first second coin = .ok packed → signerOf packed = some first)
    (h : c.amountEvent log kind msg = .ok r) : ∃ topic packed, OneMessage c log topic packed r := by
  simp only [amountEvent, except_bind_eq_ok, topicText_eq_ok, except_pure, Except.ok.injEq] at h
  obtain ⟨_, -, _, ⟨topic, htopic, rfl⟩, _, -, coin, -, packed, hpacked, rfl⟩ := h
  exact ⟨topic, packed, htopic, hsigner _ _ _ _ hpacked, rfl⟩

theorem oneMessage_of_eventData {r : EventType × Bytes} (h : c.eventData log kind = .ok r) (hdeposit : kind ≠ .deposit)
    (hauthorize : kind ≠ .authorize) : ∃ topic msg, OneMessage c log topic msg r := by
  cases kind with
  | deposit => exact absurd rfl hdeposit
  | authorize => exact absurd rfl hauthorize
  | delegate | unbond | withdraw =>
    refine oneMessage_of_amountEvent ?_ h
    rintro first second coin _ ⟨⟩
    exact signerOf_pairMsg (by decide) rfl
  | transfer =>
    refine oneMessage_of_amountEvent ?_ h
    intro first second coin packed hpacked
    obtain ⟨coins, -, hpacked⟩ := except_bind_eq_ok.mp hpacked
    cases hpacked
    exact signerOf_pairMsg (by decide) (repeatedAt_coinFields coins)
  | redelegate =>
    simp only [eventData, except_bind_eq_ok, topicText_eq_ok, except_pure, Except.ok.injEq] at h
    obtain ⟨_, -, _, ⟨topic, htopic, rfl⟩, src, -, dst, -, coin, -, rfl⟩ := h
    exact ⟨topic, _, htopic, signerOf_pairMsg (by decide) (by simp [coinField, repeatedAt_messageField]; rfl), rfl⟩
  | vote =>
    simp only [eventData, except_bind_eq_ok, topicText_eq_ok, except_pure, Except.ok.injEq] at h
    obtain ⟨_, -, _, ⟨topic, htopic, rfl⟩, _, -, rfl⟩ := h
    exact ⟨topic, _, htopic, signerOf_msgVote, rfl⟩
  | grant | revoke | claimRewards | setRewardRecipient =>
    simp only [eventData, except_bind_eq_ok, topicText_eq_ok, except_pure, Except.ok.injEq] at h
    obtain ⟨_, -, _, ⟨topic, htopic, rfl⟩, _, -, rfl⟩ := h
    exact ⟨topic, _, htopic, signerOf_pairMsg (by decide) (by simp [repeatedAt, messageField, bytesField]), rfl⟩

/-- Every kind but the deposit becomes an authorization by the address of the first topic. -/
theorem authorized_of_eventData {r : EventType × Bytes} (h : c.eventData log kind = .ok r) (hdeposit : kind ≠ .deposit) :
    ∃ topic payload, log.topics[1]? = some topic ∧ r = authorized (c.sdk.ethAddressString (topic.drop 12)) payload := by
  by_cases hauthorize : kind = .authorize
  · subst hauthorize
    simp only [eventData, except_bind_eq_ok, topicText_eq_ok, except_pure, Except.ok.injEq] at h
    obtain ⟨payload, -, _, ⟨topic, htopic, rfl⟩, rfl⟩ := h
    exact ⟨topic, payload, htopic, rfl⟩
  · obtain ⟨topic, msg, hone⟩ := oneMessage_of_eventData h hdeposit hauthorize
    exact ⟨topic, _, hone.topic_eq, hone.payload⟩

/-- What a deposit holds: the addresses of two topics and the numbers of the data. -/
theorem deposit_of_eventData {r : EventType × Bytes} (h : c.eventData log .deposit = .ok r) :
    ∃ depositor recipient amount lockup, log.topics[1]? = some depositor ∧ log.topics[2]? = some recipient ∧
      c.contractAbi.deposit log.data = .ok (amount, lockup) ∧
      r = (.deposit, encodeFields (DepositEvent.fields ⟨c.sdk.ethAddressString (depositor.drop 12),
        c.sdk.ethAddressString (recipient.drop 12), decimal amount, decimal lockup⟩)) := by
  simp only [eventData, depositEvent, except_bind_eq_ok, wrapping_eq_ok, topicText_eq_ok, except_pure,
    Except.ok.injEq] at h
  obtain ⟨_, ⟨⟨amount, lockup⟩, hdata, _, ⟨depositor, hdepositor, rfl⟩, _, ⟨recipient, hrecipient, rfl⟩, rfl⟩, rfl⟩ := h
  exact ⟨depositor, recipient, amount, lockup, hdepositor, hrecipient, hdata, rfl⟩

/-! ## Which logs panic -/

/-- Whether the data unpack as those of the kind. -/
def unpacks (c : EthRpcClient) (data : Bytes) : LogKind → Bool
  | .deposit => (c.contractAbi.deposit data).isOk
  | .vote => (c.contractAbi.vote data).isOk
  | .grant => (c.contractAbi.grant data).isOk
  | .revoke => (c.contractAbi.revoke data).isOk
  | .authorize => (c.contractAbi.authorize data).isOk
  | .claimRewards => (c.contractAbi.empty .claimRewards data).isOk
  | .setRewardRecipient => (c.contractAbi.empty .setRewardRecipient data).isOk
  | kind => (c.contractAbi.amount kind data).isOk

/-- The log has the topics that the extraction reads: those of its kind if its data unpack. -/
def HasTopics (c : EthRpcClient) (log : Log) : Prop :=
  ∃ topic, log.topics[0]? = some topic ∧
    ∀ kind, c.kindOf topic = some kind → c.unpacks log.data kind → kind.topicCount ≤ log.topics.length

section Returns

variable {α β : Type} {i n : ℕ}

/-- Only data that unpack lead to the topics. -/
theorem returns_unpacked {x : Except GoString α} {f : α → Outcome GoString β} {p : Prop} (hf : ∀ a, Returns (f a) ↔ p) :
    Returns (wrapping id x >>= f) ↔ (x.isOk → p) := by
  cases x with
  | error err => simp [Returns, Except.isOk, Except.toBool, wrapping, Except.mapError]
  | ok a => simpa [returns_bind, Except.isOk, Except.toBool, wrapping, Except.mapError] using hf a

theorem returns_topicAt_last {f : Bytes → Outcome GoString β} (hf : ∀ topic, Returns (f topic)) :
    Returns (log.topicAt i >>= f) ↔ i + 1 ≤ log.topics.length := by
  rw [returns_bind, Log.topicAt, errIndexRange, returns_required_panic]
  constructor
  · rintro ⟨⟨topic, htopic⟩, -⟩
    exact (List.getElem?_eq_some_iff.mp htopic).1
  · intro h
    exact ⟨⟨_, List.getElem?_eq_getElem h⟩, fun topic _ => hf topic⟩

/-- A later topic is there only if the earlier ones are. -/
theorem returns_topicAt {f : Bytes → Outcome GoString β} (hi : i + 1 ≤ n)
    (hf : ∀ topic, Returns (f topic) ↔ n ≤ log.topics.length) :
    Returns (log.topicAt i >>= f) ↔ n ≤ log.topics.length := by
  constructor
  · intro h
    obtain ⟨hread, hrest⟩ := returns_bind.mp h
    rw [Log.topicAt, errIndexRange, returns_required_panic] at hread
    obtain ⟨topic, htopic⟩ := hread
    exact (hf topic).mp (hrest topic (required_eq_ok.mpr htopic))
  · intro h
    have hlast : Returns (log.topicAt i >>= fun topic => f topic) :=
      (returns_topicAt_last fun topic => (hf topic).mpr h).mpr (hi.trans h)
    exact hlast

theorem returns_newCoin {amount : ℕ} {f : Coin → Outcome GoString β} (hdenom : isValidDenom c.seqBridgeDenom)
    (hf : ∀ coin, isValidDenom coin.denom → 0 ≤ coin.amount → Returns (f coin)) :
    Returns (newCoin c.seqBridgeDenom amount >>= f) := by
  have hcoin : newCoin c.seqBridgeDenom amount = .ok ⟨c.seqBridgeDenom, amount⟩ :=
    newCoin_eq_ok.mpr ⟨hdenom, Int.natCast_nonneg _, rfl⟩
  rw [hcoin, ok_bind]
  exact hf _ hdenom (Int.natCast_nonneg _)

theorem returns_amountEvent {msg : GoString → GoString → Coin → Outcome GoString Any}
    (hdenom : isValidDenom c.seqBridgeDenom)
    (hmsg : ∀ first second coin, isValidDenom coin.denom → 0 ≤ coin.amount → Returns (msg first second coin)) :
    Returns (c.amountEvent log kind msg) ↔ ((c.contractAbi.amount kind log.data).isOk → 3 ≤ log.topics.length) := by
  simp only [amountEvent, topicText, bind_assoc, pure_bind]
  refine returns_unpacked fun amount => ?_
  refine returns_topicAt (by decide) fun first => ?_
  refine returns_topicAt_last fun second => ?_
  refine returns_newCoin hdenom fun coin hvalid hnonneg => ?_
  exact returns_bind.mpr ⟨hmsg _ _ _ hvalid hnonneg, fun _ _ => returns_ok _⟩

theorem returns_newCoins {coin : Coin} (hdenom : isValidDenom coin.denom) (hamount : 0 ≤ coin.amount) :
    Returns (newCoins coin) := by
  unfold newCoins
  split_ifs
  · exact returns_ok _
  · refine returns_bind.mpr ⟨returns_failIf_panic.mpr ?_, fun _ _ => returns_ok _⟩
    rintro (h | h)
    · exact h hdenom
    · omega

theorem returns_eventData (hdenom : isValidDenom c.seqBridgeDenom) :
    Returns (c.eventData log kind) ↔ (c.unpacks log.data kind → kind.topicCount ≤ log.topics.length) := by
  cases kind with
  | deposit =>
    simp only [eventData, depositEvent, topicText, bind_assoc, pure_bind]
    refine returns_unpacked fun values => ?_
    refine returns_topicAt (by decide) fun depositor => ?_
    exact returns_topicAt_last fun recipient => returns_ok _
  | delegate | unbond | withdraw => exact returns_amountEvent hdenom fun _ _ _ _ _ => returns_ok _
  | transfer =>
    refine returns_amountEvent hdenom fun sender recipient coin hvalid hnonneg => ?_
    exact returns_bind.mpr ⟨returns_newCoins hvalid hnonneg, fun _ _ => returns_ok _⟩
  | redelegate =>
    simp only [eventData, topicText, bind_assoc, pure_bind]
    refine returns_unpacked fun amount => ?_
    refine returns_topicAt (by decide) fun delegator => ?_
    refine returns_topicAt (by decide) fun srcValidator => ?_
    refine returns_topicAt_last fun dstValidator => ?_
    exact returns_newCoin hdenom fun _ _ _ => returns_ok _
  | vote | claimRewards | setRewardRecipient | grant | revoke =>
    simp only [eventData, topicText, bind_assoc, pure_bind]
    refine returns_unpacked fun values => ?_
    refine returns_topicAt (by decide) fun first => ?_
    exact returns_topicAt_last fun second => returns_ok _
  | authorize =>
    simp only [eventData, topicText, bind_assoc, pure_bind]
    refine returns_unpacked fun data => ?_
    exact returns_topicAt_last fun sender => returns_ok _

end Returns

theorem returns_extractLogDataToEvent (hdenom : isValidDenom c.seqBridgeDenom) :
    Returns (c.extractLogDataToEvent log) ↔ c.HasTopics log := by
  unfold extractLogDataToEvent HasTopics
  rw [returns_bind, Log.topicAt, errIndexRange, returns_required_panic]
  constructor
  · rintro ⟨⟨topic, htopic⟩, hrest⟩
    refine ⟨topic, htopic, fun kind hkind => ?_⟩
    have hdata := hrest topic (required_eq_ok.mpr htopic)
    rw [hkind] at hdata
    exact (returns_eventData hdenom).mp (returns_bind.mp hdata).1
  · rintro ⟨topic, htopic, hrest⟩
    refine ⟨⟨topic, htopic⟩, fun topic' htopic' => ?_⟩
    obtain rfl : topic = topic' := Option.some.inj (htopic.symm.trans (required_eq_ok.mp htopic'))
    cases hkind : c.kindOf topic with
    | none => exact returns_ok _
    | some kind => exact returns_bind.mpr ⟨(returns_eventData hdenom).mpr (hrest kind hkind), fun _ _ => returns_ok _⟩

theorem extractLogDataToEvent_eq_some {e : Event} : c.extractLogDataToEvent log = .ok (some e) ↔
    ∃ topic kind r, log.topics[0]? = some topic ∧ c.kindOf topic = some kind ∧ c.eventData log kind = .ok r ∧
      e = c.populateEvent log r.1 r.2 := by
  unfold extractLogDataToEvent
  simp only [Log.topicAt, except_bind_eq_ok, required_eq_ok]
  refine exists_congr fun topic => ?_
  cases hkind : c.kindOf topic with
  | none => simp
  | some kind =>
    simp only [except_bind_eq_ok, except_pure, Except.ok.injEq, Option.some.injEq, exists_and_left, exists_eq_left']
    exact and_congr_right fun _ => exists_congr fun r => and_congr_right fun _ => eq_comm

/-- An authorization by the address of the first topic that holds one message, signed by it. -/
def SentOnce (c : EthRpcClient) (log : Log) (e : Event) : Prop :=
  ∃ topic payload msg, log.topics[1]? = some topic ∧ e.eventType = .authorize ∧
    e.data = encodeFields (authorizeEventFields ⟨c.sdk.ethAddressString (topic.drop 12), payload⟩) ∧
    readTxBody payload = some [msg] ∧ signerOf msg = some (c.sdk.ethAddressString (topic.drop 12))

/-- The extraction does not panic, and what it makes of the kinds with a message of their own. -/
def ExtractsSafely (c : EthRpcClient) (log : Log) : Prop :=
  Returns (c.extractLogDataToEvent log) ∧ ∀ e topic kind, c.extractLogDataToEvent log = .ok (some e) →
    log.topics[0]? = some topic → c.kindOf topic = some kind → kind ≠ .deposit → kind ≠ .authorize → c.SentOnce log e

/-- With a valid denom exactly the logs that lack a topic panic. -/
theorem extractsSafely_iff_hasTopics (hdenom : isValidDenom c.seqBridgeDenom) : c.ExtractsSafely log ↔ c.HasTopics log := by
  rw [← returns_extractLogDataToEvent hdenom]
  refine ⟨fun h => h.1, fun h => ⟨h, ?_⟩⟩
  intro e topic kind hextract htopic hkind hdeposit hauthorize
  obtain ⟨topic', kind', r, htopic', hkind', hdata, rfl⟩ := extractLogDataToEvent_eq_some.mp hextract
  obtain rfl : topic = topic' := Option.some.inj (htopic.symm.trans htopic')
  obtain rfl : kind = kind' := Option.some.inj (hkind.symm.trans hkind')
  obtain ⟨sender, msg, hone⟩ := oneMessage_of_eventData hdata hdeposit hauthorize
  obtain rfl := hone.payload
  exact ⟨sender, authorizeTxFromMsg msg, msg, hone.topic_eq, rfl, rfl, readTxBody_encode [msg], hone.signer⟩

end EthRpcClient

/-- A transfer of 7 from the depositor of the example deposits to their recipient. -/
def transferLog : Log where
  address := Reference.proxyAddress
  topics := [Reference.signatureHash .transfer, Reference.addressTopic Reference.depositor,
    Reference.addressTopic Reference.recipient]
  data := Reference.wordOf 7
  blockNumber := 1
  txHash := List.replicate 32 0
  txIndex := 0
  index := 0
  removed := false
  address_length := Reference.length_proxyAddress
  topics_length := by decide

theorem extractsSafely_transferLog : Reference.client.HasTopics transferLog ∧ Reference.client.ExtractsSafely transferLog := by
  have htopics : Reference.client.HasTopics transferLog := by
    refine ⟨_, rfl, fun kind hkind _ => ?_⟩
    have htransfer : Reference.client.kindOf (Reference.signatureHash .transfer) = some .transfer := by decide +kernel
    obtain rfl := Option.some.inj (htransfer.symm.trans hkind)
    decide
  exact ⟨htopics, (EthRpcClient.extractsSafely_iff_hasTopics (by decide +kernel)).mpr htopics⟩

/-- A log that the contract emitted without a signature, as an anonymous one. -/
def anonymousLog : Log := { transferLog with topics := [], topics_length := by decide }

/-- A log with the signature of a transfer and no further topic. -/
def bareTransferLog : Log :=
  { transferLog with topics := [Reference.signatureHash .transfer], topics_length := by decide }

theorem extraction_panics_without_topics : isValidDenom Reference.client.seqBridgeDenom ∧
    Reference.client.extractLogDataToEvent anonymousLog = .error errIndexRange ∧
    Reference.client.extractLogDataToEvent bareTransferLog = .error errIndexRange := by
  decide +kernel

end FuelSequencer.Sidecar
