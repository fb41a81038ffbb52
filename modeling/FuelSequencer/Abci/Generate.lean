import FuelSequencer.Sidecar.Event
import FuelSequencer.App.Reference

/-! # Event transactions of a block

Every event of the queried Ethereum block becomes one transaction: the messages
it carries if they are authenticated, a skip message otherwise. An error of the
generation stops block production.
-/
namespace FuelSequencer.Abci
open Go Wire Exec Lib Bridge Wiring

variable {W : Type}

/-- The signers of every message are the mapped address of the sender, and not blocked. -/
def authenticateTx (sdk : Sdk) (sender : GoString) (msgs : List Msg)
    (blocked : List GoString) : Except GoString Unit := do
  let mappedSequencerAddr ← (generateSequencerAddressFromEthereumAddress sdk sender).mapError
    fun err => err ++ str ": could not generate Sequencer address from Ethereum address"
  msgs.forM fun msg => do
    failIf (sdk.isProtoCodec = false) errCodecIsNotSupported
    let signers ← (sdk.getMsgV1Signers msg).mapError fun err =>
      str "msg " ++ msg.typeUrl ++ str ", err " ++ err ++ str ": failed to obtain message signers"
    signers.forM fun signer => do
      let signerAddress := sdk.accAddressString signer
      failIf (sdk.accAddressString mappedSequencerAddr ≠ signerAddress)
        (str "expected " ++ sdk.accAddressString mappedSequencerAddr ++ str ", got " ++
          signerAddress ++ str ": invalid signer")
      failIf (signerAddress ∈ blocked)
        (str "signer " ++ signerAddress ++ str " is a blocked address : invalid signer")

def authenticateEvent (sdk : Sdk) (event : Event) (rawTxBytes : Bytes)
    (blocked : List GoString) : Except GoString Bool :=
  match event.eventType with
  | .deposit | .unknown _ => .ok true
  | .authorize =>
    match event.unmarshalParsedEvent sdk with
    | .error err =>
      .error (str "failed to unmarshal parsed event: " ++ err ++ str "; event: " ++ sdk.eventString event)
    | .ok (.deposit _) =>
      .error (str "failed to assert type of event to AuthorizeEvent; event: " ++ sdk.eventString event)
    | .ok (.authorize authorizeEvent) =>
      match sdk.txDecode rawTxBytes with
      | .error err => .error (str "failed to decode event transaction: " ++ err)
      | .ok tx =>
        .ok (tx.msgs.all (fun msg => (msg.validateBasic sdk).isOk) &&
          (authenticateTx sdk authorizeEvent.sender tx.msgs blocked).isOk)

def generateSkipTxBytes (authority errStr : GoString) (event : Event) (blockNumber
    eventTxsSequence : UInt64) : Bytes :=
  (newMsgSkippedEventTx authority errStr blockNumber event.logIndex event.txIndex event.txHash).1
    |>.rawTxBytes eventTxsSequence

def failedToEncodeEventAsRawTxBytes (err : GoString) : GoString :=
  str "failed to encode event as raw tx bytes with err: " ++ err

/-- The body of the loop over the events. -/
def eventTx (app : App W) (params : Params) (blocked : List GoString) (blockNumber
    eventTxsSequence : UInt64) (event : Event) : Except GoString Bytes :=
  match event.validate app.sdk params.ethereumProxyContractAddress with
  | .error err =>
    .error (str "encountered invalid event with err: " ++ err ++ str "; event: " ++
      app.sdk.eventString event)
  | .ok _ =>
    match event.rawTxBytesWithMaxBytes app.sdk app.keeper.authority params.injectedEventTxMaxBytes
        eventTxsSequence with
    | .error err =>
      if event.eventType = .authorize then
        .ok (generateSkipTxBytes app.keeper.authority (failedToEncodeEventAsRawTxBytes err) event
          blockNumber eventTxsSequence)
      else
        .error (str "failed to encode event as raw tx bytes with err: " ++ err ++ str "; event: " ++
          app.sdk.eventString event)
    | .ok eventTx =>
      match authenticateEvent app.sdk event eventTx blocked with
      | .error err =>
        .error (str "failed to check authorization: " ++ err ++ str "; event: " ++
          app.sdk.eventString event)
      | .ok authenticated =>
        .ok (if authenticated then eventTx
          else generateSkipTxBytes app.keeper.authority (str "unauthorized event") event blockNumber
            eventTxsSequence)

/-- The loop; each event takes the next sequence. -/
def eventTxsFrom (app : App W) (params : Params) (blocked : List GoString) (blockNumber : UInt64) :
    List Event → UInt64 → Except GoString (List Bytes)
  | [], _ => .ok []
  | event :: events, sequence => do
    let tx ← eventTx app params blocked blockNumber sequence event
    let txs ← eventTxsFrom app params blocked blockNumber events (sequence + 1)
    return tx :: txs

def answeredEvents (answer : Except GoString QueryBlockEventsResponse) : List Event :=
  match answer with
  | .ok response => response.events
  | .error _ => []

def generateMsgIndexAndEventTxs (app : App W) (answer : Except GoString QueryBlockEventsResponse)
    (blockNumber : UInt64) (params : Params) (blocked : List GoString) (eventTxsSequence : UInt64) :
    Except GoString (MsgIndex × List Bytes) := do
  let events := answeredEvents answer
  let eventTxs ← eventTxsFrom app params blocked blockNumber events eventTxsSequence
  failIf (eventTxs.length ≠ events.length)
    (str "mismatch between no. of events to be injected and no. of events extracted from Ethereum; had: " ++
      decimal events.length ++ str ", got: " ++ decimal eventTxs.length)
  return (⟨app.keeper.authority, UInt64.ofNat eventTxs.length, answer.isOk, blockNumber⟩, eventTxs)

/-! ## Authentication -/

theorem authenticateTx_eq_ok {sdk : Sdk} {sender : GoString} {msgs : List Msg} {blocked : List GoString} :
    authenticateTx sdk sender msgs blocked = .ok () ↔
      ∃ mapped, generateSequencerAddressFromEthereumAddress sdk sender = .ok mapped ∧
        ∀ msg ∈ msgs, sdk.isProtoCodec = true ∧ ∃ signers, sdk.getMsgV1Signers msg = .ok signers ∧
          ∀ signer ∈ signers, sdk.accAddressString mapped = sdk.accAddressString signer ∧
            sdk.accAddressString signer ∉ blocked := by
  simp only [authenticateTx, except_bind_eq_ok, mapError_eq_ok, except_forM_eq_ok, failIf_eq_ok, not_not,
    Bool.not_eq_false, exists_const]

/-! ## The loop -/

variable {app : App W} {params : Params} {blocked : List GoString} {blockNumber : UInt64}

/-- The generated transactions correspond to the events one to one, with consecutive
sequences. -/
theorem eventTxsFrom_eq_ok {events : List Event} {q : UInt64} {txs : List Bytes} :
    eventTxsFrom app params blocked blockNumber events q = .ok txs ↔
      txs.length = events.length ∧ ∀ i e tx, events[i]? = some e → txs[i]? = some tx →
        eventTx app params blocked blockNumber (q + UInt64.ofNat i) e = .ok tx := by
  induction events generalizing q txs with
  | nil => cases txs <;> simp [eventTxsFrom]
  | cons event events ih =>
    simp only [eventTxsFrom, except_bind_eq_ok, except_pure, Except.ok.injEq]
    constructor
    · rintro ⟨tx, htx, rest, hrest, rfl⟩
      obtain ⟨hlen, hall⟩ := ih.mp hrest
      refine ⟨by simp [hlen], ?_⟩
      intro i e t he ht
      cases i with
      | zero =>
        simp only [List.getElem?_cons_zero, Option.some.injEq] at he ht
        subst he ht
        simpa using htx
      | succ i =>
        rw [List.getElem?_cons_succ] at he ht
        rw [add_ofNat_succ]
        exact hall i e t he ht
    · rintro ⟨hlen, hall⟩
      cases txs with
      | nil => simp at hlen
      | cons tx rest =>
        refine ⟨tx, by simpa using hall 0 event tx rfl rfl, rest, ih.mpr ⟨by simpa using hlen, ?_⟩, rfl⟩
        intro i e t he ht
        rw [← add_ofNat_succ]
        exact hall (i + 1) e t (by simpa using he) (by simpa using ht)

theorem length_eventTxsFrom {events : List Event} {q : UInt64} {txs : List Bytes}
    (h : eventTxsFrom app params blocked blockNumber events q = .ok txs) :
    txs.length = events.length := (eventTxsFrom_eq_ok.mp h).1

theorem length_answeredEvents_lt (answer : Except GoString QueryBlockEventsResponse) :
    (answeredEvents answer).length < maxLen := by
  cases answer with
  | error e => exact Nat.two_pow_pos 63
  | ok r => exact r.length_lt

/-- The final length check never fails. -/
theorem generateMsgIndexAndEventTxs_eq_ok {answer : Except GoString QueryBlockEventsResponse}
    {q : UInt64} {r : MsgIndex × List Bytes} :
    generateMsgIndexAndEventTxs app answer blockNumber params blocked q = .ok r ↔
      ∃ txs, eventTxsFrom app params blocked blockNumber (answeredEvents answer) q = .ok txs ∧
        r = (⟨app.keeper.authority, UInt64.ofNat txs.length, answer.isOk, blockNumber⟩, txs) := by
  unfold generateMsgIndexAndEventTxs
  simp only [except_bind_eq_ok, except_pure, Except.ok.injEq, failIf_eq_ok, not_not]
  constructor
  · rintro ⟨txs, htxs, _, -, rfl⟩
    exact ⟨txs, htxs, rfl⟩
  · rintro ⟨txs, htxs, rfl⟩
    exact ⟨txs, htxs, (), length_eventTxsFrom htxs, rfl⟩

/-! ## What an event becomes -/

/-- A valid event becomes the transaction of its own messages or a skip message. -/
theorem eventTx_eq_ok {q : UInt64} {e : Event} {tx : Bytes}
    (h : eventTx app params blocked blockNumber q e = .ok tx) : ∃ anys,
      tx = validRawTxBytesFromAnyMsgs anys q ∧
      ((∃ m : MsgDepositFromEthereum, anys = [m.toAny]) ∨ (∃ m : MsgSkippedEventTx, anys = [m.toAny]) ∨
        (e.eventType = .authorize ∧ e.messages app.sdk app.keeper.authority = .ok anys ∧
          ∃ t, app.sdk.txDecode tx = .ok t ∧ ∀ m ∈ t.msgs, m.validateBasic app.sdk = .ok ())) := by
  unfold eventTx at h
  cases hv : e.validate app.sdk params.ethereumProxyContractAddress with
  | error err => rw [hv] at h; cases h
  | ok u =>
    rw [hv] at h
    dsimp only at h
    obtain ⟨-, hkind⟩ := Event.validate_eq_ok hv
    cases hraw : e.rawTxBytesWithMaxBytes app.sdk app.keeper.authority params.injectedEventTxMaxBytes q with
    | error err =>
      rw [hraw] at h
      dsimp only at h
      split at h
      · cases h
        exact ⟨_, rfl, Or.inr (Or.inl ⟨_, rfl⟩)⟩
      · cases h
    | ok bz =>
      rw [hraw] at h
      dsimp only at h
      obtain ⟨anys, hanys, hbz, -⟩ := Event.rawTxBytesWithMaxBytes_eq_ok.mp hraw
      cases hauth : authenticateEvent app.sdk e bz blocked with
      | error err => rw [hauth] at h; cases h
      | ok authenticated =>
        rw [hauth] at h
        cases authenticated with
        | false =>
          cases h
          exact ⟨_, rfl, Or.inr (Or.inl ⟨_, rfl⟩)⟩
        | true =>
          cases h
          refine ⟨anys, hbz, ?_⟩
          rcases hkind with ⟨htype, d, -, hd, -⟩ | ⟨htype, a, -, ha, -⟩
          · left
            rw [Event.messages, hd] at hanys
            exact ⟨_, (Except.ok.inj hanys).symm⟩
          · right; right
            refine ⟨htype, hanys, ?_⟩
            unfold authenticateEvent at hauth
            rw [htype, ha] at hauth
            dsimp only at hauth
            cases hdec : app.sdk.txDecode bz with
            | error err => rw [hdec] at hauth; cases hauth
            | ok t =>
              rw [hdec] at hauth
              refine ⟨t, hdec, fun m hm => ?_⟩
              have hall := (Bool.and_eq_true _ _).mp (Except.ok.inj hauth) |>.1
              exact (exists_of_isOk (List.all_eq_true.mp hall m hm)).choose_spec

/-! ## When the generation fails -/

theorem exists_forall₂_unpackAny {anys : List Any} (h : ∀ a ∈ anys, ∃ m, app.sdk.unpackAny a = .ok m) :
    ∃ msgs, List.Forall₂ (fun a m => app.sdk.unpackAny a = .ok m) anys msgs := by
  induction anys with
  | nil => exact ⟨[], .nil⟩
  | cons a anys ih =>
    obtain ⟨m, hm⟩ := h a List.mem_cons_self
    obtain ⟨msgs, hmsgs⟩ := ih fun b hb => h b (List.mem_cons_of_mem _ hb)
    exact ⟨m :: msgs, .cons hm hmsgs⟩

/-- A raw transaction decodes exactly when each of its packed messages resolves. -/
theorem txDecode_raw_isOk_iff (hlaw : app.sdk.Lawful) {anys : List Any} {q : UInt64} :
    (∃ t, app.sdk.txDecode (validRawTxBytesFromAnyMsgs anys q) = .ok t) ↔
      ∀ a ∈ anys, ∃ m, app.sdk.unpackAny a = .ok m := by
  constructor
  · rintro ⟨t, ht⟩ a ha
    cases hu : app.sdk.unpackAny a with
    | ok m => exact ⟨m, rfl⟩
    | error e =>
      obtain ⟨e', he'⟩ := hlaw.txDecode_raw_error q ha hu
      rw [he'] at ht
      cases ht
  · intro hall
    obtain ⟨msgs, hmsgs⟩ := exists_forall₂_unpackAny hall
    exact ⟨_, hlaw.txDecode_raw q hmsgs⟩

/-- The gas of a raw transaction is that of injected ones. -/
theorem gas_of_txDecode_raw (hlaw : app.sdk.Lawful) {anys : List Any} {q : UInt64} {t : Tx}
    (h : app.sdk.txDecode (validRawTxBytesFromAnyMsgs anys q) = .ok t) :
    t.gas = some injectedTxGasLimit := by
  obtain ⟨msgs, hmsgs⟩ := exists_forall₂_unpackAny ((txDecode_raw_isOk_iff hlaw).mp ⟨t, h⟩)
  rw [hlaw.txDecode_raw q hmsgs] at h
  cases h
  rfl

/-- Every generated transaction decodes. -/
theorem txDecode_of_eventTx (hlaw : app.sdk.Lawful) {q : UInt64} {e : Event} {tx : Bytes}
    (h : eventTx app params blocked blockNumber q e = .ok tx) :
    ∃ t, app.sdk.txDecode tx = .ok t ∧ t.gas = some injectedTxGasLimit := by
  obtain ⟨anys, rfl, ⟨m, rfl⟩ | ⟨m, rfl⟩ | ⟨-, -, t, ht, -⟩⟩ := eventTx_eq_ok h
  · exact ⟨_, hlaw.txDecode_single q (hlaw.unpackAny_depositFromEthereum m), rfl⟩
  · exact ⟨_, hlaw.txDecode_single q (hlaw.unpackAny_skippedEventTx m), rfl⟩
  · exact ⟨t, ht, gas_of_txDecode_raw hlaw ht⟩

/-- The payload of one packed message. -/
def payloadOf (any : Any) : Bytes := encodeFields (txBodyFields [any])

/-- A transfer of one coin by the sender of the example authorisations. -/
def transferAny : Any :=
  ⟨Reference.msgSendTypeUrl, encodeFields
    (bytesField 1 (Reference.bech32String Reference.depositor) ++
      bytesField 2 (Reference.bech32String Reference.recipient) ++
      [messageField 3 (encodeFields (bytesField 1 Reference.ufuel ++ bytesField 2 (decimal 1)))])⟩

/-- A deposit, a payload that does not unmarshal and a transfer. -/
def referenceEvents : List Event :=
  [Reference.depositEvent 5, Reference.authorizeEvent [255], Reference.authorizeEvent (payloadOf transferAny)]

def referenceAnswer : Except GoString QueryBlockEventsResponse := .ok ⟨referenceEvents, by decide⟩

end FuelSequencer.Abci
