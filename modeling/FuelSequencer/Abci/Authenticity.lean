import FuelSequencer.Abci.Generate

/-! # Whose messages an event carries

A generated transaction holds the deposit of its event, the messages of an authorisation
that are all signed by the account of its sender, or a message that the event was
skipped. The choice is exact: an authorisation is skipped only if it cannot be
authenticated.
-/
namespace FuelSequencer.Abci
open Go Wire Exec Lib Bridge Wiring

variable {W : Type}

/-- The payload of an authorisation fits, and its messages are valid and signed by the account of
the sender alone, which is not blocked. -/
structure Authentic (app : App W) (params : Params) (blocked : List GoString) (q : UInt64) (a : AuthorizeEvent)
    (anys : List Any) : Prop where
  payload : app.sdk.unmarshalAuthorizeTx a.data = .ok anys
  size : txSize (validRawTxBytesFromAnyMsgs anys q) ≤ params.injectedEventTxMaxBytes.toNat
  messages : ∃ msgs, List.Forall₂ (fun any msg => app.sdk.unpackAny any = .ok msg) anys msgs ∧
    ∀ msg ∈ msgs, msg.validateBasic app.sdk = .ok () ∧
      ∃ signers, app.sdk.getMsgV1Signers msg = .ok signers ∧
        ∀ signer ∈ signers, signer = fromHex a.sender ∧ app.sdk.accAddressString signer ∉ blocked

/-- The transactions that an event may become, each with what it takes. -/
inductive InjectedFor (app : App W) (params : Params) (blocked : List GoString) (blockNumber q : UInt64) (e : Event) :
    Bytes → Prop where
  | deposit {d : DepositEvent} (htype : e.eventType = .deposit) (hdata : app.sdk.unmarshalDepositEvent e.data = .ok d) :
    InjectedFor app params blocked blockNumber q e (validRawTxBytesFromAnyMsgs
      [(⟨app.keeper.authority, d.depositor, d.recipient, d.amount, d.lockup⟩ : MsgDepositFromEthereum).toAny] q)
  | authorized {a : AuthorizeEvent} {anys : List Any} (htype : e.eventType = .authorize)
      (hdata : app.sdk.unmarshalAuthorizeEvent e.data = .ok a) (hauthentic : Authentic app params blocked q a anys) :
    InjectedFor app params blocked blockNumber q e (validRawTxBytesFromAnyMsgs anys q)
  | skipped {a : AuthorizeEvent} (reason : GoString) (htype : e.eventType = .authorize)
      (hdata : app.sdk.unmarshalAuthorizeEvent e.data = .ok a) (hnot : ∀ anys, ¬ Authentic app params blocked q a anys) :
    InjectedFor app params blocked blockNumber q e (validRawTxBytesFromAnyMsgs
      [(⟨app.keeper.authority, reason, blockNumber, e.logIndex, e.txIndex, e.txHash⟩ : MsgSkippedEventTx).toAny] q)

variable {app : App W} {params : Params} {blocked : List GoString} {blockNumber q : UInt64} {e : Event}
  {a : AuthorizeEvent} {anys : List Any} {tx : Bytes}

/-- An authorisation is authenticated exactly if its payload is authentic. -/
theorem authenticateEvent_iff (hlaw : app.sdk.Lawful) (hinjective : Function.Injective app.sdk.accAddressString)
    (htype : e.eventType = .authorize) (hparsed : e.unmarshalParsedEvent app.sdk = .ok (.authorize a))
    (hsender : isHexAddress a.sender) (hpayload : app.sdk.unmarshalAuthorizeTx a.data = .ok anys)
    (hsize : txSize (validRawTxBytesFromAnyMsgs anys q) ≤ params.injectedEventTxMaxBytes.toNat) {authenticated : Bool}
    (h : authenticateEvent app.sdk e (validRawTxBytesFromAnyMsgs anys q) blocked = .ok authenticated) :
    authenticated = true ↔ Authentic app params blocked q a anys := by
  -- the decoder resolves the payload's messages, or the whole generation had failed
  have hdecode : ∃ t, app.sdk.txDecode (validRawTxBytesFromAnyMsgs anys q) = .ok t := by
    unfold authenticateEvent at h
    rw [htype, hparsed] at h
    cases hdec : app.sdk.txDecode (validRawTxBytesFromAnyMsgs anys q) with
    | error err =>
      rw [hdec] at h
      cases h
    | ok t => exact ⟨t, rfl⟩
  obtain ⟨msgs, hmsgs⟩ := exists_forall₂_unpackAny ((txDecode_raw_isOk_iff hlaw).mp hdecode)
  have hauthenticated : (msgs.all (fun msg => (msg.validateBasic app.sdk).isOk) &&
      (authenticateTx app.sdk a.sender msgs blocked).isOk) = authenticated := by
    unfold authenticateEvent at h
    rw [htype, hparsed, hlaw.txDecode_raw q hmsgs] at h
    exact Except.ok.inj h
  have hisOk : ∀ {x : Except GoString Unit}, x.isOk = true ↔ x = .ok () := by
    intro x
    cases x <;> simp [Except.isOk, Except.toBool]
  rw [← hauthenticated, Bool.and_eq_true, List.all_eq_true, hisOk, authenticateTx_eq_ok,
    generateSequencerAddress_of_isHexAddress app.sdk hsender]
  constructor
  · rintro ⟨hvalid, mapped, hmapped, hall⟩
    obtain rfl := Except.ok.inj hmapped
    refine ⟨hpayload, hsize, msgs, hmsgs, fun msg hmsg => ⟨hisOk.mp (hvalid msg hmsg), ?_⟩⟩
    obtain ⟨-, signers, hsigners, hsame⟩ := hall msg hmsg
    refine ⟨signers, hsigners, fun signer hsigner => ?_⟩
    obtain ⟨heq, hfree⟩ := hsame signer hsigner
    exact ⟨(hinjective heq).symm, hfree⟩
  · rintro ⟨-, -, msgs', hmsgs', hall⟩
    obtain rfl : msgs' = msgs := by
      have hsame := (hlaw.txDecode_raw q hmsgs').symm.trans (hlaw.txDecode_raw q hmsgs)
      exact congrArg Tx.msgs (Except.ok.inj hsame)
    refine ⟨fun msg hmsg => hisOk.mpr (hall msg hmsg).1, _, rfl, fun msg hmsg => ⟨hlaw.isProtoCodec_eq, ?_⟩⟩
    obtain ⟨-, signers, hsigners, hsame⟩ := hall msg hmsg
    refine ⟨signers, hsigners, fun signer hsigner => ?_⟩
    obtain ⟨rfl, hfree⟩ := hsame signer hsigner
    exact ⟨rfl, hfree⟩

/-- The messages of an authorisation are those of its payload. -/
theorem messages_authorize (hlaw : app.sdk.Lawful) (hparsed : e.unmarshalParsedEvent app.sdk = .ok (.authorize a)) :
    e.messages app.sdk app.keeper.authority = app.sdk.unmarshalAuthorizeTx a.data := by
  rw [Event.messages, hparsed, ok_bind, ParsedEvent.messages, AuthorizeEvent.messages,
    failIf_of_not (by rw [hlaw.isProtoCodec_eq]; decide)]
  rfl

/-- One event, one transaction of the described form. -/
theorem injectedFor_of_eventTx (hlaw : app.sdk.Lawful) (hinjective : Function.Injective app.sdk.accAddressString)
    (h : eventTx app params blocked blockNumber q e = .ok tx) :
    InjectedFor app params blocked blockNumber q e tx := by
  unfold eventTx at h
  cases hv : e.validate app.sdk params.ethereumProxyContractAddress with
  | error err =>
    rw [hv] at h
    cases h
  | ok u =>
    rw [hv] at h
    dsimp only at h
    rcases (Event.validate_eq_ok hv).2 with ⟨htype, d, hd, hparsed, -⟩ | ⟨htype, a, ha, hparsed, hsender⟩
    · cases hraw : e.rawTxBytesWithMaxBytes app.sdk app.keeper.authority params.injectedEventTxMaxBytes q with
      | error err =>
        rw [hraw, htype] at h
        cases h
      | ok bz =>
        obtain ⟨anys, hanys, rfl, -⟩ := Event.rawTxBytesWithMaxBytes_eq_ok.mp hraw
        rw [Event.messages, hparsed] at hanys
        obtain rfl := Except.ok.inj hanys
        rw [hraw] at h
        dsimp only at h
        unfold authenticateEvent at h
        rw [htype] at h
        obtain rfl := Except.ok.inj h
        exact .deposit htype hd
    · have hmessages := messages_authorize hlaw hparsed
      cases hraw : e.rawTxBytesWithMaxBytes app.sdk app.keeper.authority params.injectedEventTxMaxBytes q with
      | error err =>
        rw [hraw, htype] at h
        obtain rfl := Except.ok.inj h
        refine .skipped _ htype ha fun anys hauthentic => ?_
        rw [Event.rawTxBytesWithMaxBytes_eq_ok.mpr
          ⟨anys, hmessages.trans hauthentic.payload, rfl, hauthentic.size⟩] at hraw
        cases hraw
      | ok bz =>
        obtain ⟨anys, hanys, rfl, hsize⟩ := Event.rawTxBytesWithMaxBytes_eq_ok.mp hraw
        have hpayload := hmessages.symm.trans hanys
        rw [hraw] at h
        dsimp only at h
        cases hauth : authenticateEvent app.sdk e (validRawTxBytesFromAnyMsgs anys q) blocked with
        | error err =>
          rw [hauth] at h
          cases h
        | ok authenticated =>
          have hiff := authenticateEvent_iff hlaw hinjective htype hparsed hsender hpayload hsize hauth
          rw [hauth] at h
          obtain rfl := Except.ok.inj h
          cases authenticated with
          | true => exact .authorized htype ha (hiff.mp rfl)
          | false =>
            refine .skipped _ htype ha fun anys' hauthentic => ?_
            obtain rfl := Except.ok.inj (hauthentic.payload.symm.trans hpayload)
            cases hiff.mpr hauthentic

/-- Every event of a generated list becomes one transaction in its place, with the next sequence:
its deposit, its own authentic messages, or the message that it was skipped. -/
theorem generated_txs_authentic (hlaw : app.sdk.Lawful) (hinjective : Function.Injective app.sdk.accAddressString)
    {answer : Except GoString QueryBlockEventsResponse} {m : MsgIndex} {txs : List Bytes}
    (h : generateMsgIndexAndEventTxs app answer blockNumber params blocked q = .ok (m, txs)) :
    txs.length = (answeredEvents answer).length ∧
      ∀ (i : ℕ) (e : Event) (tx : Bytes), (answeredEvents answer)[i]? = some e → txs[i]? = some tx →
        InjectedFor app params blocked blockNumber (q + UInt64.ofNat i) e tx := by
  obtain ⟨txs', htxs, heq⟩ := generateMsgIndexAndEventTxs_eq_ok.mp h
  obtain rfl : txs = txs' := congrArg Prod.snd heq
  obtain ⟨hlen, hall⟩ := eventTxsFrom_eq_ok.mp htxs
  refine ⟨hlen, fun i e tx he htx => ?_⟩
  exact injectedFor_of_eventTx hlaw hinjective (hall i e tx he htx)

theorem generated_txs_authentic_reference :
    ∃ m txs, generateMsgIndexAndEventTxs Reference.app referenceAnswer 1 Reference.params [] 2 = .ok (m, txs) ∧
      txs.length = 3 ∧ ∀ (i : ℕ) (e : Event) (tx : Bytes), referenceEvents[i]? = some e → txs[i]? = some tx →
        InjectedFor Reference.app Reference.params [] 1 (2 + UInt64.ofNat i) e tx := by
  obtain ⟨⟨m, txs⟩, hrun⟩ := exists_of_isOk (by decide +kernel :
    (generateMsgIndexAndEventTxs Reference.app referenceAnswer 1 Reference.params [] 2).isOk = true)
  obtain ⟨hlen, hall⟩ := generated_txs_authentic Reference.sdk_lawful Reference.bech32String_injective hrun
  exact ⟨m, txs, hrun, hlen, hall⟩

end FuelSequencer.Abci
