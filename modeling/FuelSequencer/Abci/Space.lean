import FuelSequencer.Abci.Honest

/-! # The space of a prepared block

A prepared block holds the injected transactions in front and then native transactions in
the order of the mempool, within the bytes of the request. The proposer gives the events
the space that native transactions do not take, and at least what is not reserved for
them; whether a pending event fits there is not implied by the bound on its size.
-/
namespace FuelSequencer.Abci
open Go Wire Exec Lib Wiring Bridge

variable {W : Type} {app : App W} {sidecar : Sidecar} {s : State W} {maxGas : Option Int64}
  {req : RequestPrepareProposal}

/-! ## What a prepared block holds -/

/-- The subtractions that compute the space, each with what is subtracted. -/
def Pending.subtractions (req : RequestPrepareProposal) (params : Params) (p : Pending) : List (ℕ × ℕ) :=
  [(txsSize (p.supplyDeltaTxs ++ req.txs), txsSize p.supplyDeltaTxs),
    (uint64 req.maxTxBytes.toInt, txsSize p.supplyDeltaTxs),
    (p.maxBlockSpace req, nativeShare params (p.maxBlockSpace req))] ++
  if p.sequencerTxsSize req > p.maxBlockSpace req then [] else [(p.maxBlockSpace req, p.sequencerTxsSize req)]

theorem Pending.Of.subtractions_le {v : View} {gen : List Bytes} {p : Pending} (h : p.Of app sidecar s req v gen)
    (hparams : s.bridge.params.validate app.sdk = .ok ()) :
    ∀ d ∈ p.subtractions req s.bridge.params, d.2 ≤ d.1 := by
  have hallocation := (Params.validate_eq_ok hparams).2.2.2.2.2.2.2.2
  intro d hd
  unfold Pending.subtractions at hd
  rcases List.mem_append.mp hd with hd | hd
  · simp only [List.mem_cons, List.not_mem_nil, or_false] at hd
    rcases hd with rfl | rfl | rfl
    · simp [txsSize]
    · exact h.fits
    · exact nativeShare_le hallocation.1 hallocation.2 (uint64_lt _)
  · split_ifs at hd with hlarge
    · cases hd
    · rw [List.mem_singleton] at hd
      subst hd
      exact not_lt.mp hlarge

theorem length_le_txsSize (txs : List Bytes) : txs.length ≤ txsSize txs := by
  induction txs with
  | nil => exact Nat.zero_le _
  | cons tx txs ih =>
    have hpos := txSize_pos tx
    have hsum : txsSize (tx :: txs) = txSize tx + txsSize txs := by simp [txsSize]
    rw [List.length_cons]
    omega

/-- Every injected transaction is selected, so the last check of the proposer passes. -/
theorem Chosen.checkMinimumNumTxs {v : View} {m : UInt64} {gen : List Bytes} {choice : Choice}
    (h : Chosen app sidecar s maxGas req v m gen choice) :
    checkMinimumNumTxs choice.selectedTxs.length choice.msgIndex choice.delta = .ok () := by
  obtain ⟨natives, hnatives, -⟩ := h.natives
  have hcut : ((gen.drop v.offset.toNat).take m.toNat).length = m.toNat := by
    have hle := h.prepared.count_le
    rw [List.length_take, List.length_drop]
    omega
  have hlength : choice.selectedTxs.length = 1 + m.toNat + (if v.delta then 1 else 0) + natives.length := by
    rw [hnatives, View.injected]
    cases v.delta <;> simp [hcut] <;> omega
  have hlt : choice.selectedTxs.length < 2 ^ 64 :=
    lt_of_le_of_lt ((length_le_txsSize _).trans h.size) (uint64_lt _)
  have hexpected : (1 + m + (if v.delta then 1 else 0) : UInt64).toNat =
      1 + m.toNat + (if v.delta then 1 else 0) := by
    cases hd : v.delta <;> rw [hd] at hlength <;>
      simp only [Bool.false_eq_true, if_false, if_true, UInt64.toNat_add, UInt64.toNat_one, UInt64.toNat_zero] at hlength ⊢ <;>
      omega
  refine failIf_eq_ok.mpr ?_
  rw [h.msgIndex, h.delta, UInt64.not_lt, UInt64.le_iff_toNat_le]
  change (1 + m + (if v.delta then 1 else 0) : UInt64).toNat ≤ (UInt64.ofNat choice.selectedTxs.length).toNat
  rw [hexpected, UInt64.toNat_ofNat_of_lt' hlt]
  omega

/-- A block of the proposer: the index transaction, the kept events and the supply delta
transaction at its height, then native transactions in the order of the request, within its bytes. -/
structure PreparedBlock (app : App W) (sidecar : Sidecar) (s : State W) (req : RequestPrepareProposal) (v : View)
    (m : UInt64) (gen natives txs : List Bytes) : Prop where
  view : View.Of app s req.height v
  generated : v.generated app s.bridge.params (answeredEvents (sidecar (v.last + 1))) = .ok gen
  kept_le : m.toNat ≤ (gen.drop v.offset.toNat).length
  shape : txs = v.indexTx app m ((sidecar (v.last + 1)).isOk && decide (m.toNat = gen.length - v.offset.toNat)) ::
    (gen.drop v.offset.toNat).take m.toNat ++ (if v.delta then [v.supplyDeltaTx app] else []) ++ natives
  inOrder : natives.Sublist req.txs
  size : (txsSize txs : ℤ) ≤ req.maxTxBytes.toInt

/-- Whatever the proposer returns is such a block, the space was computed without underflow,
and the check for too few transactions never fails. -/
theorem prepared_block (hlaw : app.sdk.Lawful) (hparams : s.bridge.params.validate app.sdk = .ok ())
    (hmax : 0 ≤ req.maxTxBytes.toInt) :
    (∀ txs, prepareProposal app sidecar maxGas s req = .ok txs → ∃ p v m gen natives,
      pendingEvents app sidecar s req = .ok p ∧ (∀ d ∈ p.subtractions req s.bridge.params, d.2 ≤ d.1) ∧
      PreparedBlock app sidecar s req v m gen natives txs) ∧
    ∀ choice, chooseTxs app sidecar maxGas s req = .ok choice →
      checkMinimumNumTxs choice.selectedTxs.length choice.msgIndex choice.delta = .ok () := by
  constructor
  · intro txs h
    rw [prepareProposal_eq] at h
    obtain ⟨choice, hchoice, h⟩ := except_bind_eq_ok.mp h
    obtain ⟨_, -, h⟩ := except_bind_eq_ok.mp h
    obtain rfl := Except.ok.inj h
    obtain ⟨p, v, m, gen, hp, hof, hchosen⟩ := chosen_of_chooseTxs hlaw hparams hchoice
    obtain ⟨natives, hnatives, hsublist⟩ := hchosen.natives
    refine ⟨p, v, m, gen, natives, hp, hof.subtractions_le hparams, hof.view, hof.generated, ?_, ?_, hsublist, ?_⟩
    · rw [List.length_drop]
      exact hchosen.prepared.count_le
    · rw [hnatives, View.injected]
      simp
    · have hsize := hchosen.size
      have hlt := Int64.toInt_lt req.maxTxBytes
      unfold uint64 at hsize
      omega
  · intro choice hchoice
    obtain ⟨p, v, m, gen, -, -, hchosen⟩ := chosen_of_chooseTxs hlaw hparams hchoice
    exact hchosen.checkMinimumNumTxs

/-- A deposit and a transfer of the mempool. -/
theorem prepared_block_reference : ∃ v m gen natives,
    PreparedBlock Reference.app (Reference.answering [Reference.depositEvent 5] (by decide)) Reference.state referencePrepare
      v m gen natives referenceHonest.txs.elems := by
  have hprep : prepareProposal Reference.app (Reference.answering [Reference.depositEvent 5] (by decide)) none
      Reference.state referencePrepare = .ok referenceHonest.txs.elems := by decide +kernel
  obtain ⟨-, v, m, gen, natives, -, -, hblock⟩ :=
    (prepared_block Reference.sdk_lawful (by decide +kernel) (by decide)).1 _ hprep
  exact ⟨v, m, gen, natives, hblock⟩

/-! ## Whether a pending event fits -/

/-- Some pending event is kept. -/
def Pending.Keeps (req : RequestPrepareProposal) (params : Params) (p : Pending) : Prop :=
  ∃ kept, p.pack req params = .ok kept ∧ kept.2.1 ≠ []

/-- The first pending event fits in the space for events beside the index message. -/
def Pending.FirstFits (req : RequestPrepareProposal) (params : Params) (p : Pending) : Prop :=
  ∀ tx ∈ p.eventTxs.head?, txSize (p.msgIndex.rawTxBytes p.sequences.index) + txSize tx ≤
    eventSpace params (p.sequencerTxsSize req) (p.maxBlockSpace req)

theorem prepareProposal_of_pack_error {p : Pending} {e : Fault GoString}
    (hp : pendingEvents app sidecar s req = .ok p) (he : p.pack req s.bridge.params = .error e) :
    prepareProposal app sidecar maxGas s req = .error e := by
  rw [prepareProposal_eq, chooseTxs, hp, ok_bind, he]
  rfl

/-- With events pending, one of them is kept exactly if the first fits in the space for events;
otherwise the proposer fails. -/
theorem keeps_iff_firstFits (hparams : s.bridge.params.validate app.sdk = .ok ()) {p : Pending}
    (hp : pendingEvents app sidecar s req = .ok p) (hpending : p.eventTxs ≠ []) :
    (p.Keeps req s.bridge.params ↔ p.FirstFits req s.bridge.params) ∧
      (¬ p.FirstFits req s.bridge.params → ∃ e, prepareProposal app sidecar maxGas s req = .error e) := by
  obtain ⟨v, gen, hof⟩ := of_pendingEvents hp
  obtain ⟨tx, rest, hcons⟩ := List.exists_cons_of_ne_nil hpending
  have hiff : p.Keeps req s.bridge.params ↔ p.FirstFits req s.bridge.params := by
    simp only [Pending.Keeps, Pending.FirstFits, hof.pack_eq_ok hparams, hcons, List.head?_cons, Option.mem_def,
      Option.some.injEq, forall_eq']
    constructor
    · rintro ⟨kept, ⟨k, -, hk, hpos, -⟩, -⟩
      apply MsgIndex.fitting_cons_pos_iff.mp
      rw [hk]
      exact hpos (Nat.succ_pos _)
    · intro hfirst
      have hpos : 0 < MsgIndex.fitting _ _ (tx :: rest) := MsgIndex.fitting_cons_pos_iff.mpr hfirst
      refine ⟨_, ⟨_, (Nat.le_add_right _ _).trans hfirst, rfl, fun _ => hpos, rfl⟩, fun hnil => ?_⟩
      rcases List.take_eq_nil_iff.mp hnil with hzero | hzero
      · exact hpos.ne' hzero
      · cases hzero
  refine ⟨hiff, fun hnot => ?_⟩
  cases hpack : p.pack req s.bridge.params with
  | error e => exact ⟨e, prepareProposal_of_pack_error hp hpack⟩
  | ok kept =>
    refine absurd (hiff.mp ⟨kept, hpack, ?_⟩) hnot
    obtain ⟨k, -, -, hpos, rfl⟩ := (hof.pack_eq_ok hparams).mp hpack
    intro hnil
    rcases List.take_eq_nil_iff.mp hnil with hzero | hzero
    · exact (hpos (List.length_pos_iff.mpr hpending)).ne' hzero
    · exact hpending hzero

theorem length_oneDeposit_lt : [Reference.depositEvent 5].length < maxLen := by decide

/-- A sidecar with one deposit. -/
def oneDeposit : Sidecar := Reference.answering [Reference.depositEvent 5] length_oneDeposit_lt

theorem keeps_iff_firstFits_reference : ∃ p,
    pendingEvents Reference.app oneDeposit Reference.state referencePrepare = .ok p ∧
    (p.Keeps referencePrepare Reference.state.bridge.params ↔
      p.FirstFits referencePrepare Reference.state.bridge.params) ∧
    (¬ p.FirstFits referencePrepare Reference.state.bridge.params → ∃ e,
      prepareProposal Reference.app oneDeposit none Reference.state referencePrepare = .error e) := by
  have hone : (pendingEvents Reference.app oneDeposit Reference.state referencePrepare).toOption.map
      (fun q => q.eventTxs.length) = some 1 := by decide +kernel
  have hparams : Reference.state.bridge.params.validate Reference.app.sdk = .ok () := by decide +kernel
  cases hp : pendingEvents Reference.app oneDeposit Reference.state referencePrepare with
  | error e =>
    rw [hp] at hone
    cases hone
  | ok p =>
    have hpending : p.eventTxs ≠ [] := by
      intro hnil
      rw [hp] at hone
      simp [Except.toOption, hnil] at hone
    exact ⟨p, rfl, keeps_iff_firstFits hparams hp hpending⟩

/-- The smallest allowed bound on an event transaction and the largest share of native transactions. -/
def tightState : State Reference.Ledger :=
  ⟨{ Reference.store with params :=
      { Reference.params with injectedEventTxMaxBytes := 1024, sequencerTxsAllocation := 5 * 10 ^ 17 } },
    Reference.sequencing, Reference.ledger⟩

/-- An authorisation of four transfers. -/
def fourTransfers : Event :=
  Reference.authorizeEvent (encodeFields (txBodyFields (List.replicate 4 transferAny)))

/-- A block for the largest event transaction, and a mempool larger than it. -/
def tightRequest : RequestPrepareProposal :=
  ⟨[validRawTxBytesFromAnyMsgs (List.replicate 8 transferAny) 0], 1300, 1⟩

theorem allowed_event_does_not_fit :
    tightState.bridge.params.validate Reference.sdk = .ok () ∧
    tightState.bridge.params.injectedEventTxMaxBytes.toNat + txSize ((Reference.indexMsg 1 true).rawTxBytes 1) +
      txSize ((MsgSupplyDelta.mk Reference.authority).rawTxBytes 2) ≤ 1300 ∧
    fourTransfers.validate Reference.sdk tightState.bridge.params.ethereumProxyContractAddress = .ok () ∧
    (fourTransfers.rawTxBytesWithMaxBytes Reference.sdk Reference.authority
      tightState.bridge.params.injectedEventTxMaxBytes 3).isOk = true ∧
    prepareProposal Reference.app (Reference.answering [fourTransfers] (by decide)) none tightState tightRequest =
      wrapFault failedToTrimTail (.error (Reference.indexMsg 1 true).errCannotTrimAll) := by
  decide +kernel

end FuelSequencer.Abci
