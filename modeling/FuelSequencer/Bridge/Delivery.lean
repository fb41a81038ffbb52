import FuelSequencer.Bridge.Special

/-! # What the index and supply delta messages do

The bodies of the two messages succeed exactly from the states described here, and
the store afterwards is given in one piece.
-/
namespace FuelSequencer.Bridge
open Go Wire Exec Lib Wiring

variable {W : Type} {app : App W} {s t : State W}

/-- The store lets the index message through. -/
structure IndexReady (msg : MsgIndex) (b : Store) (last offset sequence : UInt64) : Prop where
  hasLast : b.lastEthereumBlockSynced = some last
  hasOffset : b.ethereumEventIndexOffset = some offset
  hasSequence : b.lastConsensusTxsSequence = some sequence
  block : msg.blockNumber = last + 1
  progress : 0 < offset → msg.numInjectedEventTxs ≠ 0
  period : b.params.supplyDeltaPeriod ≠ 0
  noIndex : b.index = none

/-- The store after the index message. -/
def indexedStore (ctx : Ctx) (msg : MsgIndex) (offset sequence : UInt64) (b : Store) : Store :=
  let count := supplyDeltaCount b.params ctx.blockHeight
  let synced := msg.isFullEthereumSyncing || msg.isPartialEthereumSyncing
  { b with
    index := some ⟨msg.numInjectedEventTxs + count, 0, 0⟩
    lastEthereumBlockSynced :=
      if msg.isFullEthereumSyncing then some msg.blockNumber else b.lastEthereumBlockSynced
    ethereumEventIndexOffset :=
      if msg.isFullEthereumSyncing then some 0
      else if msg.isPartialEthereumSyncing then some (offset + msg.numInjectedEventTxs)
      else b.ethereumEventIndexOffset
    lastEthBlockUpdateTime :=
      if synced then some (UInt64.ofNat (uint64 ctx.blockTime)) else b.lastEthBlockUpdateTime
    lastConsensusTxsSequence := some (sequence + msg.numInjectedEventTxs + count + 1) }

theorem validateBeforeProcessing_eq_ok {sdk : Sdk} {m : MsgIndex} {last offset : UInt64} {u : Unit} :
    m.validateBeforeProcessing sdk last offset = .ok u ↔
      (0 < offset → m.numInjectedEventTxs ≠ 0) ∧ m.blockNumber = last + 1 := by
  unfold MsgIndex.validateBeforeProcessing
  simp only [except_bind_eq_ok, failIf_eq_ok, exists_const, not_and, not_not, gt_iff_lt, ne_eq]

theorem run_emit (hlaw : app.sdk.Lawful) (e : TypedEvent) (s : State W) :
    (emit app e : Run W Unit).run s = .ok () s := by
  rw [emit, hlaw.emitTypedEvent_ok]
  rfl

/-- The writes for a block that is now fully consumed. -/
def fullySynced (ctx : Ctx) (msg : MsgIndex) (b : Store) : Store :=
  if msg.isFullEthereumSyncing then
    { b with lastEthereumBlockSynced := some msg.blockNumber, ethereumEventIndexOffset := some 0,
             lastEthBlockUpdateTime := some (UInt64.ofNat (uint64 ctx.blockTime)) }
  else b

/-- The writes for a block of which events are left. -/
def partlySynced (ctx : Ctx) (msg : MsgIndex) (offset : UInt64) (b : Store) : Store :=
  if msg.isPartialEthereumSyncing then
    { b with ethereumEventIndexOffset := some (offset + msg.numInjectedEventTxs),
             lastEthBlockUpdateTime := some (UInt64.ofNat (uint64 ctx.blockTime)) }
  else b

theorem run_fullySynced (ctx : Ctx) (msg : MsgIndex) {u : Unit} :
    (onlyIf msg.isFullEthereumSyncing (do
      setLastEthereumBlockSynced msg.blockNumber
      resetEthereumEventIndexOffset
      setLastEthBlockUpdateTime ctx.blockTime) : Run W Unit).run s = .ok u t ↔
      t = { s with bridge := fullySynced ctx msg s.bridge } := by
  rw [fullySynced]
  cases msg.isFullEthereumSyncing <;>
    exact ⟨fun h => (EStateM.Result.ok.inj h).2.symm, fun h => by rw [h]; rfl⟩

theorem run_partlySynced (ctx : Ctx) (msg : MsgIndex) (offset : UInt64) {u : Unit} :
    (onlyIf msg.isPartialEthereumSyncing (do
      setEthereumEventIndexOffset (offset + msg.numInjectedEventTxs)
      setLastEthBlockUpdateTime ctx.blockTime) : Run W Unit).run s = .ok u t ↔
      t = { s with bridge := partlySynced ctx msg offset s.bridge } := by
  rw [partlySynced]
  cases msg.isPartialEthereumSyncing <;>
    exact ⟨fun h => (EStateM.Result.ok.inj h).2.symm, fun h => by rw [h]; rfl⟩

theorem run_onlyIf_emit (hlaw : app.sdk.Lawful) {c : Bool} {e : TypedEvent} {u : Unit} :
    (onlyIf c (emit app e) : Run W Unit).run s = .ok u t ↔ t = s := by
  rw [run_onlyIf, run_emit hlaw, ite_self]
  exact ⟨fun h => (EStateM.Result.ok.inj h).2.symm, fun h => by rw [h]⟩

/-- The writes one after the other give the store in one piece. -/
theorem indexedStore_eq (ctx : Ctx) (msg : MsgIndex) (offset sequence : UInt64) (b : Store) :
    { partlySynced ctx msg offset (fullySynced ctx msg { b with
        index := some ⟨msg.numInjectedEventTxs + supplyDeltaCount b.params ctx.blockHeight, 0, 0⟩ }) with
      lastConsensusTxsSequence := some
        (sequence + msg.numInjectedEventTxs + supplyDeltaCount b.params ctx.blockHeight + 1) } =
      indexedStore ctx msg offset sequence b := by
  unfold indexedStore partlySynced fullySynced MsgIndex.isPartialEthereumSyncing
    MsgIndex.isFullEthereumSyncing
  cases msg.newEthereumBlock with
  | true => rfl
  | false => cases decide (msg.numInjectedEventTxs > 0) <;> rfl

/-- The index message succeeds exactly when the store is ready for it. -/
theorem run_index_eq_ok (hlaw : app.sdk.Lawful) {ctx : Ctx} {msg : MsgIndex} {u : Unit} :
    (index app ctx msg).run s = .ok u t ↔ ∃ last offset sequence,
      IndexReady msg s.bridge last offset sequence ∧
      t = { s with bridge := indexedStore ctx msg offset sequence s.bridge } := by
  simp only [index, run_bind_eq_ok, mustGetLastEthereumBlockSynced, mustGetEthereumEventIndexOffset,
    mustGetLastConsensusTxsSequence, run_mustGet_eq_ok, run_getStore_eq_ok, run_ofOutcome_eq_ok,
    wrapping_eq_ok, validateBeforeProcessing_eq_ok, run_failIf_eq_ok, setIndex, run_onStore_eq_ok,
    setLastConsensusTxsSequence, run_fullySynced, run_partlySynced, run_onlyIf_emit hlaw,
    ← indexedStore_eq]
  have hseq : ∀ offset b, (partlySynced ctx msg offset (fullySynced ctx msg b)).lastConsensusTxsSequence =
      b.lastConsensusTxsSequence := by
    intro offset b
    unfold partlySynced fullySynced
    split_ifs <;> rfl
  constructor
  · rintro ⟨last, _, ⟨hl, rfl⟩, offset, _, ⟨ho, rfl⟩, b, _, ⟨rfl, rfl⟩, _, _, ⟨⟨hp, hb⟩, rfl⟩, _, _,
      ⟨hper, rfl⟩, _, _, ⟨hidx, rfl⟩, _, _, rfl, _, _, rfl, _, _, rfl, _, _, rfl, sequence, _, ⟨hs, rfl⟩, rfl⟩
    rw [hseq] at hs
    exact ⟨last, offset, sequence, ⟨hl, ho, hs, hb, hp, hper, by simpa using hidx⟩, rfl⟩
  · rintro ⟨last, offset, sequence, ⟨hl, ho, hs, hb, hp, hper, hidx⟩, rfl⟩
    refine ⟨last, _, ⟨hl, rfl⟩, offset, _, ⟨ho, rfl⟩, _, _, ⟨rfl, rfl⟩, (), _, ⟨⟨hp, hb⟩, rfl⟩, (), _,
      ⟨hper, rfl⟩, (), _, ⟨by simp [hidx], rfl⟩, (), _, rfl, (), _, rfl, (), _, rfl, (), _, rfl, sequence,
      _, ⟨?_, rfl⟩, rfl⟩
    rw [hseq]
    exact hs

/-! ## The supply delta message -/

/-- The store lets the supply delta message through. -/
structure SupplyDeltaReady (ctx : Ctx) (b : Store) (nonce : ℤ) (info : SupplyDeltaInfo) : Prop where
  period : b.params.supplyDeltaPeriod ≠ 0
  height : ctx.blockHeight % b.params.supplyDeltaPeriod = 0
  hasNonce : b.lastEthereumNonce = some nonce
  nonce_lt : (nonce + 1).natAbs < 2 ^ maxBitLen
  hasInfo : b.supplyDeltaInfo = some info

/-- The supply delta message succeeds exactly when the store is ready for it; it takes
the next nonce and reports the pending delta. -/
theorem run_supplyDelta_eq_ok (hlaw : app.sdk.Lawful) {ctx : Ctx} {r : MsgSupplyDeltaResponse} :
    (supplyDelta app ctx).run s = .ok r t ↔ ∃ nonce info, SupplyDeltaReady ctx s.bridge nonce info ∧
      r = ⟨some (nonce + 1), some info.toReport⟩ ∧
      t = { s with bridge := { s.bridge with
        lastEthereumNonce := some (nonce + 1), supplyDeltaInfo := some { info with toReport := 0 } } } := by
  have hemit : ∀ {e : TypedEvent} {x y : State W} {v : Unit},
      (emit app e : Run W Unit).run x = .ok v y ↔ y = x := by
    intro e x y v
    rw [run_emit hlaw]
    exact ⟨fun h => (EStateM.Result.ok.inj h).2.symm, fun h => by rw [h]⟩
  simp only [supplyDelta, run_bind_eq_ok, run_getStore_eq_ok, run_ofOutcome_eq_ok, run_failIf_eq_ok,
    mustGetNextEthereumNonceAndIncrement, mustGetNextEthereumNonce, mustGetLastEthereumNonce,
    run_mustGet_eq_ok, panicking_eq_ok, intAdd, checkInt_eq_ok, setLastEthereumNonce, run_onStore_eq_ok,
    run_pure_eq_ok, mustGetSupplyDeltaInfo, setSupplyDeltaInfo, hemit, Params.isMsgSupplyDeltaBlock_eq_ok]
  constructor
  · rintro ⟨b, _, ⟨rfl, rfl⟩, isBlock, _, ⟨⟨hper, rfl⟩, rfl⟩, _, _, ⟨hheight, rfl⟩, nonce', _,
      ⟨_, _, ⟨nonce, _, ⟨hn, rfl⟩, ⟨hlt, rfl⟩, rfl⟩, _, _, rfl, rfl, rfl⟩, info, _, ⟨hinfo, rfl⟩, _, _, rfl,
      _, _, rfl, rfl, rfl⟩
    exact ⟨nonce, info, ⟨hper, by simpa using hheight, hn, hlt, hinfo⟩, rfl, rfl⟩
  · rintro ⟨nonce, info, ⟨hper, hheight, hn, hlt, hinfo⟩, rfl, rfl⟩
    exact ⟨_, _, ⟨rfl, rfl⟩, true, _, ⟨⟨hper, by simp [hheight]⟩, rfl⟩, (), _, ⟨by simp, rfl⟩, nonce + 1, _,
      ⟨_, _, ⟨nonce, _, ⟨hn, rfl⟩, ⟨hlt, rfl⟩, rfl⟩, (), _, rfl, rfl, rfl⟩, info, _, ⟨hinfo, rfl⟩, (), _, rfl,
      (), _, rfl, rfl, rfl⟩

end FuelSequencer.Bridge
