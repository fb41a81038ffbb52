import FuelSequencer.Abci.Generate

/-! # The proposal handlers

The proposer's handler builds a block's transactions, the verifier's handler checks
a proposed list. Both return an error or panic without writing anything.
-/
namespace FuelSequencer.Abci
open Go Wire Exec Lib Bridge Wiring

variable {W : Type}

structure RequestPrepareProposal where
  txs : List Bytes
  maxTxBytes : Int64
  height : UInt64

structure RequestProcessProposal where
  txs : Slice Bytes
  height : UInt64
  time : Time

structure TxSequences where
  index : UInt64
  supplyDelta : UInt64
  firstEventTxs : UInt64

def generateTxSequences (s : State W) (isMsgSupplyDeltaHeight : Bool) :
    Outcome GoString TxSequences := do
  let last ← required s.bridge.lastConsensusTxsSequence
    (.panic (str "expected to find LastConsensusTxsSequence"))
  let nextSequence := last + 1
  return if isMsgSupplyDeltaHeight then ⟨nextSequence, nextSequence + 1, nextSequence + 2⟩
    else ⟨nextSequence, 0, nextSequence + 1⟩

def checkMinimumNumTxs (numTxs : ℕ) (msgIndex : MsgIndex) (injectMsgSupplyDelta : Bool) :
    Outcome GoString Unit :=
  let minimumExpectedTxs := 1 + msgIndex.numInjectedEventTxs + (if injectMsgSupplyDelta then 1 else 0)
  failIf (UInt64.ofNat numTxs < minimumExpectedTxs)
    (Fault.err (str "incorrect number of messages in block proposal; expected minimum number of txs " ++
      decimal minimumExpectedTxs.toNat ++ str ", got " ++ decimal numTxs))

def errNoLastEthereumBlockSynced : Fault GoString :=
  .err (str "could not get last Ethereum block synced from state")

def errNoEthereumEventIndexOffset : Fault GoString :=
  .err (str "could not get Ethereum event index offset from state")

/-- Numbers of the index message and of the transactions must agree after the cuts. -/
def checkNumInjectedEventTxs (msgIndex : MsgIndex) (eventTxs : List Bytes) : Outcome GoString Unit :=
  failIf (msgIndex.numInjectedEventTxs ≠ UInt64.ofNat eventTxs.length)
    (Fault.err (str "mismatch between NumInjectedEventTxs in index and actual number of event txs; expected: " ++
      decimal msgIndex.numInjectedEventTxs.toNat ++ str ", got: " ++ decimal eventTxs.length))

def failedToTrimHead (err : GoString) : GoString := str "failed to trim event txs from head: " ++ err
def failedToTrimTail (err : GoString) : GoString := str "failed to trim event txs from tail: " ++ err
def failedToGenerate (err : GoString) : GoString :=
  str "failed to generate MsgIndex and event txs: " ++ err
def failedToGetBlocked (err : GoString) : GoString := str "failed to get blocked addresses: " ++ err

/-! ## Selecting transactions for a proposal -/

structure TxSelector where
  totalTxBytes : ℕ
  totalTxGas : UInt64
  selectedTxs : List Bytes

/-- The selector afterwards, and whether the block is full. -/
def TxSelector.selectTxForProposal (ts : TxSelector) (maxTxBytes : ℕ) (maxBlockGas : UInt64)
    (memTx : Tx) (txBz : Bytes) : TxSelector × Bool :=
  let size := txSize txBz
  let txGasLimit := memTx.gas.getD 0
  let ts' : TxSelector :=
    if size + ts.totalTxBytes ≤ maxTxBytes then
      if maxBlockGas > 0 then
        if txGasLimit + ts.totalTxGas ≤ maxBlockGas then
          ⟨ts.totalTxBytes + size, ts.totalTxGas + txGasLimit, ts.selectedTxs ++ [txBz]⟩
        else ts
      else ⟨ts.totalTxBytes + size, ts.totalTxGas, ts.selectedTxs ++ [txBz]⟩
    else ts
  (ts', decide (ts'.totalTxBytes ≥ maxTxBytes ∨ (maxBlockGas > 0 ∧ ts'.totalTxGas ≥ maxBlockGas)))

/-- The default handler without a mempool: transactions in order until the selector is full. -/
def selectTxs (decode : Bytes → Except GoString Tx) (maxTxBytes : ℕ) (maxBlockGas : UInt64) :
    TxSelector → List Bytes → Except GoString (List Bytes)
  | ts, [] => .ok ts.selectedTxs
  | ts, txBz :: txs => do
    let tx ← decode txBz
    let r := ts.selectTxForProposal maxTxBytes maxBlockGas tx txBz
    if r.2 then .ok r.1.selectedTxs else selectTxs decode maxTxBytes maxBlockGas r.1 txs

/-- Consensus params without block params have no gas limit. -/
def defaultPrepareProposal (decode : Bytes → Except GoString Tx) (maxGas : Option Int64)
    (maxTxBytes : Int64) (txs : List Bytes) : Except GoString (List Bytes) :=
  selectTxs decode (uint64 maxTxBytes.toInt) (UInt64.ofNat (uint64 (maxGas.getD 0).toInt)) ⟨0, 0, []⟩ txs

/-! ## Preparing -/

/-- The space for the index and event transactions: what native transactions do not
use, and at least what is not reserved for them. -/
def maxBytesForEvents (params : Params) (sequencerTxsSize maxBlockSpace : ℕ) : Outcome GoString ℕ := do
  let product ← panicking (decMulInt params.sequencerTxsAllocation maxBlockSpace)
  let truncated ← panicking (decTruncateInt64 product)
  let sequencerTxsBlockSpace := uint64 truncated
  return if sequencerTxsSize > maxBlockSpace then subUint64 maxBlockSpace sequencerTxsBlockSpace
    else max (subUint64 maxBlockSpace sequencerTxsSize) (subUint64 maxBlockSpace sequencerTxsBlockSpace)

def prepareProposal (app : App W) (sidecar : Sidecar) (maxGas : Option Int64) (s : State W)
    (req : RequestPrepareProposal) : Outcome GoString (List Bytes) := do
  let bridgeParams := s.bridge.params
  let injectMsgSupplyDelta ← bridgeParams.isMsgSupplyDeltaBlock req.height
  let sequences ← generateTxSequences s injectMsgSupplyDelta
  let blocked ← wrapping failedToGetBlocked (getAllBlockedBech32Addresses app s)
  let supplyDeltaTxs := if injectMsgSupplyDelta then
    [(MsgSupplyDelta.mk app.keeper.authority).rawTxBytes sequences.supplyDelta] else []
  let supplyDeltaBytesSize := txsSize supplyDeltaTxs
  failIf (supplyDeltaBytesSize > uint64 req.maxTxBytes.toInt)
    (Fault.err (str "could not fit MsgSupplyDelta of size " ++ decimal supplyDeltaBytesSize ++
      str " in block's max bytes " ++ decimalInt req.maxTxBytes.toInt))
  let reqTxs := supplyDeltaTxs ++ req.txs
  let lastEthereumBlockSynced ← required s.bridge.lastEthereumBlockSynced errNoLastEthereumBlockSynced
  let offset ← required s.bridge.ethereumEventIndexOffset errNoEthereumEventIndexOffset
  let ethBlockToQuery := lastEthereumBlockSynced + 1
  let generated ← wrapping failedToGenerate (generateMsgIndexAndEventTxs app
    (sidecar ethBlockToQuery) ethBlockToQuery bridgeParams blocked sequences.firstEventTxs)
  let trimmed ← wrapFault failedToTrimHead (generated.1.trimEventsFromHead generated.2 offset)
  let sequencerTxsSize := subUint64 (txsSize reqTxs) supplyDeltaBytesSize
  let maxBlockSpace := subUint64 (uint64 req.maxTxBytes.toInt) supplyDeltaBytesSize
  let maxBytes ← maxBytesForEvents bridgeParams sequencerTxsSize maxBlockSpace
  let maxNumberOfEvents ← wrapping (fun err => str "failed to calculate number of events with max bytes " ++
    decimal maxBytes ++ str ": " ++ err)
    (trimmed.1.numberOfEventsWithMaxBytes trimmed.2 maxBytes sequences.index)
  let kept ← wrapFault failedToTrimTail
    (trimmed.1.keepEventsFromHead trimmed.2 (UInt64.ofNat maxNumberOfEvents))
  checkNumInjectedEventTxs kept.1 kept.2.1
  let selectedTxs ← wrapping (fun err => str "default proposal handler failed with error: " ++ err)
    (defaultPrepareProposal app.sdk.txDecode maxGas req.maxTxBytes
      (kept.1.rawTxBytes sequences.index :: kept.2.1 ++ reqTxs))
  checkMinimumNumTxs selectedTxs.length kept.1 injectMsgSupplyDelta
  return selectedTxs

/-! ## Verifying -/

/-- Every transaction decodes and the running gas stays within the limit. -/
def verifyTransactionsFrom (decode : Bytes → Except GoString Tx) (maxBlockGas : ℤ) :
    UInt64 → List Bytes → Except GoString Unit
  | _, [] => .ok ()
  | totalTxGas, txBz :: txs => do
    let tx ← decode txBz
    let totalTxGas := if maxBlockGas > 0 then totalTxGas + tx.gas.getD 0 else totalTxGas
    failIf (maxBlockGas > 0 ∧ totalTxGas.toNat > uint64 maxBlockGas) (str "block gas limit exceeded")
    verifyTransactionsFrom decode maxBlockGas totalTxGas txs

def verifyTransactionsInProposal (decode : Bytes → Except GoString Tx) (maxGas : Option Int64)
    (txs : List Bytes) : Except GoString Unit :=
  verifyTransactionsFrom decode (maxGas.getD 0).toInt 0 txs

def verifyInjectedMsgIndexTx (injectedMsgIndexTx : Bytes) (expectedSequence : UInt64)
    (generatedMsgIndex : MsgIndex) : Except GoString Unit :=
  let generatedMsgIndexTx := generatedMsgIndex.rawTxBytes expectedSequence
  failIf (injectedMsgIndexTx ≠ generatedMsgIndexTx)
    (str "generated MsgIndex tx differs from that of the block proposal (injected: " ++
      hexUpper injectedMsgIndexTx ++ str ") (generated: " ++ hexUpper generatedMsgIndexTx ++ str ")")

def verifyInjectedEventTxs (injected generated : List Bytes) : Except GoString Unit :=
  failIf (injected ≠ generated)
    (if injected.length ≠ generated.length then
      str "generated event txs do not match those from the proposal (num_injected: " ++
        decimal injected.length ++ str ") (num_generated: " ++ decimal generated.length ++ str ")"
    else
      str "generated event txs do not match those from the proposal (size(injected): " ++
        decimal (txsSize injected) ++ str ") (size(generated): " ++ decimal (txsSize generated) ++ str ")")

def errIndexRange : Fault GoString := .panic (str "runtime error: index out of range")

def verifyInjectedMsgSupplyDeltaTx (authority : GoString) (txs : List Bytes)
    (numInjectedTxs expectedSequence : UInt64) : Outcome GoString Unit := do
  let msgSupplyDeltaIndex := 1 + numInjectedTxs
  failIf (UInt64.ofNat txs.length < 1 + msgSupplyDeltaIndex)
    (Fault.err (str "expected at least " ++ decimal (1 + msgSupplyDeltaIndex).toNat ++
      str " transactions in block proposal"))
  let injectedTx ← required txs[msgSupplyDeltaIndex.toNat]? errIndexRange
  let generatedTx := (MsgSupplyDelta.mk authority).rawTxBytes expectedSequence
  failIf (injectedTx ≠ generatedTx)
    (Fault.err (str "generated MsgSupplyDelta tx differs from that of the block proposal (injected: " ++
      hexUpper injectedTx ++ str ") (generated: " ++ hexUpper generatedTx ++ str ")"))

/-- More time passed since the last synchronisation than the params allow. -/
def ethSyncDelayExceeded (b : Store) (time : Time) : Bool :=
  match b.getLastEthBlockUpdateTime with
  | some lastEthBlockUpdateTime => time > lastEthBlockUpdateTime + b.params.maxEthBlockUpdateDelay
  | none => false

/-- What the verifier expects when the proposer shows no synchronisation, and otherwise
what its own sidecar yields. -/
def expectedMsgIndexAndEventTxs (app : App W) (sidecar : Sidecar) (s : State W) (time : Time)
    (injectedMsgIndex : MsgIndex) (ethBlockToQuery : UInt64) (blocked : List GoString)
    (firstEventTxsSequence : UInt64) : Outcome GoString (MsgIndex × List Bytes) :=
  if injectedMsgIndex.noEthereumSyncing then do
    failIf (ethSyncDelayExceeded s.bridge time)
      (Fault.err (str "last syncup with Ethereum was at " ++
        app.sdk.timeString (s.bridge.getLastEthBlockUpdateTime.getD zeroTime) ++ str "; block time: " ++
        app.sdk.timeString time ++ str "; max delay allowed: " ++
        app.sdk.durationString s.bridge.params.maxEthBlockUpdateDelay))
    return (⟨app.keeper.authority, 0, false, ethBlockToQuery⟩, [])
  else
    wrapping failedToGenerate (generateMsgIndexAndEventTxs app (sidecar ethBlockToQuery)
      ethBlockToQuery s.bridge.params blocked firstEventTxsSequence)

def processProposal (app : App W) (sidecar : Sidecar) (maxGas : Option Int64) (s : State W)
    (req : RequestProcessProposal) : Outcome GoString Unit := do
  failIf (req.txs.elems.length = 0) (Fault.err
    (str "block proposal doesn't have any transactions: first tx expected to be MsgIndex"))
  let expectMsgSupplyDelta ← s.bridge.params.isMsgSupplyDeltaBlock req.height
  let sequences ← generateTxSequences s expectMsgSupplyDelta
  let blocked ← wrapping failedToGetBlocked (getAllBlockedBech32Addresses app s)
  let firstTx := req.txs.elems.headD []
  let injectedMsgIndex ← wrapping (str "first transaction expected to be a valid MsgIndex: " ++ ·)
    (MsgIndex.fromRawTxBytes app.sdk.txDecode firstTx)
  let lastEthereumBlockSynced ← required s.bridge.lastEthereumBlockSynced errNoLastEthereumBlockSynced
  let expected ← expectedMsgIndexAndEventTxs app sidecar s req.time injectedMsgIndex
    (lastEthereumBlockSynced + 1) blocked sequences.firstEventTxs
  let offset ← required s.bridge.ethereumEventIndexOffset errNoEthereumEventIndexOffset
  let trimmed ← wrapFault failedToTrimHead (expected.1.trimEventsFromHead expected.2 offset)
  let kept ← wrapFault failedToTrimTail
    (trimmed.1.keepEventsFromHead trimmed.2 injectedMsgIndex.numInjectedEventTxs)
  checkNumInjectedEventTxs kept.1 kept.2.1
  let injectedEventTxs ← required
    (req.txs.slice 1 (injectedMsgIndex.numInjectedEventTxs + 1).toNat) MsgIndex.errSliceBounds
  failIf (UInt64.ofNat injectedEventTxs.length ≠ injectedMsgIndex.numInjectedEventTxs)
    (Fault.err (str "unexpected number of injected event txs; expected: " ++
      decimal injectedMsgIndex.numInjectedEventTxs.toNat ++ str ", got: " ++
      decimal injectedEventTxs.length))
  wrapping (str "failed to verify injected MsgIndexTx: " ++ ·)
    (verifyInjectedMsgIndexTx firstTx sequences.index kept.1)
  wrapping (str "failed to verify injected event txs: " ++ ·)
    (verifyInjectedEventTxs injectedEventTxs kept.2.1)
  wrapFault (str "failed to verify injected MsgSupplyDeltaTx: " ++ ·)
    (if expectMsgSupplyDelta then
      verifyInjectedMsgSupplyDeltaTx app.keeper.authority req.txs.elems
        kept.1.numInjectedEventTxs sequences.supplyDelta
    else .ok ())
  wrapping id (verifyTransactionsInProposal app.sdk.txDecode maxGas req.txs.elems)
  checkMinimumNumTxs req.txs.elems.length kept.1 expectMsgSupplyDelta

end FuelSequencer.Abci
