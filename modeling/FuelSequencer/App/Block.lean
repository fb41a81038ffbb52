import FuelSequencer.Bridge.Module
import FuelSequencer.Sequencing.Keeper

/-! # Executing a block

The ante handler of the app, the routing of messages and the phases of a block. Next
to its effect on the state every phase yields the journal of what the bridge did, in
the order in which the writes were kept; what was rolled back leaves no entry.
-/
namespace FuelSequencer.Wiring
open Go Wire Exec Lib Bridge

variable {W : Type}

/-! ## The journal -/

inductive Entry where
  | indexed (msg : MsgIndex) (total : UInt64)
  | reported (supplyDelta : ℤ)
  | deposited (amount : ℤ)
  | skipped
  | withdrawn (amount : ℤ)
  | updated (params : Params)
  /-- A blob was posted under the nonce. -/
  | posted (nonce : ℤ)
  /-- A special message failed. -/
  | failed
  /-- The ante handler counted an injected transaction. -/
  | counted
deriving DecidableEq, Repr

abbrev Journal := List Entry

def replyJournal {α : Type} (r : Reply α) (entry : α → Entry) : Journal :=
  match r.ended with
  | .ok a => [entry a]
  | .error _ => [.failed]

/-! ## Messages -/

/-- A message of the bridge or of the sequencing module behind the router. -/
def handleBridge (app : App W) (ctx : Ctx) (m : Msg) : Run W Journal := do
  ofOutcome (wrapping id (m.validateBasic app.sdk))
  match m with
  | .updateParams m => do
    handleUpdateParams app m
    return [.updated m.params]
  | .supplyDelta m => do
    let r ← handleSupplyDelta app ctx m
    -- the router marshals the response; after a panic of the body it is a nil pointer
    failIf (r.response.isNone) errNilPointer
    return replyJournal r fun a => .reported (a.supplyDelta.getD 0)
  | .withdrawToEthereum m => do
    let _ ← handleWithdrawToEthereum app m
    return [.withdrawn m.amount.amount]
  | .depositFromEthereum m => do
    let r ← handleDepositFromEthereum app m
    return replyJournal r fun _ => .deposited ((app.sdk.newIntFromString m.amount).getD 0)
  | .index m => do
    let store ← getStore
    let r ← handleIndex app ctx m
    return replyJournal r fun _ =>
      .indexed m (m.numInjectedEventTxs + supplyDeltaCount store.params ctx.blockHeight)
  | .skippedEventTx m => do
    let r ← handleSkippedEventTx app m
    return replyJournal r fun _ => .skipped
  | .postBlob m => do
    let r ← Sequencing.postBlob app m
    return [.posted r.nonce]
  | .updateSequencingParams m => do
    Sequencing.handleUpdateSequencingParams app m
    return []
  | .other _ => fail (str "no message handler found")

def putWorld (w : W) : Run W Unit := modify fun s => { s with world := w }

def runRouted (app : App W) (ctx : Ctx) : Routed W → Run W Journal
  | .done w => do
    putWorld w
    return []
  | .fail fault w => do
    putWorld w
    throw fault
  | .call w m next => do
    putWorld w
    let journal ← handleBridge app ctx m
    let s ← get
    let rest ← runRouted app ctx (next s.world)
    return journal ++ rest
  | .scope body next => do
    match ← caught (isolated (runRouted app ctx body)) with
    | .ok journal => do
      let s ← get
      let rest ← runRouted app ctx (next none s.world)
      return journal ++ rest
    | .error fault => do
      let s ← get
      runRouted app ctx (next (some fault) s.world)

def handleOther (app : App W) (ctx : Ctx) (any : Any) : Run W Journal := do
  ofOutcome (wrapping id (app.sdk.validateBasicOther any))
  let s ← get
  runRouted app ctx (app.modules.handleOther ctx any s.world)

def handleMsg (app : App W) (ctx : Ctx) (m : Msg) : Run W Journal :=
  match m with
  | .other any => handleOther app ctx any
  | m => handleBridge app ctx m

def runMsgs (app : App W) (ctx : Ctx) : List Msg → Run W Journal
  | [] => pure []
  | m :: msgs => do
    let journal ← handleMsg app ctx m
    let rest ← runMsgs app ctx msgs
    return journal ++ rest

/-! ## The ante handler -/

inductive ExecMode where
  | check
  | reCheck
  | simulate
  | prepareProposal
  | processProposal
  | voteExtension
  | verifyVoteExtension
  | finalize
deriving DecidableEq, Repr

/-- How a transaction leaves the decorator: as the first of the block, which sets the
index, as one more injected transaction, or to the rest of the chain. -/
inductive Pass where
  | first
  | injected
  | native
deriving DecidableEq, Repr

def Pass.journal : Pass → Journal
  | .injected => [.counted]
  | _ => []

def injectedTxsDecorator (ctx : Ctx) (mode : ExecMode) : Run W Pass := do
  let store ← getStore
  if ctx.blockHeight = 0 ∨ mode ≠ .finalize then return .native
  else
    match store.index with
    | none => return .first
    | some index =>
      if index.numInjectedTxsAnte < index.numInjectedTxsTotal then do
        onStore fun b => b.counting index
        return .injected
      else return .native

def sequencerNativeTxsDecorator (ctx : Ctx) (txBz : Bytes) : Run W Unit := do
  let s ← get
  let maxBytes := s.sequencing.params.sequencerTxMaxBytes
  failIf (ctx.blockHeight ≠ 0 ∧ txSize txBz > maxBytes.toNat)
    (Fault.err (str "transaction is too large; " ++ decimal (txSize txBz) ++ str " > " ++
      decimal maxBytes.toNat))

/-- The decorators after those that only look at the transaction itself. -/
def anteHandler (app : App W) (ctx : Ctx) (mode : ExecMode) (txBz : Bytes) (tx : Tx) : Run W Pass := do
  let pass ← injectedTxsDecorator ctx mode
  onlyIf (pass = .native) do
    sequencerNativeTxsDecorator ctx txBz
    inWorld (app.modules.anteRest ctx txBz tx)
  return pass

/-! ## Transactions -/

def validateBasicTxMsgs (sdk : Sdk) (msgs : List Msg) : Except GoString Unit := do
  failIf (msgs = []) (str "must contain at least one message: invalid request")
  msgs.forM fun m => m.validateBasic sdk

/-- The checks before the decorator for injected transactions. -/
def reachesDecorator (app : App W) (ctx : Ctx) (txBz : Bytes) : Except GoString Tx := do
  let tx ← app.sdk.txDecode txBz
  validateBasicTxMsgs app.sdk tx.msgs
  failIf (¬ tx.msgs.all app.modules.hasHandler) (str "no message handler found: unknown request")
  app.modules.anteSetup ctx txBz tx
  return tx

/-- `pass` is absent when the decorator never saw the transaction. -/
structure TxOutcome where
  pass : Option Pass
  journal : Journal
  fault : Option (Fault GoString)
deriving DecidableEq, Repr

/-- Only a native transaction has a limited gas meter. -/
def runMsgsMetered (app : App W) (ctx : Ctx) (txBz : Bytes) (tx : Tx) (pass : Pass) : Run W Journal := do
  let s ← get
  let journal ← runMsgs app ctx tx.msgs
  failIf (pass = .native ∧ app.modules.outOfGas ctx txBz tx s.world) (Fault.panic (str "out of gas"))
  return journal

/-- The writes of the ante handler stay when the messages fail. -/
def runTx (app : App W) (ctx : Ctx) (txBz : Bytes) : Run W TxOutcome :=
  match reachesDecorator app ctx txBz with
  | .error err => return ⟨none, [], some (.err err)⟩
  | .ok tx => do
    match ← caught (isolated (anteHandler app ctx .finalize txBz tx)) with
    | .error fault => return ⟨some .native, [], some fault⟩
    | .ok pass =>
      match ← caught (isolated (runMsgsMetered app ctx txBz tx pass)) with
      | .error fault => return ⟨some pass, pass.journal, some fault⟩
      | .ok journal => return ⟨some pass, pass.journal ++ journal, none⟩

def deliverTxs (app : App W) (ctx : Ctx) : List Bytes → Run W (List TxOutcome)
  | [] => pure []
  | txBz :: txs => do
    let outcome ← runTx app ctx txBz
    let rest ← deliverTxs app ctx txs
    return outcome :: rest

/-! ## Blocks -/

def openBlock (app : App W) (ctx : Ctx) : Run W Unit := do
  inWorld (app.modules.beginBlockBefore ctx)
  beginBlock app ctx

/-- The modules whose end block comes before that of the bridge. -/
def closeOthers (app : App W) (ctx : Ctx) : Run W Journal := do
  let s ← get
  runRouted app ctx (app.modules.endBlockBefore ctx s.world)

structure BlockResult where
  outcomes : List TxOutcome
  closing : Journal
deriving DecidableEq, Repr

def BlockResult.journal (r : BlockResult) : Journal :=
  r.outcomes.flatMap TxOutcome.journal ++ r.closing

/-- A block that does not end normally is not committed. -/
def finalizeBlock (app : App W) (ctx : Ctx) (txs : List Bytes) : Run W BlockResult := do
  openBlock app ctx
  let outcomes ← deliverTxs app ctx txs
  let closing ← closeOthers app ctx
  endBlock
  return ⟨outcomes, closing⟩

end FuelSequencer.Wiring
