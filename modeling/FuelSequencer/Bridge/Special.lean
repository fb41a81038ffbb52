import FuelSequencer.Bridge.Messages

/-! # Special messages

A special message runs in isolation. When its body fails, by an error or a panic,
nothing of it remains and the failure is counted in the index; the transaction
itself goes on.
-/
namespace FuelSequencer.Bridge
open Go Wire Exec Lib Wiring

variable {W α : Type}

def applyFuncIfNoError (f : Run W α) : Run W (Except GoString α) := attempt (isolated f)

def applyFuncIfNoErrorAndNoPanic (f : Run W α) : Run W (Except (Fault GoString) α) :=
  caught do
    match ← applyFuncIfNoError f with
    | .ok a => pure a
    | .error e => fail e

def emptyIndex : Index := ⟨0, 0, 0⟩

/-- The index with one more failure; without an index the count starts from an empty one. -/
def Store.recordFailure (b : Store) : Store :=
  let index := b.index.getD emptyIndex
  { b with index := some { index with numFailedSpecialTxs := index.numFailedSpecialTxs + 1 } }

/-- The index with one more injected transaction seen by the ante handler. -/
def Store.counting (b : Store) (i : Index) : Store :=
  { b with index := some { i with numInjectedTxsAnte := i.numInjectedTxsAnte + 1 } }

def errInvalidAuthority (expected signer : GoString) : GoString :=
  str "invalid authority; expected " ++ expected ++ str ", got " ++ signer ++ str ": invalid signer"

/-- Yields how the body ended; the only error is that of a wrong signer. -/
def tryExecSpecialMessage (app : App W) (signer : GoString) (msg : Run W α) :
    Run W (Except (Fault GoString) α) := do
  failIf (app.keeper.authority ≠ signer) (Fault.err (errInvalidAuthority app.keeper.authority signer))
  let ended ← applyFuncIfNoErrorAndNoPanic msg
  match ended with
  | .ok a => pure (.ok a)
  | .error e => do
    onStore Store.recordFailure
    return .error e

/-- The response left behind by a handler's closure: the body's own, the normalised one
after an error, and none after a panic. -/
def closureResponse (normalised : α) : Except (Fault GoString) α → Option α
  | .ok a => some a
  | .error (.err _) => some normalised
  | .error (.panic _) => none

/-- What a special message's handler answers, with how its body ended. -/
structure Reply (α : Type) where
  response : Option α
  ended : Except (Fault GoString) α

def reply (normalised : α) (ended : Except (Fault GoString) α) : Reply α :=
  ⟨closureResponse normalised ended, ended⟩

def emit (app : App W) (e : TypedEvent) : Run W Unit := ofOutcome (wrapping id (app.sdk.emitTypedEvent e))

/-! ## The index message -/

def supplyDeltaCount (params : Params) (blockHeight : UInt64) : UInt64 :=
  if blockHeight % params.supplyDeltaPeriod = 0 then 1 else 0

def index (app : App W) (ctx : Ctx) (msg : MsgIndex) : Run W Unit := do
  let lastBlockSynced ← mustGetLastEthereumBlockSynced
  let eventIndexOffset ← mustGetEthereumEventIndexOffset
  let store ← getStore
  ofOutcome (wrapping id (msg.validateBeforeProcessing app.sdk lastBlockSynced eventIndexOffset))
  failIf (store.params.supplyDeltaPeriod = 0) (Fault.err (str "SupplyDeltaPeriod cannot be zero"))
  let count := supplyDeltaCount store.params ctx.blockHeight
  failIf (store.index.isSome) (Fault.err (str "expected to not find Index"))
  setIndex ⟨msg.numInjectedEventTxs + count, 0, 0⟩
  onlyIf msg.isFullEthereumSyncing do
    setLastEthereumBlockSynced msg.blockNumber
    resetEthereumEventIndexOffset
    setLastEthBlockUpdateTime ctx.blockTime
  onlyIf msg.isPartialEthereumSyncing do
    setEthereumEventIndexOffset (eventIndexOffset + msg.numInjectedEventTxs)
    setLastEthBlockUpdateTime ctx.blockTime
  onlyIf (msg.isPartialEthereumSyncing || msg.isFullEthereumSyncing)
    (emit app (.ethereumBlockSynced msg.blockNumber msg.isFullEthereumSyncing))
  let lastSequence ← mustGetLastConsensusTxsSequence
  setLastConsensusTxsSequence (lastSequence + msg.numInjectedEventTxs + count + 1)

def handleIndex (app : App W) (ctx : Ctx) (msg : MsgIndex) : Run W (Reply Unit) := do
  let ended ← tryExecSpecialMessage app msg.authority (index app ctx msg)
  return reply () ended

/-! ## The supply delta message -/

def mustGetNextEthereumNonce : Run W ℤ := do
  let last ← mustGetLastEthereumNonce
  ofOutcome (panicking (intAdd last 1))

def mustGetNextEthereumNonceAndIncrement : Run W ℤ := do
  let newVal ← mustGetNextEthereumNonce
  setLastEthereumNonce newVal
  return newVal

def supplyDelta (app : App W) (ctx : Ctx) : Run W MsgSupplyDeltaResponse := do
  let store ← getStore
  let isBlock ← ofOutcome (store.params.isMsgSupplyDeltaBlock ctx.blockHeight)
  failIf (isBlock = false)
    (Fault.err (str "MsgSupplyDelta not expected at height " ++ decimal ctx.blockHeight.toNat ++
      str ": operation was not expected"))
  let nonce ← mustGetNextEthereumNonceAndIncrement
  let supplyDeltaInfo ← mustGetSupplyDeltaInfo
  setSupplyDeltaInfo { supplyDeltaInfo with toReport := 0 }
  emit app (.supplyDeltaReported supplyDeltaInfo.toReport nonce)
  return ⟨some nonce, some supplyDeltaInfo.toReport⟩

def handleSupplyDelta (app : App W) (ctx : Ctx) (msg : MsgSupplyDelta) :
    Run W (Reply MsgSupplyDeltaResponse) := do
  let ended ← tryExecSpecialMessage app msg.authority (supplyDelta app ctx)
  return reply ⟨none, none⟩ ended

/-! ## The skip message -/

def skippedEventTx (app : App W) (msg : MsgSkippedEventTx) : Run W Unit := emit app (.skippedEventTx msg)

def handleSkippedEventTx (app : App W) (msg : MsgSkippedEventTx) : Run W (Reply Unit) := do
  let ended ← tryExecSpecialMessage app msg.authority (skippedEventTx app msg)
  return reply () ended

/-- Taking the next nonce fails only by a panic, before anything is written. -/
theorem run_mustGetNextEthereumNonce_eq_error {s u : State W} {e : Fault GoString}
    (h : (mustGetNextEthereumNonce : Run W ℤ).run s = .error e u) :
    (∃ text, e = .panic text) ∧
      ∀ nonce, s.bridge.lastEthereumNonce = some nonce → ¬(nonce + 1).natAbs < 2 ^ maxBitLen := by
  unfold mustGetNextEthereumNonce mustGetLastEthereumNonce at h
  cases hnonce : s.bridge.lastEthereumNonce with
  | none =>
    rw [run_bind_of_error (run_mustGet_none hnonce)] at h
    cases h
    exact ⟨⟨_, rfl⟩, fun nonce hsome => by cases hsome⟩
  | some nonce =>
    rw [run_bind_of_ok (run_mustGet_some hnonce), intAdd, checkInt] at h
    split at h
    · cases h
    · next hlarge =>
      cases h
      refine ⟨⟨_, rfl⟩, ?_⟩
      rintro _ ⟨⟩
      exact hlarge

/-! ## How a special message ends -/

variable {app : App W} {s t : State W}

theorem run_applyFunc_of_ok {f : Run W α} {a : α} (h : f.run s = .ok a t) :
    (applyFuncIfNoErrorAndNoPanic f).run s = .ok (.ok a) t := by
  unfold applyFuncIfNoErrorAndNoPanic applyFuncIfNoError
  apply run_caught_of_ok
  rw [run_bind_of_ok (run_attempt_of_ok (run_isolated_of_ok h))]
  rfl

theorem run_applyFunc_of_error {f : Run W α} {e : Fault GoString} (h : f.run s = .error e t) :
    (applyFuncIfNoErrorAndNoPanic f).run s = .ok (.error e) s := by
  unfold applyFuncIfNoErrorAndNoPanic applyFuncIfNoError
  apply run_caught_of_error
  cases e with
  | err e =>
    rw [run_bind_of_ok (run_attempt_of_err (run_isolated_of_error h))]
    rfl
  | panic e => exact run_bind_of_error (run_attempt_of_panic (run_isolated_of_error h))

theorem run_tryExec_of_signer {signer : GoString} (hs : app.keeper.authority ≠ signer) (f : Run W α) :
    (tryExecSpecialMessage app signer f).run s =
      .error (.err (errInvalidAuthority app.keeper.authority signer)) s := by
  apply run_bind_of_error
  rw [run_failIf, if_pos hs]

theorem run_tryExec_of_ok {signer : GoString} (hs : app.keeper.authority = signer) {f : Run W α} {a : α}
    (h : f.run s = .ok a t) : (tryExecSpecialMessage app signer f).run s = .ok (.ok a) t := by
  unfold tryExecSpecialMessage
  rw [run_bind_of_ok (by rw [run_failIf, if_neg (not_not.mpr hs)]),
    run_bind_of_ok (run_applyFunc_of_ok h)]
  rfl

theorem run_tryExec_of_error {signer : GoString} (hs : app.keeper.authority = signer) {f : Run W α}
    {e : Fault GoString} (h : f.run s = .error e t) :
    (tryExecSpecialMessage app signer f).run s =
      .ok (.error e) { s with bridge := s.bridge.recordFailure } := by
  unfold tryExecSpecialMessage
  rw [run_bind_of_ok (by rw [run_failIf, if_neg (not_not.mpr hs)]),
    run_bind_of_ok (run_applyFunc_of_error h)]
  rfl

end FuelSequencer.Bridge
