import FuelSequencer.Sidecar.Upto
import FuelSequencer.Sidecar.Query
import FuelSequencer.Exec.Refinement

/-! # The process that fetches logs

The process catches up with the last finalized block, then waits for headers and fetches
what became final with each of them. Whatever fails is tried again from the catch-up on;
only a cancelled context or a stopped sidecar ends it. What the Ethereum node, the
subscription and the Sequencer answer is a script that the process runs on.
-/
namespace FuelSequencer.Sidecar
open Go Wire Exec Lib Bridge Wiring

/-! ## Answers from outside -/

/-- What a synchronisation is answered: the finalized height and the ranges of logs. -/
structure SyncAnswers where
  finalized : Except GoString ℤ
  nodes : List EthRpcClient.Response

/-- What happens while a header is handled. -/
structure HeaderSeen where
  stopped : Bool
  answers : SyncAnswers
  lastSyncedBlockBySequencer : Except GoString UInt64

/-- What the loop over the subscription wakes up for; a closed subscription has no error. -/
inductive Signal where
  | cancelled (err : GoString)
  | headerTimeout
  | subscriptionErr (err : Option GoString)
  | header (seen : HeaderSeen)

/-- One turn of the retried operation. -/
structure Attempt where
  catchUp : SyncAnswers
  subscribed : Except GoString Unit
  signals : List Signal

/-! ## The program -/

/-- An end query block before the finalized height takes its place. -/
def getMaxSyncableBlock (endQueryBlock : Option ℤ) (finalized : Except GoString ℤ) : Except GoString ℤ := do
  let finalizedEthHeight ← finalized
  match endQueryBlock with
  | none => return finalizedEthHeight
  | some endQueryBlock => if endQueryBlock < finalizedEthHeight then return endQueryBlock else return finalizedEthHeight

variable (c : EthRpcClient) (endQueryBlock : Option ℤ)

/-- Fetches what is syncable and not synced yet; `false` while it waits for the next range. -/
def syncUptoMaxSyncableBlock (a : SyncAnswers) : Prog GoString EventStore Bool := do
  let maxSyncableBlock ← ofOutcome (wrapping id (getMaxSyncableBlock endQueryBlock a.finalized))
  let st ← get
  if maxSyncableBlock > st.lastSyncedBlock then fetchAndStoreLogsUptoBlock c maxSyncableBlock a.nodes
  else return true

def catchUpWithEthereumLogs (a : SyncAnswers) : Prog GoString EventStore Bool :=
  syncUptoMaxSyncableBlock c endQueryBlock a

/-- How an operation ended, or that it still waits. -/
inductive Ended where
  | waiting
  | returned (err : Option GoString) (retry : Bool)
deriving DecidableEq, Repr

/-- The loop over the headers. A height that the Sequencer does not give is none. -/
def subscribeToNewEthereumLogs : List Signal → Prog GoString EventStore Ended
  | [] => pure .waiting
  | .cancelled err :: _ => pure (.returned (some err) false)
  | .headerTimeout :: _ => pure (.returned (some (str "header timeout exceeded")) true)
  | .subscriptionErr err :: _ => pure (.returned err true)
  | .header seen :: signals =>
    if seen.stopped then pure (.returned (some (str "received new header but sidecar is stopped")) false)
    else do
      match ← attempt (syncUptoMaxSyncableBlock c endQueryBlock seen.answers) with
      | .error err => return .returned (some err) true
      | .ok false => return .waiting
      | .ok true =>
        modify fun st =>
          st.calibrateBlocksAndPruneLogs (seen.lastSyncedBlockBySequencer.toOption.map UInt64.toNat)
        subscribeToNewEthereumLogs signals

def operation (a : Attempt) : Prog GoString EventStore Ended := do
  match ← attempt (catchUpWithEthereumLogs c endQueryBlock a.catchUp) with
  | .error err => return .returned (some err) true
  | .ok false => return .waiting
  | .ok true =>
    match a.subscribed with
    | .error err => return .returned (some err) true
    | .ok _ => subscribeToNewEthereumLogs c endQueryBlock a.signals

/-- A retry without an error is made one, so that the operation runs again either way. -/
def startFetchingLogs : List Attempt → Prog GoString EventStore Ended
  | [] => pure .waiting
  | a :: attempts => do
    match ← operation c endQueryBlock a with
    | .returned _ true => startFetchingLogs attempts
    | ended => return ended

/-- The checks before the first catch-up; `some` is the error of a check that failed. -/
def start (subscribed : Except GoString Unit) (blockNumber : Except GoString UInt64) (attempts : List Attempt) :
    Prog GoString EventStore Ended := do
  ofOutcome (wrapping (str "failed initial Ethereum subscription check: " ++ ·) subscribed)
  let _ ← ofOutcome (wrapping (str "failed initial Ethereum RPC call check: " ++ ·) blockNumber)
  startFetchingLogs c endQueryBlock attempts

/-! ## What a script contains -/

def Signal.syncs : Signal → List SyncAnswers
  | .header seen => [seen.answers]
  | _ => []

def Signal.reports : Signal → List ℕ
  | .header seen => (seen.lastSyncedBlockBySequencer.toOption.map UInt64.toNat).toList
  | _ => []

def Attempt.syncs (a : Attempt) : List SyncAnswers := a.catchUp :: a.signals.flatMap Signal.syncs

def Attempt.reports (a : Attempt) : List ℕ := a.signals.flatMap Signal.reports

variable {c endQueryBlock}

/-- The block is at or below a finalized height that was answered, and not after the end. -/
def Syncable (endQueryBlock : Option ℤ) (syncs : List SyncAnswers) (block : ℤ) : Prop :=
  (∃ a ∈ syncs, ∃ height, a.finalized = .ok height ∧ block ≤ height) ∧ ∀ e, endQueryBlock = some e → block ≤ e

theorem Syncable.mono {syncs : List SyncAnswers} {b b' : ℤ} (h : Syncable endQueryBlock syncs b) (hle : b' ≤ b) :
    Syncable endQueryBlock syncs b' := by
  obtain ⟨⟨a, ha, height, hfinalized, hheight⟩, hend⟩ := h
  exact ⟨⟨a, ha, height, hfinalized, hle.trans hheight⟩, fun e he => hle.trans (hend e he)⟩

/-- An operation of the store that the script accounts for. -/
structure ProcessStep (c : EthRpcClient) (H : History) (endQueryBlock : Option ℤ) (syncs : List SyncAnswers)
    (reports : List ℕ) (st : EventStore) (op : StoreOp) (st' : EventStore) : Prop where
  step : StoreStep c H st op st'
  syncable : ∀ {first last : ℤ}, op = .fetched first last → Syncable endQueryBlock syncs last
  reported : ∀ {height : ℕ} {pruned}, op = .calibrated (some height) pruned → height ∈ reports

section Refinement

variable {H : History} {syncs : List SyncAnswers} {reports : List ℕ}

end Refinement

/-! ## Where the process stays -/

section Confined

variable {H : History} {syncs : List SyncAnswers} {reports : List ℕ} {first : ℤ}

/-- What holds of the store after every operation of the process. -/
structure Confined (c : EthRpcClient) (H : History) (endQueryBlock : Option ℤ) (syncs : List SyncAnswers)
    (reports : List ℕ) (first : ℤ) (ops : List StoreOp) (st : EventStore) : Prop where
  represents : Represents c H first ops st
  above : first ≤ st.startQueryBlock
  syncable : ∀ {k : ℕ} {block : EthereumBlock}, st.blocksMap.get k = some block → Syncable endQueryBlock syncs k
  reported : ∀ height, Reported ops height → height ∈ reports
  last : st.lastSyncedBlock < first ∨ Syncable endQueryBlock syncs st.lastSyncedBlock ∨
    ∃ height ∈ reports, st.lastSyncedBlock = height

theorem Confined.step {ops : List StoreOp} {op : StoreOp} {st st' : EventStore}
    (h : Confined c H endQueryBlock syncs reports first ops st)
    (hstep : ProcessStep c H endQueryBlock syncs reports st op st') :
    Confined c H endQueryBlock syncs reports first (ops ++ [op]) st' := by
  obtain ⟨-, hstart, -⟩ := h.represents.sound.step hstep.step
  have hreported : ∀ height, Reported (ops ++ [op]) height → height ∈ reports := by
    rintro height ⟨pruned, hmem⟩
    rcases List.mem_append.mp hmem with hmem | hmem
    · exact h.reported height ⟨pruned, hmem⟩
    · exact hstep.reported (List.mem_singleton.mp hmem).symm
  suffices hrest : (∀ {k : ℕ} {block : EthereumBlock}, st'.blocksMap.get k = some block →
      Syncable endQueryBlock syncs k) ∧ (st'.lastSyncedBlock < first ∨
        Syncable endQueryBlock syncs st'.lastSyncedBlock ∨ ∃ height ∈ reports, st'.lastSyncedBlock = height) from
    ⟨h.represents.step hstep.step, h.above.trans hstart, hrest.1, hreported, hrest.2⟩
  obtain ⟨hstore, hsyncable, hreport⟩ := hstep
  cases hstore with
  | fetched hnode hrun =>
    have hlast := hsyncable rfl
    obtain ⟨-, hl, -, hget⟩ := h.represents.sound.fetched hnode hrun
    refine ⟨fun {k block} hk => ?_, Or.inr (Or.inl (hl ▸ hlast))⟩
    rw [hget] at hk
    split at hk
    · next hin => exact hlast.mono hin.2
    · exact h.syncable hk
  | failed hrun =>
    cases EventStore.run_fetchAndStoreLogs_error hrun
    exact ⟨h.syncable, h.last⟩
  | calibrated height =>
    cases height with
    | none => exact ⟨h.syncable, h.last⟩
    | some height =>
      have hmem := hreport rfl
      obtain ⟨hl, hcases⟩ := h.represents.sound.calibrated height
      constructor
      · intro k block hk
        rcases hcases with ⟨-, -, hmap⟩ | ⟨lo, hi, -, -, -, -, -, hget⟩
        · exact h.syncable (hmap ▸ hk)
        · rw [hget] at hk
          split at hk
          · exact h.syncable hk
          · cases hk
      · rw [hl]
        rcases le_total (height : ℤ) st.lastSyncedBlock with hle | hle
        · rw [max_eq_left hle]
          exact h.last
        · rw [max_eq_right hle]
          exact Or.inr (Or.inr ⟨height, hmem, rfl⟩)

end Confined

/-! ## When it ends -/

/-- A node that knows the history with one deposit in the second block. -/
def referenceNode : EthRpcClient.Response := Reference.nodeOf (Reference.oneDeposit 2 5)

end FuelSequencer.Sidecar
