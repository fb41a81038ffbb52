import FuelSequencer.Sidecar.Fetch
import FuelSequencer.Exec.Runs

/-! # The event store

The sidecar keeps the events of the blocks it fetched between two bounds. Fetching moves
the upper bound, the height that the Sequencer reports moves both. Every operation is one
critical section, so a run is a sequence of them.
-/
namespace FuelSequencer.Sidecar
open Go Wire Exec Lib Bridge Wiring

structure EthereumBlock where
  blockNumber : ℕ
  events : List Event
deriving DecidableEq, Repr

structure EventStore where
  blocksMap : Table ℕ EthereumBlock
  startQueryBlock : ℤ
  lastSyncedBlock : ℤ
  maxQueryRange : ℤ

def blockPruneBuffer : ℕ := 10

def newEventStore (startQueryBlock maxQueryRange : ℤ) : EventStore :=
  ⟨Table.empty, startQueryBlock, startQueryBlock - 1, maxQueryRange⟩

def addBlock (blocksMap : Table ℕ EthereumBlock) (blockNumber : ℕ) (events : List Event) :
    Table ℕ EthereumBlock :=
  match blocksMap.get blockNumber with
  | some block => blocksMap.set blockNumber { block with events := block.events ++ events }
  | none => blocksMap.set blockNumber ⟨blockNumber, events⟩

namespace EventStore

variable (st : EventStore)

/-- The order of the blocks does not matter. -/
def addEvents (eventsMap : EventsMap) : EventStore :=
  { st with blocksMap := eventsMap.entries.foldl (fun blocks e => addBlock blocks e.1 e.2) st.blocksMap }

def setLastSyncedBlock (blockNumber : ℤ) : EventStore := { st with lastSyncedBlock := blockNumber }

def getStoredEvents (blockNumber : ℤ) : Option (List Event) :=
  (st.blocksMap.get (uint64 blockNumber)).map EthereumBlock.events

def getNextQueryBlock : ℤ := st.lastSyncedBlock + 1

/-- A Sequencer that is ahead moves the upper bound. -/
def fastForward (height : ℕ) : EventStore :=
  if height > st.lastSyncedBlock then st.setLastSyncedBlock height else st

/-- The first and the last block to delete, if there is anything to prune. -/
def pruneRange (height : ℕ) : Option (ℕ × ℕ) :=
  if height ≥ st.startQueryBlock ∧ uint64 height > blockPruneBuffer then
    let pruneFrom := uint64 st.startQueryBlock
    let pruneUntil := uint64 height - blockPruneBuffer
    if st.blocksMap.entries ≠ [] ∧ pruneUntil > pruneFrom then some (pruneFrom, pruneUntil) else none
  else none

def prune (pruneFrom pruneUntil : ℕ) : EventStore :=
  { st with
    blocksMap := st.blocksMap.keep fun k => !decide (pruneFrom ≤ k ∧ k ≤ pruneUntil)
    startQueryBlock := (pruneUntil + 1 : ℕ) }

def pruned (range : Option (ℕ × ℕ)) : EventStore :=
  match range with
  | none => st
  | some (pruneFrom, pruneUntil) => st.prune pruneFrom pruneUntil

/-- Without a height nothing happens. -/
def calibrateBlocksAndPruneLogs (height : Option ℕ) : EventStore :=
  match height with
  | none => st
  | some height => (st.fastForward height).pruned ((st.fastForward height).pruneRange height)

/-- The answer for a block without entry, from the two bounds. -/
def missing (startQueryBlock nextQueryBlock blockNumber : ℤ) : Except GoString (List Event) :=
  if startQueryBlock ≤ blockNumber ∧ blockNumber < nextQueryBlock then .ok []
  else if blockNumber < startQueryBlock then
    .error (str "block " ++ decimalInt blockNumber ++ str " was pruned or never fetched")
  else .error (str "block " ++ decimalInt blockNumber ++ str " not yet processed")

def queryBlockEvents (blockNumber : ℤ) : Except GoString (List Event) := do
  failIf (blockNumber < 0) (str "block number cannot be negative")
  match st.getStoredEvents blockNumber with
  | some events => .ok events
  | none => missing st.startQueryBlock st.getNextQueryBlock blockNumber

end EventStore

/-! ## Fetching into the store -/

/-- One turn of the loop: the next range up to the block. -/
def fetchAndStoreLogs (c : EthRpcClient) (node : EthRpcClient.Response) (toBlock : ℤ) :
    Prog GoString EventStore ℤ := do
  let st ← get
  let (eventsMap, newLastSyncedBlock) ←
    ofOutcome (c.fetchAndProcessLogs node st.getNextQueryBlock toBlock st.maxQueryRange)
  modify fun st => st.addEvents eventsMap
  modify fun st => st.setLastSyncedBlock newLastSyncedBlock
  return newLastSyncedBlock

/-- The loop over the answers of the node; `false` while it waits for the next one. -/
def fetchAndStoreLogsUptoBlock (c : EthRpcClient) (toBlock : ℤ) :
    List EthRpcClient.Response → Prog GoString EventStore Bool
  | [] => pure false
  | node :: nodes => do
    let newLastSyncedBlock ← fetchAndStoreLogs c node toBlock
    if newLastSyncedBlock = toBlock then return true
    else fetchAndStoreLogsUptoBlock c toBlock nodes

/-! ## What the operations do -/

/-- What the store holds for a block: no entry stands for no events. -/
def blockOf (n : ℕ) (events : List Event) : Option EthereumBlock :=
  if events = [] then none else some ⟨n, events⟩

theorem blockOf_eq_some {n : ℕ} {events : List Event} {block : EthereumBlock} :
    blockOf n events = some block ↔ events ≠ [] ∧ block = ⟨n, events⟩ := by
  unfold blockOf
  split <;> simp_all [eq_comm]

theorem get_addBlock_of_ne {blocks : Table ℕ EthereumBlock} {k n : ℕ} (h : k ≠ n) (events : List Event) :
    (addBlock blocks n events).get k = blocks.get k := by
  unfold addBlock
  split <;> rw [Table.get_set, if_neg h]

theorem get_addBlock_self {blocks : Table ℕ EthereumBlock} {n : ℕ} (h : blocks.get n = none)
    (events : List Event) : (addBlock blocks n events).get n = some ⟨n, events⟩ := by
  unfold addBlock
  rw [h, Table.get_set, if_pos rfl]

namespace EventStore

variable {st : EventStore}

/-- Where the store has no entry the new events become one; elsewhere nothing changes. -/
theorem get_addEvents {m : EventsMap} {n : ℕ} (h : st.blocksMap.get n = none ∨ m.get n = none) :
    (st.addEvents m).blocksMap.get n =
      ((m.get n).map fun events => EthereumBlock.mk n events).or (st.blocksMap.get n) := by
  obtain ⟨entries, hsorted⟩ := m
  change (entries.foldl (fun blocks e => addBlock blocks e.1 e.2) st.blocksMap).get n =
    ((entries.lookup n).map fun events => EthereumBlock.mk n events).or (st.blocksMap.get n)
  change st.blocksMap.get n = none ∨ entries.lookup n = none at h
  -- the sorted keys are distinct, so each entry meets the store as it was
  generalize st.blocksMap = blocks at h ⊢
  induction entries generalizing blocks with
  | nil => rfl
  | cons e entries ih =>
    obtain ⟨hfirst, hrest⟩ := List.pairwise_cons.mp hsorted
    rw [List.foldl_cons, Table.lookup_cons_eq]
    rw [Table.lookup_cons_eq] at h
    by_cases hn : n = e.1
    · have hnot : entries.lookup n = none := by
        have hnone : ¬ ∃ a, (⟨entries, hrest⟩ : EventsMap).get n = some a := by
          rintro ⟨a, ha⟩
          exact lt_irrefl _ (hn ▸ hfirst _ (Table.get_eq_some.mp ha))
        exact Option.eq_none_iff_forall_ne_some.mpr fun a ha => hnone ⟨a, ha⟩
      have hblocks : blocks.get n = none := by simpa [hn] using h
      rw [ih hrest _ (Or.inr hnot), hnot, if_pos hn, hn, get_addBlock_self (hn ▸ hblocks)]
      rfl
    · rw [if_neg hn] at h ⊢
      rw [ih hrest _ (by rwa [get_addBlock_of_ne hn]), get_addBlock_of_ne hn]

@[simp] theorem fastForward_blocksMap (st : EventStore) (height : ℕ) :
    (st.fastForward height).blocksMap = st.blocksMap := by
  unfold fastForward
  split <;> rfl

@[simp] theorem fastForward_startQueryBlock (st : EventStore) (height : ℕ) :
    (st.fastForward height).startQueryBlock = st.startQueryBlock := by
  unfold fastForward
  split <;> rfl

@[simp] theorem fastForward_lastSyncedBlock (st : EventStore) (height : ℕ) :
    (st.fastForward height).lastSyncedBlock = max st.lastSyncedBlock height := by
  unfold fastForward
  split
  · next hgt => exact (max_eq_right (le_of_lt hgt)).symm
  · next hle => exact (max_eq_left (not_lt.mp hle)).symm

theorem lastSyncedBlock_calibrate (st : EventStore) (height : ℕ) :
    (st.calibrateBlocksAndPruneLogs (some height)).lastSyncedBlock = max st.lastSyncedBlock height := by
  rw [calibrateBlocksAndPruneLogs, ← fastForward_lastSyncedBlock]
  cases (st.fastForward height).pruneRange height <;> rfl

theorem pruneRange_eq_some {height lo hi : ℕ} (h : st.pruneRange height = some (lo, hi)) :
    st.startQueryBlock ≤ height ∧ st.blocksMap.entries ≠ [] ∧ lo = uint64 st.startQueryBlock ∧
      lo < hi ∧ hi + blockPruneBuffer = uint64 height := by
  unfold pruneRange at h
  split at h
  · next hstart =>
    dsimp only at h
    split at h
    · next hmap =>
      obtain ⟨rfl, rfl⟩ := Prod.mk.inj (Option.some.inj h)
      exact ⟨hstart.1, hmap.1, rfl, hmap.2, by omega⟩
    · cases h
  · cases h

theorem run_fetchAndStoreLogs_eq_ok {c : EthRpcClient} {node : EthRpcClient.Response} {toBlock last : ℤ}
    {st' : EventStore} (h : (fetchAndStoreLogs c node toBlock).run st = .ok last st') :
    ∃ m, c.fetchAndProcessLogs node st.getNextQueryBlock toBlock st.maxQueryRange = .ok (m, last) ∧
      st' = (st.addEvents m).setLastSyncedBlock last := by
  simp only [fetchAndStoreLogs, run_bind_eq_ok, run_get_eq_ok, run_ofOutcome_eq_ok, run_pure_eq_ok] at h
  obtain ⟨_, _, ⟨rfl, rfl⟩, ⟨m, _⟩, _, ⟨hm, rfl⟩, _, _, hadd, _, _, hset, rfl, rfl⟩ := h
  cases hadd
  cases hset
  exact ⟨m, hm, rfl⟩

/-- The only failures come before the first write. -/
theorem run_fetchAndStoreLogs_eq_error {c : EthRpcClient} {node : EthRpcClient.Response} {toBlock : ℤ}
    {e : Fault GoString} {st' : EventStore} (h : (fetchAndStoreLogs c node toBlock).run st = .error e st') :
    c.fetchAndProcessLogs node st.getNextQueryBlock toBlock st.maxQueryRange = .error e ∧ st' = st := by
  have hget : (get : Prog GoString EventStore EventStore).run st = .ok st st := rfl
  unfold fetchAndStoreLogs at h
  rw [run_bind_of_ok hget] at h
  cases hm : c.fetchAndProcessLogs node st.getNextQueryBlock toBlock st.maxQueryRange with
  | error e' =>
    rw [hm] at h
    cases h
    exact ⟨rfl, rfl⟩
  | ok r =>
    rw [hm] at h
    cases h

theorem run_fetchAndStoreLogs_error {c : EthRpcClient} {node : EthRpcClient.Response} {toBlock : ℤ}
    {e : Fault GoString} {st' : EventStore} (h : (fetchAndStoreLogs c node toBlock).run st = .error e st') :
    st' = st :=
  (run_fetchAndStoreLogs_eq_error h).2

end EventStore

end FuelSequencer.Sidecar
