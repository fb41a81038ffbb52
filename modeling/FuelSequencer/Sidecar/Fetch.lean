import FuelSequencer.Sidecar.Log
import FuelSequencer.Exec.Table

/-! # Fetching logs

The logs of a range of blocks are checked to be in order and turned into events, block
by block. What Ethereum holds is a `History`; a node answers a query with exactly the
logs of the range, in whatever order, and only the order of the history passes.
-/
namespace FuelSequencer.Sidecar
open Go Wire Exec Lib Bridge Wiring

/-! ## Processing -/

/-- The last log seen. -/
structure Position where
  lastBlockNumber : UInt64
  lastTxIndex : ℤ
  lastLogIndex : ℤ
deriving DecidableEq, Repr

/-- In a later block the indices start anew. -/
def Position.entering (p : Position) (blockNumber : UInt64) : Position :=
  if blockNumber ≠ p.lastBlockNumber then ⟨blockNumber, -1, -1⟩ else p

def validateIsLogSequential (log : Log) (p : Position) : Except GoString Position := do
  failIf (log.blockNumber < p.lastBlockNumber)
    (str "non-sequential block detected: current block number " ++ decimal log.blockNumber.toNat ++
      str " precedes last processed block number " ++ decimal p.lastBlockNumber.toNat)
  let last := p.entering log.blockNumber
  let currentTxIndex := int64 log.txIndex.toNat
  let currentLogIndex := int64 log.index.toNat
  failIf (currentTxIndex < last.lastTxIndex ∨ currentLogIndex ≤ last.lastLogIndex)
    (str "log sequentiality violation within block " ++ decimal log.blockNumber.toNat ++
      str ": currentTxIndex=" ++ decimalInt currentTxIndex ++
      str ", lastTxIndex=" ++ decimalInt last.lastTxIndex ++
      str ", currentLogIndex=" ++ decimalInt currentLogIndex ++
      str ", lastLogIndex=" ++ decimalInt last.lastLogIndex)
  return ⟨log.blockNumber, currentTxIndex, currentLogIndex⟩

/-- Events per block number. -/
abbrev EventsMap := Table ℕ (List Event)

def EventsMap.push (m : EventsMap) (blockNumber : ℕ) (event : Event) : EventsMap :=
  m.set blockNumber ((m.get blockNumber).getD [] ++ [event])

namespace EthRpcClient

variable (c : EthRpcClient)

def processLoop : Position → EventsMap → List Log → Outcome GoString EventsMap
  | _, tempBlocks, [] => .ok tempBlocks
  | p, tempBlocks, log :: logs =>
    if log.removed then processLoop p tempBlocks logs
    else do
      let next ← wrapping (str "failed sequential validation: " ++ ·) (validateIsLogSequential log p)
      let event ← wrapFault (str "error processing log: " ++ ·) (c.extractLogDataToEvent log)
      match event with
      | none => processLoop next tempBlocks logs
      | some event => processLoop next (tempBlocks.push log.blockNumber.toNat event) logs

def processLogs (logs : List Log) (nextQueryBlock : ℤ) : Outcome GoString EventsMap :=
  c.processLoop ⟨UInt64.ofNat (uint64 nextQueryBlock), -1, -1⟩ Table.empty logs

/-- A node's answer to the query for the logs of a range. -/
abbrev Response := ℤ → ℤ → Except GoString (List Log)

def filterLogs (node : Response) (fromBlock toBlock : ℤ) : Except GoString (List Log) := do
  failIf (fromBlock > toBlock)
    (str "cannot get logs with fromBlock (" ++ decimalInt (int64 fromBlock) ++ str ") > toBlock (" ++
      decimalInt (int64 toBlock) ++ str ")")
  node fromBlock toBlock

/-- The last block of a query is capped by the range. -/
def cappedBlock (fromBlock toBlock maxQueryRange : ℤ) : ℤ := min toBlock (fromBlock + (maxQueryRange - 1))

def fetchAndProcessLogs (node : Response) (fromBlock toBlock maxQueryRange : ℤ) :
    Outcome GoString (EventsMap × ℤ) := do
  let toBlock := cappedBlock fromBlock toBlock maxQueryRange
  let logs ← wrapping (str "logs query failed: " ++ ·) (filterLogs node fromBlock toBlock)
  let eventsMap ← wrapFault (str "logs processing failed: " ++ ·) (c.processLogs logs fromBlock)
  return (eventsMap, toBlock)

end EthRpcClient

/-! ## What passes the checks -/

def Log.Before (a b : Log) : Prop :=
  a.blockNumber.toNat < b.blockNumber.toNat ∨
    a.blockNumber.toNat = b.blockNumber.toNat ∧ a.index.toNat < b.index.toNat

/-- The log comes after the position. -/
def Position.Before (p : Position) (log : Log) : Prop :=
  p.lastBlockNumber.toNat < log.blockNumber.toNat ∨
    p.lastBlockNumber.toNat = log.blockNumber.toNat ∧ p.lastLogIndex < log.index.toNat

theorem int64_of_nonneg {n : ℕ} (hn : n < 2 ^ 64) (h : 0 ≤ int64 n) : int64 n = n := by
  have hmod : (n : ℤ) % ((2 ^ 64 : ℕ) : ℤ) = n := by omega
  unfold int64 Int.bmod at h ⊢
  dsimp only at h ⊢
  rw [hmod] at h ⊢
  split at h
  · next hlt => rw [if_pos hlt]
  · omega

/-- A log that passes comes after the position and becomes the next one. -/
theorem validateIsLogSequential_eq_ok {log : Log} {p q : Position} (hp : -1 ≤ p.lastLogIndex)
    (h : validateIsLogSequential log p = .ok q) :
    p.Before log ∧ q.lastBlockNumber = log.blockNumber ∧ q.lastLogIndex = log.index.toNat := by
  unfold validateIsLogSequential at h
  obtain ⟨_, hblock, h⟩ := except_bind_eq_ok.mp h
  obtain ⟨_, hindex, h⟩ := except_bind_eq_ok.mp h
  rw [failIf_eq_ok] at hblock hindex
  rw [← Except.ok.inj h]
  dsimp only
  rw [not_or, not_lt, not_le] at hindex
  have hle : p.lastBlockNumber.toNat ≤ log.blockNumber.toNat := by
    rw [UInt64.lt_iff_toNat_lt] at hblock
    omega
  have hlast : -1 ≤ (p.entering log.blockNumber).lastLogIndex := by
    unfold Position.entering
    split
    · exact le_refl _
    · exact hp
  have hnonneg : 0 ≤ int64 (log.index.toNat : ℕ) := by
    have := hindex.2
    omega
  have hidx : int64 (log.index.toNat : ℕ) = log.index.toNat := int64_of_nonneg log.index.toNat_lt hnonneg
  refine ⟨?_, rfl, hidx⟩
  by_cases heq : log.blockNumber = p.lastBlockNumber
  · have hsame : p.entering log.blockNumber = p := if_neg (not_not.mpr heq)
    rw [hsame, hidx] at hindex
    exact Or.inr ⟨by rw [heq], hindex.2⟩
  · have hne : log.blockNumber.toNat ≠ p.lastBlockNumber.toNat := fun h => heq (UInt64.toNat_inj.mp h)
    exact Or.inl (by omega)

namespace EthRpcClient

variable (c : EthRpcClient)

/-- The event of a log, if it has one. -/
def extracted (log : Log) : Option Event :=
  match c.extractLogDataToEvent log with
  | .ok event => event
  | .error _ => none

/-- The events of the logs of one block. -/
def eventsOf (n : ℕ) (logs : List Log) : List Event :=
  (logs.filter fun log => log.blockNumber.toNat = n).filterMap c.extracted

end EthRpcClient

/-- What a map holds for a block: no entry stands for no events. -/
def entryOf (events : List Event) : Option (List Event) := if events = [] then none else some events

theorem entryOf_append {events more : List Event} (h : more ≠ []) :
    entryOf (events ++ more) = some (events ++ more) := by
  simp [entryOf, h]

/-- The entries of a map come from the logs processed so far. -/
def EventsMap.Of (m : EventsMap) (events : ℕ → List Event) : Prop := ∀ n, m.get n = entryOf (events n)

theorem EventsMap.Of.push {m : EventsMap} {events : ℕ → List Event} (h : m.Of events) (n : ℕ) (event : Event) :
    (m.push n event).Of fun k => events k ++ if k = n then [event] else [] := by
  have hget : (m.get n).getD [] = events n := by
    rw [h n, entryOf]
    split
    · next hnil => rw [hnil]; rfl
    · rfl
  intro k
  rw [EventsMap.push, Table.get_set, hget]
  by_cases hk : k = n
  · subst hk
    simp only [if_true, entryOf_append (List.cons_ne_nil event [])]
  · simp only [if_neg hk, List.append_nil, h k]

/-- What the loop leaves when it ends: the logs that were not removed come in order after the
position, and their events were added to the map. -/
theorem EthRpcClient.processLoop_eq_ok {c : EthRpcClient} {p : Position} {m result : EventsMap}
    {events : ℕ → List Event} {logs : List Log} (hp : -1 ≤ p.lastLogIndex) (hm : m.Of events)
    (h : c.processLoop p m logs = .ok result) :
    (∀ log ∈ logs.filter (!·.removed), p.Before log) ∧
      (logs.filter (!·.removed)).Pairwise Log.Before ∧
      result.Of fun n => events n ++ c.eventsOf n (logs.filter (!·.removed)) := by
  induction logs generalizing p m events with
  | nil =>
    cases h
    refine ⟨by simp, List.Pairwise.nil, fun n => ?_⟩
    rw [hm n]
    simp [EthRpcClient.eventsOf]
  | cons log logs ih =>
    rw [processLoop] at h
    by_cases hr : log.removed
    · rw [if_pos hr] at h
      rw [List.filter_cons_of_neg (by simp [hr])]
      exact ih hp hm h
    · rw [if_neg hr] at h
      obtain ⟨next, hnext, h⟩ := except_bind_eq_ok.mp h
      obtain ⟨event, hevent, h⟩ := except_bind_eq_ok.mp h
      obtain ⟨hbefore, hblock, hindex⟩ := validateIsLogSequential_eq_ok hp (wrapping_eq_ok.mp hnext)
      have hstart : -1 ≤ next.lastLogIndex := by omega
      have hextracted : c.extracted log = event := by rw [EthRpcClient.extracted, wrapFault_eq_ok.mp hevent]
      -- the map after this log
      have hstep : ∃ m', c.processLoop next m' logs = .ok result ∧
          m'.Of fun n => events n ++ if n = log.blockNumber.toNat then event.toList else [] := by
        cases event with
        | none => exact ⟨m, h, by simpa using hm⟩
        | some event => exact ⟨_, h, hm.push _ event⟩
      obtain ⟨m', hloop, hm'⟩ := hstep
      obtain ⟨hall, hpair, hres⟩ := ih hstart hm' hloop
      rw [List.filter_cons_of_pos (by simp [hr])]
      refine ⟨?_, List.pairwise_cons.mpr ⟨?_, hpair⟩, fun n => ?_⟩
      · intro l hl
        rcases List.mem_cons.mp hl with rfl | hl
        · exact hbefore
        · have hafter := hall l hl
          unfold Position.Before at hbefore hafter ⊢
          rw [hblock, hindex] at hafter
          omega
      · intro l hl
        have hafter := hall l hl
        unfold Position.Before at hafter
        rw [hblock, hindex] at hafter
        unfold Log.Before
        omega
      · rw [hres n]
        simp only [List.append_assoc, EthRpcClient.eventsOf, List.filter_cons]
        by_cases hn : log.blockNumber.toNat = n
        · simp only [hn, decide_true, if_true, List.filterMap_cons, hextracted]
          cases event <;> rfl
        · simp [hn, Ne.symm hn]

/-! ## Ethereum -/

/-- The logs of the contract, block by block in log order. -/
structure History where
  logs : ℕ → List Log
  block_eq : ∀ {n : ℕ} {log : Log}, log ∈ logs n → log.blockNumber.toNat = n
  not_removed : ∀ {n : ℕ} {log : Log}, log ∈ logs n → log.removed = false
  ordered : ∀ n, (logs n).Pairwise fun a b => a.index.toNat < b.index.toNat

namespace History

variable (H : History) {c : EthRpcClient}

def blocks (first last : ℤ) : List ℕ :=
  (List.range (last + 1 - first).toNat).map fun i : ℕ => (first + i).toNat

def logsIn (first last : ℤ) : List Log := (blocks first last).flatMap H.logs

def events (c : EthRpcClient) (n : ℕ) : List Event := (H.logs n).filterMap c.extracted

/-- Every answer holds exactly the logs of the range. -/
def Answers (node : EthRpcClient.Response) : Prop :=
  ∀ first last logs, node first last = .ok logs → logs.Perm (H.logsIn first last)

variable {H}

theorem mem_blocks {first last : ℤ} (h : 0 ≤ first) {n : ℕ} :
    n ∈ blocks first last ↔ first ≤ n ∧ n ≤ last := by
  simp only [blocks, List.mem_map, List.mem_range]
  constructor
  · rintro ⟨i, hi, rfl⟩
    omega
  · rintro ⟨h₁, h₂⟩
    exact ⟨(n - first).toNat, by omega, by omega⟩

theorem nodup_blocks {first last : ℤ} (h : 0 ≤ first) : (blocks first last).Nodup := by
  refine List.Nodup.map_on ?_ List.nodup_range
  intro i _ j _ hij
  omega

/-- A block above the machine integers has no logs. -/
theorem logs_eq_nil {n : ℕ} (h : 2 ^ 64 ≤ n) : H.logs n = [] := by
  rw [List.eq_nil_iff_forall_not_mem]
  intro log hlog
  have hlt := log.blockNumber.toNat_lt
  have hblock := H.block_eq hlog
  omega

theorem filter_logs (m n : ℕ) :
    ((H.logs m).filter fun log => log.blockNumber.toNat = n) = if m = n then H.logs n else [] := by
  by_cases hmn : m = n
  · subst hmn
    rw [if_pos rfl, List.filter_eq_self]
    intro log hlog
    exact decide_eq_true (H.block_eq hlog)
  · rw [if_neg hmn, List.filter_eq_nil_iff]
    intro log hlog
    rw [H.block_eq hlog, decide_eq_true_eq]
    exact hmn

theorem filter_logsIn {first last : ℤ} (h : 0 ≤ first) (n : ℕ) :
    ((H.logsIn first last).filter fun log => log.blockNumber.toNat = n) =
      if first ≤ n ∧ n ≤ last then H.logs n else [] := by
  have hblocks : ∀ ns : List ℕ, ns.Nodup →
      ((ns.flatMap H.logs).filter fun log => log.blockNumber.toNat = n) =
        if n ∈ ns then H.logs n else [] := by
    intro ns hns
    induction ns with
    | nil => rfl
    | cons m ns ih =>
      obtain ⟨hm, hns⟩ := List.nodup_cons.mp hns
      rw [List.flatMap_cons, List.filter_append, filter_logs, ih hns]
      by_cases hmn : m = n
      · subst hmn
        simp [hm]
      · simp [hmn, Ne.symm hmn]
  rw [logsIn, hblocks _ (nodup_blocks h)]
  simp only [mem_blocks h]

theorem mem_logsIn {first last : ℤ} {log : Log} (h : log ∈ H.logsIn first last) :
    log.removed = false := by
  obtain ⟨n, -, hlog⟩ := List.mem_flatMap.mp h
  exact H.not_removed hlog

/-- Only one order of a block's logs passes the checks, that of the history. -/
theorem filter_of_answer {first last : ℤ} (h : 0 ≤ first) {logs : List Log}
    (hperm : logs.Perm (H.logsIn first last)) (hpair : logs.Pairwise Log.Before) (n : ℕ) :
    (logs.filter fun log => log.blockNumber.toNat = n) = if first ≤ n ∧ n ≤ last then H.logs n else [] := by
  have hfilter := hperm.filter fun log => decide (log.blockNumber.toNat = n)
  rw [filter_logsIn h] at hfilter
  refine @List.Perm.eq_of_pairwise Log (fun a b => a.index.toNat < b.index.toNat) _ _
    (fun a b _ _ hab hba => absurd hab (by omega)) ?_ ?_ hfilter
  · rw [List.pairwise_filter]
    refine hpair.imp ?_
    intro a b hab ha hb
    rw [decide_eq_true_eq] at ha hb
    unfold Log.Before at hab
    omega
  · split
    · exact H.ordered n
    · exact List.Pairwise.nil

end History

/-- A successful fetch covers the blocks from the first on, and its map holds exactly their
events. -/
theorem EthRpcClient.fetchAndProcessLogs_eq_ok {c : EthRpcClient} {H : History}
    {node : EthRpcClient.Response} (hnode : H.Answers node) {fromBlock toBlock maxQueryRange last : ℤ}
    (hfrom : 0 ≤ fromBlock) {m : EventsMap}
    (h : c.fetchAndProcessLogs node fromBlock toBlock maxQueryRange = .ok (m, last)) :
    last = cappedBlock fromBlock toBlock maxQueryRange ∧ fromBlock ≤ last ∧
      m.Of fun n => if fromBlock ≤ n ∧ n ≤ last then H.events c n else [] := by
  unfold fetchAndProcessLogs at h
  obtain ⟨logs, hlogs, h⟩ := except_bind_eq_ok.mp h
  obtain ⟨m', hm, h⟩ := except_bind_eq_ok.mp h
  obtain ⟨rfl, rfl⟩ := Prod.mk.inj (Except.ok.inj h)
  obtain ⟨_, hle, hlogs⟩ := except_bind_eq_ok.mp (wrapping_eq_ok.mp hlogs)
  have hperm := hnode _ _ _ hlogs
  have hkept : logs.filter (!·.removed) = logs := by
    rw [List.filter_eq_self]
    intro log hlog
    rw [History.mem_logsIn (hperm.mem_iff.mp hlog)]
    rfl
  have hempty : EventsMap.Of Table.empty fun _ => [] := fun _ => rfl
  obtain ⟨-, hpair, hof⟩ := processLoop_eq_ok (le_refl _) hempty (wrapFault_eq_ok.mp hm)
  rw [hkept] at hpair hof
  refine ⟨rfl, by simpa using failIf_eq_ok.mp hle, fun n => ?_⟩
  rw [hof n]
  simp only [List.nil_append, EthRpcClient.eventsOf, History.filter_of_answer hfrom hperm hpair]
  split <;> rfl

end FuelSequencer.Sidecar
