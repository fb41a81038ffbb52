import FuelSequencer.Sidecar.Reference

/-! # What the store represents

Over any run of fetches and calibrations the entries between the two bounds are exactly
the events of their blocks. A fast-forward makes a gap of blocks that were never fetched;
it lies at or below the height that the Sequencer reported.
-/
namespace FuelSequencer.Sidecar
open Go Wire Exec Lib Bridge Wiring

/-- What an operation did to the store. -/
inductive StoreOp where
  | fetched (first last : ℤ)
  | failed (fault : Fault GoString)
  | calibrated (height : Option ℕ) (pruned : Option (ℕ × ℕ))

def EventStore.pruneFor (st : EventStore) (height : Option ℕ) : Option (ℕ × ℕ) :=
  height.bind fun h => (st.fastForward h).pruneRange h

inductive StoreStep (c : EthRpcClient) (H : History) : EventStore → StoreOp → EventStore → Prop where
  | fetched {st st' : EventStore} {node : EthRpcClient.Response} {toBlock last : ℤ}
      (answers : H.Answers node) (run : (fetchAndStoreLogs c node toBlock).run st = .ok last st') :
      StoreStep c H st (.fetched st.getNextQueryBlock last) st'
  | failed {st st' : EventStore} {node : EthRpcClient.Response} {toBlock : ℤ} {fault : Fault GoString}
      (run : (fetchAndStoreLogs c node toBlock).run st = .error fault st') :
      StoreStep c H st (.failed fault) st'
  | calibrated (st : EventStore) (height : Option ℕ) :
      StoreStep c H st (.calibrated height (st.pruneFor height)) (st.calibrateBlocksAndPruneLogs height)

/-- The Sequencer reported the height in the course of the run. -/
def Reported (ops : List StoreOp) (height : ℕ) : Prop :=
  ∃ pruned, StoreOp.calibrated (some height) pruned ∈ ops

/-- Every entry is exact and lies between the bounds. -/
structure Sound (c : EthRpcClient) (H : History) (st : EventStore) : Prop where
  exact : ∀ {k : ℕ} {block : EthereumBlock}, st.blocksMap.get k = some block →
    blockOf k (H.events c k) = some block
  within : ∀ {k : ℕ} {block : EthereumBlock}, st.blocksMap.get k = some block →
    st.startQueryBlock ≤ k ∧ k ≤ st.lastSyncedBlock
  bounds : st.startQueryBlock ≤ st.lastSyncedBlock + 1
  nonneg : 0 ≤ st.startQueryBlock

variable {c : EthRpcClient} {H : History} {st st' : EventStore}

theorem sound_new {start : ℤ} (h : 0 ≤ start) (maxQueryRange : ℤ) : Sound c H (newEventStore start maxQueryRange) where
  exact h := by cases h
  within h := by cases h
  bounds := by
    change start ≤ start - 1 + 1
    omega
  nonneg := h

theorem History.events_eq_nil {n : ℕ} (h : 2 ^ 64 ≤ n) : H.events c n = [] := by
  rw [History.events, H.logs_eq_nil h]
  rfl

namespace Sound

/-- Entries have machine integers as keys. -/
theorem key_lt (h : Sound c H st) {k : ℕ} {block : EthereumBlock} (hk : st.blocksMap.get k = some block) :
    k < 2 ^ 64 := by
  by_contra hge
  have hexact := blockOf_eq_some.mp (h.exact hk)
  exact hexact.1 (H.events_eq_nil (by omega))

theorem get_eq_none (h : Sound c H st) {k : ℕ} (hk : ¬(st.startQueryBlock ≤ k ∧ k ≤ st.lastSyncedBlock)) :
    st.blocksMap.get k = none :=
  Option.eq_none_iff_forall_ne_some.mpr fun _ hblock => hk (h.within hblock)

/-- A successful fetch adds exactly the blocks of its range. -/
theorem fetched (h : Sound c H st) {node : EthRpcClient.Response} (hnode : H.Answers node) {toBlock last : ℤ}
    (hrun : (fetchAndStoreLogs c node toBlock).run st = .ok last st') :
    st'.startQueryBlock = st.startQueryBlock ∧ st'.lastSyncedBlock = last ∧ st.lastSyncedBlock < last ∧
      ∀ n : ℕ, st'.blocksMap.get n =
        if st.lastSyncedBlock < n ∧ n ≤ last then blockOf n (H.events c n) else st.blocksMap.get n := by
  obtain ⟨m, hm, rfl⟩ := EventStore.run_fetchAndStoreLogs_eq_ok hrun
  have hfrom : 0 ≤ st.getNextQueryBlock := le_trans h.nonneg h.bounds
  obtain ⟨-, hle, hof⟩ := EthRpcClient.fetchAndProcessLogs_eq_ok hnode hfrom hm
  unfold EventStore.getNextQueryBlock at hle hof
  refine ⟨rfl, rfl, by omega, fun n => ?_⟩
  change (st.addEvents m).blocksMap.get n = _
  have hmap := hof n
  dsimp only at hmap
  by_cases hn : st.lastSyncedBlock < n ∧ n ≤ last
  · have hnone : st.blocksMap.get n = none := h.get_eq_none (by omega)
    rw [if_pos (by omega)] at hmap
    rw [EventStore.get_addEvents (Or.inl hnone), hmap, hnone, if_pos hn, Option.or_none, blockOf, entryOf]
    split <;> rfl
  · have hempty : m.get n = none := by
      rw [hmap, if_neg (by omega)]
      rfl
    rw [EventStore.get_addEvents (Or.inr hempty), hempty, if_neg hn]
    rfl

/-- A calibration raises the bounds and drops the entries below the new lower one, which
stays under the reported height. -/
theorem calibrated (h : Sound c H st) (height : ℕ) :
    (st.calibrateBlocksAndPruneLogs (some height)).lastSyncedBlock = max st.lastSyncedBlock height ∧
      ((st.pruneFor (some height) = none ∧
          (st.calibrateBlocksAndPruneLogs (some height)).startQueryBlock = st.startQueryBlock ∧
          (st.calibrateBlocksAndPruneLogs (some height)).blocksMap = st.blocksMap) ∨
        ∃ lo hi : ℕ, st.pruneFor (some height) = some (lo, hi) ∧ st.startQueryBlock = lo ∧ lo < hi ∧
          hi < height ∧ (st.calibrateBlocksAndPruneLogs (some height)).startQueryBlock = hi + 1 ∧
          ∀ n : ℕ, (st.calibrateBlocksAndPruneLogs (some height)).blocksMap.get n =
            if hi < n then st.blocksMap.get n else none) := by
  have hstart := st.fastForward_startQueryBlock height
  have hmap := st.fastForward_blocksMap height
  refine ⟨st.lastSyncedBlock_calibrate height, ?_⟩
  have hfor : st.pruneFor (some height) = (st.fastForward height).pruneRange height := rfl
  cases hrange : (st.fastForward height).pruneRange height with
  | none =>
    rw [EventStore.calibrateBlocksAndPruneLogs, hrange]
    exact Or.inl ⟨hfor.trans hrange, hstart, hmap⟩
  | some range =>
    obtain ⟨lo, hi⟩ := range
    obtain ⟨-, hne, hlo, hlt, hhi⟩ := EventStore.pruneRange_eq_some hrange
    rw [EventStore.calibrateBlocksAndPruneLogs, hrange]
    rw [hmap] at hne
    rw [hstart] at hlo
    -- some entry shows that the lower bound is a machine integer
    obtain ⟨⟨k, block⟩, hk⟩ := List.exists_mem_of_ne_nil _ hne
    have hget := Table.get_eq_some.mpr hk
    have hklt := h.key_lt hget
    have hkge := (h.within hget).1
    have hnonneg := h.nonneg
    have hbuffer : blockPruneBuffer = 10 := rfl
    have hlo' : st.startQueryBlock = lo := by
      unfold uint64 at hlo
      omega
    have hheight : uint64 height ≤ height := by
      unfold uint64
      omega
    refine Or.inr ⟨lo, hi, hfor.trans hrange, hlo', hlt, by omega, ?_, fun n => ?_⟩
    · exact Nat.cast_succ hi
    · change ((st.fastForward height).blocksMap.keep _).get n = _
      rw [Table.get_keep, hmap]
      by_cases hn : hi < n
      · have hout : ¬(lo ≤ n ∧ n ≤ hi) := by omega
        simp [hn, hout]
      · by_cases hin : lo ≤ n ∧ n ≤ hi
        · simp [hn, hin]
        · rw [h.get_eq_none (by omega)]
          simp [hn]

/-- Every operation keeps the entries exact and never lowers a bound. -/
theorem step (h : Sound c H st) {op : StoreOp} (hstep : StoreStep c H st op st') :
    Sound c H st' ∧ st.startQueryBlock ≤ st'.startQueryBlock ∧ st.lastSyncedBlock ≤ st'.lastSyncedBlock := by
  cases hstep with
  | fetched hnode hrun =>
    obtain ⟨hs, hl, hlt, hget⟩ := h.fetched hnode hrun
    have hbounds := h.bounds
    have hnonneg := h.nonneg
    refine ⟨⟨?_, ?_, by omega, by omega⟩, by omega, by omega⟩
    · intro k block hk
      rw [hget] at hk
      split at hk
      · exact hk
      · exact h.exact hk
    · intro k block hk
      rw [hget] at hk
      split at hk
      · omega
      · have hin := h.within hk
        omega
  | failed hrun =>
    cases EventStore.run_fetchAndStoreLogs_error hrun
    exact ⟨h, le_refl _, le_refl _⟩
  | calibrated height =>
    cases height with
    | none => exact ⟨h, le_refl _, le_refl _⟩
    | some height =>
      have hbounds := h.bounds
      have hnonneg := h.nonneg
      obtain ⟨hl, ⟨-, hs, hmap⟩ | ⟨lo, hi, -, hlo, hlt, hhi, hs, hget⟩⟩ := h.calibrated height
      · refine ⟨⟨?_, ?_, by omega, by omega⟩, by omega, by omega⟩
        · intro k block hk
          exact h.exact (hmap ▸ hk)
        · intro k block hk
          have hin := h.within (hmap ▸ hk)
          omega
      · refine ⟨⟨?_, ?_, by omega, by omega⟩, by omega, by omega⟩
        · intro k block hk
          rw [hget] at hk
          split at hk
          · exact h.exact hk
          · cases hk
        · intro k block hk
          rw [hget] at hk
          split at hk
          · have hin := h.within hk
            omega
          · cases hk

end Sound

/-! ## Runs -/

/-- What the store holds after a run that started at block `start`. -/
structure Represents (c : EthRpcClient) (H : History) (start : ℤ) (ops : List StoreOp) (st : EventStore) :
    Prop where
  sound : Sound c H st
  held : ∀ n : ℕ, start ≤ n → n ≤ st.lastSyncedBlock → (∀ height, Reported ops height → height < n) →
    st.blocksMap.get n = blockOf n (H.events c n)

theorem represents_new {start : ℤ} (h : 0 ≤ start) (maxQueryRange : ℤ) :
    Represents c H start [] (newEventStore start maxQueryRange) where
  sound := sound_new h maxQueryRange
  held n h₁ h₂ _ := by
    change n ≤ start - 1 at h₂
    omega

theorem reported_snoc {ops : List StoreOp} {op : StoreOp} {n : ℕ}
    (h : ∀ height, Reported (ops ++ [op]) height → height < n) :
    (∀ height, Reported ops height → height < n) ∧
      ∀ height pruned, op = .calibrated (some height) pruned → height < n := by
  constructor
  · rintro height ⟨pruned, hmem⟩
    exact h height ⟨pruned, List.mem_append_left _ hmem⟩
  · rintro height pruned rfl
    exact h height ⟨pruned, by simp⟩

theorem Represents.step {start : ℤ} {ops : List StoreOp} (h : Represents c H start ops st) {op : StoreOp}
    (hstep : StoreStep c H st op st') : Represents c H start (ops ++ [op]) st' := by
  refine ⟨(h.sound.step hstep).1, ?_⟩
  intro n hstart hlast hreported
  obtain ⟨hbefore, hnow⟩ := reported_snoc hreported
  cases hstep with
  | fetched hnode hrun =>
    obtain ⟨-, hl, -, hget⟩ := h.sound.fetched hnode hrun
    rw [hget]
    split
    · rfl
    · exact h.held n hstart (by omega) hbefore
  | failed hrun =>
    cases EventStore.run_fetchAndStoreLogs_error hrun
    exact h.held n hstart hlast hbefore
  | calibrated height =>
    cases height with
    | none => exact h.held n hstart hlast hbefore
    | some height =>
      have hheight := hnow height _ rfl
      obtain ⟨hl, ⟨-, -, hmap⟩ | ⟨lo, hi, -, -, -, hhi, -, hget⟩⟩ := h.sound.calibrated height
      · rw [hmap]
        exact h.held n hstart (by omega) hbefore
      · rw [hget, if_pos (by omega)]
        exact h.held n hstart (by omega) hbefore

/-- A whole call is a run of turns of its loop. -/
theorem runs_fetchAndStoreLogsUptoBlock {toBlock : ℤ} {nodes : List EthRpcClient.Response}
    (hnodes : ∀ node ∈ nodes, H.Answers node) :
    ∃ ops, Runs (StoreStep c H) st ops (final ((fetchAndStoreLogsUptoBlock c toBlock nodes).run st)) := by
  induction nodes generalizing st with
  | nil => exact ⟨[], Runs.nil st⟩
  | cons node nodes ih =>
    rw [fetchAndStoreLogsUptoBlock]
    cases hrun : (fetchAndStoreLogs c node toBlock).run st with
    | error fault st' =>
      rw [run_bind_of_error hrun]
      exact ⟨_, Runs.single (.failed hrun)⟩
    | ok last st' =>
      have hstep : StoreStep c H st _ st' := .fetched (hnodes node List.mem_cons_self) hrun
      rw [run_bind_of_ok hrun]
      split
      · exact ⟨_, Runs.single hstep⟩
      · have hrest := fun node hmem => hnodes node (List.mem_cons_of_mem _ hmem)
        obtain ⟨ops, hops⟩ : ∃ ops, Runs (StoreStep c H) st' ops
            (final ((fetchAndStoreLogsUptoBlock c toBlock nodes).run st')) := ih hrest
        exact ⟨_, Runs.cons hstep hops⟩

/-- After every run the blocks that the Sequencer may still ask for are held exactly, the
entries lie between the bounds, and the next operation raises the bounds or keeps them. -/
theorem store_represents_history {start : ℤ} (hstart : 1 ≤ start) {maxQueryRange : ℤ}
    {ops : List StoreOp} (hrun : Runs (StoreStep c H) (newEventStore start maxQueryRange) ops st) :
    (∀ n : ℕ, start ≤ n → n ≤ st.lastSyncedBlock → (∀ height, Reported ops height → height < n) →
      st.blocksMap.get n = blockOf n (H.events c n)) ∧
    (∀ (k : ℕ) (block : EthereumBlock), st.blocksMap.get k = some block →
      st.startQueryBlock ≤ k ∧ k ≤ st.lastSyncedBlock) ∧
    st.startQueryBlock ≤ st.lastSyncedBlock + 1 ∧
    (∀ (op : StoreOp) (st' : EventStore), StoreStep c H st op st' →
      st.startQueryBlock ≤ st'.startQueryBlock ∧ st.lastSyncedBlock ≤ st'.lastSyncedBlock) ∧
    ∀ (fault : Fault GoString) (st' : EventStore), StoreStep c H st (.failed fault) st' → st' = st := by
  have hinv : Represents c H start ops st :=
    hrun.invariant (I := Represents c H start) (represents_new (by omega) maxQueryRange)
      fun h hstep => h.step hstep
  refine ⟨hinv.held, fun _ _ => hinv.sound.within, hinv.sound.bounds, fun _ _ hstep => ?_, fun _ _ hstep => ?_⟩
  · exact (hinv.sound.step hstep).2
  · cases hstep with
    | failed hfail => exact EventStore.run_fetchAndStoreLogs_error hfail

/-- The store after a fetch of three blocks, the second with a deposit. -/
def referenceFetched : EventStore :=
  final ((fetchAndStoreLogs Reference.client (Reference.nodeOf (Reference.oneDeposit 2 5)) 3).run
    (newEventStore 1 10))

/-- The same after a report of the first block. -/
def referenceStore : EventStore := referenceFetched.calibrateBlocksAndPruneLogs (some 1)

theorem referenceStep_fetch : StoreStep Reference.client (Reference.oneDeposit 2 5) (newEventStore 1 10)
    (.fetched 1 3) referenceFetched := by
  have hfetch := eq_ok_of_value (show value ((fetchAndStoreLogs Reference.client
    (Reference.nodeOf (Reference.oneDeposit 2 5)) 3).run (newEventStore 1 10)) = some 3 by decide +kernel)
  exact StoreStep.fetched (Reference.nodeOf_answers _) hfetch

theorem referenceStep_calibrate : StoreStep Reference.client (Reference.oneDeposit 2 5) referenceFetched
    (.calibrated (some 1) none) referenceStore := by
  have hprune : referenceFetched.pruneFor (some 1) = none := by decide +kernel
  rw [← hprune]
  exact StoreStep.calibrated _ (some 1)

theorem store_represents_history_reference :
    Runs (StoreStep Reference.client (Reference.oneDeposit 2 5)) (newEventStore 1 10)
        [.fetched 1 3, .calibrated (some 1) none] referenceStore ∧
      referenceStore.blocksMap.get 2 = blockOf 2 ((Reference.oneDeposit 2 5).events Reference.client 2) ∧
      referenceStore.blocksMap.get 3 = blockOf 3 ((Reference.oneDeposit 2 5).events Reference.client 3) := by
  have hrun := (Runs.single referenceStep_fetch).snoc referenceStep_calibrate
  have hlast : referenceStore.lastSyncedBlock = 3 := by decide +kernel
  have hreported : ∀ n : ℕ, 1 < n → ∀ height,
      Reported ([.fetched 1 3] ++ [.calibrated (some 1) none]) height → height < n := by
    rintro n hn height ⟨pruned, hmem⟩
    simp only [List.mem_append, List.mem_singleton, reduceCtorEq, StoreOp.calibrated.injEq,
      Option.some.injEq, false_or] at hmem
    omega
  have hheld := (store_represents_history (by decide) hrun).1
  exact ⟨hrun, hheld 2 (by decide) (by rw [hlast]; decide) (hreported 2 (by decide)),
    hheld 3 (by decide) (by rw [hlast]; decide) (hreported 3 (by decide))⟩

end FuelSequencer.Sidecar
