import FuelSequencer.Sidecar.Representation

/-! # Answers of the sidecar

A block without entry between the bounds is answered as a block without events. That is
right as long as the bounds only enclose blocks that were fetched, which a fast-forward
breaks, and for block numbers that the store can tell apart.
-/
namespace FuelSequencer.Sidecar
open Go Wire Exec Lib Bridge Wiring

variable {c : EthRpcClient} {H : History} {st st' : EventStore}

/-! ## The blocks at hand -/

def StoreOp.update (op : StoreOp) (available : ℕ → Prop) : ℕ → Prop :=
  match op with
  | .fetched first last => fun n => available n ∨ first ≤ n ∧ n ≤ last
  | .failed _ => available
  | .calibrated _ none => available
  | .calibrated _ (some (lo, hi)) => fun n => available n ∧ ¬(lo ≤ n ∧ n ≤ hi)

/-- The blocks that were fetched and not pruned since. -/
def Available (ops : List StoreOp) : ℕ → Prop := ops.foldl (fun available op => op.update available) fun _ => False

theorem available_snoc (ops : List StoreOp) (op : StoreOp) : Available (ops ++ [op]) = op.update (Available ops) := by
  rw [Available, List.foldl_append]
  rfl

/-- The Sequencer is not ahead of the sidecar. -/
def StoreOp.Behind (st : EventStore) : StoreOp → Prop
  | .calibrated (some height) _ => height ≤ st.lastSyncedBlock
  | _ => True

/-- The bounds enclose exactly the blocks at hand, and these are held exactly. -/
structure Gapless (c : EthRpcClient) (H : History) (ops : List StoreOp) (st : EventStore) : Prop where
  sound : Sound c H st
  available : ∀ n : ℕ, Available ops n ↔ st.startQueryBlock ≤ n ∧ n ≤ st.lastSyncedBlock
  held : ∀ n : ℕ, st.startQueryBlock ≤ n → n ≤ st.lastSyncedBlock →
    st.blocksMap.get n = blockOf n (H.events c n)

theorem gapless_new {start : ℤ} (h : 0 ≤ start) (maxQueryRange : ℤ) :
    Gapless c H [] (newEventStore start maxQueryRange) where
  sound := sound_new h maxQueryRange
  available n := by
    change False ↔ start ≤ n ∧ n ≤ start - 1
    rw [false_iff]
    omega
  held n h₁ h₂ := by
    change start ≤ n at h₁
    change n ≤ start - 1 at h₂
    omega

theorem Gapless.step {ops : List StoreOp} (h : Gapless c H ops st) {op : StoreOp}
    (hstep : StoreStep c H st op st') (hbehind : op.Behind st) : Gapless c H (ops ++ [op]) st' := by
  have hbounds := h.sound.bounds
  cases hstep with
  | fetched hnode hrun =>
    have hsound := (h.sound.step (.fetched hnode hrun)).1
    obtain ⟨hs, hl, hlt, hget⟩ := h.sound.fetched hnode hrun
    refine ⟨hsound, fun n => ?_, fun n h₁ h₂ => ?_⟩
    · rw [available_snoc]
      change Available ops n ∨ st.lastSyncedBlock + 1 ≤ n ∧ (n : ℤ) ≤ _ ↔ _
      rw [h.available]
      omega
    · rw [hget]
      split
      · rfl
      · exact h.held n (by omega) (by omega)
  | failed hrun =>
    cases EventStore.run_fetchAndStoreLogs_error hrun
    exact ⟨h.sound, fun n => by rw [available_snoc]; exact h.available n, h.held⟩
  | calibrated height =>
    have hsound := (h.sound.step (.calibrated st height)).1
    cases height with
    | none => exact ⟨hsound, fun n => by rw [available_snoc]; exact h.available n, h.held⟩
    | some height =>
      change (height : ℤ) ≤ st.lastSyncedBlock at hbehind
      obtain ⟨hl, ⟨hnone, hs, hmap⟩ | ⟨lo, hi, hsome, hlo, hlt, hhi, hs, hget⟩⟩ := h.sound.calibrated height
      · refine ⟨hsound, fun n => ?_, fun n h₁ h₂ => ?_⟩
        · rw [available_snoc, hnone]
          change Available ops n ↔ _
          rw [h.available]
          omega
        · rw [hmap]
          exact h.held n (by omega) (by omega)
      · refine ⟨hsound, fun n => ?_, fun n h₁ h₂ => ?_⟩
        · rw [available_snoc, hsome]
          change Available ops n ∧ ¬(lo ≤ n ∧ n ≤ hi) ↔ _
          rw [h.available]
          omega
        · rw [hget, if_pos (by omega)]
          exact h.held n (by omega) (by omega)

/-! ## Queries -/

theorem missing_eq_ok {start next b : ℤ} {events : List Event}
    (h : EventStore.missing start next b = .ok events) : (start ≤ b ∧ b < next) ∧ events = [] := by
  unfold EventStore.missing at h
  split at h
  · next hin =>
    cases h
    exact ⟨hin, rfl⟩
  · split at h <;> cases h

/-- A returned list comes from an entry, or from the bounds when there is none. -/
theorem queryBlockEvents_eq_ok {b : ℕ} {events : List Event} (h : st.queryBlockEvents b = .ok events) :
    (∃ block, st.blocksMap.get (b % 2 ^ 64) = some block ∧ events = block.events) ∨
      st.blocksMap.get (b % 2 ^ 64) = none ∧ events = [] ∧
        st.startQueryBlock ≤ b ∧ b ≤ st.lastSyncedBlock := by
  have hkey : uint64 (b : ℤ) = b % 2 ^ 64 := by
    unfold uint64
    omega
  unfold EventStore.queryBlockEvents at h
  obtain ⟨_, -, h⟩ := except_bind_eq_ok.mp h
  rw [EventStore.getStoredEvents, hkey] at h
  cases hget : st.blocksMap.get (b % 2 ^ 64) with
  | some block =>
    rw [hget] at h
    cases h
    exact Or.inl ⟨block, rfl, rfl⟩
  | none =>
    rw [hget] at h
    obtain ⟨hin, rfl⟩ := missing_eq_ok h
    rw [EventStore.getNextQueryBlock] at hin
    exact Or.inr ⟨rfl, rfl, hin.1, by omega⟩

theorem events_of_blockOf {n : ℕ} {block : EthereumBlock} (h : blockOf n (H.events c n) = some block) :
    block.events = H.events c n := by
  obtain ⟨-, rfl⟩ := blockOf_eq_some.mp h
  rfl

theorem Gapless.query {ops : List StoreOp} (h : Gapless c H ops st) {b : ℕ}
    (hb : b < 2 ^ 64 ∨ st.blocksMap.get (b % 2 ^ 64) = none) {events : List Event}
    (hq : st.queryBlockEvents b = .ok events) : Available ops b ∧ events = H.events c b := by
  rw [h.available]
  rcases queryBlockEvents_eq_ok hq with ⟨block, hget, rfl⟩ | ⟨hget, rfl, hlo, hhi⟩
  · rcases hb with hlt | hnone
    · rw [Nat.mod_eq_of_lt hlt] at hget
      exact ⟨h.sound.within hget, events_of_blockOf (h.sound.exact hget)⟩
    · rw [hnone] at hget
      cases hget
  · refine ⟨⟨hlo, hhi⟩, ?_⟩
    by_cases hlt : b < 2 ^ 64
    · rw [Nat.mod_eq_of_lt hlt, h.held b hlo hhi, blockOf] at hget
      split at hget
      · next hnil => exact hnil.symm
      · cases hget
    · exact (H.events_eq_nil (by omega)).symm

/-- As long as no reported height is above the last block that was synced, a returned list is
the block's events, and the block was fetched and not pruned. -/
theorem query_answers_history {start : ℤ} (hstart : 0 ≤ start) {maxQueryRange : ℤ} {ops : List StoreOp}
    (hrun : Runs (fun st op st' => StoreStep c H st op st' ∧ op.Behind st)
      (newEventStore start maxQueryRange) ops st)
    {b : ℕ} (hb : b < 2 ^ 64 ∨ st.blocksMap.get (b % 2 ^ 64) = none) {events : List Event}
    (hq : st.queryBlockEvents b = .ok events) : Available ops b ∧ events = H.events c b := by
  have hinv : Gapless c H ops st :=
    hrun.invariant (I := Gapless c H) (gapless_new hstart maxQueryRange) fun h hstep => h.step hstep.1 hstep.2
  exact hinv.query hb hq

theorem query_answers_history_reference :
    Runs (fun st op st' => StoreStep Reference.client (Reference.oneDeposit 2 5) st op st' ∧ op.Behind st)
        (newEventStore 1 10) [.fetched 1 3, .calibrated (some 1) none] referenceStore ∧
      (∃ events, referenceStore.queryBlockEvents 2 = .ok events ∧ events ≠ [] ∧
        events = (Reference.oneDeposit 2 5).events Reference.client 2) ∧
      referenceStore.queryBlockEvents 4 = .error (str "block 4 not yet processed") := by
  have hrun : Runs (fun st op st' => StoreStep Reference.client (Reference.oneDeposit 2 5) st op st' ∧
      op.Behind st) (newEventStore 1 10) [.fetched 1 3, .calibrated (some 1) none] referenceStore := by
    refine (Runs.single ⟨referenceStep_fetch, trivial⟩).snoc ⟨referenceStep_calibrate, ?_⟩
    change (1 : ℤ) ≤ referenceFetched.lastSyncedBlock
    decide +kernel
  obtain ⟨events, hevents⟩ := exists_of_isOk (show (referenceStore.queryBlockEvents (2 : ℕ)).isOk by
    decide +kernel)
  have hne : (referenceStore.queryBlockEvents (2 : ℕ)) ≠ .ok [] := by decide +kernel
  refine ⟨hrun, ⟨events, hevents, ?_, ?_⟩, by decide +kernel⟩
  · rintro rfl
    exact hne hevents
  · exact (query_answers_history (by decide) hrun (Or.inl (by decide)) hevents).2

/-- A report ahead of the sidecar makes every skipped block an empty one, and a block number
above the machine integers is answered with the events of another block. -/
theorem skipped_block_answered_empty :
    (Runs (StoreStep Reference.client (Reference.oneDeposit 50 5)) (newEventStore 1 10)
        [.calibrated (some 100) none] ((newEventStore 1 10).calibrateBlocksAndPruneLogs (some 100)) ∧
      ¬ Available [.calibrated (some 100) none] 50 ∧
      (Reference.oneDeposit 50 5).events Reference.client 50 ≠ [] ∧
      ((newEventStore 1 10).calibrateBlocksAndPruneLogs (some 100)).queryBlockEvents 50 = .ok []) ∧
    Runs (StoreStep Reference.client (Reference.oneDeposit 2 5)) (newEventStore 1 10)
        [.fetched 1 3, .calibrated (some 1) none] referenceStore ∧
      ¬ Available [.fetched 1 3, .calibrated (some 1) none] (2 ^ 64 + 2) ∧
      (Reference.oneDeposit 2 5).events Reference.client (2 ^ 64 + 2) = [] ∧
      (referenceStore.queryBlockEvents (2 ^ 64 + 2)).isOk ∧
      referenceStore.queryBlockEvents (2 ^ 64 + 2) ≠ .ok [] := by
  refine ⟨⟨Runs.single ?_, by simp [Available, StoreOp.update], by decide +kernel, by decide +kernel⟩,
    (Runs.single referenceStep_fetch).snoc referenceStep_calibrate, by simp [Available, StoreOp.update],
    History.events_eq_nil (by decide), by decide +kernel, by decide +kernel⟩
  have hprune : (newEventStore 1 10).pruneFor (some 100) = none := by decide +kernel
  rw [← hprune]
  exact StoreStep.calibrated _ (some 100)

end FuelSequencer.Sidecar
