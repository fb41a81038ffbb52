import FuelSequencer.Sidecar.LogOrder

/-! # Fetching up to a block

The loop queries one range after the other, each of them as long as the store allows, and
stops when the last block it synced is the target. The cap on a range makes the last range
end exactly there.
-/
namespace FuelSequencer.Sidecar
open Go Wire Exec Lib Bridge Wiring

/-! ## Consecutive ranges -/

/-- The ranges follow each other from the first block to the last, none longer than `size`. -/
def Tiles (size : ℤ) : ℤ → List (ℤ × ℤ) → ℤ → Prop
  | first, [], last => first = last + 1
  | first, r :: rs, last => r.1 = first ∧ r.1 ≤ r.2 ∧ r.2 < r.1 + size ∧ Tiles size (r.2 + 1) rs last

section Tiles

variable {size first last : ℤ} {rs : List (ℤ × ℤ)}

theorem Tiles.append_singleton (h : Tiles size first rs last) {r : ℤ × ℤ} (hr : r.1 = last + 1) (hle : r.1 ≤ r.2)
    (hsize : r.2 < r.1 + size) : Tiles size first (rs ++ [r]) r.2 := by
  induction rs generalizing first with
  | nil => exact ⟨hr.trans h.symm, hle, hsize, rfl⟩
  | cons q rs ih => exact ⟨h.1, h.2.1, h.2.2.1, ih h.2.2.2⟩

theorem Tiles.first_le (h : Tiles size first rs last) : first ≤ last + 1 := by
  induction rs generalizing first with
  | nil => exact le_of_eq h
  | cons r rs ih =>
    obtain ⟨hfirst, hle, -, hrest⟩ := h
    have hnext := ih hrest
    omega

/-- The ranges cover exactly the blocks from the first to the last. -/
theorem Tiles.covers (h : Tiles size first rs last) (n : ℤ) : (∃ r ∈ rs, r.1 ≤ n ∧ n ≤ r.2) ↔ first ≤ n ∧ n ≤ last := by
  induction rs generalizing first with
  | nil =>
    simp only [List.not_mem_nil, false_and, exists_false, false_iff]
    have hempty : first = last + 1 := h
    omega
  | cons r rs ih =>
    obtain ⟨hfirst, hle, -, hrest⟩ := h
    have hnext := hrest.first_le
    rw [List.exists_mem_cons_iff, ih hrest]
    omega

theorem Tiles.mem (h : Tiles size first rs last) {r : ℤ × ℤ} (hr : r ∈ rs) : r.1 ≤ r.2 ∧ r.2 < r.1 + size := by
  induction rs generalizing first with
  | nil => cases hr
  | cons q rs ih =>
    obtain ⟨-, hle, hsize, hrest⟩ := h
    rcases List.mem_cons.mp hr with rfl | hr
    · exact ⟨hle, hsize⟩
    · exact ih hrest hr

/-- No two ranges share a block. -/
theorem Tiles.disjoint (h : Tiles size first rs last) : rs.Pairwise fun a b => a.2 < b.1 := by
  induction rs generalizing first with
  | nil => exact List.Pairwise.nil
  | cons r rs ih =>
    obtain ⟨-, -, -, hrest⟩ := h
    refine List.pairwise_cons.mpr ⟨fun q hq => ?_, ih hrest⟩
    have hcover := (hrest.covers q.1).mp ⟨q, hq, le_refl _, (hrest.mem hq).1⟩
    omega

end Tiles

/-! ## The loop -/

/-- The ranges that the loop queries, in their order. -/
def queriedRanges (c : EthRpcClient) (toBlock : ℤ) : List EthRpcClient.Response → EventStore → List (ℤ × ℤ)
  | [], _ => []
  | node :: nodes, st =>
    (st.getNextQueryBlock, EthRpcClient.cappedBlock st.getNextQueryBlock toBlock st.maxQueryRange) ::
      match (fetchAndStoreLogs c node toBlock).run st with
      | .ok newLastSyncedBlock st' => if newLastSyncedBlock = toBlock then [] else queriedRanges c toBlock nodes st'
      | .error _ _ => []

section Loop

variable {c : EthRpcClient} {toBlock : ℤ} {st : EventStore}

/-- The ways the loop can end or wait, with the ranges it queried. -/
inductive Upto (st : EventStore) (toBlock : ℤ) (answers : ℕ) (rs : List (ℤ × ℤ)) :
    EStateM.Result (Fault GoString) EventStore Bool → Prop
  | reached {st' : EventStore} (hlast : st'.lastSyncedBlock = toBlock)
      (htiles : Tiles st.maxQueryRange (st.lastSyncedBlock + 1) rs toBlock) : Upto st toBlock answers rs (.ok true st')
  | failed {st' : EventStore} {e : Fault GoString} {done : List (ℤ × ℤ)} {r : ℤ × ℤ} (hlast : rs = done ++ [r])
      (hle : r.2 ≤ toBlock)
      (hdone : Tiles st.maxQueryRange (st.lastSyncedBlock + 1) done st'.lastSyncedBlock)
      (htiles : Tiles st.maxQueryRange (st.lastSyncedBlock + 1) rs r.2) : Upto st toBlock answers rs (.error e st')
  | waiting {st' : EventStore} (hfew : answers * st.maxQueryRange < toBlock - st.lastSyncedBlock) :
      Upto st toBlock answers rs (.ok false st')

/-- One turn: the next range, as long as allowed or up to the target. -/
theorem run_fetchAndStoreLogs_next {node : EthRpcClient.Response} {last : ℤ} {st' : EventStore}
    (h : (fetchAndStoreLogs c node toBlock).run st = .ok last st') :
    last = min toBlock (st.lastSyncedBlock + st.maxQueryRange) ∧ st'.lastSyncedBlock = last ∧
      st'.maxQueryRange = st.maxQueryRange := by
  obtain ⟨m, hm, rfl⟩ := EventStore.run_fetchAndStoreLogs_eq_ok h
  unfold EthRpcClient.fetchAndProcessLogs at hm
  obtain ⟨logs, -, hm⟩ := except_bind_eq_ok.mp hm
  obtain ⟨m', -, hm⟩ := except_bind_eq_ok.mp hm
  obtain ⟨-, rfl⟩ := Prod.mk.inj (Except.ok.inj hm)
  refine ⟨?_, rfl, rfl⟩
  unfold EthRpcClient.cappedBlock EventStore.getNextQueryBlock
  congr 1
  omega

/-- By induction on the answers: every range but the last has the full length. -/
theorem upto_of_run (nodes : List EthRpcClient.Response) (hlast : st.lastSyncedBlock < toBlock)
    (hrange : 1 ≤ st.maxQueryRange) :
    (queriedRanges c toBlock nodes st).length * st.maxQueryRange < toBlock - st.lastSyncedBlock + st.maxQueryRange ∧
      Upto st toBlock nodes.length (queriedRanges c toBlock nodes st)
        ((fetchAndStoreLogsUptoBlock c toBlock nodes).run st) := by
  induction nodes generalizing st with
  | nil =>
    have hrun : (fetchAndStoreLogsUptoBlock c toBlock []).run st = .ok false st := rfl
    rw [hrun]
    exact ⟨by simp [queriedRanges]; omega, .waiting (by simp; omega)⟩
  | cons node nodes ih =>
    unfold queriedRanges fetchAndStoreLogsUptoBlock
    have hcapped : EthRpcClient.cappedBlock st.getNextQueryBlock toBlock st.maxQueryRange =
        min toBlock (st.lastSyncedBlock + st.maxQueryRange) := by
      unfold EthRpcClient.cappedBlock EventStore.getNextQueryBlock
      congr 1
      omega
    have hnext : st.getNextQueryBlock = st.lastSyncedBlock + 1 := rfl
    rw [hcapped, hnext]
    cases hrun : (fetchAndStoreLogs c node toBlock).run st with
    | error e st' =>
      obtain ⟨-, rfl⟩ := EventStore.run_fetchAndStoreLogs_eq_error hrun
      rw [run_bind_of_error hrun]
      refine ⟨by simp; omega, .failed (List.nil_append _).symm (min_le_left _ _) rfl ⟨rfl, ?_, ?_, rfl⟩⟩ <;>
        dsimp only <;> omega
    | ok last st' =>
      obtain ⟨hmin, hsynced, hmax⟩ := run_fetchAndStoreLogs_next hrun
      rw [run_bind_of_ok hrun, ← hmin]
      dsimp only
      by_cases hreached : last = toBlock
      · rw [if_pos hreached, if_pos hreached]
        refine ⟨by simp; omega, .reached (hsynced.trans hreached) ⟨rfl, ?_, ?_, hreached ▸ rfl⟩⟩ <;> dsimp only <;> omega
      · -- a range that was not cut short
        rw [if_neg hreached, if_neg hreached]
        have hfull : last = st.lastSyncedBlock + st.maxQueryRange := by omega
        obtain ⟨hcount, hupto⟩ := @ih st' (by omega) (by omega)
        rw [hmax, hsynced] at hcount
        refine ⟨by push_cast [List.length_cons]; linarith, ?_⟩
        have htile : ∀ {rs : List (ℤ × ℤ)} {end_ : ℤ}, Tiles st'.maxQueryRange (st'.lastSyncedBlock + 1) rs end_ →
            Tiles st.maxQueryRange (st.lastSyncedBlock + 1) ((st.lastSyncedBlock + 1, last) :: rs) end_ := by
          intro rs end_ h
          rw [hmax, hsynced] at h
          refine ⟨rfl, ?_, ?_, h⟩ <;> dsimp only <;> omega
        generalize (fetchAndStoreLogsUptoBlock c toBlock nodes).run st' = result at hupto ⊢
        cases hupto with
        | reached hend htiles => exact .reached hend (htile htiles)
        | failed hend hle hdone htiles => exact .failed (by rw [hend]; rfl) hle (htile hdone) (htile htiles)
        | waiting hfew =>
          rw [hmax, hsynced] at hfew
          exact .waiting (by push_cast [List.length_cons]; linarith)

/-! ## Answers whose logs can be read -/

/-- No log of the answers makes the extraction panic. -/
def Readable (c : EthRpcClient) (nodes : List EthRpcClient.Response) : Prop :=
  ∀ node ∈ nodes, ∀ first last logs, node first last = .ok logs → ∀ log ∈ logs, log.removed = false → c.HasTopics log

theorem EthRpcClient.returns_processLoop (hdenom : isValidDenom c.seqBridgeDenom) {logs : List Log}
    (h : ∀ log ∈ logs, log.removed = false → c.HasTopics log) {p : Position} {m : EventsMap} :
    Returns (c.processLoop p m logs) := by
  induction logs generalizing p m with
  | nil => exact returns_ok _
  | cons log logs ih =>
    have hrest := fun l hl => h l (List.mem_cons_of_mem _ hl)
    unfold processLoop
    split_ifs with hr
    · exact ih hrest
    · have htopics := h log List.mem_cons_self (by simpa using hr)
      refine returns_bind.mpr ⟨returns_wrapping, fun next _ => ?_⟩
      refine returns_bind.mpr ⟨returns_wrapFault.mpr ((returns_extractLogDataToEvent hdenom).mpr htopics), ?_⟩
      intro event _
      cases event with
      | none => exact ih hrest
      | some event => exact ih hrest

theorem EthRpcClient.returns_fetchAndProcessLogs (hdenom : isValidDenom c.seqBridgeDenom) {node : EthRpcClient.Response}
    (h : ∀ first last logs, node first last = .ok logs → ∀ log ∈ logs, log.removed = false → c.HasTopics log)
    {fromBlock maxQueryRange : ℤ} : Returns (c.fetchAndProcessLogs node fromBlock toBlock maxQueryRange) := by
  refine returns_bind.mpr ⟨returns_wrapping, fun logs hlogs => ?_⟩
  obtain ⟨_, -, hlogs⟩ := except_bind_eq_ok.mp (wrapping_eq_ok.mp hlogs)
  refine returns_bind.mpr ⟨returns_wrapFault.mpr ?_, fun _ _ => returns_ok _⟩
  exact returns_processLoop hdenom (h _ _ _ hlogs)

theorem run_upto_ne_panic (hdenom : isValidDenom c.seqBridgeDenom) {nodes : List EthRpcClient.Response}
    (hreadable : Readable c nodes) {text : GoString} {st' : EventStore} :
    (fetchAndStoreLogsUptoBlock c toBlock nodes).run st ≠ .error (.panic text) st' := by
  induction nodes generalizing st with
  | nil =>
    intro h
    cases h
  | cons node nodes ih =>
    intro h
    unfold fetchAndStoreLogsUptoBlock at h
    rcases run_bind_eq_error.mp h with hturn | ⟨last, t, -, hrest⟩
    · obtain ⟨hfetch, -⟩ := EventStore.run_fetchAndStoreLogs_eq_error hturn
      exact EthRpcClient.returns_fetchAndProcessLogs hdenom (hreadable node List.mem_cons_self) _ hfetch
    · split_ifs at hrest
      · cases hrest
      · exact ih (fun n hn => hreadable n (List.mem_cons_of_mem _ hn)) hrest

end Loop

/-- The loop ended after as many queries as the blocks need: with the target as the last block, or with an
error and the last block of the ranges before the one that failed. -/
structure EndedUpto (st : EventStore) (toBlock : ℤ) (rs : List (ℤ × ℤ))
    (result : EStateM.Result (Fault GoString) EventStore Bool) : Prop where
  count : (rs.length : ℤ) ≤ ⌈((toBlock - st.lastSyncedBlock : ℤ) : ℚ) / st.maxQueryRange⌉
  ended : (∃ st', result = .ok true st' ∧ st'.lastSyncedBlock = toBlock ∧
      Tiles st.maxQueryRange (st.lastSyncedBlock + 1) rs toBlock) ∨
    ∃ err st' done r, result = .error (.err err) st' ∧ rs = done ++ [r] ∧
      Tiles st.maxQueryRange (st.lastSyncedBlock + 1) done st'.lastSyncedBlock ∧
      Tiles st.maxQueryRange (st.lastSyncedBlock + 1) rs r.2
  disjoint : rs.Pairwise fun a b => a.2 < b.1
  length_le : ∀ r ∈ rs, r.1 ≤ r.2 ∧ r.2 < r.1 + st.maxQueryRange
  covers : ∃ last, last ≤ toBlock ∧ ∀ n, (∃ r ∈ rs, r.1 ≤ n ∧ n ≤ r.2) ↔ st.lastSyncedBlock + 1 ≤ n ∧ n ≤ last

/-- With answers whose logs can be read the loop ends in time, at the target or with a returned error. -/
theorem fetch_ends_upto_block {c : EthRpcClient} {toBlock : ℤ} {st : EventStore} {nodes : List EthRpcClient.Response}
    (hdenom : isValidDenom c.seqBridgeDenom) (hreadable : Readable c nodes) (hlast : st.lastSyncedBlock < toBlock)
    (hrange : 1 ≤ st.maxQueryRange)
    (hlong : ⌈((toBlock - st.lastSyncedBlock : ℤ) : ℚ) / st.maxQueryRange⌉ ≤ (nodes.length : ℤ)) :
    EndedUpto st toBlock (queriedRanges c toBlock nodes st) ((fetchAndStoreLogsUptoBlock c toBlock nodes).run st) := by
  have hpos : (0 : ℚ) < st.maxQueryRange := by exact_mod_cast hrange
  obtain ⟨hcount, hupto⟩ := upto_of_run (c := c) nodes hlast hrange
  have hpanic : ∀ text st', (fetchAndStoreLogsUptoBlock c toBlock nodes).run st ≠ .error (.panic text) st' :=
    fun _ _ => run_upto_ne_panic hdenom hreadable
  have hceil : ((queriedRanges c toBlock nodes st).length : ℤ) ≤
      ⌈((toBlock - st.lastSyncedBlock : ℤ) : ℚ) / st.maxQueryRange⌉ := by
    rw [Int.le_ceil_iff, lt_div_iff₀ hpos]
    have hcast : ((queriedRanges c toBlock nodes st).length : ℤ) * st.maxQueryRange - st.maxQueryRange <
      toBlock - st.lastSyncedBlock := by linarith
    have hcast' : (((queriedRanges c toBlock nodes st).length : ℤ) * st.maxQueryRange - st.maxQueryRange : ℚ) <
      ((toBlock - st.lastSyncedBlock : ℤ) : ℚ) := by exact_mod_cast hcast
    linarith
  generalize (fetchAndStoreLogsUptoBlock c toBlock nodes).run st = result at hupto hpanic ⊢
  cases hupto with
  | reached hend htiles =>
    exact ⟨hceil, .inl ⟨_, rfl, hend, htiles⟩, htiles.disjoint, fun r hr => htiles.mem hr,
      _, le_refl _, htiles.covers⟩
  | @failed st' e done r hend hle hdone htiles =>
    cases e with
    | err text =>
      exact ⟨hceil, .inr ⟨text, st', done, r, rfl, hend, hdone, htiles⟩, htiles.disjoint, fun r hr => htiles.mem hr,
        _, hle, htiles.covers⟩
    | panic text => exact absurd rfl (hpanic text st')
  | waiting hfew =>
    -- the answers would have been enough
    exfalso
    have henough := Int.ceil_le.mp hlong
    rw [div_le_iff₀ hpos] at henough
    have hcast : toBlock - st.lastSyncedBlock ≤ (nodes.length : ℤ) * st.maxQueryRange := by exact_mod_cast henough
    omega

theorem hasTopics_depositLog (block : UInt64) (amount lockup : ℕ) :
    Reference.client.HasTopics (Reference.depositLog block amount lockup) := by
  refine ⟨_, rfl, fun kind hkind _ => ?_⟩
  have hdeposit : Reference.client.kindOf (Reference.signatureHash .deposit) = some .deposit := by decide +kernel
  obtain rfl := Option.some.inj (hdeposit.symm.trans hkind)
  exact le_refl 3

/-- Three blocks in ranges of two, from a node that answers twice. -/
theorem fetch_ends_upto_block_three :
    EndedUpto (newEventStore 1 2) 3
      (queriedRanges Reference.client 3 (List.replicate 2 (Reference.nodeOf (Reference.oneDeposit 2 5))) (newEventStore 1 2))
      ((fetchAndStoreLogsUptoBlock Reference.client 3
        (List.replicate 2 (Reference.nodeOf (Reference.oneDeposit 2 5)))).run (newEventStore 1 2)) := by
  have hreadable : Readable Reference.client (List.replicate 2 (Reference.nodeOf (Reference.oneDeposit 2 5))) := by
    intro node hnode first last logs hlogs log hlog _
    obtain rfl := List.eq_of_mem_replicate hnode
    obtain rfl := Except.ok.inj hlogs
    obtain ⟨n, -, hlog⟩ := List.mem_flatMap.mp hlog
    dsimp only [Reference.oneDeposit] at hlog
    split_ifs at hlog
    · rw [List.mem_singleton.mp hlog]
      exact hasTopics_depositLog _ _ _
    · cases hlog
  have hlong : ⌈((3 - (newEventStore 1 2).lastSyncedBlock : ℤ) : ℚ) / (newEventStore 1 2).maxQueryRange⌉ ≤
      ((List.replicate 2 (Reference.nodeOf (Reference.oneDeposit 2 5))).length : ℤ) := by
    rw [List.length_replicate]
    norm_num [newEventStore, Int.ceil_le]
  exact fetch_ends_upto_block (by decide +kernel) hreadable (by decide) (by decide) hlong

/-- A node that answers with a log without topics. -/
def anonymousNode : EthRpcClient.Response := fun _ _ => .ok [anonymousLog]

theorem fetch_panics_on_anonymous_log :
    (newEventStore 1 2).lastSyncedBlock < 3 ∧ 1 ≤ (newEventStore 1 2).maxQueryRange ∧
      panicked ((fetchAndStoreLogsUptoBlock Reference.client 3 [anonymousNode, anonymousNode]).run (newEventStore 1 2)) =
        true := by
  decide +kernel

end FuelSequencer.Sidecar
