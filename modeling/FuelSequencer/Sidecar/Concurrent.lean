import FuelSequencer.Sidecar.Query

/-! # A query among fetches and calibrations

A query takes the lock three times: it looks for an entry, reads the lower bound and reads
the upper bound. The fetch loop adds the events and moves the upper bound in two critical
sections, and calibrations come in at any time. When the block is added between the first
and the last step of the query, the miss was taken before the upper bound that explains it.
-/
namespace FuelSequencer.Sidecar
open Go Wire Exec Lib Bridge Wiring

/-- Where the fetch loop is; it is the only one. -/
inductive Fetcher where
  | idle
  | fetched (first last : ℤ) (eventsMap : EventsMap)
  | added (last : ℤ)

inductive QueryPhase where
  | ready
  | missed
  | started (startQueryBlock : ℤ)
  | answered (result : Except GoString (List Event))

/-- The query has taken its first step and not its last one. -/
def QueryPhase.midway : QueryPhase → Bool
  | .missed | .started _ => true
  | _ => false

structure System where
  store : EventStore
  fetcher : Fetcher
  query : QueryPhase

inductive Action where
  | fetch
  | addEvents (first last : ℤ) (midway : Bool)
  | setLastSyncedBlock
  | calibrate (height : Option ℕ)
  | getStoredEvents
  | getStartQueryBlock
  | getNextQueryBlock
deriving DecidableEq

def firstPhase (st : EventStore) (b : ℕ) : QueryPhase :=
  match st.getStoredEvents b with
  | some events => .answered (.ok events)
  | none => .missed

/-- One critical section, or an answer of the node to the fetch loop. A failed fetch leaves
the loop where it was. -/
inductive SystemStep (c : EthRpcClient) (H : History) (b : ℕ) : System → Action → System → Prop where
  | fetch {st : EventStore} {q : QueryPhase} {node : EthRpcClient.Response} {toBlock last : ℤ} {m : EventsMap}
      (answers : H.Answers node)
      (fetched : c.fetchAndProcessLogs node st.getNextQueryBlock toBlock st.maxQueryRange = .ok (m, last)) :
      SystemStep c H b ⟨st, .idle, q⟩ .fetch ⟨st, .fetched st.getNextQueryBlock last m, q⟩
  | addEvents (st : EventStore) (first last : ℤ) (m : EventsMap) (q : QueryPhase) :
      SystemStep c H b ⟨st, .fetched first last m, q⟩ (.addEvents first last q.midway)
        ⟨st.addEvents m, .added last, q⟩
  | setLastSyncedBlock (st : EventStore) (last : ℤ) (q : QueryPhase) :
      SystemStep c H b ⟨st, .added last, q⟩ .setLastSyncedBlock ⟨st.setLastSyncedBlock last, .idle, q⟩
  | calibrate (st : EventStore) (f : Fetcher) (q : QueryPhase) (height : Option ℕ) :
      SystemStep c H b ⟨st, f, q⟩ (.calibrate height) ⟨st.calibrateBlocksAndPruneLogs height, f, q⟩
  | getStoredEvents (st : EventStore) (f : Fetcher) :
      SystemStep c H b ⟨st, f, .ready⟩ .getStoredEvents ⟨st, f, firstPhase st b⟩
  | getStartQueryBlock (st : EventStore) (f : Fetcher) :
      SystemStep c H b ⟨st, f, .missed⟩ .getStartQueryBlock ⟨st, f, .started st.startQueryBlock⟩
  | getNextQueryBlock (st : EventStore) (f : Fetcher) (start : ℤ) :
      SystemStep c H b ⟨st, f, .started start⟩ .getNextQueryBlock
        ⟨st, f, .answered (EventStore.missing start st.getNextQueryBlock b)⟩

/-- Without other steps in between, the phases compute the query. -/
theorem queryBlockEvents_phases (st : EventStore) (b : ℕ) :
    firstPhase st b = .answered (st.queryBlockEvents b) ∨
      firstPhase st b = .missed ∧
        EventStore.missing st.startQueryBlock st.getNextQueryBlock b = st.queryBlockEvents b := by
  have hb : ¬ (b : ℤ) < 0 := by omega
  rw [EventStore.queryBlockEvents, failIf_of_not hb, ok_bind, firstPhase]
  cases st.getStoredEvents b with
  | some events => exact Or.inl rfl
  | none => exact Or.inr ⟨rfl, rfl⟩

/-- The block's range was added. -/
def Added (b : ℕ) (actions : List Action) : Prop :=
  ∃ first last midway, Action.addEvents first last midway ∈ actions ∧ first ≤ b ∧ b ≤ last

/-- The block's range was added in the middle of the query. -/
def Raced (b : ℕ) (actions : List Action) : Prop :=
  ∃ first last, Action.addEvents first last true ∈ actions ∧ first ≤ b ∧ b ≤ last

variable {c : EthRpcClient} {H : History} {b : ℕ} {actions : List Action} {a : Action} {sys sys' : System}

theorem added_snoc : Added b (actions ++ [a]) ↔
    Added b actions ∨ ∃ first last midway, a = .addEvents first last midway ∧ first ≤ b ∧ b ≤ last := by
  simp only [Added, List.mem_append, List.mem_singleton]
  constructor
  · rintro ⟨first, last, midway, hmem | rfl, hin⟩
    · exact Or.inl ⟨first, last, midway, hmem, hin⟩
    · exact Or.inr ⟨first, last, midway, rfl, hin⟩
  · rintro (⟨first, last, midway, hmem, hin⟩ | ⟨first, last, midway, rfl, hin⟩)
    · exact ⟨first, last, midway, Or.inl hmem, hin⟩
    · exact ⟨first, last, midway, Or.inr rfl, hin⟩

theorem raced_snoc : Raced b (actions ++ [a]) ↔
    Raced b actions ∨ ∃ first last, a = .addEvents first last true ∧ first ≤ b ∧ b ≤ last := by
  simp only [Raced, List.mem_append, List.mem_singleton]
  constructor
  · rintro ⟨first, last, hmem | rfl, hin⟩
    · exact Or.inl ⟨first, last, hmem, hin⟩
    · exact Or.inr ⟨first, last, rfl, hin⟩
  · rintro (⟨first, last, hmem, hin⟩ | ⟨first, last, rfl, hin⟩)
    · exact ⟨first, last, Or.inl hmem, hin⟩
    · exact ⟨first, last, Or.inr rfl, hin⟩

/-- What the fetch loop still has to do agrees with what was added. -/
def Fetcher.Agrees (c : EthRpcClient) (H : History) (b : ℕ) (added : Prop) (lastSyncedBlock : ℤ) :
    Fetcher → Prop
  | .idle => added → b ≤ lastSyncedBlock
  | .fetched first last m => 0 ≤ last ∧ (b < first ↔ added) ∧
      (m.get b = if first ≤ b ∧ b ≤ last then entryOf (H.events c b) else none) ∧ first ≤ last
  | .added last => 0 ≤ last ∧ (b ≤ last ↔ added)

def QueryPhase.Agrees (events : List Event) (added raced : Prop) : QueryPhase → Prop
  | .ready => ¬ raced
  | .missed | .started _ => added → events = [] ∨ raced
  | .answered (.ok answer) => answer = events ∧ ¬ raced ∨ answer = [] ∧ (events = [] ∨ raced)
  | .answered (.error _) => True

/-- The state of affairs about one block that no reported height reaches. -/
structure Watched (c : EthRpcClient) (H : History) (b : ℕ) (added raced : Prop) (sys : System) : Prop where
  held : added → sys.store.blocksMap.get b = blockOf b (H.events c b)
  absent : ¬ added → sys.store.blocksMap.get b = none
  synced : b ≤ sys.store.lastSyncedBlock → added
  nonneg : 0 ≤ sys.store.lastSyncedBlock + 1
  fetcher : sys.fetcher.Agrees c H b added sys.store.lastSyncedBlock
  query : sys.query.Agrees (H.events c b) added raced

/-- Only the step that adds events changes what was added. -/
theorem quiet (h : ∀ first last midway, a ≠ .addEvents first last midway) :
    Added b (actions ++ [a]) = Added b actions ∧ Raced b (actions ++ [a]) = Raced b actions := by
  constructor
  · refine propext (added_snoc.trans (or_iff_left ?_))
    rintro ⟨first, last, midway, ha, -⟩
    exact h first last midway ha
  · refine propext (raced_snoc.trans (or_iff_left ?_))
    rintro ⟨first, last, ha, -⟩
    exact h first last true ha

theorem watched_new {start : ℤ} (hstart : 0 ≤ start) (hb : start ≤ b) (maxQueryRange : ℤ) :
    Watched c H b (Added b []) (Raced b []) ⟨newEventStore start maxQueryRange, .idle, .ready⟩ := by
  have hadded : ¬ Added b [] := by
    rintro ⟨_, _, _, hmem, -⟩
    cases hmem
  have hraced : ¬ Raced b [] := by
    rintro ⟨_, _, hmem, -⟩
    cases hmem
  refine ⟨fun h => absurd h hadded, fun _ => rfl, fun h => ?_, ?_, fun h => absurd h hadded, hraced⟩
  · change (b : ℤ) ≤ start - 1 at h
    omega
  · change 0 ≤ start - 1 + 1
    omega

/-- A block above the reported height is not touched. -/
theorem get_calibrate_of_lt {st : EventStore} {height : ℕ} (h : height < b) :
    (st.calibrateBlocksAndPruneLogs (some height)).blocksMap.get b = st.blocksMap.get b := by
  rw [EventStore.calibrateBlocksAndPruneLogs]
  cases hrange : (st.fastForward height).pruneRange height with
  | none => exact congrArg (Table.get · b) (st.fastForward_blocksMap height)
  | some range =>
    obtain ⟨lo, hi⟩ := range
    obtain ⟨-, -, -, -, hhi⟩ := EventStore.pruneRange_eq_some hrange
    have hout : ¬(lo ≤ b ∧ b ≤ hi) := by
      have hle : uint64 height ≤ height := by
        unfold uint64
        omega
      omega
    change ((st.fastForward height).blocksMap.keep _).get b = _
    rw [Table.get_keep]
    simp [hout]

theorem Fetcher.Agrees.mono {f : Fetcher} {added : Prop} {l l' : ℤ} (h : f.Agrees c H b added l) (hl : l ≤ l') :
    f.Agrees c H b added l' := by
  cases f with
  | idle => exact fun ha => le_trans (h ha) hl
  | fetched first last m => exact h
  | added last => exact h

/-- The first step of the query sees the block exactly as it was added. -/
theorem firstPhase_agrees {st : EventStore} {added raced : Prop} (hb : b < 2 ^ 64)
    (held : added → st.blocksMap.get b = blockOf b (H.events c b))
    (absent : ¬ added → st.blocksMap.get b = none) (hraced : ¬ raced) :
    (firstPhase st b).Agrees (H.events c b) added raced := by
  have hkey : uint64 (b : ℤ) = b := uint64_natCast hb
  rw [firstPhase, EventStore.getStoredEvents, hkey]
  cases hget : st.blocksMap.get b with
  | some block =>
    refine Or.inl ⟨?_, hraced⟩
    have hadded : added := by
      by_contra hnot
      rw [absent hnot] at hget
      cases hget
    exact events_of_blockOf ((held hadded).symm.trans hget)
  | none =>
    intro hadded
    rw [held hadded, blockOf] at hget
    split at hget
    · next hnil => exact Or.inl hnil
    · cases hget

namespace Watched

variable {added raced : Prop}

theorem addEvents {st : EventStore} {first last : ℤ} {m : EventsMap} {q : QueryPhase}
    (h : Watched c H b added raced ⟨st, .fetched first last m, q⟩) :
    Watched c H b (added ∨ first ≤ b ∧ b ≤ last) (raced ∨ q.midway = true ∧ first ≤ b ∧ b ≤ last)
      ⟨st.addEvents m, .added last, q⟩ := by
  obtain ⟨held, absent, synced, nonneg, ⟨hlast, hadded, hmap, hle⟩, query⟩ := h
  dsimp only at held absent synced nonneg query
  -- the range meets the block at most once
  have hget : (st.addEvents m).blocksMap.get b =
      if first ≤ b ∧ b ≤ last then blockOf b (H.events c b) else st.blocksMap.get b := by
    by_cases hin : first ≤ b ∧ b ≤ last
    · have hnone := absent fun ha => absurd (hadded.mpr ha) (by omega)
      rw [if_pos hin] at hmap
      rw [EventStore.get_addEvents (Or.inl hnone), hmap, hnone, if_pos hin, Option.or_none, blockOf, entryOf]
      split <;> rfl
    · rw [if_neg hin] at hmap
      rw [EventStore.get_addEvents (Or.inr hmap), hmap, if_neg hin]
      rfl
  refine ⟨?_, ?_, fun h => Or.inl (synced h), nonneg, ⟨hlast, ?_⟩, ?_⟩
  · intro h
    dsimp only
    rw [hget]
    split
    · rfl
    · next hout => exact held (h.resolve_right hout)
  · intro h
    dsimp only
    rw [hget, if_neg fun hin => h (Or.inr hin)]
    exact absent fun ha => h (Or.inl ha)
  · rw [← hadded]
    omega
  · cases q with
    | ready =>
      rintro (hraced | ⟨hmid, -⟩)
      · exact query hraced
      · cases hmid
    | missed =>
      rintro (ha | hin)
      · exact (query ha).imp_right Or.inl
      · exact Or.inr (Or.inr ⟨rfl, hin⟩)
    | started start =>
      rintro (ha | hin)
      · exact (query ha).imp_right Or.inl
      · exact Or.inr (Or.inr ⟨rfl, hin⟩)
    | answered result =>
      cases result with
      | error _ => trivial
      | ok answer =>
        have hsame : (raced ∨ (QueryPhase.answered (.ok answer)).midway = true ∧ first ≤ b ∧ b ≤ last) = raced := by
          simp [QueryPhase.midway]
        rw [hsame]
        exact query

theorem calibrate {st : EventStore} {f : Fetcher} {q : QueryPhase}
    (h : Watched c H b added raced ⟨st, f, q⟩) {height : ℕ} (hheight : height < b) :
    Watched c H b added raced ⟨st.calibrateBlocksAndPruneLogs (some height), f, q⟩ := by
  obtain ⟨held, absent, synced, nonneg, fetcher, query⟩ := h
  dsimp only at held absent synced nonneg fetcher
  have hlast := st.lastSyncedBlock_calibrate height
  refine ⟨?_, ?_, fun hle => synced ?_, ?_, fetcher.mono ?_, query⟩
  · dsimp only
    rwa [get_calibrate_of_lt hheight]
  · dsimp only
    rwa [get_calibrate_of_lt hheight]
  · dsimp only at hle
    omega
  · dsimp only
    omega
  · dsimp only
    omega

theorem step (h : Watched c H b (Added b actions) (Raced b actions) sys) (hb : b < 2 ^ 64)
    (hstep : SystemStep c H b sys a sys') (hheight : ∀ height, a = .calibrate (some height) → height < b) :
    Watched c H b (Added b (actions ++ [a])) (Raced b (actions ++ [a])) sys' := by
  have hquiet := @quiet b actions a
  cases hstep with
  | @fetch st _ _ _ last m hnode hfetched =>
    obtain ⟨hadded, hraced⟩ := hquiet (by simp)
    rw [hadded, hraced]
    obtain ⟨held, absent, synced, nonneg, fetcher, query⟩ := h
    obtain ⟨-, hle, hof⟩ := EthRpcClient.fetchAndProcessLogs_eq_ok hnode nonneg hfetched
    refine ⟨held, absent, synced, nonneg, ⟨?_, ?_, ?_, hle⟩, query⟩
    · exact le_trans nonneg hle
    · exact ⟨fun hlt => synced (Int.le_of_lt_add_one hlt), fun ha => Int.lt_add_one_of_le (fetcher ha)⟩
    · refine (hof b).trans ?_
      change entryOf (if st.getNextQueryBlock ≤ b ∧ b ≤ last then H.events c b else []) = _
      by_cases hin : st.getNextQueryBlock ≤ b ∧ b ≤ last
      · rw [if_pos hin, if_pos hin]
      · rw [if_neg hin, if_neg hin]
        rfl
  | addEvents st first last m q =>
    have hadded : Added b (actions ++ [.addEvents first last q.midway]) =
        (Added b actions ∨ first ≤ b ∧ b ≤ last) := by
      rw [added_snoc]
      simp
    have hraced : Raced b (actions ++ [.addEvents first last q.midway]) =
        (Raced b actions ∨ q.midway = true ∧ first ≤ b ∧ b ≤ last) := by
      rw [raced_snoc]
      simp
    rw [hadded, hraced]
    exact h.addEvents
  | setLastSyncedBlock st last q =>
    obtain ⟨hadded, hraced⟩ := hquiet (by simp)
    rw [hadded, hraced]
    obtain ⟨held, absent, -, -, ⟨hlast, hiff⟩, query⟩ := h
    refine ⟨held, absent, hiff.mp, ?_, hiff.mpr, query⟩
    change 0 ≤ last + 1
    omega
  | calibrate st f q height =>
    obtain ⟨hadded, hraced⟩ := hquiet (by simp)
    rw [hadded, hraced]
    cases height with
    | none => exact h
    | some height => exact h.calibrate (hheight height rfl)
  | getStoredEvents st f =>
    obtain ⟨hadded, hraced⟩ := hquiet (by simp)
    rw [hadded, hraced]
    obtain ⟨held, absent, synced, nonneg, fetcher, query⟩ := h
    exact ⟨held, absent, synced, nonneg, fetcher, firstPhase_agrees hb held absent query⟩
  | getStartQueryBlock st f =>
    obtain ⟨hadded, hraced⟩ := hquiet (by simp)
    rw [hadded, hraced]
    exact ⟨h.held, h.absent, h.synced, h.nonneg, h.fetcher, h.query⟩
  | getNextQueryBlock st f start =>
    obtain ⟨hadded, hraced⟩ := hquiet (by simp)
    rw [hadded, hraced]
    refine ⟨h.held, h.absent, h.synced, h.nonneg, h.fetcher, ?_⟩
    dsimp only
    cases hmissing : EventStore.missing start st.getNextQueryBlock b with
    | error _ => trivial
    | ok answer =>
      obtain ⟨⟨-, hlt⟩, rfl⟩ := missing_eq_ok hmissing
      exact Or.inr ⟨rfl, h.query (h.synced (Int.le_of_lt_add_one hlt))⟩

end Watched

/-! ## Queries after a fetch and during one -/

/-- The events of the first three blocks, the second with a deposit. -/
def referenceMap : EventsMap :=
  match Reference.client.fetchAndProcessLogs (Reference.nodeOf (Reference.oneDeposit 2 5)) 1 3 10 with
  | .ok (m, _) => m
  | .error _ => Table.empty

theorem referenceMap_fetched (q : QueryPhase) :
    SystemStep Reference.client (Reference.oneDeposit 2 5) 2 ⟨newEventStore 1 10, .idle, q⟩ .fetch
      ⟨newEventStore 1 10, .fetched 1 3 referenceMap, q⟩ := by
  have hfetched : Reference.client.fetchAndProcessLogs (Reference.nodeOf (Reference.oneDeposit 2 5))
      (newEventStore 1 10).getNextQueryBlock 3 (newEventStore 1 10).maxQueryRange = .ok (referenceMap, 3) := by
    decide +kernel
  exact SystemStep.fetch (Reference.nodeOf_answers _) hfetched

/-- The store after the fetch has ended. -/
def referenceAdded : EventStore := ((newEventStore 1 10).addEvents referenceMap).setLastSyncedBlock 3

theorem firstPhase_new : firstPhase (newEventStore 1 10) 2 = .missed := rfl

/-- A returned list is the block's events exactly when the block has none or was not added
in the middle of the query. -/
theorem query_exact_iff_not_raced {start : ℤ} (hstart : 0 ≤ start) {maxQueryRange : ℤ} (hb : b < 2 ^ 64)
    (hfrom : start ≤ b)
    (hrun : Runs (SystemStep c H b) ⟨newEventStore start maxQueryRange, .idle, .ready⟩ actions sys)
    (hreported : ∀ height, Action.calibrate (some height) ∈ actions → height < b) {events : List Event}
    (hquery : sys.query = .answered (.ok events)) :
    events = H.events c b ↔ H.events c b = [] ∨ ¬ Raced b actions := by
  have hinv := hrun.invariant
    (I := fun actions sys => (∀ height, Action.calibrate (some height) ∈ actions → height < b) →
      Watched c H b (Added b actions) (Raced b actions) sys)
    (fun _ => watched_new hstart hfrom maxQueryRange)
    (fun h hstep hall => (h fun height hmem => hall height (List.mem_append_left _ hmem)).step hb hstep
      fun height ha => hall height (by simp [ha]))
  have hagrees := (hinv hreported).query
  rw [hquery] at hagrees
  rcases hagrees with ⟨rfl, hnot⟩ | ⟨rfl, hempty⟩
  · simp [hnot]
  · constructor
    · intro h
      exact Or.inl h.symm
    · rintro (h | hnot)
      · exact h.symm
      · exact (hempty.resolve_right hnot).symm

theorem query_exact_iff_not_raced_reference :
    Runs (SystemStep Reference.client (Reference.oneDeposit 2 5) 2) ⟨newEventStore 1 10, .idle, .ready⟩
        [.fetch, .addEvents 1 3 false, .setLastSyncedBlock, .getStoredEvents]
        ⟨referenceAdded, .idle, firstPhase referenceAdded 2⟩ ∧
      ∃ events, firstPhase referenceAdded 2 = .answered (.ok events) ∧
        events = (Reference.oneDeposit 2 5).events Reference.client 2 := by
  have hrun : Runs (SystemStep Reference.client (Reference.oneDeposit 2 5) 2)
      ⟨newEventStore 1 10, .idle, .ready⟩ [.fetch, .addEvents 1 3 false, .setLastSyncedBlock, .getStoredEvents]
      ⟨referenceAdded, .idle, firstPhase referenceAdded 2⟩ :=
    Runs.cons (referenceMap_fetched _) (Runs.cons (.addEvents _ _ _ _ _)
      (Runs.cons (.setLastSyncedBlock _ _ _) (Runs.single (.getStoredEvents _ _))))
  obtain ⟨events, hevents⟩ := Option.isSome_iff_exists.mp
    (show (referenceAdded.getStoredEvents (2 : ℕ)).isSome by decide +kernel)
  have hphase : firstPhase referenceAdded 2 = .answered (.ok events) := by rw [firstPhase, hevents]
  refine ⟨hrun, events, hphase, ?_⟩
  refine (query_exact_iff_not_raced (by decide) (by decide) (by decide) hrun (by simp) hphase).mpr (Or.inr ?_)
  rintro ⟨first, last, hmem, -⟩
  simp at hmem

/-- A query that starts before the events are added and ends after the bound has moved. -/
theorem raced_query_answered_empty :
    Runs (SystemStep Reference.client (Reference.oneDeposit 2 5) 2) ⟨newEventStore 1 10, .idle, .ready⟩
        [.getStoredEvents, .fetch, .addEvents 1 3 true, .setLastSyncedBlock, .getStartQueryBlock,
          .getNextQueryBlock]
        ⟨referenceAdded, .idle, .answered (.ok [])⟩ ∧
      (Reference.oneDeposit 2 5).events Reference.client 2 ≠ [] := by
  have hmissing : EventStore.missing 1 referenceAdded.getNextQueryBlock (2 : ℕ) = .ok [] := by decide +kernel
  refine ⟨?_, by decide +kernel⟩
  refine Runs.cons (.getStoredEvents _ _) ?_
  rw [firstPhase_new]
  refine Runs.cons (referenceMap_fetched _) (Runs.cons (.addEvents _ _ _ _ _)
    (Runs.cons (.setLastSyncedBlock _ _ _) (Runs.cons (.getStartQueryBlock _ _) ?_)))
  rw [← hmissing]
  exact Runs.single (.getNextQueryBlock _ _ _)

end FuelSequencer.Sidecar
