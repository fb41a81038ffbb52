import FuelSequencer.Sidecar.Extraction

/-! # Which lists of logs are processed

The loop over the logs keeps the block, the transaction and the log index of the last log
that was not removed. It ends exactly if these logs are in order from the first block of the
query on and all of them can be extracted; its map then holds the events block by block.
-/
namespace FuelSequencer.Sidecar
open Go Wire Exec Lib Bridge Wiring

/-- The machine integers of the loop hold the indices. -/
structure Log.InRange (log : Log) : Prop where
  txIndex_lt : log.txIndex.toNat < 2 ^ 63
  index_lt : log.index.toNat < 2 ^ 63

/-- A later block, or the same one with the indices going on. -/
def Log.Follows (a b : Log) : Prop :=
  a.blockNumber.toNat < b.blockNumber.toNat ∨
    a.blockNumber.toNat = b.blockNumber.toNat ∧ a.txIndex.toNat ≤ b.txIndex.toNat ∧ a.index.toNat < b.index.toNat

def Position.Allows (p : Position) (log : Log) : Prop :=
  p.lastBlockNumber.toNat < log.blockNumber.toNat ∨
    p.lastBlockNumber.toNat = log.blockNumber.toNat ∧ p.lastTxIndex ≤ log.txIndex.toNat ∧
      p.lastLogIndex < log.index.toNat

/-- The position after a log. -/
def Log.position (log : Log) : Position := ⟨log.blockNumber, log.txIndex.toNat, log.index.toNat⟩

theorem Log.position_allows {a b : Log} : a.position.Allows b ↔ a.Follows b := by
  simp only [Position.Allows, Log.position, Log.Follows, Nat.cast_le, Nat.cast_lt]

theorem Position.Allows.trans {p : Position} {a b : Log} (h : p.Allows a) (hab : a.Follows b) : p.Allows b := by
  unfold Position.Allows Log.Follows at *
  omega

theorem int64_natCast {n : ℕ} (h : n < 2 ^ 63) : int64 n = n := by
  unfold int64
  exact Int.bmod_eq_of_le (by omega) (by omega)

/-- One step of the check. -/
theorem validateIsLogSequential_iff {log : Log} (hrange : log.InRange) {p q : Position} :
    validateIsLogSequential log p = .ok q ↔ p.Allows log ∧ log.position = q := by
  have htx := int64_natCast hrange.txIndex_lt
  have hindex := int64_natCast hrange.index_lt
  simp only [validateIsLogSequential, except_bind_eq_ok, failIf_eq_ok, exists_const, except_pure, Except.ok.injEq,
    htx, hindex, UInt64.lt_iff_toNat_lt, not_or, not_lt, not_le, ← and_assoc]
  refine and_congr ?_ Iff.rfl
  by_cases heq : log.blockNumber = p.lastBlockNumber
  · have hsame : p.entering log.blockNumber = p := if_neg (not_not.mpr heq)
    rw [hsame, heq, Position.Allows, heq]
    simp
  · have hnew : p.entering log.blockNumber = ⟨log.blockNumber, -1, -1⟩ := if_pos heq
    have hne : log.blockNumber.toNat ≠ p.lastBlockNumber.toNat := fun h => heq (UInt64.toNat_inj.mp h)
    rw [hnew, Position.Allows]
    dsimp only
    omega

namespace EthRpcClient

variable {c : EthRpcClient} {logs : List Log}

/-- The loop ends normally exactly if the logs that were not removed come in order after the
position and all of them can be extracted. -/
theorem processLoop_isOk_iff (hrange : ∀ log ∈ logs, log.removed = false → log.InRange) {p : Position} {m : EventsMap} :
    (∃ result, c.processLoop p m logs = .ok result) ↔
      (∀ log ∈ logs.filter (!·.removed), p.Allows log) ∧ (logs.filter (!·.removed)).Pairwise Log.Follows ∧
      ∀ log ∈ logs.filter (!·.removed), ∃ event, c.extractLogDataToEvent log = .ok event := by
  induction logs generalizing p m with
  | nil => simp [processLoop]
  | cons log logs ih =>
    have hrest := fun l hl => hrange l (List.mem_cons_of_mem _ hl)
    unfold processLoop
    by_cases hr : log.removed
    · rw [if_pos hr, List.filter_cons_of_neg (by simp [hr])]
      exact ih hrest
    · rw [if_neg hr, List.filter_cons_of_pos (by simp [hr])]
      have hlog := hrange log List.mem_cons_self (by simpa using hr)
      constructor
      · rintro ⟨result, h⟩
        obtain ⟨next, hnext, h⟩ := except_bind_eq_ok.mp h
        obtain ⟨event, hevent, h⟩ := except_bind_eq_ok.mp h
        obtain ⟨hallows, rfl⟩ := (validateIsLogSequential_iff hlog).mp (wrapping_eq_ok.mp hnext)
        have hloop : ∃ m', c.processLoop log.position m' logs = .ok result := by
          cases event with
          | none => exact ⟨m, h⟩
          | some event => exact ⟨_, h⟩
        obtain ⟨m', hloop⟩ := hloop
        obtain ⟨hall, hpair, hextract⟩ := (ih hrest).mp ⟨result, hloop⟩
        have hfollows : ∀ l ∈ logs.filter (!·.removed), log.Follows l :=
          fun l hl => Log.position_allows.mp (hall l hl)
        refine ⟨?_, List.pairwise_cons.mpr ⟨hfollows, hpair⟩, ?_⟩
        · intro l hl
          rcases List.mem_cons.mp hl with rfl | hl
          · exact hallows
          · exact hallows.trans (hfollows l hl)
        · intro l hl
          rcases List.mem_cons.mp hl with rfl | hl
          · exact ⟨event, wrapFault_eq_ok.mp hevent⟩
          · exact hextract l hl
      · rintro ⟨hall, hpair, hextract⟩
        obtain ⟨hfollows, hpair⟩ := List.pairwise_cons.mp hpair
        obtain ⟨event, hevent⟩ := hextract log List.mem_cons_self
        have hnext : validateIsLogSequential log p = .ok log.position :=
          (validateIsLogSequential_iff hlog).mpr ⟨hall log List.mem_cons_self, rfl⟩
        have hloop : ∀ m', ∃ result, c.processLoop log.position m' logs = .ok result := fun m' =>
          (ih hrest).mpr ⟨fun l hl => Log.position_allows.mpr (hfollows l hl), hpair,
            fun l hl => hextract l (List.mem_cons_of_mem _ hl)⟩
        rw [hnext, hevent]
        cases event with
        | none => exact hloop m
        | some event => exact hloop _

end EthRpcClient

/-- The order of the logs of a query: blocks from the first one on, not decreasing, and within a block
transaction indices that do not decrease and log indices that increase. -/
structure InOrder (fromBlock : ℕ) (logs : List Log) : Prop where
  from_le : ∀ log ∈ logs, fromBlock ≤ log.blockNumber.toNat
  blocks : logs.Pairwise fun a b => a.blockNumber.toNat ≤ b.blockNumber.toNat
  indices : logs.Pairwise fun a b => a.blockNumber.toNat = b.blockNumber.toNat →
    a.txIndex.toNat ≤ b.txIndex.toNat ∧ a.index.toNat < b.index.toNat

theorem inOrder_iff {fromBlock : ℕ} {logs : List Log} :
    InOrder fromBlock logs ↔ (∀ log ∈ logs, fromBlock ≤ log.blockNumber.toNat) ∧ logs.Pairwise Log.Follows := by
  have hfollows : ∀ a b : Log, a.Follows b ↔ a.blockNumber.toNat ≤ b.blockNumber.toNat ∧
      (a.blockNumber.toNat = b.blockNumber.toNat → a.txIndex.toNat ≤ b.txIndex.toNat ∧ a.index.toNat < b.index.toNat) := by
    intro a b
    unfold Log.Follows
    omega
  constructor
  · rintro ⟨hfrom, hblocks, hindices⟩
    exact ⟨hfrom, hblocks.imp₂ (fun a b h₁ h₂ => (hfollows a b).mpr ⟨h₁, h₂⟩) hindices⟩
  · rintro ⟨hfrom, hpair⟩
    exact ⟨hfrom, hpair.imp fun h => ((hfollows _ _).mp h).1, hpair.imp fun h => ((hfollows _ _).mp h).2⟩

/-! ## Processing the logs of a query -/

namespace EthRpcClient

variable {c : EthRpcClient} {logs : List Log} {log : Log}

/-- The first topic is the signature of a kind. -/
def Recognised (c : EthRpcClient) (log : Log) : Prop :=
  ∃ topic kind, log.topics[0]? = some topic ∧ c.kindOf topic = some kind

/-- With a first topic only a recognised log can fail. -/
theorem extracted_iff_of_topics (htopics : log.topics ≠ []) : (∃ event, c.extractLogDataToEvent log = .ok event) ↔
    (c.Recognised log → ∃ e, c.extractLogDataToEvent log = .ok (some e)) := by
  obtain ⟨topic, rest, hcons⟩ := List.exists_cons_of_ne_nil htopics
  have htopic : log.topics[0]? = some topic := by rw [hcons]; rfl
  constructor
  · rintro ⟨event, hevent⟩ ⟨topic', kind, htopic', hkind⟩
    cases event with
    | some e => exact ⟨e, hevent⟩
    | none =>
      -- a recognised log never ends without an event
      exfalso
      obtain ⟨t, ht, h⟩ := except_bind_eq_ok.mp hevent
      obtain rfl : t = topic' := Option.some.inj ((required_eq_ok.mp ht).symm.trans htopic')
      rw [hkind] at h
      obtain ⟨r, -, h⟩ := except_bind_eq_ok.mp h
      cases h
  · intro h
    cases hkind : c.kindOf topic with
    | none =>
      refine ⟨none, ?_⟩
      rw [extractLogDataToEvent, Log.topicAt, htopic]
      simp only [required, ok_bind, hkind]
      rfl
    | some kind =>
      obtain ⟨e, he⟩ := h ⟨topic, kind, htopic, hkind⟩
      exact ⟨some e, he⟩

theorem logIndex_of_extracted {e : Event} (h : c.extracted log = some e) : e.logIndex = log.index := by
  have hextract : c.extractLogDataToEvent log = .ok (some e) := by
    unfold extracted at h
    split at h
    · next heq => rw [heq, h]
    · cases h
  obtain ⟨-, -, r, -, -, -, rfl⟩ := extractLogDataToEvent_eq_some.mp hextract
  rfl

/-- The events of a block come in the order of their log indices. -/
theorem logIndex_eventsOf (h : logs.Pairwise Log.Follows) (n : ℕ) :
    ((c.eventsOf n logs).map Event.logIndex).Pairwise (· < ·) := by
  unfold eventsOf
  rw [List.pairwise_map, List.pairwise_filterMap, List.pairwise_filter]
  refine h.imp fun {a b} hab ha hb e he e' he' => ?_
  rw [decide_eq_true_eq] at ha hb
  rw [logIndex_of_extracted he, logIndex_of_extracted he', UInt64.lt_iff_toNat_lt]
  unfold Log.Follows at hab
  omega

/-- The logs of a query are processed exactly if those that were not removed are in order and the recognised
ones among them can be extracted; the map then holds their events, block by block and each of them once. -/
theorem processLogs_iff {fromBlock : ℕ} (hfrom : fromBlock < 2 ^ 64)
    (hrange : ∀ log ∈ logs, log.removed = false → log.InRange)
    (htopics : ∀ log ∈ logs, log.removed = false → log.topics ≠ []) :
    ((∃ m, c.processLogs logs fromBlock = .ok m) ↔ InOrder fromBlock (logs.filter (!·.removed)) ∧
      ∀ log ∈ logs.filter (!·.removed), c.Recognised log → ∃ e, c.extractLogDataToEvent log = .ok (some e)) ∧
    ∀ m, c.processLogs logs fromBlock = .ok m → ∀ n, m.get n = entryOf (c.eventsOf n (logs.filter (!·.removed))) ∧
      ((c.eventsOf n (logs.filter (!·.removed))).map Event.logIndex).Pairwise (· < ·) := by
  have hstart : (UInt64.ofNat (uint64 fromBlock)).toNat = fromBlock := by
    rw [uint64_natCast hfrom, UInt64.toNat_ofNat_of_lt' hfrom]
  have hallows : ∀ log : Log, (⟨UInt64.ofNat (uint64 fromBlock), -1, -1⟩ : Position).Allows log ↔
      fromBlock ≤ log.blockNumber.toNat := by
    intro log
    unfold Position.Allows
    dsimp only
    rw [hstart]
    omega
  have hkept : ∀ log ∈ logs.filter (!·.removed), log ∈ logs ∧ log.removed = false := by
    intro log hlog
    simpa using List.mem_filter.mp hlog
  constructor
  · rw [processLogs, processLoop_isOk_iff hrange, inOrder_iff, and_assoc]
    refine and_congr (forall₂_congr fun log _ => hallows log) (and_congr_right fun _ => forall₂_congr fun log hlog => ?_)
    exact extracted_iff_of_topics (htopics log (hkept log hlog).1 (hkept log hlog).2)
  · intro m hm n
    have hempty : EventsMap.Of Table.empty fun _ => [] := fun _ => rfl
    obtain ⟨-, -, hof⟩ := processLoop_eq_ok (le_refl _) hempty hm
    obtain ⟨-, hpair, -⟩ := (processLoop_isOk_iff hrange).mp ⟨m, hm⟩
    refine ⟨by simpa using hof n, logIndex_eventsOf hpair n⟩

end EthRpcClient

/-- A transfer and a deposit of one block with a removed log between them. -/
def threeLogs : List Log :=
  [transferLog, { transferLog with removed := true, blockNumber := 9 }, { Reference.depositLog 1 5 0 with index := 4 }]

theorem processLogs_threeLogs : ∃ m, Reference.client.processLogs threeLogs (1 : ℕ) = .ok m ∧
    m.get 1 = entryOf (Reference.client.eventsOf 1 (threeLogs.filter (!·.removed))) ∧
    (Reference.client.eventsOf 1 (threeLogs.filter (!·.removed))).length = 2 := by
  have hrange : ∀ log ∈ threeLogs, log.removed = false → log.InRange := by
    intro log hlog _
    simp only [threeLogs, List.mem_cons, List.not_mem_nil, or_false] at hlog
    rcases hlog with rfl | rfl | rfl <;> exact ⟨by decide, by decide⟩
  have htopics : ∀ log ∈ threeLogs, log.removed = false → log.topics ≠ [] := by
    intro log hlog _
    simp only [threeLogs, List.mem_cons, List.not_mem_nil, or_false] at hlog
    rcases hlog with rfl | rfl | rfl <;> exact List.cons_ne_nil _ _
  obtain ⟨m, hm⟩ : ∃ m, Reference.client.processLogs threeLogs (1 : ℕ) = .ok m := exists_of_isOk (by decide +kernel)
  exact ⟨m, hm, ((EthRpcClient.processLogs_iff (by decide) hrange htopics).2 m hm 1).1, by decide +kernel⟩

end FuelSequencer.Sidecar
