import FuelSequencer.Abci.Chain

/-! # Sequences of injected transactions

Event transactions take their sequences when the whole Ethereum block is generated,
before the events delivered earlier are cut off, but the counter advances by what is
injected. As long as no block starts in the middle of an Ethereum block the two agree,
and no sequence and no transaction is ever used twice.
-/
namespace FuelSequencer.Abci
open Go Wire Exec Lib Bridge Wiring

variable {W : Type} {app : App W}

/-- The sequence that a raw transaction carries. -/
def sequenceOf (txBz : Bytes) : Option UInt64 := (readRawTx txBz).map fun r => r.2.1

@[simp] theorem sequenceOf_raw (anys : List Any) (q : UInt64) :
    sequenceOf (validRawTxBytesFromAnyMsgs anys q) = some q := by
  rw [sequenceOf, readRawTx_encode]
  rfl

/-! ## Ranges of sequences -/

/-- The `count` sequences after `n`. -/
def sequencesAfter (n count : ℕ) : List (Option UInt64) :=
  (List.range' (n + 1) count).map fun k => some (UInt64.ofNat k)

theorem sequencesAfter_append (n a b : ℕ) :
    sequencesAfter n a ++ sequencesAfter (n + a) b = sequencesAfter n (a + b) := by
  have hstart : n + a + 1 = n + 1 + a := by omega
  rw [sequencesAfter, sequencesAfter, sequencesAfter, ← List.map_append, ← List.range'_append_1, hstart]

theorem sequencesAfter_succ (n a : ℕ) :
    sequencesAfter n (a + 1) = some (UInt64.ofNat (n + 1)) :: sequencesAfter (n + 1) a := by
  rw [sequencesAfter, List.range'_succ, List.map_cons]
  rfl

theorem nodup_sequencesAfter {n count : ℕ} (h : n + count < 2 ^ 64) : (sequencesAfter n count).Nodup := by
  refine List.Nodup.map_on ?_ List.nodup_range'
  intro x hx y hy heq
  rw [List.mem_range'_1] at hx hy
  have hnat := congrArg UInt64.toNat (Option.some.inj heq)
  rwa [UInt64.toNat_ofNat_of_lt' (show x < 2 ^ 64 by omega),
    UInt64.toNat_ofNat_of_lt' (show y < 2 ^ 64 by omega)] at hnat

/-! ## The sequences of a block -/

theorem sequenceOf_generated {v : View} {params : Params} {events : List Event} {gen : List Bytes}
    (h : v.generated app params events = .ok gen) {i : ℕ} {txBz : Bytes} (hi : gen[i]? = some txBz) :
    sequenceOf txBz = some (v.firstEventTxsSequence + UInt64.ofNat i) := by
  obtain ⟨hlen, hall⟩ := eventTxsFrom_eq_ok.mp h
  obtain ⟨hlt, -⟩ := List.getElem?_eq_some_iff.mp hi
  have hmade := hall i _ txBz (List.getElem?_eq_getElem (hlen ▸ hlt)) hi
  obtain ⟨anys, rfl, -⟩ := eventTx_eq_ok hmade
  exact sequenceOf_raw anys _

/-- The sequences of the delivered transactions count from the head of the Ethereum block. -/
theorem Accepted.sequences_events {sidecar : Sidecar} {s : State W} {maxGas : Option Int64} {time : Time}
    {v : View} {txs : List Bytes} {m : UInt64} {full : Bool}
    (h : Accepted app sidecar s maxGas time v txs m full) :
    ((txs.drop 1).take m.toNat).map sequenceOf = (List.range m.toNat).map fun i =>
      some (v.firstEventTxsSequence + UInt64.ofNat (v.offset.toNat + i)) := by
  obtain ⟨hlen, -⟩ := h.length_events
  rcases h.events with hno | ⟨response, gen, hsync⟩
  · rw [hno.count]
    rfl
  · refine List.ext_getElem? fun i => ?_
    have hcount := hsync.count_le
    rw [hsync.events, List.getElem?_map, List.getElem?_map]
    by_cases hi : i < m.toNat
    · obtain ⟨txBz, htx⟩ : ∃ txBz, gen[v.offset.toNat + i]? = some txBz :=
        ⟨_, List.getElem?_eq_getElem (by omega)⟩
      rw [List.getElem?_take_of_lt hi, List.getElem?_drop, List.getElem?_range hi, htx]
      exact congrArg some (sequenceOf_generated hsync.generated htx)
    · rw [List.getElem?_eq_none (by rw [List.length_take]; omega),
        List.getElem?_eq_none (by rw [List.length_range]; omega)]
      rfl

/-- From the head of an Ethereum block on, a block uses exactly the sequences after the
counter, one for each injected transaction. -/
theorem Accepted.sequences_injected {sidecar : Sidecar} {s : State W} {maxGas : Option Int64} {time : Time}
    {v : View} {txs : List Bytes} {m : UInt64} {full : Bool}
    (h : Accepted app sidecar s maxGas time v txs m full) (hoffset : v.offset = 0) :
    ((v.injected app m full ((txs.drop 1).take m.toNat)).map sequenceOf).Perm
      (sequencesAfter v.sequence.toNat (1 + (v.total m).toNat)) := by
  obtain ⟨-, hm⟩ := h.length_events
  have hindex : sequenceOf (v.indexTx app m full) = some (UInt64.ofNat (v.sequence.toNat + 1)) := by
    rw [View.indexTx, MsgIndex.rawTxBytes, sequenceOf_raw]
    simp
  have hevents : ∀ first : ℕ, v.firstEventTxsSequence = UInt64.ofNat (v.sequence.toNat + first + 1) →
      ((txs.drop 1).take m.toNat).map sequenceOf = sequencesAfter (v.sequence.toNat + first) m.toNat := by
    intro first hfirst
    rw [h.sequences_events, hoffset, hfirst, sequencesAfter, List.range'_eq_map_range, List.map_map]
    refine List.map_congr_left fun i _ => ?_
    simp
  rw [v.toNat_total hm, View.injected, List.map_cons, List.map_append, hindex, Nat.add_comm 1,
    sequencesAfter_succ]
  refine List.Perm.cons _ ?_
  cases hd : v.delta with
  | false =>
    rw [hevents 1 (by simp [View.firstEventTxsSequence, hd])]
    simp
  | true =>
    have hsd : sequenceOf (v.supplyDeltaTx app) = some (UInt64.ofNat (v.sequence.toNat + 1 + 1)) := by
      rw [View.supplyDeltaTx, MsgSupplyDelta.rawTxBytes, sequenceOf_raw]
      simp [UInt64.add_assoc]
    rw [hevents 2 (by simp [View.firstEventTxsSequence, hd, UInt64.add_assoc]), if_pos rfl, if_pos rfl,
      List.map_singleton, hsd, sequencesAfter_succ]
    exact List.perm_append_singleton _ _

/-- The injected transactions of a proposal at a state: the index message, the event
transactions it announces, and the supply delta message at its height. -/
def injectedTxs (app : App W) (s : State W) (req : RequestProcessProposal) : List Bytes :=
  match MsgIndex.fromRawTxBytes app.sdk.txDecode (req.txs.elems.headD []),
      s.bridge.params.isMsgSupplyDeltaBlock req.height with
  | .ok msg, .ok delta =>
    req.txs.elems.take (1 + msg.numInjectedEventTxs.toNat + if delta then 1 else 0)
  | _, _ => []

theorem injectedTxs_of_accepted (hlaw : app.sdk.Lawful) {sidecar : Sidecar} {s : State W}
    {maxGas : Option Int64} {req : RequestProcessProposal} {v : View} {m : UInt64} {full : Bool}
    (hv : View.Of app s req.height v)
    (h : Accepted app sidecar s maxGas req.time v req.txs.elems m full) :
    injectedTxs app s req = v.injected app m full ((req.txs.elems.drop 1).take m.toNat) ∧
      (injectedTxs app s req).length = 1 + (v.total m).toNat := by
  obtain ⟨hlen, hm⟩ := h.length_events
  obtain ⟨rest, hrest⟩ := h.injected_append
  have hcount : (v.injected app m full ((req.txs.elems.drop 1).take m.toNat)).length =
      1 + m.toNat + if v.delta then 1 else 0 := by
    rw [View.injected, List.length_cons, List.length_append, hlen]
    cases v.delta <;> simp <;> omega
  have htake : injectedTxs app s req = v.injected app m full ((req.txs.elems.drop 1).take m.toNat) := by
    rw [injectedTxs, (headD_eq_of_getElem? h.index).2, View.indexTx, fromRawTxBytes_rawTxBytes hlaw, hv.delta]
    change req.txs.elems.take (1 + m.toNat + if v.delta then 1 else 0) = _
    rw [← hcount]
    exact (List.prefix_iff_eq_take.mp ⟨rest, hrest.symm⟩).symm
  refine ⟨htake, ?_⟩
  rw [htake, hcount, v.toNat_total hm]
  omega

/-! ## Runs -/

/-- A block with its injected transactions and the counter before and after it. -/
structure SequencedBlock where
  block : Block
  injected : List Bytes
  before : UInt64
  after : UInt64

structure SequencedStep (app : App W) (s : State W) (l : SequencedBlock) (t : State W) : Prop where
  step : BlockStep app s l.block t
  injected : l.injected = injectedTxs app s l.block.request
  before : s.bridge.lastConsensusTxsSequence = some l.before
  after : t.bridge.lastConsensusTxsSequence = some l.after
  noOverflow : l.before.toNat + l.injected.length < 2 ^ 64

/-- A block that starts at the head of an Ethereum block uses exactly the sequences by
which it advances the counter. -/
theorem SequencedStep.sequences (hlaw : app.Lawful) {s t : State W} {l : SequencedBlock}
    (h : SequencedStep app s l t) (hindex : s.bridge.index = none)
    (hoffset : s.bridge.ethereumEventIndexOffset = some 0) :
    t.bridge.index = none ∧ l.before.toNat ≤ l.after.toNat ∧
      (l.injected.map sequenceOf).Perm
        (sequencesAfter l.before.toNat (l.after.toNat - l.before.toNat)) := by
  obtain ⟨v, m, full, hv, haccepted, hnone, hprogress⟩ := h.step.progress hlaw hindex
  obtain ⟨hinjected, hlen⟩ := injectedTxs_of_accepted hlaw.sdk hv haccepted
  have hzero : v.offset = 0 := Option.some.inj (hv.offset.symm.trans hoffset)
  have hbefore : v.sequence = l.before := Option.some.inj (hv.sequence.symm.trans h.before)
  have hafter : l.after = l.before + (1 + v.total m) := by
    rw [← hbefore]
    exact Option.some.inj (h.after.symm.trans (congrArg Progress.lastConsensusTxsSequence hprogress))
  have hbound := h.noOverflow
  rw [h.injected, hlen] at hbound
  have hadvance : l.after.toNat = l.before.toNat + (1 + (v.total m).toNat) := by
    rw [hafter, UInt64.toNat_add, UInt64.toNat_add, UInt64.toNat_one]
    omega
  refine ⟨hnone, by omega, ?_⟩
  have hdiff : l.after.toNat - l.before.toNat = 1 + (v.total m).toNat := by omega
  rw [h.injected, hinjected, hdiff, ← hbefore]
  exact haccepted.sequences_injected hzero

/-- The counter as a number. -/
def counter (s : State W) : ℕ := (s.bridge.lastConsensusTxsSequence.getD 0).toNat

/-- What a run from `start` has used: each block its own sequences, and all together those
up to the counter. -/
structure Used (start : ℕ) (ls : List SequencedBlock) (t : State W) : Prop where
  noIndex : t.bridge.index = none
  blocks : ∀ l ∈ ls, (l.injected.map sequenceOf).Perm
    (sequencesAfter l.before.toNat (l.after.toNat - l.before.toNat))
  start_le : start ≤ counter t
  all : ((ls.flatMap SequencedBlock.injected).map sequenceOf).Perm
    (sequencesAfter start (counter t - start))

theorem Used.step (hlaw : app.Lawful) {start : ℕ} {ls : List SequencedBlock} {t u : State W}
    {l : SequencedBlock} (h : Used start ls t) (hstep : SequencedStep app t l u)
    (hoffset : t.bridge.ethereumEventIndexOffset = some 0) : Used start (ls ++ [l]) u := by
  obtain ⟨hnone, hle, hperm⟩ := hstep.sequences hlaw h.noIndex hoffset
  have hbefore : counter t = l.before.toNat := by rw [counter, hstep.before]; rfl
  have hafter : counter u = l.after.toNat := by rw [counter, hstep.after]; rfl
  have hstart := h.start_le
  refine ⟨hnone, ?_, by omega, ?_⟩
  · intro l' hl'
    rcases List.mem_append.mp hl' with hl' | hl'
    · exact h.blocks l' hl'
    · cases List.mem_singleton.mp hl'
      exact hperm
  · have hsplit : sequencesAfter start (counter u - start) = sequencesAfter start (counter t - start) ++
        sequencesAfter l.before.toNat (l.after.toNat - l.before.toNat) := by
      have hmid : l.before.toNat = start + (counter t - start) := by omega
      have hlen : counter u - start = (counter t - start) + (l.after.toNat - l.before.toNat) := by omega
      rw [hlen, ← sequencesAfter_append, ← hmid]
    rw [List.flatMap_append, List.flatMap_singleton, List.map_append, hsplit]
    exact h.all.append hperm

/-- In every run whose blocks all start at the head of an Ethereum block, each block uses
exactly the sequences from the old counter to the new one, all sequences of the run are
distinct, and no two injected transactions are equal. -/
theorem sequences_of_run (hlaw : app.Lawful) {s t : State W} {ls : List SequencedBlock}
    (hindex : s.bridge.index = none)
    (hrun : Runs (fun s l t => SequencedStep app s l t ∧ s.bridge.ethereumEventIndexOffset = some 0) s ls t) :
    (∀ l ∈ ls, (l.injected.map sequenceOf).Perm
      (sequencesAfter l.before.toNat (l.after.toNat - l.before.toNat))) ∧
    ((ls.flatMap SequencedBlock.injected).map sequenceOf).Nodup ∧
    (ls.flatMap SequencedBlock.injected).Nodup := by
  have hused : Used (counter s) ls t := by
    refine hrun.invariant (I := fun ls t => Used (counter s) ls t) ?_ ?_
    · refine ⟨hindex, by simp, le_rfl, ?_⟩
      rw [Nat.sub_self]
      exact List.Perm.refl _
    · rintro ls t l u hused ⟨hstep, hoffset⟩
      exact hused.step hlaw hstep hoffset
  have hbound : counter s + (counter t - counter s) < 2 ^ 64 := by
    have hlt : counter t < 2 ^ 64 := (t.bridge.lastConsensusTxsSequence.getD 0).toNat_lt
    have hstart := hused.start_le
    omega
  have hnodup := hused.all.nodup_iff.mpr (nodup_sequencesAfter hbound)
  exact ⟨hused.blocks, hnodup, hnodup.of_map sequenceOf⟩

theorem sequences_of_run_reference : ∃ t,
    Runs (fun s l t => SequencedStep Reference.app s l t ∧ s.bridge.ethereumEventIndexOffset = some 0)
      Reference.state [⟨referenceBlk, referenceProposal.txs.elems, 0, 2⟩] t ∧
    (referenceProposal.txs.elems.map sequenceOf).Perm (sequencesAfter 0 2) ∧
    referenceProposal.txs.elems.Nodup := by
  obtain ⟨r, hblock⟩ := exists_ok_of_isSome (by decide +kernel : (value
    ((finalizeBlock Reference.app referenceProposal.ctx referenceProposal.txs.elems).run
      Reference.state)).isSome)
  have hstep : SequencedStep Reference.app Reference.state ⟨referenceBlk, referenceProposal.txs.elems, 0, 2⟩ _ :=
    ⟨⟨by decide, by decide +kernel, r, hblock⟩, by decide +kernel, rfl, by decide +kernel, by decide⟩
  obtain ⟨hblocks, -, hnodup⟩ := sequences_of_run Reference.app_lawful rfl (Runs.single ⟨hstep, rfl⟩)
  exact ⟨_, Runs.single ⟨hstep, rfl⟩, hblocks _ List.mem_cons_self, hnodup⟩

/-! ## A split Ethereum block -/

/-- Three deposits in the first Ethereum block, the last of them again in the second. -/
def splitSidecar : Sidecar := fun block =>
  if block = 1 then .ok ⟨[Reference.depositEvent 5, Reference.depositEvent 5, Reference.depositEvent 7],
    by decide⟩
  else .ok ⟨[Reference.depositEvent 7], by decide⟩

/-- Delivers two of the three deposits. -/
def splitFirst : Block := ⟨splitSidecar, none, ⟨⟨[View.indexTx Reference.app referenceView 2 false,
  Reference.depositTx 5 2, Reference.depositTx 5 3], [], by decide⟩, 1, 0⟩⟩

/-- Delivers the third deposit, which takes a sequence beyond the counter. -/
def splitSecond : Block := ⟨splitSidecar, none, ⟨⟨[View.indexTx Reference.app
  { referenceView with offset := 2, sequence := 3 } 1 true, Reference.depositTx 7 7], [], by decide⟩, 2, 0⟩⟩

/-- Delivers the deposit of the next Ethereum block. -/
def splitThird : Block := ⟨splitSidecar, none, ⟨⟨[View.indexTx Reference.app
  { referenceView with last := 1, sequence := 5 } 1 true, Reference.depositTx 7 7], [], by decide⟩, 3, 0⟩⟩

/-- Splitting an Ethereum block over two blocks makes two injected transactions of the
chain equal. -/
theorem split_block_repeats_transaction : ∃ t,
    Runs (BlockStep Reference.app) Reference.state [splitFirst, splitSecond, splitThird] t ∧
      injectedEventTxs Reference.app splitSecond = [Reference.depositTx 7 7] ∧
      injectedEventTxs Reference.app splitThird = [Reference.depositTx 7 7] := by
  obtain ⟨t, ht⟩ := Option.isSome_iff_exists.mp (by decide +kernel :
    (runBlocks Reference.app Reference.state [splitFirst, splitSecond, splitThird]).isSome)
  exact ⟨t, runs_of_runBlocks ht, by decide +kernel, by decide +kernel⟩

end FuelSequencer.Abci
