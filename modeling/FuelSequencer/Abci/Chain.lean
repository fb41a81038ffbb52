import FuelSequencer.Abci.Execution
import FuelSequencer.Exec.Cursor

/-! # Runs of accepted and committed blocks

In a committed block only the index message moves the position in the Ethereum history
and the sequence counter, so a block advances both by what its proposal announced. Over
a run of blocks the delivered transactions correspond to a stretch of the history.
-/
namespace FuelSequencer.Abci
open Go Wire Exec Lib Bridge Wiring

variable {W : Type} {app : App W}

/-- A proposal with the sidecar and the consensus params of a validator that accepted it. -/
structure Block where
  sidecar : Sidecar
  maxGas : Option Int64
  request : RequestProcessProposal

/-- The block is accepted at the state and then committed. -/
structure BlockStep (app : App W) (s : State W) (b : Block) (t : State W) : Prop where
  height : b.request.height ≠ 0
  accepted : processProposal app b.sidecar b.maxGas s b.request = .ok ()
  committed : ∃ r, (finalizeBlock app b.request.ctx b.request.txs.elems).run s = .ok r t

/-- The state the execution of a block ends in. -/
def Block.after (app : App W) (s : State W) (b : Block) : State W :=
  final ((finalizeBlock app b.request.ctx b.request.txs.elems).run s)

theorem BlockStep.of_isSome {s : State W} {b : Block} (hheight : b.request.height ≠ 0)
    (haccepted : processProposal app b.sidecar b.maxGas s b.request = .ok ())
    (hcommitted : (value ((finalizeBlock app b.request.ctx b.request.txs.elems).run s)).isSome) :
    BlockStep app s b (b.after app s) :=
  ⟨hheight, haccepted, exists_ok_of_isSome hcommitted⟩

/-- Accepts and executes one block after the other. -/
def runBlocks (app : App W) : State W → List Block → Option (State W)
  | s, [] => some s
  | s, b :: bs =>
    if b.request.height ≠ 0 ∧ processProposal app b.sidecar b.maxGas s b.request = .ok () then
      match (finalizeBlock app b.request.ctx b.request.txs.elems).run s with
      | .ok _ t => runBlocks app t bs
      | .error _ _ => none
    else none

theorem runs_of_runBlocks {s t : State W} {bs : List Block} (h : runBlocks app s bs = some t) :
    Runs (BlockStep app) s bs t := by
  induction bs generalizing s with
  | nil =>
    cases h
    exact Runs.nil _
  | cons b bs ih =>
    rw [runBlocks] at h
    split at h
    · rename_i haccepted
      cases hrun : (finalizeBlock app b.request.ctx b.request.txs.elems).run s with
      | error e u =>
        rw [hrun] at h
        cases h
      | ok r u =>
        rw [hrun] at h
        exact Runs.cons ⟨haccepted.1, haccepted.2, r, hrun⟩ (ih h)
    · cases h

/-! ## What a block moves -/

/-- The position in the Ethereum history and the sequence counter. -/
structure Progress where
  lastEthereumBlockSynced : Option UInt64
  ethereumEventIndexOffset : Option UInt64
  lastConsensusTxsSequence : Option UInt64

def progressOf (b : Store) : Progress :=
  ⟨b.lastEthereumBlockSynced, b.ethereumEventIndexOffset, b.lastConsensusTxsSequence⟩

/-- Once the index is set, nothing moves the position, the counter or the update time. -/
theorem progressOf_follows {ctx : Ctx} {b b' : Store} {j : Journal} (h : Follows ctx b j b')
    (hindex : b.index.isSome) :
    progressOf b' = progressOf b ∧ b'.lastEthBlockUpdateTime = b.lastEthBlockUpdateTime := by
  suffices hall : b'.index.isSome ∧ progressOf b' = progressOf b ∧
      b'.lastEthBlockUpdateTime = b.lastEthBlockUpdateTime from hall.2
  refine h.invariant (I := fun _ b' => b'.index.isSome ∧ progressOf b' = progressOf b ∧
    b'.lastEthBlockUpdateTime = b.lastEthBlockUpdateTime) ⟨hindex, rfl, rfl⟩ ?_
  rintro j t e u ⟨hsome, heq⟩ hstep
  cases hstep with
  | indexed ready =>
    rw [ready.noIndex] at hsome
    cases hsome
  | failed => exact ⟨rfl, heq⟩
  | counted => exact ⟨rfl, heq⟩
  | _ => exact ⟨hsome, heq⟩

/-- The position and the counter after the index message. -/
theorem progressOf_indexedStore (ctx : Ctx) {b : Store} {msg : MsgIndex} {last offset sequence : UInt64}
    (hlast : b.lastEthereumBlockSynced = some last) (hoffset : b.ethereumEventIndexOffset = some offset)
    (hblock : msg.blockNumber = last + 1) :
    progressOf (indexedStore ctx msg offset sequence b) =
      ⟨some (if msg.newEthereumBlock then last + 1 else last),
        some (if msg.newEthereumBlock then 0 else offset + msg.numInjectedEventTxs),
        some (sequence + msg.numInjectedEventTxs + supplyDeltaCount b.params ctx.blockHeight + 1)⟩ := by
  unfold progressOf indexedStore MsgIndex.isPartialEthereumSyncing MsgIndex.isFullEthereumSyncing
  dsimp only
  rw [hlast, hoffset, hblock]
  cases msg.newEthereumBlock with
  | true => rfl
  | false =>
    by_cases hpos : msg.numInjectedEventTxs > 0
    · simp [hpos]
    · have hzero : msg.numInjectedEventTxs = 0 := by
        rw [gt_iff_lt, UInt64.lt_iff_toNat_lt] at hpos
        exact UInt64.toNat_inj.mp (by simpa using hpos)
      simp [hzero]

/-- A committed block is the work of its index message, and what follows leaves the position,
the counter and the update time alone. -/
theorem BlockStep.indexed (hlaw : app.Lawful) {s t : State W} {b : Block} (h : BlockStep app s b t)
    (hindex : s.bridge.index = none) : ∃ v m full supply, View.Of app s b.request.height v ∧
      Accepted app b.sidecar s b.maxGas b.request.time v b.request.txs.elems m full ∧
      t.bridge.index = none ∧
      let after := indexedStore b.request.ctx (v.indexMsg app m full) v.offset v.sequence
        (s.bridge.begun v.delta supply)
      progressOf t.bridge = progressOf after ∧
        t.bridge.lastEthBlockUpdateTime = after.lastEthBlockUpdateTime := by
  obtain ⟨v, m, full, hv, haccepted⟩ := accepted_of_processProposal hlaw.sdk h.accepted
  obtain ⟨r, hblock⟩ := h.committed
  obtain ⟨s₁, s₂, s₃, i, hopen, hdeliver, hclose, -, -, -, hend⟩ := finalizeBlock_follows hlaw.sdk hblock
  obtain ⟨u, rest, supply, hbegun, hu, huindex, hrest, -⟩ := haccepted.deliver_first hlaw
    (show b.request.ctx.blockHeight ≠ 0 from h.height) hv hindex hopen hdeliver
  have hfollows : Follows b.request.ctx u.bridge _ s₃.bridge :=
    (deliverTxs_follows hlaw.sdk hrest).append (closeOthers_journaled hlaw.sdk hclose).1
  have hkept := progressOf_follows hfollows (by rw [huindex]; rfl)
  refine ⟨v, m, full, supply, hv, haccepted, by rw [hend], ?_⟩
  rw [← hbegun, ← hu, hend]
  exact hkept

/-- A block advances the position and the counter by what its proposal announced. -/
theorem BlockStep.progress (hlaw : app.Lawful) {s t : State W} {b : Block} (h : BlockStep app s b t)
    (hindex : s.bridge.index = none) : ∃ v m full, View.Of app s b.request.height v ∧
      Accepted app b.sidecar s b.maxGas b.request.time v b.request.txs.elems m full ∧
      t.bridge.index = none ∧
      progressOf t.bridge = ⟨some (if full then v.last + 1 else v.last),
        some (if full then 0 else v.offset + m), some (v.sequence + (1 + v.total m))⟩ := by
  obtain ⟨v, m, full, supply, hv, haccepted, hnone, hafter, -⟩ := h.indexed hlaw hindex
  refine ⟨v, m, full, hv, haccepted, hnone, ?_⟩
  have hlast : (s.bridge.begun v.delta supply).lastEthereumBlockSynced = some v.last := hv.last
  have hoffset : (s.bridge.begun v.delta supply).ethereumEventIndexOffset = some v.offset := hv.offset
  have hcount : supplyDeltaCount (s.bridge.begun v.delta supply).params b.request.ctx.blockHeight =
      if v.delta then 1 else 0 := hv.count
  have hsum : v.sequence + m + (if v.delta then 1 else 0) + 1 = v.sequence + (1 + v.total m) := by
    rw [View.total]
    ac_rfl
  rw [hafter, progressOf_indexedStore b.request.ctx hlast hoffset rfl, hcount]
  exact congrArg (Progress.mk _ _ <| some ·) hsum

/-! ## Delivery -/

/-- The event transactions of a block, as its index message announces them. -/
def injectedEventTxs (app : App W) (b : Block) : List Bytes :=
  match MsgIndex.fromRawTxBytes app.sdk.txDecode (b.request.txs.elems.headD []) with
  | .ok msg => (b.request.txs.elems.drop 1).take msg.numInjectedEventTxs.toNat
  | .error _ => []

theorem injectedEventTxs_of_accepted (hlaw : app.sdk.Lawful) {s : State W} {b : Block} {v : View}
    {m : UInt64} {full : Bool}
    (h : Accepted app b.sidecar s b.maxGas b.request.time v b.request.txs.elems m full) :
    injectedEventTxs app b = (b.request.txs.elems.drop 1).take m.toNat := by
  rw [injectedEventTxs, (headD_eq_of_getElem? h.index).2, View.indexTx, fromRawTxBytes_rawTxBytes hlaw]
  rfl

/-- The sidecar answers the query for the next Ethereum block with the events of that
block, or with an error. -/
def Block.Faithful (history : UInt64 → List Event) (s : State W) (b : Block) : Prop :=
  ∀ last response, s.bridge.lastEthereumBlockSynced = some last →
    b.sidecar (last + 1) = .ok response → response.events = history (last + 1)

/-- The transaction was made of the event. -/
def MadeOf (app : App W) (e : Event) (txBz : Bytes) : Prop :=
  ∃ params blocked block q, eventTx app params blocked block q e = .ok txBz

/-- The same with the params, the block list and the Ethereum block it was made with. -/
def GeneratedFrom (app : App W) (params : Params) (blocked : List GoString) (block : UInt64) (e : Event)
    (txBz : Bytes) : Prop :=
  ∃ q, eventTx app params blocked block q e = .ok txBz

theorem GeneratedFrom.madeOf {params : Params} {blocked : List GoString} {block : UInt64} {e : Event}
    {txBz : Bytes} (h : GeneratedFrom app params blocked block e txBz) : MadeOf app e txBz :=
  ⟨params, blocked, block, h⟩

theorem forall₂_generated {v : View} {params : Params} {events : List Event} {gen : List Bytes}
    (h : v.generated app params events = .ok gen) :
    List.Forall₂ (GeneratedFrom app params v.blocked (v.last + 1)) events gen := by
  obtain ⟨hlen, hall⟩ := eventTxsFrom_eq_ok.mp h
  rw [List.forall₂_iff_get]
  refine ⟨hlen.symm, fun i hi hi' => ?_⟩
  exact ⟨_, hall i _ _ (List.getElem?_eq_getElem hi) (List.getElem?_eq_getElem hi')⟩

/-- The position of a store in the Ethereum history. -/
def cursorAt (last offset : UInt64) : Cursor UInt64 := ⟨last + 1, offset.toNat⟩

/-- A block moves the position over the events it delivers. -/
theorem Accepted.advance {history : UInt64 → List Event} {s : State W} {b : Block} {height : UInt64}
    {v : View} {m : UInt64} {full : Bool} (hv : View.Of app s height v) (hfaithful : b.Faithful history s)
    (h : Accepted app b.sidecar s b.maxGas b.request.time v b.request.txs.elems m full) :
    ∃ events, List.Forall₂ (GeneratedFrom app s.bridge.params v.blocked (v.last + 1)) events
        ((b.request.txs.elems.drop 1).take m.toNat) ∧
      Cursor.Advance (· + 1) history (cursorAt v.last v.offset) events
        (cursorAt (if full then v.last + 1 else v.last) (if full then 0 else v.offset + m)) ∧
      ((if full then 0 else v.offset + m) = 0 ∨ (if full then 0 else v.offset + m).toNat <
        (history ((if full then v.last + 1 else v.last) + 1)).length) := by
  rcases h.events with ⟨rfl, rfl, hoffset, -⟩ | ⟨response, gen, hsync⟩
  · refine ⟨[], by simp, ?_, Or.inl (by simp [hoffset])⟩
    rw [hoffset]
    exact Cursor.Advance.stay _
  · have hevents : response.events = history (v.last + 1) := hfaithful v.last response hv.last hsync.answer
    obtain ⟨hlen, hlt⟩ := length_generated hsync.generated
    have hmade : List.Forall₂ (GeneratedFrom app s.bridge.params v.blocked (v.last + 1))
        (((history (v.last + 1)).drop v.offset.toNat).take m.toNat)
        ((b.request.txs.elems.drop 1).take m.toNat) := by
      rw [hsync.events, ← hevents]
      exact List.forall₂_take _ (List.forall₂_drop _ (forall₂_generated hsync.generated))
    have hcount := hsync.count_le
    refine ⟨_, hmade, ?_⟩
    cases full with
    | true =>
      have hall : m.toNat = gen.length - v.offset.toNat := hsync.flag.mp rfl
      rw [hall, List.take_of_length_le (by rw [List.length_drop, ← hevents, hlen])]
      exact ⟨Cursor.Advance.whole (cursorAt v.last v.offset), Or.inl rfl⟩
    | false =>
      have hne : m.toNat ≠ gen.length - v.offset.toNat := fun heq => by
        cases hsync.flag.mpr heq
      have hsum : (v.offset + m).toNat = v.offset.toNat + m.toNat := by
        rw [UInt64.toNat_add]
        have hbound : v.offset.toNat + m.toNat < 2 ^ 63 := by
          change gen.length < 2 ^ 63 at hlt
          omega
        omega
      have hless : v.offset.toNat + m.toNat < (history (v.last + 1)).length := by
        rw [← hevents, ← hlen]
        omega
      refine ⟨?_, Or.inr ?_⟩
      · have hpart : Cursor.Advance (· + 1) history _ _ _ :=
          Cursor.Advance.part (cursorAt v.last v.offset) m.toNat hless
        rw [cursorAt, cursorAt, if_neg (by simp), if_neg (by simp), hsum]
        exact hpart
      · simpa [hsum] using hless

/-- How far a run of blocks from `start` has come: the events delivered block by block,
and the position at which the history goes on. -/
structure Reached (app : App W) (history : UInt64 → List Event) (start : Cursor UInt64) (bs : List Block)
    (t : State W) (last offset : UInt64) (delivered : List (List Event)) : Prop where
  noIndex : t.bridge.index = none
  hasLast : t.bridge.lastEthereumBlockSynced = some last
  hasOffset : t.bridge.ethereumEventIndexOffset = some offset
  made : List.Forall₂ (MadeOf app) delivered.flatten (bs.flatMap (injectedEventTxs app))
  moves : Runs (Cursor.Advance (· + 1) history) start delivered (cursorAt last offset)
  place : bs ≠ [] → offset = 0 ∨ offset.toNat < (history (last + 1)).length

/-- One more block, which advances the position over the events it delivers. -/
theorem Reached.extend (hlaw : app.Lawful) {history : UInt64 → List Event} {start : Cursor UInt64}
    {bs : List Block} {t u : State W} {b : Block} {delivered : List (List Event)} {v : View} {m : UInt64}
    {full : Bool} {events : List Event} (h : Reached app history start bs t v.last v.offset delivered)
    (haccepted : Accepted app b.sidecar t b.maxGas b.request.time v b.request.txs.elems m full)
    (hnone : u.bridge.index = none)
    (hprogress : progressOf u.bridge = ⟨some (if full then v.last + 1 else v.last),
      some (if full then 0 else v.offset + m), some (v.sequence + (1 + v.total m))⟩)
    (hevents : List.Forall₂ (GeneratedFrom app t.bridge.params v.blocked (v.last + 1)) events
      ((b.request.txs.elems.drop 1).take m.toNat))
    (hadvance : Cursor.Advance (· + 1) history (cursorAt v.last v.offset) events
      (cursorAt (if full then v.last + 1 else v.last) (if full then 0 else v.offset + m)))
    (hplace : (if full then 0 else v.offset + m) = 0 ∨ (if full then 0 else v.offset + m).toNat <
      (history ((if full then v.last + 1 else v.last) + 1)).length) :
    Reached app history start (bs ++ [b]) u (if full then v.last + 1 else v.last)
      (if full then 0 else v.offset + m) (delivered ++ [events]) := by
  have hinjected : (bs ++ [b]).flatMap (injectedEventTxs app) =
      bs.flatMap (injectedEventTxs app) ++ (b.request.txs.elems.drop 1).take m.toNat := by
    rw [List.flatMap_append, List.flatMap_singleton, injectedEventTxs_of_accepted hlaw.sdk haccepted]
  refine ⟨hnone, congrArg Progress.lastEthereumBlockSynced hprogress,
    congrArg Progress.ethereumEventIndexOffset hprogress, ?_, h.moves.snoc hadvance, fun _ => hplace⟩
  rw [hinjected, List.flatten_append, List.flatten_singleton]
  exact List.rel_append h.made (hevents.imp fun _ _ hgen => hgen.madeOf)

/-- One more block delivers the events from the position on. -/
theorem Reached.step (hlaw : app.Lawful) {history : UInt64 → List Event} {start : Cursor UInt64}
    {bs : List Block} {t u : State W} {b : Block} {last offset : UInt64} {delivered : List (List Event)}
    (h : Reached app history start bs t last offset delivered) (hstep : BlockStep app t b u)
    (hfaithful : b.Faithful history t) :
    ∃ last' offset' events, Reached app history start (bs ++ [b]) u last' offset' (delivered ++ [events]) := by
  obtain ⟨v, m, full, hv, haccepted, hnone, hprogress⟩ := hstep.progress hlaw h.noIndex
  obtain rfl : v.last = last := Option.some.inj (hv.last.symm.trans h.hasLast)
  obtain rfl : v.offset = offset := Option.some.inj (hv.offset.symm.trans h.hasOffset)
  obtain ⟨events, hevents, hadvance, hplace⟩ := haccepted.advance hv hfaithful
  exact ⟨_, _, events, h.extend hlaw haccepted hnone hprogress hevents hadvance hplace⟩

/-- Over every run of blocks accepted with faithful sidecars, the delivered transactions
are made, one by one and in order, of the events between the first and the last position
in the history; and after each block the position names the next event. -/
theorem delivery_in_order (hlaw : app.Lawful) {history : UInt64 → List Event} {s t : State W}
    {bs : List Block} {last offset : UInt64} (hindex : s.bridge.index = none)
    (hlast : s.bridge.lastEthereumBlockSynced = some last)
    (hoffset : s.bridge.ethereumEventIndexOffset = some offset)
    (hrun : Runs (fun s b t => BlockStep app s b t ∧ b.Faithful history s) s bs t) :
    ∃ last' offset' events d, t.bridge.lastEthereumBlockSynced = some last' ∧
      t.bridge.ethereumEventIndexOffset = some offset' ∧
      List.Forall₂ (MadeOf app) events (bs.flatMap (injectedEventTxs app)) ∧
      last' + 1 = (· + 1)^[d] (last + 1) ∧
      (∀ k, (cursorAt last offset).entries (· + 1) history (d + k) =
        events ++ (cursorAt last' offset').entries (· + 1) history k) ∧
      (bs ≠ [] → offset' = 0 ∨ offset'.toNat < (history (last' + 1)).length) := by
  have hreached : ∃ last' offset' delivered,
      Reached app history (cursorAt last offset) bs t last' offset' delivered := by
    refine hrun.invariant (I := fun bs t => ∃ last' offset' delivered,
      Reached app history (cursorAt last offset) bs t last' offset' delivered) ?_ ?_
    · exact ⟨last, offset, [], hindex, hlast, hoffset, by simp, Runs.nil _, fun h => absurd rfl h⟩
    · rintro bs t b u ⟨last', offset', delivered, hreached⟩ ⟨hstep, hfaithful⟩
      obtain ⟨last'', offset'', events, hnext⟩ := hreached.step hlaw hstep hfaithful
      exact ⟨last'', offset'', delivered ++ [events], hnext⟩
  obtain ⟨last', offset', delivered, h⟩ := hreached
  obtain ⟨d, hd, hentries⟩ := Cursor.entries_of_runs h.moves
  exact ⟨last', offset', delivered.flatten, d, h.hasLast, h.hasOffset, h.made, hd, hentries, h.place⟩

/-- The first Ethereum block holds one deposit, the others nothing. -/
def referenceHistory (block : UInt64) : List Event := if block = 1 then [Reference.depositEvent 5] else []

/-- The reference proposal with the sidecar that accepts it. -/
def referenceBlk : Block :=
  ⟨Reference.answering [Reference.depositEvent 5] (by decide), none, referenceProposal⟩

theorem delivery_in_order_reference : ∃ t events d last' offset',
    BlockStep Reference.app Reference.state referenceBlk t ∧ referenceBlk.Faithful referenceHistory Reference.state ∧
    List.Forall₂ (MadeOf Reference.app) events (injectedEventTxs Reference.app referenceBlk) ∧
    ∀ k, (cursorAt 0 0).entries (· + 1) referenceHistory (d + k) =
      events ++ (cursorAt last' offset').entries (· + 1) referenceHistory k := by
  have hfaithful : referenceBlk.Faithful referenceHistory Reference.state := by
    intro last response hlast hanswer
    cases hlast
    cases hanswer
    rfl
  have hstep : BlockStep Reference.app Reference.state referenceBlk (referenceBlk.after Reference.app
      Reference.state) := BlockStep.of_isSome (by decide) (by decide +kernel) (by decide +kernel)
  obtain ⟨last', offset', events, d, -, -, hmade, -, hentries, -⟩ :=
    delivery_in_order Reference.app_lawful rfl rfl rfl (Runs.single ⟨hstep, hfaithful⟩)
  rw [List.flatMap_singleton] at hmade
  exact ⟨_, events, d, last', offset', hstep, hfaithful, hmade, hentries⟩

end FuelSequencer.Abci
