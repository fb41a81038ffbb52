import FuelSequencer.Abci.Chain

/-! # The time since the last synchronisation

The verifier measures the delay against a time that the index message stores as the bits
of a nanosecond count. Over a run the stored time is that of the last block that
synchronised, so the delay bounds how long the chain goes without Ethereum progress.
-/
namespace FuelSequencer.Abci
open Go Wire Exec Lib Bridge Wiring

variable {W : Type} {app : App W}

/-- The index message of the block takes in an Ethereum block, or a part of one. -/
def Block.syncs (app : App W) (b : Block) : Bool :=
  match MsgIndex.fromRawTxBytes app.sdk.txDecode (b.request.txs.elems.headD []) with
  | .ok msg => !msg.noEthereumSyncing
  | .error _ => false

/-- The time of the last block that synchronises. -/
def lastSyncTime (app : App W) (bs : List Block) : Option Time :=
  ((bs.filter (Block.syncs app)).getLast?).map (·.request.time)

/-- The time is a nanosecond count of 64 bits. -/
def Block.TimeInRange (b : Block) : Prop := -2 ^ 63 ≤ b.request.time ∧ b.request.time < 2 ^ 63

theorem lastSyncTime_append_of_syncs (bs : List Block) {b : Block} (h : b.syncs app = true) :
    lastSyncTime app (bs ++ [b]) = some b.request.time := by
  simp [lastSyncTime, List.filter_append, h]

theorem lastSyncTime_append_of_not_syncs (bs : List Block) {b : Block} (h : b.syncs app = false) :
    lastSyncTime app (bs ++ [b]) = lastSyncTime app bs := by
  simp [lastSyncTime, List.filter_append, h]

/-- Storing the bits of a 64-bit nanosecond count loses nothing. -/
theorem int64_uint64 {time : ℤ} (hlo : -2 ^ 63 ≤ time) (hhi : time < 2 ^ 63) :
    int64 (UInt64.ofNat (uint64 time)).toNat = time := by
  have hnat : ((UInt64.ofNat (uint64 time)).toNat : ℤ) = time % 2 ^ 64 := by
    rw [toNat_ofNat_uint64]
    exact Int.toNat_of_nonneg (Int.emod_nonneg _ (by decide))
  rw [hnat]
  exact (Int.emod_bmod _ _).trans (int64_eq_self hlo hhi)

/-! ## One block -/

theorem syncs_of_accepted (hlaw : app.sdk.Lawful) {s : State W} {b : Block} {v : View} {m : UInt64} {full : Bool}
    (h : Accepted app b.sidecar s b.maxGas b.request.time v b.request.txs.elems m full) :
    b.syncs app = !(v.indexMsg app m full).noEthereumSyncing := by
  rw [Block.syncs, (headD_eq_of_getElem? h.index).2, View.indexTx, fromRawTxBytes_rawTxBytes hlaw]

/-- What a block does to the stored time. -/
theorem BlockStep.updateTime (hlaw : app.Lawful) {s t : State W} {b : Block} (h : BlockStep app s b t)
    (hindex : s.bridge.index = none) : t.bridge.index = none ∧
      t.bridge.lastEthBlockUpdateTime = if b.syncs app then some (UInt64.ofNat (uint64 b.request.time))
        else s.bridge.lastEthBlockUpdateTime := by
  obtain ⟨v, m, full, supply, -, haccepted, hnone, -, htime⟩ := h.indexed hlaw hindex
  refine ⟨hnone, ?_⟩
  rw [htime, syncs_of_accepted hlaw.sdk haccepted]
  have hsynced : (!(v.indexMsg app m full).noEthereumSyncing) =
      ((v.indexMsg app m full).isFullEthereumSyncing || (v.indexMsg app m full).isPartialEthereumSyncing) := by
    simp [MsgIndex.noEthereumSyncing]
  rw [hsynced]
  rfl

/-- A block without synchronisation is accepted only within the delay. -/
theorem BlockStep.within_delay (hlaw : app.Lawful) {s t : State W} {b : Block} (h : BlockStep app s b t)
    (hnot : b.syncs app = false) {last : Time} (hlast : s.bridge.getLastEthBlockUpdateTime = some last) :
    b.request.time ≤ last + s.bridge.params.maxEthBlockUpdateDelay := by
  obtain ⟨v, m, full, hv, haccepted⟩ := accepted_of_processProposal hlaw.sdk h.accepted
  rw [syncs_of_accepted hlaw.sdk haccepted] at hnot
  rcases haccepted.events with hidle | ⟨response, gen, hsync⟩
  · have hdelay := hidle.delay
    rw [ethSyncDelayExceeded, hlast] at hdelay
    exact not_lt.mp (of_decide_eq_false hdelay)
  · -- neither a full nor a partial synchronisation, so nothing was left to deliver, which is a full one
    simp only [MsgIndex.noEthereumSyncing, MsgIndex.isFullEthereumSyncing, MsgIndex.isPartialEthereumSyncing,
      View.indexMsg] at hnot
    have hflag : full = false := by
      cases full
      · rfl
      · simp at hnot
    have hzero : m.toNat = 0 := by
      rw [hflag] at hnot
      simpa [UInt64.lt_iff_toNat_lt] using hnot
    have hpos := hsync.count_pos
    have hfull : full = true := hsync.flag.mpr (by omega)
    rw [hfull] at hflag
    cases hflag

/-! ## Runs -/

/-- The stored time is that of the last block that synchronised. -/
structure ClockOf (app : App W) (bs : List Block) (t : State W) : Prop where
  noIndex : t.bridge.index = none
  time : ∀ time, lastSyncTime app bs = some time → t.bridge.getLastEthBlockUpdateTime = some time

theorem ClockOf.step (hlaw : app.Lawful) {bs : List Block} {b : Block} {t u : State W} (h : ClockOf app bs t)
    (hstep : BlockStep app t b u) (hrange : b.TimeInRange) : ClockOf app (bs ++ [b]) u := by
  obtain ⟨hnone, htime⟩ := hstep.updateTime hlaw h.noIndex
  refine ⟨hnone, fun time hlast => ?_⟩
  cases hsyncs : b.syncs app with
  | true =>
    rw [lastSyncTime_append_of_syncs bs hsyncs] at hlast
    rw [Store.getLastEthBlockUpdateTime, htime, hsyncs, if_pos rfl, ← hlast]
    exact congrArg some (int64_uint64 hrange.1 hrange.2)
  | false =>
    rw [lastSyncTime_append_of_not_syncs bs hsyncs] at hlast
    rw [Store.getLastEthBlockUpdateTime, htime, hsyncs, if_neg (by decide)]
    exact h.time time hlast

/-- In every run of accepted and executed blocks, and for each next block: the stored time is
that of the last synchronisation, and without one the block comes within the delay in force. -/
theorem ethereum_progress_within_delay (hlaw : app.Lawful) {s t u : State W} {bs : List Block} {b : Block}
    (hindex : s.bridge.index = none)
    (hrun : Runs (fun s b t => BlockStep app s b t ∧ b.TimeInRange) s bs t)
    (hnext : BlockStep app t b u) (hrange : b.TimeInRange) :
    (∀ time, lastSyncTime app (bs ++ [b]) = some time → u.bridge.getLastEthBlockUpdateTime = some time) ∧
    (∀ time, lastSyncTime app bs = some time → b.syncs app = false →
      b.request.time ≤ time + t.bridge.params.maxEthBlockUpdateDelay) := by
  have hclock : ClockOf app bs t := hrun.invariant (I := ClockOf app)
    ⟨hindex, fun time hnone => by cases hnone⟩ fun h hstep => h.step hlaw hstep.1 hstep.2
  exact ⟨(hclock.step hlaw hnext hrange).time, fun time hlast hnot =>
    hnext.within_delay hlaw hnot (hclock.time time hlast)⟩

/-- The proposal behind the reference block: five nanoseconds later and without synchronisation. -/
def idleBlk : Block where
  sidecar := fun _ => .error (str "sidecar is out of sync")
  maxGas := none
  request := ⟨⟨[(MsgIndex.mk Reference.authority 0 false 2).rawTxBytes 3], [], by decide⟩, 2, 5⟩

theorem ethereum_progress_within_delay_reference :
    idleBlk.syncs Reference.app = false ∧ lastSyncTime Reference.app [referenceBlk] = some 0 ∧
    ∃ t u, BlockStep Reference.app Reference.state referenceBlk t ∧ BlockStep Reference.app t idleBlk u ∧
      u.bridge.getLastEthBlockUpdateTime = some 0 ∧
      idleBlk.request.time ≤ 0 + t.bridge.params.maxEthBlockUpdateDelay := by
  have hidle : idleBlk.syncs Reference.app = false := by decide +kernel
  have hlast : lastSyncTime Reference.app [referenceBlk] = some 0 := by decide +kernel
  have hstep : BlockStep Reference.app Reference.state referenceBlk (referenceBlk.after Reference.app
      Reference.state) := BlockStep.of_isSome (by decide) (by decide +kernel) (by decide +kernel)
  have hnext : BlockStep Reference.app (referenceBlk.after Reference.app Reference.state) idleBlk
      (idleBlk.after Reference.app (referenceBlk.after Reference.app Reference.state)) :=
    BlockStep.of_isSome (by decide) (by decide +kernel) (by decide +kernel)
  obtain ⟨htime, hdelay⟩ := ethereum_progress_within_delay Reference.app_lawful rfl
    (Runs.single ⟨hstep, by decide, by decide⟩) hnext ⟨by decide, by decide⟩
  refine ⟨hidle, hlast, _, _, hstep, hnext, htime 0 ?_, hdelay 0 hlast hidle⟩
  exact (lastSyncTime_append_of_not_syncs [referenceBlk] hidle).trans hlast

end FuelSequencer.Abci
