import FuelSequencer.Abci.System
import FuelSequencer.Abci.Clock
import FuelSequencer.Abci.Honest

/-! # Progress through Ethereum

A block that synchronises delivers an event or completes an Ethereum block, so no Ethereum
block holds the chain up for more such blocks than it has events. A proposer whose sidecar
answers proposes such a block, and every validator whose sidecar answers accepts it.
-/
namespace FuelSequencer.Abci
open Go Wire Exec Lib Bridge Wiring Sidecar

variable {W ι : Type} [DecidableEq ι] {app : App W} {c : EthRpcClient} {H : History}

/-! ## Blocks that synchronise -/

/-- How many of the blocks synchronise. -/
def syncCount (app : App W) (bs : List Block) : ℕ := bs.countP (Block.syncs app)

theorem syncCount_snoc (bs : List Block) (b : Block) :
    syncCount app (bs ++ [b]) = syncCount app bs + if b.syncs app then 1 else 0 := by
  rw [syncCount, List.countP_append, List.countP_singleton]
  rfl

/-- A block that synchronises delivers an event or completes the Ethereum block. -/
theorem Accepted.moves_of_syncs (hlaw : app.sdk.Lawful) {s : State W} {b : Block} {v : View} {m : UInt64}
    {full : Bool} (h : Accepted app b.sidecar s b.maxGas b.request.time v b.request.txs.elems m full)
    (hsyncs : b.syncs app = true) :
    (b.request.txs.elems.drop 1).take m.toNat ≠ [] ∨ (if full then v.last + 1 else v.last) + 1 ≠ v.last + 1 := by
  rw [syncs_of_accepted hlaw h, Bool.not_eq_true', ← Bool.not_eq_true, noEthereumSyncing_iff, not_and_or] at hsyncs
  rcases hsyncs with hflag | hcount
  · right
    have hfull : full = true := by simpa [View.indexMsg] using hflag
    rw [if_pos hfull]
    intro heq
    simp at heq
  · left
    intro hnil
    have hlen := h.length_events.1
    rw [hnil, List.length_nil] at hlen
    exact hcount (UInt64.toNat_inj.mp hlen.symm)

/-- How far a run has come, against the number of its blocks that synchronise. -/
structure Paces (app : App W) (history : UInt64 → List Event) (start : Cursor UInt64) (ls : List Executed)
    (t : State W) (last offset : UInt64) (d : ℕ) : Prop where
  noIndex : t.bridge.index = none
  hasLast : t.bridge.lastEthereumBlockSynced = some last
  hasOffset : t.bridge.ethereumEventIndexOffset = some offset
  paced : Cursor.Paced (· + 1) history start (syncCount app (ls.map Executed.block)) d (cursorAt last offset)

theorem Paces.step (hlaw : app.Lawful) {history : UInt64 → List Event} {start : Cursor UInt64} {ls : List Executed}
    {t u : State W} {l : Executed} {last offset : UInt64} {d : ℕ} (h : Paces app history start ls t last offset d)
    (hstep : CommitStep app t l u) (hfaithful : l.block.Faithful history t) :
    ∃ last' offset' d', Paces app history start (ls ++ [l]) u last' offset' d' := by
  obtain ⟨v, m, full, hv, haccepted, hnone, hprogress⟩ := hstep.blockStep.progress hlaw h.noIndex
  obtain rfl : v.last = last := Option.some.inj (hv.last.symm.trans h.hasLast)
  obtain rfl : v.offset = offset := Option.some.inj (hv.offset.symm.trans h.hasOffset)
  obtain ⟨events, hevents, hadvance, -⟩ := haccepted.advance hv hfaithful
  have hmoved : (if l.block.syncs app then 1 else 0) = 1 → events ≠ [] ∨
      (cursorAt (if full then v.last + 1 else v.last) (if full then 0 else v.offset + m)).place ≠
        (cursorAt v.last v.offset).place := by
    intro hone
    have hsyncs : l.block.syncs app = true := by
      by_contra hnot
      rw [if_neg hnot] at hone
      cases hone
    refine (haccepted.moves_of_syncs hlaw.sdk hsyncs).imp_left fun hne hnil => hne ?_
    rw [hnil] at hevents
    exact List.forall₂_nil_left_iff.mp hevents
  obtain ⟨d', hpaced⟩ := hadvance.paced (by split <;> omega) hmoved
  refine ⟨_, _, d' + d, hnone, congrArg Progress.lastEthereumBlockSynced hprogress,
    congrArg Progress.ethereumEventIndexOffset hprogress, ?_⟩
  rw [List.map_append, List.map_singleton, syncCount_snoc]
  exact h.paced.trans hpaced

/-- A prepared block is acceptable with every sidecar that gives the proposer's answer. -/
theorem Prepared.accepted {sidecar sidecar' : Wiring.Sidecar} {s : State W} {maxGas : Option Int64}
    {v : View} {m : UInt64} {gen txs : List Bytes} {response : QueryBlockEventsResponse}
    (h : Prepared app sidecar s maxGas v m gen txs) (time : Time) (hanswer : sidecar (v.last + 1) = .ok response)
    (hanswer' : sidecar' (v.last + 1) = .ok response) :
    Accepted app sidecar' s maxGas time v txs m (decide (m.toNat = gen.length - v.offset.toNat)) ∧
      Synced app sidecar' s v txs m (decide (m.toNat = gen.length - v.offset.toNat)) response gen := by
  obtain ⟨hgen, hoffset, hle, hpos, ⟨rest, rfl⟩, hfits⟩ := h
  rw [hanswer] at hgen hfits ⊢
  have hok : (Except.ok response : Except GoString QueryBlockEventsResponse).isOk = true := rfl
  rw [hok, Bool.true_and] at hfits ⊢
  have hcut : ((gen.drop v.offset.toNat).take m.toNat).length = m.toNat := by
    rw [List.length_take, List.length_drop]
    omega
  generalize hfull : decide (m.toNat = gen.length - v.offset.toNat) = full at hfits ⊢
  have hsync : Synced app sidecar' s v (v.injected app m full ((gen.drop v.offset.toNat).take m.toNat) ++ rest) m
      full response gen := by
    refine ⟨hanswer', hgen, hoffset, hle, hpos, ?_, ?_⟩
    · rw [← hfull, decide_eq_true_iff]
    · rw [View.injected]
      simp only [List.cons_append, List.drop_one, List.tail_cons, List.append_assoc]
      rw [List.take_append_of_le_length hcut.ge, List.take_of_length_le hcut.le]
  refine ⟨⟨rfl, Or.inr ⟨response, gen, hsync⟩, fun hd => ?_, hfits⟩, hsync⟩
  rw [View.injected, if_pos hd, List.cons_append, Nat.add_comm 1, List.getElem?_cons_succ, List.append_assoc,
    List.getElem?_append_right hcut.le, hcut]
  simp

end FuelSequencer.Abci
