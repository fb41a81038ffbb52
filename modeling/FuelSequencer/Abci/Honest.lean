import FuelSequencer.Abci.Acceptance
import FuelSequencer.Bridge.Packing

/-! # An honest proposal is accepted

What the proposer's handler returns starts with the injected transactions: they carry
no gas and their sizes were counted against the space of the block, so the selection
takes all of them before any other. The verifier generates the same transactions and
finds them where the index message says.
-/
namespace FuelSequencer.Abci
open Go Wire Exec Lib Bridge Wiring

/-! ## Selecting -/

section Select

variable {decode : Bytes → Except GoString Tx} {maxTxBytes : ℕ} {maxBlockGas : UInt64}
  {ts : TxSelector} {txs out : List Bytes}

/-- A step takes the transaction, if it fits, or changes nothing. -/
theorem selectTxForProposal_taken_or_not (ts : TxSelector) (tx : Tx) (txBz : Bytes) :
    (ts.totalTxBytes + txSize txBz ≤ maxTxBytes ∧ ∃ gas, (ts.selectTxForProposal maxTxBytes maxBlockGas tx txBz).1 =
      ⟨ts.totalTxBytes + txSize txBz, gas, ts.selectedTxs ++ [txBz]⟩) ∨
    (ts.selectTxForProposal maxTxBytes maxBlockGas tx txBz).1 = ts := by
  unfold TxSelector.selectTxForProposal
  dsimp only
  split_ifs with hsize
  · exact .inl ⟨by omega, _, rfl⟩
  · exact .inr rfl
  · exact .inl ⟨by omega, _, rfl⟩
  · exact .inr rfl

/-- What is selected comes from the list, in its order, and stays within the space. -/
theorem selectTxs_selects (h : selectTxs decode maxTxBytes maxBlockGas ts txs = .ok out) : ∃ picked,
    out = ts.selectedTxs ++ picked ∧ picked.Sublist txs ∧
      (ts.totalTxBytes ≤ maxTxBytes → ts.totalTxBytes + txsSize picked ≤ maxTxBytes) := by
  induction txs generalizing ts with
  | nil =>
    obtain rfl := Except.ok.inj h
    exact ⟨[], by simp, List.Sublist.refl _, by simp [txsSize]⟩
  | cons txBz txs ih =>
    obtain ⟨tx, -, h⟩ := except_bind_eq_ok.mp h
    -- the end of the loop and its next turn start from the same selector
    have hrest : ∃ picked, out = (ts.selectTxForProposal maxTxBytes maxBlockGas tx txBz).1.selectedTxs ++ picked ∧
        picked.Sublist txs ∧ ((ts.selectTxForProposal maxTxBytes maxBlockGas tx txBz).1.totalTxBytes ≤ maxTxBytes →
          (ts.selectTxForProposal maxTxBytes maxBlockGas tx txBz).1.totalTxBytes + txsSize picked ≤ maxTxBytes) := by
      dsimp only at h
      split_ifs at h
      · obtain rfl := Except.ok.inj h
        exact ⟨[], by simp, List.nil_sublist _, by simp [txsSize]⟩
      · exact ih h
    obtain ⟨picked, hout, hsub, hsize⟩ := hrest
    rcases selectTxForProposal_taken_or_not ts tx txBz with ⟨hfit, gas, hstep⟩ | hstep
    · rw [hstep] at hout hsize
      refine ⟨txBz :: picked, by simpa using hout, hsub.cons_cons txBz, fun _ => ?_⟩
      have htotal := hsize hfit
      have hsum : txsSize (txBz :: picked) = txSize txBz + txsSize picked := by simp [txsSize]
      dsimp only at htotal
      omega
    · rw [hstep] at hout hsize
      exact ⟨picked, hout, hsub.cons txBz, hsize⟩

/-- One step with a transaction that fits and has no gas. -/
theorem selectTxForProposal_of_fits {tx : Tx} {txBz : Bytes} (hgas : tx.gas.getD 0 = 0)
    (htotal : ts.totalTxGas = 0) (hfit : ts.totalTxBytes + txSize txBz ≤ maxTxBytes) :
    ts.selectTxForProposal maxTxBytes maxBlockGas tx txBz =
      (⟨ts.totalTxBytes + txSize txBz, 0, ts.selectedTxs ++ [txBz]⟩,
        decide (maxTxBytes ≤ ts.totalTxBytes + txSize txBz)) := by
  have hsize : txSize txBz + ts.totalTxBytes ≤ maxTxBytes := by omega
  have hzero : (0 : UInt64) + 0 ≤ maxBlockGas := UInt64.zero_le
  have hne : maxBlockGas > 0 → ¬ (0 : UInt64) ≥ maxBlockGas := fun h h' => absurd h (UInt64.not_lt.mpr h')
  unfold TxSelector.selectTxForProposal
  dsimp only
  rw [if_pos hsize, hgas, htotal, if_pos hzero]
  by_cases hlimit : maxBlockGas > 0
  · simp [hlimit, hne hlimit]
  · simp [hlimit]

/-- Transactions without gas whose sizes fit together are all selected first. -/
theorem selectTxs_takes_prefix (ts : TxSelector) {inj : List Bytes}
    (hinj : ∀ txBz ∈ inj, ∃ tx, decode txBz = .ok tx ∧ tx.gas.getD 0 = 0) (htotal : ts.totalTxGas = 0)
    (hfit : ts.totalTxBytes + txsSize inj ≤ maxTxBytes)
    (h : selectTxs decode maxTxBytes maxBlockGas ts (inj ++ txs) = .ok out) :
    ts.selectedTxs ++ inj <+: out := by
  induction inj generalizing ts with
  | nil =>
    obtain ⟨picked, rfl, -⟩ := selectTxs_selects h
    rw [List.append_nil]
    exact List.prefix_append _ _
  | cons txBz inj ih =>
    have hsum : txsSize (txBz :: inj) = txSize txBz + txsSize inj := by simp [txsSize]
    rw [hsum] at hfit
    obtain ⟨tx, hdec, hgas⟩ := hinj txBz List.mem_cons_self
    rw [List.cons_append, selectTxs, hdec, ok_bind] at h
    dsimp only at h
    rw [selectTxForProposal_of_fits hgas htotal (by omega)] at h
    have hlist : ts.selectedTxs ++ txBz :: inj = ts.selectedTxs ++ [txBz] ++ inj := by simp
    rw [hlist]
    dsimp only at h
    by_cases hfull : maxTxBytes ≤ ts.totalTxBytes + txSize txBz
    · -- the block is full, so nothing with a size is left
      have hnil : inj = [] := by
        cases inj with
        | nil => rfl
        | cons b inj =>
          have hpos := txSize_pos b
          have hb : txsSize (b :: inj) = txSize b + txsSize inj := by simp [txsSize]
          omega
      rw [if_pos (by simpa using hfull)] at h
      cases h
      rw [hnil, List.append_nil]
    · rw [if_neg (by simpa using hfull)] at h
      exact ih _ (fun b hb => hinj b (List.mem_cons_of_mem _ hb)) rfl (by dsimp only; omega) h

/-- What is selected decodes and keeps the running gas within the limit. -/
theorem selectTxs_fits {maxGas : ℤ} (hlt : maxGas < 2 ^ 63)
    (h : selectTxs decode maxTxBytes (UInt64.ofNat (uint64 maxGas)) ts txs = .ok out) : ∃ picked,
      out = ts.selectedTxs ++ picked ∧ TxsFit decode maxGas ts.totalTxGas picked := by
  induction txs generalizing ts with
  | nil =>
    cases h
    exact ⟨[], by simp, by simp, by simp⟩
  | cons txBz txs ih =>
    obtain ⟨tx, hdec, h⟩ := except_bind_eq_ok.mp h
    dsimp only at h
    -- what one step adds to the selection, and how it changes the running gas
    have hstep : ∃ added, (ts.selectTxForProposal maxTxBytes (UInt64.ofNat (uint64 maxGas)) tx
          txBz).1.selectedTxs = ts.selectedTxs ++ added ∧ ∀ rest,
        TxsFit decode maxGas (ts.selectTxForProposal maxTxBytes (UInt64.ofNat (uint64 maxGas)) tx
          txBz).1.totalTxGas rest → TxsFit decode maxGas ts.totalTxGas (added ++ rest) := by
      have hgas : gasOf decode txBz = tx.gas.getD 0 := by rw [gasOf, hdec]
      unfold TxSelector.selectTxForProposal
      dsimp only
      by_cases hm : 0 < maxGas
      · have hval : (UInt64.ofNat (uint64 maxGas)).toNat = uint64 maxGas :=
          UInt64.toNat_ofNat_of_lt' (uint64_lt maxGas)
        have hpos : UInt64.ofNat (uint64 maxGas) > 0 := by
          rw [gt_iff_lt, UInt64.lt_iff_toNat_lt, hval, UInt64.toNat_zero]
          unfold uint64
          omega
        rw [if_pos hpos]
        split_ifs with hsize hlimit
        · refine ⟨[txBz], rfl, fun rest hrest => ?_⟩
          rw [UInt64.le_iff_toNat_le, hval, UInt64.add_comm] at hlimit
          rw [List.singleton_append, txsFit_cons, hgas]
          exact ⟨⟨tx, hdec⟩, fun _ => hlimit, hrest⟩
        · exact ⟨[], by simp, fun rest hrest => by simpa using hrest⟩
        · exact ⟨[], by simp, fun rest hrest => by simpa using hrest⟩
      · -- without a limit only the decoding is checked
        have hfree : ∀ {a b : UInt64} {l : List Bytes}, TxsFit decode maxGas a l → TxsFit decode maxGas b l :=
          fun h => ⟨h.decodes, fun h0 => absurd h0 hm⟩
        have hone : ∀ {a : UInt64} {rest : List Bytes}, TxsFit decode maxGas a rest →
            TxsFit decode maxGas ts.totalTxGas ([txBz] ++ rest) := by
          intro a rest hrest
          rw [List.singleton_append, txsFit_cons]
          exact ⟨⟨tx, hdec⟩, fun h0 => absurd h0 hm, hfree hrest⟩
        split_ifs
        · exact ⟨[txBz], rfl, fun rest hrest => hone hrest⟩
        · exact ⟨[], by simp, fun rest hrest => hfree hrest⟩
        · exact ⟨[txBz], rfl, fun rest hrest => hone hrest⟩
        · exact ⟨[], by simp, fun rest hrest => hfree hrest⟩
    obtain ⟨added, hadded, hfits⟩ := hstep
    split_ifs at h
    · cases h
      refine ⟨added, hadded, ?_⟩
      have hnil := hfits [] ⟨by simp, by simp⟩
      rwa [List.append_nil] at hnil
    · obtain ⟨picked, rfl, hpicked⟩ := ih h
      exact ⟨added ++ picked, by rw [hadded, List.append_assoc], hfits picked hpicked⟩

end Select

/-! ## The space for events -/

/-- What is reserved for native transactions. -/
def nativeShare (params : Params) (space : ℕ) : ℕ :=
  uint64 ((params.sequencerTxsAllocation * space).tdiv precisionReuse)

/-- The space for the index and event transactions, without machine arithmetic. -/
def eventSpace (params : Params) (nativeSize space : ℕ) : ℕ :=
  if nativeSize > space then space - nativeShare params space
  else max (space - nativeSize) (space - nativeShare params space)

section Space

variable {params : Params} {size space : ℕ} (hlow : minimumSequencerTxsAllocation ≤ params.sequencerTxsAllocation)
  (hhigh : params.sequencerTxsAllocation ≤ maximumSequencerTxsAllocation) (hspace : space < 2 ^ 64)

include hlow hhigh hspace

/-- The share of native transactions is at most a half of the space. -/
theorem nativeShare_bounds : 0 ≤ params.sequencerTxsAllocation * space ∧
    ((nativeShare params space : ℤ) = (params.sequencerTxsAllocation * space).tdiv precisionReuse) ∧
    2 * nativeShare params space ≤ space := by
  have hnonneg : 0 ≤ params.sequencerTxsAllocation * space :=
    mul_nonneg (le_trans (by decide) hlow) (Int.natCast_nonneg _)
  have hbound : params.sequencerTxsAllocation * space ≤ maximumSequencerTxsAllocation * space :=
    mul_le_mul_of_nonneg_right hhigh (Int.natCast_nonneg _)
  have hmax : maximumSequencerTxsAllocation = 500000000000000000 := rfl
  have hprec : precisionReuse = 1000000000000000000 := rfl
  have hshare : 0 ≤ (params.sequencerTxsAllocation * space).tdiv precisionReuse ∧
      2 * (params.sequencerTxsAllocation * space).tdiv precisionReuse ≤ space := by
    rw [Int.tdiv_eq_ediv_of_nonneg hnonneg, hprec]
    rw [hmax] at hbound
    omega
  obtain ⟨k, hk⟩ := Int.eq_ofNat_of_zero_le hshare.1
  rw [hk] at hshare
  have hvalue : nativeShare params space = k := by
    rw [nativeShare, hk, uint64_natCast (by omega)]
  rw [hvalue]
  exact ⟨hnonneg, hk.symm, by omega⟩

theorem nativeShare_le : nativeShare params space ≤ space := by
  have hhalf := (nativeShare_bounds hlow hhigh hspace).2.2
  omega

/-- No step of the computation overflows. -/
theorem maxBytesForEvents_eq : maxBytesForEvents params size space = .ok (eventSpace params size space) := by
  have hle := nativeShare_le hlow hhigh hspace
  obtain ⟨hnonneg, hshare, hhalf⟩ := nativeShare_bounds hlow hhigh hspace
  have hproduct : decMulInt params.sequencerTxsAllocation space = .ok (params.sequencerTxsAllocation * space) := by
    have hbound : params.sequencerTxsAllocation * space ≤ maximumSequencerTxsAllocation * 2 ^ 64 :=
      mul_le_mul hhigh (by exact_mod_cast hspace.le) (Int.natCast_nonneg _) (by decide)
    have hsmall : (params.sequencerTxsAllocation * space).natAbs < 2 ^ maxDecBitLen := by
      have hlimit : maximumSequencerTxsAllocation * 2 ^ 64 < 2 ^ maxDecBitLen :=
        lt_of_lt_of_le (by decide : maximumSequencerTxsAllocation * 2 ^ 64 < 2 ^ 128)
          (pow_le_pow_right₀ (by decide) (by decide))
      have hcast := lt_of_le_of_lt hbound hlimit
      rw [← Int.natAbs_of_nonneg hnonneg] at hcast
      exact_mod_cast hcast
    rw [decMulInt, if_pos hsmall]
  have htruncated : decTruncateInt64 (params.sequencerTxsAllocation * space) = .ok (nativeShare params space : ℤ) := by
    have hint64 : isInt64 (nativeShare params space) = true := decide_eq_true ⟨by omega, by omega⟩
    rw [decTruncateInt64, ← hshare, if_pos hint64]
  simp only [maxBytesForEvents, hproduct, htruncated, panicking, Except.mapError, ok_bind, except_pure]
  rw [uint64_natCast (by omega), subUint64_of_le hle hspace]
  unfold eventSpace
  split_ifs with hlarge
  · rfl
  · rw [subUint64_of_le (by omega) hspace]

omit hlow hhigh hspace in
theorem eventSpace_le : eventSpace params size space ≤ space := by
  unfold eventSpace
  split_ifs <;> omega

end Space

/-! ## The proposer's steps -/

section Prepare

variable {W : Type} {app : App W} {sidecar : Sidecar} {s : State W} {maxGas : Option Int64}

/-- A cut of the index message and of its events takes no more space than was counted. -/
theorem injected_size {v : View} {gen : List Bytes} {m : UInt64} {flag : Bool} {k maxBytes : ℕ}
    (hm : m.toNat = k) (hk : k ≤ gen.length - v.offset.toNat)
    (hcount : txSize ((v.indexMsg app (UInt64.ofNat (gen.length - v.offset.toNat)) flag).rawTxBytes
      (v.sequence + 1)) + txsSize ((gen.drop v.offset.toNat).take k) ≤ maxBytes)
    (hgen : gen.length < maxLen) :
    txSize (v.indexTx app m (flag && decide (k = gen.length - v.offset.toNat))) +
      txsSize ((gen.drop v.offset.toNat).take k) ≤ maxBytes := by
  have hlt : gen.length - v.offset.toNat < maxLen := lt_of_le_of_lt (Nat.sub_le _ _) hgen
  have hle : (v.indexMsg app m (flag && decide (k = gen.length - v.offset.toNat))).size ≤
      (v.indexMsg app (UInt64.ofNat (gen.length - v.offset.toNat)) flag).size := by
    refine MsgIndex.size_le rfl rfl ?_ ?_
    · rw [UInt64.le_iff_toNat_le]
      change m.toNat ≤ (UInt64.ofNat (gen.length - v.offset.toNat)).toNat
      rw [toNat_ofNat_of_lt_maxLen hlt, hm]
      exact hk
    · intro h
      exact ((Bool.and_eq_true _ _).mp h).1
  have hsize := txSize_mono (MsgIndex.length_rawTxBytes_mono (v.sequence + 1) hle)
  rw [View.indexTx]
  omega

/-- The injected transactions decode and carry no gas. -/
theorem gas_of_injected (hlaw : app.sdk.Lawful) {v : View} {m : UInt64} {full : Bool}
    {gen eventTxs : List Bytes} {events : List Event} (hgen : v.generated app s.bridge.params events = .ok gen)
    (hsub : ∀ tx ∈ eventTxs, tx ∈ gen) :
    ∀ tx ∈ v.injected app m full eventTxs, ∃ t, app.sdk.txDecode tx = .ok t ∧ t.gas.getD 0 = 0 := by
  intro tx htx
  rcases List.mem_cons.mp htx with rfl | htx
  · exact ⟨_, hlaw.txDecode_single _ (hlaw.unpackAny_index _), rfl⟩
  rcases List.mem_append.mp htx with htx | htx
  · obtain ⟨i, hi⟩ := List.mem_iff_getElem?.mp (hsub tx htx)
    obtain ⟨hlen, hall⟩ := eventTxsFrom_eq_ok.mp hgen
    obtain ⟨hlt, -⟩ := List.getElem?_eq_some_iff.mp hi
    obtain ⟨t, ht, hgas⟩ :=
      txDecode_of_eventTx hlaw (hall i _ tx (List.getElem?_eq_getElem (hlen ▸ hlt)) hi)
    exact ⟨t, ht, by rw [hgas]; rfl⟩
  · by_cases hd : v.delta
    · rw [if_pos hd, List.mem_singleton] at htx
      subst htx
      exact ⟨_, hlaw.txDecode_single _ (hlaw.unpackAny_supplyDelta _), rfl⟩
    · rw [if_neg hd] at htx
      cases htx

theorem txsSize_injected (v : View) (m : UInt64) (full : Bool) (eventTxs : List Bytes) :
    txsSize (v.injected app m full eventTxs) = txSize (v.indexTx app m full) + txsSize eventTxs +
      txsSize (if v.delta then [v.supplyDeltaTx app] else []) := by
  simp [View.injected, txsSize, Nat.add_assoc]

/-- What the proposer has before it shares out the space. -/
structure Pending where
  delta : Bool
  sequences : TxSequences
  supplyDeltaTxs : List Bytes
  msgIndex : MsgIndex
  eventTxs : List Bytes

/-- The steps of the proposer up to the events that are not delivered yet. -/
def pendingEvents (app : App W) (sidecar : Sidecar) (s : State W) (req : RequestPrepareProposal) :
    Outcome GoString Pending := do
  let injectMsgSupplyDelta ← s.bridge.params.isMsgSupplyDeltaBlock req.height
  let sequences ← generateTxSequences s injectMsgSupplyDelta
  let blocked ← wrapping failedToGetBlocked (getAllBlockedBech32Addresses app s)
  let supplyDeltaTxs := if injectMsgSupplyDelta then
    [(MsgSupplyDelta.mk app.keeper.authority).rawTxBytes sequences.supplyDelta] else []
  failIf (txsSize supplyDeltaTxs > uint64 req.maxTxBytes.toInt)
    (Fault.err (str "could not fit MsgSupplyDelta of size " ++ decimal (txsSize supplyDeltaTxs) ++
      str " in block's max bytes " ++ decimalInt req.maxTxBytes.toInt))
  let lastEthereumBlockSynced ← required s.bridge.lastEthereumBlockSynced errNoLastEthereumBlockSynced
  let offset ← required s.bridge.ethereumEventIndexOffset errNoEthereumEventIndexOffset
  let ethBlockToQuery := lastEthereumBlockSynced + 1
  let generated ← wrapping failedToGenerate (generateMsgIndexAndEventTxs app
    (sidecar ethBlockToQuery) ethBlockToQuery s.bridge.params blocked sequences.firstEventTxs)
  let trimmed ← wrapFault failedToTrimHead (generated.1.trimEventsFromHead generated.2 offset)
  return ⟨injectMsgSupplyDelta, sequences, supplyDeltaTxs, trimmed.1, trimmed.2⟩

namespace Pending

variable (req : RequestPrepareProposal) (p : Pending)

def sequencerTxsSize : ℕ := subUint64 (txsSize (p.supplyDeltaTxs ++ req.txs)) (txsSize p.supplyDeltaTxs)

def maxBlockSpace : ℕ := subUint64 (uint64 req.maxTxBytes.toInt) (txsSize p.supplyDeltaTxs)

/-- The pending events that fit in the space for events. -/
def pack (params : Params) : Outcome GoString (MsgIndex × List Bytes × UInt64) := do
  let maxBytes ← maxBytesForEvents params (p.sequencerTxsSize req) (p.maxBlockSpace req)
  let maxNumberOfEvents ← wrapping (fun err => str "failed to calculate number of events with max bytes " ++
    decimal maxBytes ++ str ": " ++ err)
    (p.msgIndex.numberOfEventsWithMaxBytes p.eventTxs maxBytes p.sequences.index)
  wrapFault failedToTrimTail (p.msgIndex.keepEventsFromHead p.eventTxs (UInt64.ofNat maxNumberOfEvents))

end Pending

/-- What the proposer has before its last check. -/
structure Choice where
  delta : Bool
  msgIndex : MsgIndex
  selectedTxs : List Bytes

/-- The steps of the proposer before its last check. -/
def chooseTxs (app : App W) (sidecar : Sidecar) (maxGas : Option Int64) (s : State W)
    (req : RequestPrepareProposal) : Outcome GoString Choice := do
  let pending ← pendingEvents app sidecar s req
  let kept ← pending.pack req s.bridge.params
  checkNumInjectedEventTxs kept.1 kept.2.1
  let selectedTxs ← wrapping (fun err => str "default proposal handler failed with error: " ++ err)
    (defaultPrepareProposal app.sdk.txDecode maxGas req.maxTxBytes
      (kept.1.rawTxBytes pending.sequences.index :: kept.2.1 ++ (pending.supplyDeltaTxs ++ req.txs)))
  return ⟨pending.delta, kept.1, selectedTxs⟩

theorem prepareProposal_eq {req : RequestPrepareProposal} : prepareProposal app sidecar maxGas s req = (do
    let choice ← chooseTxs app sidecar maxGas s req
    checkMinimumNumTxs choice.selectedTxs.length choice.msgIndex choice.delta
    return choice.selectedTxs) := by
  simp only [prepareProposal, chooseTxs, pendingEvents, Pending.pack, Pending.sequencerTxsSize,
    Pending.maxBlockSpace, bind_assoc, pure_bind]

/-- What the proposer returns: the injected transactions first, all of them within the
limits, and the delivered events cut from the generated ones. -/
structure Prepared (app : App W) (sidecar : Sidecar) (s : State W) (maxGas : Option Int64) (v : View)
    (m : UInt64) (gen txs : List Bytes) : Prop where
  generated : v.generated app s.bridge.params (answeredEvents (sidecar (v.last + 1))) = .ok gen
  offset : v.offset = 0 ∨ v.offset.toNat < gen.length
  count_le : m.toNat ≤ gen.length - v.offset.toNat
  count_pos : v.offset.toNat < gen.length → 1 ≤ m.toNat
  injected : v.injected app m
    ((sidecar (v.last + 1)).isOk && decide (m.toNat = gen.length - v.offset.toNat))
    ((gen.drop v.offset.toNat).take m.toNat) <+: txs
  fits : TxsFit app.sdk.txDecode (maxGas.getD 0).toInt 0 txs

/-- The supply delta transaction, if there is one. -/
def View.supplyDeltaTxs (app : App W) (v : View) : List Bytes := if v.delta then [v.supplyDeltaTx app] else []

/-- The pending events in terms of the view. -/
structure Pending.Of (app : App W) (sidecar : Sidecar) (s : State W) (req : RequestPrepareProposal) (v : View)
    (gen : List Bytes) (p : Pending) : Prop where
  view : View.Of app s req.height v
  generated : v.generated app s.bridge.params (answeredEvents (sidecar (v.last + 1))) = .ok gen
  offset : v.offset = 0 ∨ v.offset.toNat < gen.length
  delta : p.delta = v.delta
  index : p.sequences.index = v.sequence + 1
  supplyDeltaTxs : p.supplyDeltaTxs = v.supplyDeltaTxs app
  msgIndex : p.msgIndex = v.indexMsg app (UInt64.ofNat (gen.length - v.offset.toNat)) (sidecar (v.last + 1)).isOk
  eventTxs : p.eventTxs = gen.drop v.offset.toNat
  fits : txsSize p.supplyDeltaTxs ≤ uint64 req.maxTxBytes.toInt

theorem of_pendingEvents {req : RequestPrepareProposal} {p : Pending} (h : pendingEvents app sidecar s req = .ok p) :
    ∃ v gen, Pending.Of app sidecar s req v gen p := by
  simp only [pendingEvents, except_bind_eq_ok, failIf_eq_ok, required_eq_ok, wrapping_eq_ok,
    wrapFault_eq_ok, Unique.exists_iff, except_pure, Except.ok.injEq] at h
  obtain ⟨delta, hdelta, q, hq, blocked, hblocked, hsd, last, hlast, offset, hoffset, g, hg, t, ht, rfl⟩ := h
  obtain ⟨sequence, hsequence, -⟩ := generateTxSequences_eq_ok.mp hq
  have hv : View.Of app s req.height ⟨delta, blocked, last, offset, sequence⟩ :=
    ⟨hdelta, hblocked, hlast, hoffset, hsequence⟩
  obtain rfl := hv.sequences.mp hq
  obtain ⟨gen, hgen, rfl⟩ := generateMsgIndexAndEventTxs_eq_ok.mp hg
  have hlt : gen.length < maxLen := by
    rw [length_eventTxsFrom hgen]
    exact length_answeredEvents_lt _
  obtain ⟨ho, rfl⟩ := (MsgIndex.trimEventsFromHead_eq_ok (toNat_ofNat_of_lt_maxLen hlt)).mp ht
  refine ⟨_, gen, hv, hgen, ho, rfl, rfl, ?_, rfl, rfl, not_lt.mp hsd⟩
  cases delta <;> rfl

section Pack

variable {req : RequestPrepareProposal} {v : View} {gen : List Bytes} {p : Pending}

theorem Pending.Of.length_lt (h : p.Of app sidecar s req v gen) : gen.length < maxLen := by
  rw [length_eventTxsFrom h.generated]
  exact length_answeredEvents_lt _

theorem Pending.Of.count (h : p.Of app sidecar s req v gen) : p.msgIndex.numInjectedEventTxs.toNat = p.eventTxs.length := by
  rw [h.msgIndex, h.eventTxs, List.length_drop]
  exact toNat_ofNat_of_lt_maxLen (lt_of_le_of_lt (Nat.sub_le _ _) h.length_lt)

/-- Packing succeeds exactly if the index message fits in the space for events and some
event fits beside it unless none is pending. -/
theorem Pending.Of.pack_eq_ok (h : p.Of app sidecar s req v gen) (hparams : s.bridge.params.validate app.sdk = .ok ())
    {kept : MsgIndex × List Bytes × UInt64} : p.pack req s.bridge.params = .ok kept ↔
      ∃ k, txSize (p.msgIndex.rawTxBytes p.sequences.index) ≤
        eventSpace s.bridge.params (p.sequencerTxsSize req) (p.maxBlockSpace req) ∧
      MsgIndex.fitting (eventSpace s.bridge.params (p.sequencerTxsSize req) (p.maxBlockSpace req))
        (txSize (p.msgIndex.rawTxBytes p.sequences.index)) p.eventTxs = k ∧
      (0 < p.eventTxs.length → 0 < k) ∧
      kept = (p.msgIndex.withCount k (p.msgIndex.newEthereumBlock && decide (k = p.eventTxs.length)),
        p.eventTxs.take k, p.msgIndex.numInjectedEventTxs - UInt64.ofNat k) := by
  have hallocation := (Params.validate_eq_ok hparams).2.2.2.2.2.2.2.2
  have hbytes : maxBytesForEvents s.bridge.params (p.sequencerTxsSize req) (p.maxBlockSpace req) =
      .ok (eventSpace s.bridge.params (p.sequencerTxsSize req) (p.maxBlockSpace req)) :=
    maxBytesForEvents_eq hallocation.1 hallocation.2 (uint64_lt _)
  simp only [Pending.pack, hbytes, ok_bind, except_bind_eq_ok, wrapping_eq_ok, wrapFault_eq_ok, MsgIndex.numberOfEventsWithMaxBytes_eq_ok,
    MsgIndex.keepEventsFromHead_eq_ok h.count, and_assoc]
  refine exists_congr fun k => and_congr_right fun _ => and_congr_right fun hk => ?_
  have hle : k ≤ p.eventTxs.length := hk ▸ MsgIndex.fitting_le
  have htoNat : (UInt64.ofNat k).toNat = k :=
    UInt64.toNat_ofNat_of_lt' (lt_of_le_of_lt (hle.trans h.count.ge) (UInt64.toNat_lt _))
  rw [htoNat]
  exact ⟨fun hkept => hkept.2, fun hkept => ⟨hle, hkept⟩⟩

end Pack

/-- The choice of the proposer in terms of the view, with its native transactions and its size. -/
structure Chosen (app : App W) (sidecar : Sidecar) (s : State W) (maxGas : Option Int64) (req : RequestPrepareProposal)
    (v : View) (m : UInt64) (gen : List Bytes) (choice : Choice) : Prop where
  delta : choice.delta = v.delta
  msgIndex : choice.msgIndex = v.indexMsg app m
    ((sidecar (v.last + 1)).isOk && decide (m.toNat = gen.length - v.offset.toNat))
  prepared : Prepared app sidecar s maxGas v m gen choice.selectedTxs
  natives : ∃ picked, choice.selectedTxs = v.injected app m
    ((sidecar (v.last + 1)).isOk && decide (m.toNat = gen.length - v.offset.toNat))
    ((gen.drop v.offset.toNat).take m.toNat) ++ picked ∧ picked.Sublist req.txs
  size : txsSize choice.selectedTxs ≤ uint64 req.maxTxBytes.toInt

/-- How the proposer comes to its choice: the first `k` pending events fit in the space for events
beside the index message, and the selection runs over the injected transactions and the mempool. -/
structure Selected (app : App W) (sidecar : Sidecar) (s : State W) (maxGas : Option Int64) (req : RequestPrepareProposal)
    (p : Pending) (v : View) (k : ℕ) (gen : List Bytes) (full : Bool) (selected : List Bytes) : Prop where
  of : p.Of app sidecar s req v gen
  full_eq : ((sidecar (v.last + 1)).isOk && decide (k = gen.length - v.offset.toNat)) = full
  count_le : k ≤ gen.length - v.offset.toNat
  count_pos : 0 < gen.length - v.offset.toNat → 0 < k
  size : txSize (v.indexTx app (UInt64.ofNat k) full) + txsSize ((gen.drop v.offset.toNat).take k) ≤
    eventSpace s.bridge.params (p.sequencerTxsSize req) (p.maxBlockSpace req)
  selected_eq : selectTxs app.sdk.txDecode (uint64 req.maxTxBytes.toInt) (UInt64.ofNat (uint64 (maxGas.getD 0).toInt))
    ⟨0, 0, []⟩ (v.injected app (UInt64.ofNat k) full ((gen.drop v.offset.toNat).take k) ++ req.txs) = .ok selected

theorem Selected.toNat_count {req : RequestPrepareProposal} {p : Pending} {v : View} {k : ℕ} {gen selected : List Bytes}
    {full : Bool} (h : Selected app sidecar s maxGas req p v k gen full selected) : (UInt64.ofNat k).toNat = k := by
  have hlt := h.of.length_lt
  have hle := h.count_le
  exact toNat_ofNat_of_lt_maxLen (by omega)

theorem selected_of_chooseTxs (hparams : s.bridge.params.validate app.sdk = .ok ()) {req : RequestPrepareProposal}
    {choice : Choice} (h : chooseTxs app sidecar maxGas s req = .ok choice) : ∃ p v k gen full,
      pendingEvents app sidecar s req = .ok p ∧ choice.delta = v.delta ∧
      choice.msgIndex = v.indexMsg app (UInt64.ofNat k) full ∧
      Selected app sidecar s maxGas req p v k gen full choice.selectedTxs := by
  simp only [chooseTxs, except_bind_eq_ok, wrapping_eq_ok, except_pure, Except.ok.injEq] at h
  obtain ⟨p, hp, kept, hkept, -, -, selected, hselected, rfl⟩ := h
  obtain ⟨v, gen, hof⟩ := of_pendingEvents hp
  obtain ⟨k, hindex, hk, hpos, rfl⟩ := (hof.pack_eq_ok hparams).mp hkept
  have hkle : k ≤ p.eventTxs.length := hk ▸ MsgIndex.fitting_le
  have hksize := hk ▸ MsgIndex.txsSize_fitting hindex
  dsimp only at hselected
  rw [hof.msgIndex, hof.index, hof.eventTxs, hof.supplyDeltaTxs] at hselected
  rw [hof.msgIndex, hof.index, hof.eventTxs] at hksize
  rw [hof.eventTxs, List.length_drop] at hkle hpos
  rw [List.length_drop] at hselected
  have hm : (UInt64.ofNat k).toNat = k := toNat_ofNat_of_lt_maxLen (by have := hof.length_lt; omega)
  refine ⟨p, v, k, gen, _, hp, hof.delta, ?_, hof, rfl, hkle, hpos, injected_size hm hkle hksize hof.length_lt, ?_⟩
  · rw [hof.msgIndex, hof.eventTxs, List.length_drop]
    rfl
  · rw [← hselected, defaultPrepareProposal]
    simp [View.injected, View.supplyDeltaTxs, View.indexTx, View.indexMsg, MsgIndex.withCount]

/-- The injected transactions fit in the block. -/
theorem Selected.injected_le {req : RequestPrepareProposal} {p : Pending} {v : View} {k : ℕ} {gen selected : List Bytes}
    {full : Bool} (h : Selected app sidecar s maxGas req p v k gen full selected) :
    txsSize (v.injected app (UInt64.ofNat k) full ((gen.drop v.offset.toNat).take k)) +
      (p.maxBlockSpace req - eventSpace s.bridge.params (p.sequencerTxsSize req) (p.maxBlockSpace req)) ≤
        uint64 req.maxTxBytes.toInt := by
  have hfits := h.of.fits
  have hspace : p.maxBlockSpace req = uint64 req.maxTxBytes.toInt - txsSize p.supplyDeltaTxs :=
    subUint64_of_le hfits (uint64_lt _)
  have hsize := h.size
  have hle : eventSpace s.bridge.params (p.sequencerTxsSize req) (p.maxBlockSpace req) ≤ p.maxBlockSpace req :=
    eventSpace_le
  have hdelta : txsSize p.supplyDeltaTxs = txsSize (if v.delta then [v.supplyDeltaTx app] else []) :=
    congrArg txsSize h.of.supplyDeltaTxs
  rw [txsSize_injected, ← hdelta]
  omega

theorem chosen_of_chooseTxs (hlaw : app.sdk.Lawful)
    (hparams : s.bridge.params.validate app.sdk = .ok ()) {req : RequestPrepareProposal} {choice : Choice}
    (h : chooseTxs app sidecar maxGas s req = .ok choice) : ∃ p v m gen, pendingEvents app sidecar s req = .ok p ∧
      p.Of app sidecar s req v gen ∧ Chosen app sidecar s maxGas req v m gen choice := by
  obtain ⟨p, v, k, gen, full, hp, hdelta, hmsg, hsel⟩ := selected_of_chooseTxs hparams h
  have hof := hsel.of
  have hm := hsel.toNat_count
  have hsub : ∀ tx ∈ (gen.drop v.offset.toNat).take k, tx ∈ gen :=
    fun tx htx => List.mem_of_mem_drop (List.mem_of_mem_take htx)
  have hprefix : v.injected app (UInt64.ofNat k) full ((gen.drop v.offset.toNat).take k) <+: choice.selectedTxs := by
    have hfit : 0 + txsSize (v.injected app (UInt64.ofNat k) full ((gen.drop v.offset.toNat).take k)) ≤
        uint64 req.maxTxBytes.toInt := by
      have hle := hsel.injected_le
      omega
    exact selectTxs_takes_prefix ⟨0, 0, []⟩ (gas_of_injected hlaw hof.generated hsub) rfl hfit hsel.selected_eq
  obtain ⟨picked, hpicked, hsublist, htotal⟩ := selectTxs_selects hsel.selected_eq
  rw [List.nil_append] at hpicked
  have hfull := hsel.full_eq
  subst hpicked hfull
  refine ⟨p, v, UInt64.ofNat k, gen, hp, hof, hdelta, ?_, ⟨hof.generated, hof.offset, by rw [hm]; exact hsel.count_le,
    fun h => by rw [hm]; exact hsel.count_pos (Nat.sub_pos_of_lt h), by rwa [hm], ?_⟩, ?_, ?_⟩
  · rw [hm, hmsg]
  · obtain ⟨fitting, hfitting, hfits⟩ := selectTxs_fits (Int64.toInt_lt _) hsel.selected_eq
    rw [List.nil_append] at hfitting
    rw [hfitting]
    exact hfits
  · obtain ⟨natives, hnatives⟩ := hprefix
    rw [← hnatives] at hsublist ⊢
    rw [hm]
    exact ⟨natives, rfl, List.append_sublist_append_left _ |>.mp hsublist⟩
  · simpa using htotal (Nat.zero_le _)

theorem prepared_of_prepareProposal (hlaw : app.sdk.Lawful)
    (hparams : s.bridge.params.validate app.sdk = .ok ()) {req : RequestPrepareProposal} {txs : List Bytes}
    (h : prepareProposal app sidecar maxGas s req = .ok txs) : ∃ v m gen, View.Of app s req.height v ∧
      Prepared app sidecar s maxGas v m gen txs := by
  rw [prepareProposal_eq] at h
  obtain ⟨choice, hchoice, h⟩ := except_bind_eq_ok.mp h
  obtain ⟨_, -, h⟩ := except_bind_eq_ok.mp h
  obtain rfl := Except.ok.inj h
  obtain ⟨p, v, m, gen, -, hof, hchosen⟩ := chosen_of_chooseTxs hlaw hparams hchoice
  exact ⟨v, m, gen, hof.view, hchosen.prepared⟩

/-- Whatever the proposer returns is accepted by a verifier with the same state and
sidecar answer, unless it shows no synchronisation for too long. -/
theorem processProposal_of_prepareProposal (hlaw : app.sdk.Lawful)
    (hparams : s.bridge.params.validate app.sdk = .ok ()) {req : RequestPrepareProposal} {txs : List Bytes}
    (h : prepareProposal app sidecar maxGas s req = .ok txs) {p : RequestProcessProposal}
    (htxs : p.txs.elems = txs) (hheight : p.height = req.height)
    (hdelay : ∀ msg last, MsgIndex.fromRawTxBytes app.sdk.txDecode (txs.headD []) = .ok msg →
      msg.noEthereumSyncing = true → s.bridge.getLastEthBlockUpdateTime = some last →
      p.time ≤ last + s.bridge.params.maxEthBlockUpdateDelay) :
    processProposal app sidecar maxGas s p = .ok () := by
  obtain ⟨v, m, gen, hv, hprep⟩ := prepared_of_prepareProposal hlaw hparams h
  rw [← hheight] at hv
  obtain ⟨hgen, hoffset, hle, hpos, ⟨rest, rfl⟩, hfits⟩ := hprep
  have hcut : ((gen.drop v.offset.toNat).take m.toNat).length = m.toNat := by
    rw [List.length_take, List.length_drop]
    omega
  generalize hfull : ((sidecar (v.last + 1)).isOk && decide (m.toNat = gen.length - v.offset.toNat)) = full
    at htxs hfits hdelay
  refine processProposal_of_accepted hlaw hv (?_ : Accepted app sidecar s maxGas p.time v _ m full)
  refine ⟨?_, ?_, ?_, ?_⟩
  · rw [htxs]
    rfl
  · cases ha : sidecar (v.last + 1) with
    | error err =>
      rw [ha] at hgen hfull
      cases hgen
      have hm : m = 0 := UInt64.toNat_inj.mp (by simpa using hle)
      have hf : full = false := by rw [← hfull]; rfl
      subst hm hf
      refine Or.inl ⟨rfl, rfl, by simpa using hoffset, ?_⟩
      unfold ethSyncDelayExceeded
      cases hlast : s.bridge.getLastEthBlockUpdateTime with
      | none => rfl
      | some last =>
        have hno : (v.indexMsg app 0 false).noEthereumSyncing = true := noEthereumSyncing_iff.mpr ⟨rfl, rfl⟩
        have htime := hdelay _ last (fromRawTxBytes_rawTxBytes hlaw _ _) hno hlast
        simpa using htime
    | ok response =>
      rw [ha] at hgen hfull
      refine Or.inr ⟨response, gen, ha, hgen, hoffset, hle, hpos, ?_, ?_⟩
      · rw [← hfull]
        simp [Except.isOk, Except.toBool]
      · rw [htxs, View.injected]
        simp only [List.cons_append, List.drop_one, List.tail_cons, List.append_assoc]
        rw [List.take_append_of_le_length hcut.ge, List.take_of_length_le hcut.le]
  · intro hd
    rw [htxs, View.injected, if_pos hd, List.cons_append, Nat.add_comm 1, List.getElem?_cons_succ,
      List.append_assoc, List.getElem?_append_right hcut.le, hcut]
    simp
  · rw [htxs]
    exact hfits

/-- A mempool with one transfer. -/
def referencePrepare : RequestPrepareProposal := ⟨[validRawTxBytesFromAnyMsgs [transferAny] 0], 22020096, 1⟩

/-- The verifier's request for what is made of it: a deposit before the transfer. -/
def referenceHonest : RequestProcessProposal :=
  ⟨⟨referenceProposal.txs.elems ++ referencePrepare.txs, [], by decide⟩, 1, 0⟩

theorem processProposal_of_prepareProposal_reference :
    prepareProposal Reference.app (Reference.answering [Reference.depositEvent 5] (by decide)) none
        Reference.state referencePrepare = .ok referenceHonest.txs.elems ∧
      processProposal Reference.app (Reference.answering [Reference.depositEvent 5] (by decide)) none
        Reference.state referenceHonest = .ok () := by
  have hprep : prepareProposal Reference.app (Reference.answering [Reference.depositEvent 5] (by decide)) none
      Reference.state referencePrepare = .ok referenceHonest.txs.elems := by decide +kernel
  refine ⟨hprep, processProposal_of_prepareProposal Reference.sdk_lawful (by decide +kernel) hprep rfl rfl ?_⟩
  intro msg last _ _ hlast
  have hzero : Reference.state.bridge.getLastEthBlockUpdateTime = some 0 := by decide +kernel
  rw [← Option.some.inj (hzero.symm.trans hlast)]
  decide +kernel

end Prepare

end FuelSequencer.Abci
