import FuelSequencer.Abci.Honest

/-! # What native transactions are sure of

The proposer reserves a share of the block for native transactions. However many events
are pending and however large they are, the first transactions of the mempool that fit in
that share are in the block, right behind the injected ones and in their order.
-/
namespace FuelSequencer.Abci
open Go Wire Exec Lib Wiring Bridge

/-! ## Selecting with gas -/

section Select

variable {decode : Bytes → Except GoString Tx} {maxTxBytes : ℕ} {maxBlockGas : UInt64}

/-- The gas limits of the transactions together, as a number. -/
def gasSum (decode : Bytes → Except GoString Tx) (txs : List Bytes) : ℕ :=
  (txs.map fun txBz => (gasOf decode txBz).toNat).sum

theorem gasSum_cons (txBz : Bytes) (txs : List Bytes) :
    gasSum decode (txBz :: txs) = (gasOf decode txBz).toNat + gasSum decode txs := by
  rw [gasSum, List.map_cons, List.sum_cons]
  rfl

theorem gasSum_eq_zero {txs : List Bytes} (h : ∀ txBz ∈ txs, ∃ tx, decode txBz = .ok tx ∧ tx.gas.getD 0 = 0) :
    gasSum decode txs = 0 := by
  rw [gasSum, List.sum_eq_zero_iff]
  intro n hn
  obtain ⟨txBz, hmem, rfl⟩ := List.mem_map.mp hn
  obtain ⟨tx, hdec, hgas⟩ := h txBz hmem
  have htx : gasOf decode txBz = tx.gas.getD 0 := by rw [gasOf, hdec]
  rw [htx, hgas]
  rfl

theorem gasSum_append (txs txs' : List Bytes) :
    gasSum decode (txs ++ txs') = gasSum decode txs + gasSum decode txs' := by
  rw [gasSum, List.map_append, List.sum_append]
  rfl

/-- One step with a transaction that fits and leaves some gas. -/
theorem selectTxForProposal_of_room (ts : TxSelector) {tx : Tx} {txBz : Bytes}
    (hfit : ts.totalTxBytes + txSize txBz ≤ maxTxBytes)
    (hgas : 0 < maxBlockGas → ts.totalTxGas.toNat + (tx.gas.getD 0).toNat < maxBlockGas.toNat) :
    ∃ total, ts.selectTxForProposal maxTxBytes maxBlockGas tx txBz =
        (⟨ts.totalTxBytes + txSize txBz, total, ts.selectedTxs ++ [txBz]⟩,
          decide (maxTxBytes ≤ ts.totalTxBytes + txSize txBz)) ∧
      (0 < maxBlockGas → total.toNat = ts.totalTxGas.toNat + (tx.gas.getD 0).toNat) := by
  have hsize : txSize txBz + ts.totalTxBytes ≤ maxTxBytes := by omega
  unfold TxSelector.selectTxForProposal
  dsimp only
  rw [if_pos hsize]
  by_cases hlimit : maxBlockGas > 0
  · have hroom := hgas hlimit
    have hlt := maxBlockGas.toNat_lt
    have hsum : (ts.totalTxGas + tx.gas.getD 0).toNat = ts.totalTxGas.toNat + (tx.gas.getD 0).toNat := by
      rw [UInt64.toNat_add]
      omega
    have hle : tx.gas.getD 0 + ts.totalTxGas ≤ maxBlockGas := by
      rw [UInt64.add_comm, UInt64.le_iff_toNat_le, hsum]
      exact hroom.le
    have hnot : ¬ ts.totalTxGas + tx.gas.getD 0 ≥ maxBlockGas := by
      rw [ge_iff_le, UInt64.le_iff_toNat_le, hsum]
      omega
    rw [if_pos hlimit, if_pos hle]
    refine ⟨_, ?_, fun _ => hsum⟩
    simp [hnot]
  · rw [if_neg hlimit]
    refine ⟨ts.totalTxGas, ?_, fun h => absurd h hlimit⟩
    simp [hlimit]

/-- Transactions in front that fit together and leave some gas are all selected first. -/
theorem selectTxs_takes_room (ts : TxSelector) {first txs out : List Bytes}
    (hdecode : ∀ txBz ∈ first, ∃ tx, decode txBz = .ok tx) (hfit : ts.totalTxBytes + txsSize first ≤ maxTxBytes)
    (hgas : 0 < maxBlockGas → ts.totalTxGas.toNat + gasSum decode first < maxBlockGas.toNat)
    (h : selectTxs decode maxTxBytes maxBlockGas ts (first ++ txs) = .ok out) :
    ts.selectedTxs ++ first <+: out := by
  induction first generalizing ts with
  | nil =>
    obtain ⟨picked, rfl, -⟩ := selectTxs_selects h
    rw [List.append_nil]
    exact List.prefix_append _ _
  | cons txBz first ih =>
    have hsum : txsSize (txBz :: first) = txSize txBz + txsSize first := by simp [txsSize]
    rw [hsum] at hfit
    obtain ⟨tx, hdec⟩ := hdecode txBz List.mem_cons_self
    have htx : gasOf decode txBz = tx.gas.getD 0 := by rw [gasOf, hdec]
    rw [gasSum_cons, htx] at hgas
    have hroom : 0 < maxBlockGas → ts.totalTxGas.toNat + (tx.gas.getD 0).toNat < maxBlockGas.toNat := by
      intro hlimit
      have hlt := hgas hlimit
      omega
    have hone : ts.totalTxBytes + txSize txBz ≤ maxTxBytes := by omega
    obtain ⟨total, hstep, htotal⟩ := selectTxForProposal_of_room ts hone hroom
    rw [List.cons_append, selectTxs, hdec, ok_bind] at h
    dsimp only at h
    rw [hstep] at h
    have hlist : ts.selectedTxs ++ txBz :: first = ts.selectedTxs ++ [txBz] ++ first := by simp
    rw [hlist]
    dsimp only at h
    by_cases hfull : maxTxBytes ≤ ts.totalTxBytes + txSize txBz
    · -- the block is full, so nothing with a size is left
      have hnil : first = [] := by
        cases first with
        | nil => rfl
        | cons b first =>
          have hpos := txSize_pos b
          have hb : txsSize (b :: first) = txSize b + txsSize first := by simp [txsSize]
          omega
      rw [if_pos (by simpa using hfull)] at h
      cases h
      rw [hnil, List.append_nil]
    · rw [if_neg (by simpa using hfull)] at h
      refine ih ⟨_, total, _⟩ (fun b hb => hdecode b (List.mem_cons_of_mem _ hb)) (by dsimp only; omega) ?_ h
      intro hlimit
      have hlt := hgas hlimit
      rw [htotal hlimit]
      omega

end Select

/-! ## The share -/

variable {W : Type} {app : App W} {sidecar : Sidecar} {s : State W} {maxGas : Option Int64}
  {req : RequestPrepareProposal}

/-- The events leave the share to native transactions that make use of it. -/
theorem eventSpace_add_le {params : Params} {size first space : ℕ} (hle : first ≤ size)
    (hshare : first ≤ nativeShare params space) (hspace : nativeShare params space ≤ space) :
    eventSpace params size space + first ≤ space := by
  unfold eventSpace
  split_ifs <;> omega

theorem txsSize_append (txs txs' : List Bytes) : txsSize (txs ++ txs') = txsSize txs + txsSize txs' := by
  rw [txsSize, List.map_append, List.sum_append]
  rfl

theorem Pending.sequencerTxsSize_eq (p : Pending) (hsmall : txsSize (p.supplyDeltaTxs ++ req.txs) < 2 ^ 64) :
    p.sequencerTxsSize req = txsSize req.txs := by
  rw [Pending.sequencerTxsSize, subUint64_of_le _ hsmall]
  · rw [txsSize_append]
    omega
  · rw [txsSize_append]
    omega

/-- In every prepared block the injected transactions come first, and behind them each beginning of
the mempool that fits in the share of native transactions and leaves some of the block's gas. -/
theorem native_share_granted (hlaw : app.sdk.Lawful) (hparams : s.bridge.params.validate app.sdk = .ok ())
    (hmax : 0 ≤ req.maxTxBytes.toInt) (hbytes : txsSize req.txs < 2 ^ 63) {txs : List Bytes}
    (hprep : prepareProposal app sidecar maxGas s req = .ok txs) : ∃ v m full eventTxs,
      View.Of app s req.height v ∧ eventTxs.length = m.toNat ∧
      ∀ first, first <+: req.txs → (∀ txBz ∈ first, ∃ tx, app.sdk.txDecode txBz = .ok tx) →
        txsSize first ≤ nativeShare s.bridge.params (req.maxTxBytes.toInt.toNat - txsSize (v.supplyDeltaTxs app)) →
        ((maxGas.getD 0).toInt ≠ 0 → gasSum app.sdk.txDecode first < uint64 (maxGas.getD 0).toInt) →
        v.injected app m full eventTxs ++ first <+: txs := by
  rw [prepareProposal_eq] at hprep
  obtain ⟨choice, hchoice, hprep⟩ := except_bind_eq_ok.mp hprep
  obtain ⟨_, -, hprep⟩ := except_bind_eq_ok.mp hprep
  obtain rfl := Except.ok.inj hprep
  obtain ⟨p, v, k, gen, full, hp, -, -, hsel⟩ := selected_of_chooseTxs hparams hchoice
  have hof := hsel.of
  have hm := hsel.toNat_count
  have hlength : ((gen.drop v.offset.toNat).take k).length = (UInt64.ofNat k).toNat := by
    have hle := hsel.count_le
    rw [hm, List.length_take, List.length_drop]
    omega
  have hmaxBytes : uint64 req.maxTxBytes.toInt = req.maxTxBytes.toInt.toNat := by
    have hlt := Int64.toInt_lt req.maxTxBytes
    unfold uint64
    omega
  have hspace : p.maxBlockSpace req = req.maxTxBytes.toInt.toNat - txsSize (v.supplyDeltaTxs app) := by
    rw [Pending.maxBlockSpace, subUint64_of_le hof.fits (uint64_lt _), hmaxBytes, hof.supplyDeltaTxs]
  have hinjected : ∀ tx ∈ v.injected app (UInt64.ofNat k) full ((gen.drop v.offset.toNat).take k), ∃ t,
      app.sdk.txDecode tx = .ok t ∧ t.gas.getD 0 = 0 :=
    gas_of_injected hlaw hof.generated fun tx htx => List.mem_of_mem_drop (List.mem_of_mem_take htx)
  refine ⟨v, UInt64.ofNat k, full, _, hof.view, hlength, fun first hfirst hdecode hshare hgas => ?_⟩
  obtain ⟨rest, hrest⟩ := hfirst
  have hselected := hsel.selected_eq
  have hinj := hsel.injected_le
  generalize v.injected app (UInt64.ofNat k) full ((gen.drop v.offset.toNat).take k) = injected
    at hinjected hselected hinj ⊢
  rw [← hrest, ← List.append_assoc] at hselected
  have hall : ∀ tx ∈ injected ++ first, ∃ t, app.sdk.txDecode tx = .ok t := by
    intro tx htx
    rcases List.mem_append.mp htx with htx | htx
    · obtain ⟨t, ht, -⟩ := hinjected tx htx
      exact ⟨t, ht⟩
    · exact hdecode tx htx
  -- the events leave at least the share, and what native transactions there are
  have hfit : 0 + txsSize (injected ++ first) ≤ uint64 req.maxTxBytes.toInt := by
    have hfits := hof.fits
    have hlt := Int64.toInt_lt req.maxTxBytes
    have hsize : p.sequencerTxsSize req = txsSize req.txs := by
      refine p.sequencerTxsSize_eq ?_
      rw [txsSize_append]
      omega
    have hle : txsSize first ≤ p.sequencerTxsSize req := by
      rw [hsize, ← hrest, txsSize_append]
      exact Nat.le_add_right _ _
    have hallocation := (Params.validate_eq_ok hparams).2.2.2.2.2.2.2.2
    have hnative : nativeShare s.bridge.params (p.maxBlockSpace req) ≤ p.maxBlockSpace req :=
      nativeShare_le hallocation.1 hallocation.2 (uint64_lt _)
    rw [← hspace] at hshare
    have hroom := eventSpace_add_le hle hshare hnative
    rw [txsSize_append]
    omega
  have hlimit : 0 < UInt64.ofNat (uint64 (maxGas.getD 0).toInt) → (0 : UInt64).toNat +
      gasSum app.sdk.txDecode (injected ++ first) < (UInt64.ofNat (uint64 (maxGas.getD 0).toInt)).toNat := by
    intro hpos
    have hne : (maxGas.getD 0).toInt ≠ 0 := by
      intro hzero
      rw [hzero] at hpos
      exact absurd hpos (by decide)
    rw [gasSum_append, gasSum_eq_zero hinjected, UInt64.toNat_ofNat_of_lt' (uint64_lt _)]
    simpa using hgas hne
  exact selectTxs_takes_room ⟨0, 0, []⟩ hall hfit hlimit hselected

/-- A deposit is pending, and the one transaction of the mempool is in the block. -/
theorem native_share_granted_reference : ∃ v m full eventTxs,
    View.Of Reference.app Reference.state 1 v ∧ eventTxs.length = m.toNat ∧
      v.injected Reference.app m full eventTxs ++ referencePrepare.txs <+: referenceHonest.txs.elems := by
  have hprep : prepareProposal Reference.app (Reference.answering [Reference.depositEvent 5] (by decide)) none
      Reference.state referencePrepare = .ok referenceHonest.txs.elems := by decide +kernel
  obtain ⟨v, m, full, eventTxs, hview, hlength, hfirst⟩ := native_share_granted Reference.sdk_lawful
    (by decide +kernel) (by decide) (by decide +kernel) hprep
  refine ⟨v, m, full, eventTxs, hview, hlength, hfirst _ (List.prefix_refl _) ?_ ?_ ?_⟩
  · intro txBz hmem
    cases List.mem_singleton.mp hmem
    exact exists_of_isOk (by decide +kernel)
  · have hdelta : v.delta = false := Except.ok.inj (hview.delta.symm.trans (by decide +kernel))
    rw [View.supplyDeltaTxs, hdelta, if_neg (by decide)]
    decide +kernel
  · exact fun h => absurd rfl h

end FuelSequencer.Abci
