import FuelSequencer.Abci.Acceptance
import FuelSequencer.App.Reference

/-! # The gas limit of a proposal

The proposer's selector and the verifier both add up the gas limits in a `uint64`. The
limit holds for the sum of the limits themselves exactly as long as no addition wraps.
-/
namespace FuelSequencer.Abci
open Go Wire Exec Lib Bridge Wiring

variable {decode : Bytes → Except GoString Tx}

/-- The sum of the gas limits, without a bound. -/
def gasLimits (decode : Bytes → Except GoString Tx) (txs : List Bytes) : ℕ :=
  (txs.map fun txBz => (gasOf decode txBz).toNat).sum

@[simp] theorem gasLimits_nil : gasLimits decode [] = 0 := rfl

@[simp] theorem gasLimits_cons (txBz : Bytes) (txs : List Bytes) :
    gasLimits decode (txBz :: txs) = (gasOf decode txBz).toNat + gasLimits decode txs := by
  simp [gasLimits]

@[simp] theorem gasLimits_append (txs txs' : List Bytes) :
    gasLimits decode (txs ++ txs') = gasLimits decode txs + gasLimits decode txs' := by
  simp [gasLimits]

theorem gasOf_of_decode {txBz : Bytes} {tx : Tx} (h : decode txBz = .ok tx) :
    gasOf decode txBz = tx.gas.getD 0 := by
  rw [gasOf, h]

/-! ## Selecting -/

namespace TxSelector

/-- The transaction would be taken because its gas limit wraps the running total around. -/
def Overflows (ts : TxSelector) (maxTxBytes : ℕ) (maxBlockGas : UInt64) (memTx : Tx) (txBz : Bytes) :
    Prop :=
  txSize txBz + ts.totalTxBytes ≤ maxTxBytes ∧ memTx.gas.getD 0 + ts.totalTxGas ≤ maxBlockGas ∧
    2 ^ 64 ≤ (memTx.gas.getD 0).toNat + ts.totalTxGas.toNat

/-- The running total is the sum of the selected gas limits and within the limit. -/
structure Exact (decode : Bytes → Except GoString Tx) (maxBlockGas : UInt64) (ts : TxSelector) : Prop where
  total : ts.totalTxGas.toNat = gasLimits decode ts.selectedTxs
  le : ts.totalTxGas ≤ maxBlockGas

variable {maxTxBytes : ℕ} {maxBlockGas : UInt64} {ts : TxSelector} {tx : Tx} {txBz : Bytes}

/-- What a step does under a gas limit: the transaction is taken or nothing changes. -/
theorem selectTxForProposal_cases (ts : TxSelector) (tx : Tx) (txBz : Bytes) (hgas : maxBlockGas > 0) :
    (txSize txBz + ts.totalTxBytes ≤ maxTxBytes ∧ tx.gas.getD 0 + ts.totalTxGas ≤ maxBlockGas ∧
      (ts.selectTxForProposal maxTxBytes maxBlockGas tx txBz).1 =
        ⟨ts.totalTxBytes + txSize txBz, ts.totalTxGas + tx.gas.getD 0, ts.selectedTxs ++ [txBz]⟩) ∨
    (¬(txSize txBz + ts.totalTxBytes ≤ maxTxBytes ∧ tx.gas.getD 0 + ts.totalTxGas ≤ maxBlockGas) ∧
      (ts.selectTxForProposal maxTxBytes maxBlockGas tx txBz).1 = ts) := by
  simp only [selectTxForProposal, hgas, if_true]
  by_cases hsize : txSize txBz + ts.totalTxBytes ≤ maxTxBytes
  · by_cases hfit : tx.gas.getD 0 + ts.totalTxGas ≤ maxBlockGas
    · exact Or.inl ⟨hsize, hfit, by rw [if_pos hsize, if_pos hfit]⟩
    · exact Or.inr ⟨fun h => hfit h.2, by rw [if_pos hsize, if_neg hfit]⟩
  · exact Or.inr ⟨fun h => hsize h.1, by rw [if_neg hsize]⟩

theorem gasLimits_selectTxForProposal (hgas : maxBlockGas > 0) :
    gasLimits decode ts.selectedTxs ≤
      gasLimits decode (ts.selectTxForProposal maxTxBytes maxBlockGas tx txBz).1.selectedTxs := by
  rcases selectTxForProposal_cases ts tx txBz hgas with ⟨-, -, h⟩ | ⟨-, h⟩
  · rw [h, gasLimits_append]
    exact Nat.le_add_right _ _
  · rw [h]

theorem Exact.step (h : Exact decode maxBlockGas ts) (hgas : maxBlockGas > 0) (hdec : decode txBz = .ok tx)
    (hno : ¬ts.Overflows maxTxBytes maxBlockGas tx txBz) :
    Exact decode maxBlockGas (ts.selectTxForProposal maxTxBytes maxBlockGas tx txBz).1 := by
  rcases selectTxForProposal_cases ts tx txBz hgas with ⟨hsize, hfit, hnew⟩ | ⟨-, hnew⟩
  · have hlt : (tx.gas.getD 0).toNat + ts.totalTxGas.toNat < 2 ^ 64 :=
      Nat.lt_of_not_le fun hle => hno ⟨hsize, hfit, hle⟩
    rw [hnew]
    refine ⟨?_, UInt64.add_comm _ _ ▸ hfit⟩
    dsimp only
    rw [UInt64.toNat_add, Nat.mod_eq_of_lt (by omega), gasLimits_append, gasLimits_cons, gasLimits_nil,
      gasOf_of_decode hdec, h.total, Nat.add_zero]
  · rwa [hnew]

theorem Exact.exceeds (h : Exact decode maxBlockGas ts) (hgas : maxBlockGas > 0) (hdec : decode txBz = .ok tx)
    (hover : ts.Overflows maxTxBytes maxBlockGas tx txBz) :
    2 ^ 64 ≤ gasLimits decode (ts.selectTxForProposal maxTxBytes maxBlockGas tx txBz).1.selectedTxs := by
  obtain ⟨hsize, hfit, hle⟩ := hover
  rcases selectTxForProposal_cases ts tx txBz hgas with ⟨-, -, hnew⟩ | ⟨hnot, -⟩
  · rw [hnew, gasLimits_append, gasLimits_cons, gasOf_of_decode hdec, ← h.total]
    omega
  · exact absurd ⟨hsize, hfit⟩ hnot

end TxSelector

/-- The calls of `selectTxForProposal` a selection makes, each with the selector before it. -/
def selectionCalls (decode : Bytes → Except GoString Tx) (maxTxBytes : ℕ) (maxBlockGas : UInt64) :
    TxSelector → List Bytes → List (TxSelector × Tx × Bytes)
  | _, [] => []
  | ts, txBz :: txs =>
    match decode txBz with
    | .error _ => []
    | .ok tx =>
      let r := ts.selectTxForProposal maxTxBytes maxBlockGas tx txBz
      (ts, tx, txBz) :: if r.2 then [] else selectionCalls decode maxTxBytes maxBlockGas r.1 txs

section Selection

variable {maxTxBytes : ℕ} {maxBlockGas : UInt64}

theorem selectTxs_cons_of_decode {ts : TxSelector} {txBz : Bytes} {tx : Tx} {txs : List Bytes}
    (htx : decode txBz = .ok tx) :
    selectTxs decode maxTxBytes maxBlockGas ts (txBz :: txs) =
      if (ts.selectTxForProposal maxTxBytes maxBlockGas tx txBz).2 then
        .ok (ts.selectTxForProposal maxTxBytes maxBlockGas tx txBz).1.selectedTxs
      else selectTxs decode maxTxBytes maxBlockGas
        (ts.selectTxForProposal maxTxBytes maxBlockGas tx txBz).1 txs := by
  rw [selectTxs, htx]
  rfl

theorem exists_selectTxs (txs : List Bytes) (hdec : ∀ txBz ∈ txs, ∃ tx, decode txBz = .ok tx) :
    ∀ ts, ∃ selected, selectTxs decode maxTxBytes maxBlockGas ts txs = .ok selected := by
  induction txs with
  | nil => exact fun ts => ⟨_, rfl⟩
  | cons txBz txs ih =>
    intro ts
    obtain ⟨tx, htx⟩ := hdec txBz List.mem_cons_self
    rw [selectTxs_cons_of_decode htx]
    split
    · exact ⟨_, rfl⟩
    · exact ih (fun t ht => hdec t (List.mem_cons_of_mem _ ht)) _

theorem gasLimits_le_of_selectTxs (hgas : maxBlockGas > 0) {txs selected : List Bytes} {ts : TxSelector}
    (h : selectTxs decode maxTxBytes maxBlockGas ts txs = .ok selected) :
    gasLimits decode ts.selectedTxs ≤ gasLimits decode selected := by
  induction txs generalizing ts with
  | nil => exact (Except.ok.inj h) ▸ le_rfl
  | cons txBz txs ih =>
    obtain ⟨tx, htx, -⟩ := except_bind_eq_ok.mp h
    apply (TxSelector.gasLimits_selectTxForProposal hgas).trans
    rw [selectTxs_cons_of_decode htx] at h
    split at h
    · exact le_of_eq (congrArg (gasLimits decode) (Except.ok.inj h))
    · exact ih h

/-- From an exact total the selection stays within the limit as long as no call overflows;
a call that does leaves a sum of at least `2 ^ 64` behind. -/
theorem gasLimits_selectTxs_iff (hgas : maxBlockGas > 0) {txs selected : List Bytes} {ts : TxSelector}
    (hexact : ts.Exact decode maxBlockGas)
    (h : selectTxs decode maxTxBytes maxBlockGas ts txs = .ok selected) :
    gasLimits decode selected ≤ maxBlockGas.toNat ↔
      ∀ call ∈ selectionCalls decode maxTxBytes maxBlockGas ts txs,
        ¬call.1.Overflows maxTxBytes maxBlockGas call.2.1 call.2.2 := by
  induction txs generalizing ts with
  | nil =>
    have hsel : ts.selectedTxs = selected := Except.ok.inj h
    simpa [selectionCalls, ← hsel, ← hexact.total] using UInt64.le_iff_toNat_le.mp hexact.le
  | cons txBz txs ih =>
    obtain ⟨tx, htx, -⟩ := except_bind_eq_ok.mp h
    rw [selectTxs_cons_of_decode htx] at h
    simp only [selectionCalls, htx, List.forall_mem_cons]
    by_cases hover : ts.Overflows maxTxBytes maxBlockGas tx txBz
    · have hbig : 2 ^ 64 ≤ gasLimits decode selected := by
        apply (hexact.exceeds hgas htx hover).trans
        split at h
        · exact (Except.ok.inj h) ▸ le_rfl
        · exact gasLimits_le_of_selectTxs hgas h
      have hmax := maxBlockGas.toNat_lt
      exact iff_of_false (by omega) fun hall => hall.1 hover
    · have hstep := hexact.step hgas htx hover
      rw [and_iff_right hover]
      split at h
      · next hfull =>
        have hsel := Except.ok.inj h
        simpa [hfull, ← hsel, ← hstep.total] using UInt64.le_iff_toNat_le.mp hstep.le
      · next hfull =>
        rw [if_neg hfull]
        exact ih hstep h

end Selection

/-! ## Verifying -/

/-- An accepted list is within the limit unless its sum no longer fits in 64 bits. -/
theorem gasLimits_of_txsFit {maxGas : ℤ} (hpos : 0 < maxGas) (hmax : uint64 maxGas < 2 ^ 64) {txs : List Bytes}
    {start : UInt64} (h : TxsFit decode maxGas start txs) (hstart : start.toNat ≤ uint64 maxGas) :
    start.toNat + gasLimits decode txs ≤ uint64 maxGas ↔ start.toNat + gasLimits decode txs < 2 ^ 64 := by
  induction txs generalizing start with
  | nil => simpa using iff_of_true hstart (hstart.trans_lt hmax)
  | cons txBz txs ih =>
    obtain ⟨-, hle, htail⟩ := txsFit_cons.mp h
    rw [gasLimits_cons, ← Nat.add_assoc]
    by_cases hlt : start.toNat + (gasOf decode txBz).toNat < 2 ^ 64
    · have hsum : (start + gasOf decode txBz).toNat = start.toNat + (gasOf decode txBz).toNat := by
        rw [UInt64.toNat_add, Nat.mod_eq_of_lt hlt]
      rw [← hsum]
      exact ih htail (hle hpos)
    · exact iff_of_false (by omega) (by omega)

theorem gasLimits_of_verified {maxGas : Int64} (hpos : 0 < maxGas) {txs : List Bytes}
    (h : verifyTransactionsInProposal decode (some maxGas) txs = .ok ()) :
    gasLimits decode txs ≤ maxGas.toInt.toNat ↔ gasLimits decode txs < 2 ^ 64 := by
  have hint : 0 < maxGas.toInt := Int64.lt_iff_toInt_lt.mp hpos
  have hmax : uint64 maxGas.toInt = maxGas.toInt.toNat := by
    have hlt := maxGas.toInt_lt
    unfold uint64
    omega
  have hfit : TxsFit decode maxGas.toInt 0 txs := verifyTransactionsFrom_eq_ok.mp h
  have hiff := gasLimits_of_txsFit hint (uint64_lt _) hfit (Nat.zero_le _)
  simpa [hmax] using hiff

/-! ## Both handlers -/

/-- The selected transactions keep within the limit exactly when no call of the selector wraps its
total, and an accepted list does exactly when the sum of its gas limits fits in 64 bits. -/
theorem within_maxGas_iff_no_overflow (decode : Bytes → Except GoString Tx) :
    (∀ (maxTxBytes : ℕ) (maxBlockGas : UInt64) (txs : List Bytes), maxBlockGas > 0 →
      (∀ txBz ∈ txs, ∃ tx, decode txBz = .ok tx) →
      ∃ selected, selectTxs decode maxTxBytes maxBlockGas ⟨0, 0, []⟩ txs = .ok selected ∧
        (gasLimits decode selected ≤ maxBlockGas.toNat ↔
          ∀ call ∈ selectionCalls decode maxTxBytes maxBlockGas ⟨0, 0, []⟩ txs,
            ¬call.1.Overflows maxTxBytes maxBlockGas call.2.1 call.2.2)) ∧
    (∀ (maxGas : Int64) (txs : List Bytes), 0 < maxGas →
      verifyTransactionsInProposal decode (some maxGas) txs = .ok () →
      (gasLimits decode txs ≤ maxGas.toInt.toNat ↔ gasLimits decode txs < 2 ^ 64)) := by
  refine ⟨?_, fun maxGas txs hpos h => gasLimits_of_verified hpos h⟩
  intro maxTxBytes maxBlockGas txs hgas hdec
  obtain ⟨selected, hsel⟩ := exists_selectTxs txs hdec ⟨0, 0, []⟩
  have hzero : TxSelector.Exact decode maxBlockGas ⟨0, 0, []⟩ := ⟨rfl, UInt64.zero_le⟩
  exact ⟨selected, hsel, gasLimits_selectTxs_iff hgas hzero hsel⟩

/-- The bytes of a transfer with the given gas limit. -/
def transferWithGas (gasLimit : UInt64) : Bytes :=
  encodeFields (bytesField 1 (encodeFields (txBodyFields [⟨Reference.msgSendTypeUrl, []⟩])) ++
    bytesField 2 (encodeFields [messageField 1 (encodeFields (signerInfoFields 1)),
      messageField 2 (encodeFields (feeFields gasLimit))]))

theorem within_maxGas_iff_no_overflow_transfers :
    (∃ selected, selectTxs Reference.txDecode 1000 10 ⟨0, 0, []⟩ [transferWithGas 5, transferWithGas 4] =
        .ok selected ∧
      (gasLimits Reference.txDecode selected ≤ (10 : UInt64).toNat ↔
        ∀ call ∈ selectionCalls Reference.txDecode 1000 10 ⟨0, 0, []⟩ [transferWithGas 5, transferWithGas 4],
          ¬call.1.Overflows 1000 10 call.2.1 call.2.2)) ∧
    (gasLimits Reference.txDecode [transferWithGas 5, transferWithGas 4] ≤ (10 : Int64).toInt.toNat ↔
      gasLimits Reference.txDecode [transferWithGas 5, transferWithGas 4] < 2 ^ 64) := by
  have hboth := within_maxGas_iff_no_overflow Reference.txDecode
  refine ⟨hboth.1 1000 10 _ (by decide) ?_, hboth.2 10 _ (by decide) (by decide +kernel)⟩
  intro txBz hmem
  simp only [List.mem_cons, List.not_mem_nil, or_false] at hmem
  rcases hmem with rfl | rfl
  · exact exists_of_isOk (by decide +kernel)
  · exact exists_of_isOk (by decide +kernel)

/-- With a limit of 10, gas limits of 5 and `2 ^ 64 - 3` are selected and accepted together. -/
theorem wrapped_gas_selected_and_accepted :
    selectTxs Reference.txDecode 1000 10 ⟨0, 0, []⟩ [transferWithGas 5, transferWithGas (0 - 3)] =
        .ok [transferWithGas 5, transferWithGas (0 - 3)] ∧
      verifyTransactionsInProposal Reference.txDecode (some 10)
        [transferWithGas 5, transferWithGas (0 - 3)] = .ok () ∧
      gasLimits Reference.txDecode [transferWithGas 5, transferWithGas (0 - 3)] = 2 ^ 64 + 2 := by
  decide +kernel

end FuelSequencer.Abci
