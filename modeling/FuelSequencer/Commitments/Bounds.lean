import FuelSequencer.Commitments.Encoding
import FuelSequencer.Commitments.Inclusion

/-! # Indices of the inclusion query

After the checks of the range the place of the block is an index of its lists, whatever the
sign of the height. The transaction index is only checked against the upper bound.
-/
namespace FuelSequencer.Commitments
open Go Wire Exec Lib

variable {q : QueryServer} {req : QueryBridgeCommitmentInclusionProofRequest}

theorem returns_slot {α : Type} {xs : List α} {i : ℤ} : Returns (slot xs i) ↔ 0 ≤ i ∧ i.toNat < xs.length := by
  rw [slot, returns_required_panic]
  by_cases hi : i < 0
  · rw [if_pos hi]
    simp [not_le.mpr hi]
  · rw [if_neg hi]
    constructor
    · rintro ⟨a, ha⟩
      exact ⟨not_lt.mp hi, (List.getElem?_eq_some_iff.mp ha).1⟩
    · intro h
      exact ⟨_, List.getElem?_eq_getElem h.2⟩

theorem exists_slot {α : Type} {xs : List α} {i : ℤ} (hnonneg : 0 ≤ i) (hlt : i.toNat < xs.length) :
    ∃ a, slot xs i = .ok a :=
  ⟨_, slot_eq_ok.mpr ⟨hnonneg, List.getElem?_eq_getElem hlt⟩⟩

theorem returns_fetchBridgeCommitmentLeaves {start endHeight : UInt64} :
    Returns (fetchBridgeCommitmentLeaves q start endHeight) ↔ leafSize * (endHeight - start).toNat ≤ maxAlloc := by
  rw [fetchBridgeCommitmentLeaves, returns_bind, returns_failIf_panic,
    and_iff_left fun _ _ => returns_wrapping]
  exact not_lt

/-- The machine difference of two numbers that are close to each other. -/
theorem int64_sub_int64 {height : Int64} {start : ℕ} (hle : start ≤ uint64 height.toInt)
    (hlt : uint64 height.toInt - start < 2 ^ 63) :
    int64 (height.toInt - int64 start) = (uint64 height.toInt - start : ℕ) := by
  unfold int64 uint64 at *
  rw [Int.bmod_def, Int.bmod_def]
  omega

/-- The range of a request, for the checks before any data is read. -/
def Validated (q : QueryServer) (req : QueryBridgeCommitmentInclusionProofRequest) : Prop :=
  validateBridgeCommitmentInclusionProofRequest q (UInt64.ofNat (uint64 req.height.toInt)) req.start req.endHeight = .ok ()

/-- The requests that have a response: a height in the range, and a transaction of the block before
it or the first place of a block without transactions. -/
structure ValidRequest (q : QueryServer) (req : QueryBridgeCommitmentInclusionProofRequest) : Prop where
  validated : Validated q req
  transaction : ∃ results, getBlockResults q (int64 (req.height.toInt - 1)) = .ok results ∧
    (0 ≤ req.txIndex.toInt ∧ req.txIndex.toInt < results.length ∨ results = [] ∧ req.txIndex.toInt = 0)

/-- The query returns a response or an error, and an error for every request that is not valid. -/
def Answered (q : QueryServer) (req : QueryBridgeCommitmentInclusionProofRequest) : Prop :=
  Returns (bridgeCommitmentInclusionProof q req) ∧
    (¬ ValidRequest q req → ∃ e, bridgeCommitmentInclusionProof q req = .error (.err e))

/-- If the checks pass, the leaves can be allocated, and if the data is there too, the transaction
index is not negative. -/
def SafeRequest (q : QueryServer) (req : QueryBridgeCommitmentInclusionProofRequest) : Prop :=
  Validated q req → leafSize * (req.endHeight - req.start).toNat ≤ maxAlloc ∧
    ∀ leaves, fetchBridgeCommitmentLeaves q req.start req.endHeight = .ok leaves →
      ∀ results, getBlockResults q (int64 (req.height.toInt - 1)) = .ok results → 0 ≤ req.txIndex.toInt

/-- The place of the height among the leaves. -/
theorem blockIndex_lt (hvalid : Validated q req) (hsize : leafSize * (req.endHeight - req.start).toNat ≤ maxAlloc)
    {leaves : List BridgeCommitmentLeaf} (hleaves : fetchBridgeCommitmentLeaves q req.start req.endHeight = .ok leaves) :
    ∃ first, slot leaves 0 = .ok first ∧ 0 ≤ int64 (req.height.toInt - int64 first.height.toNat) ∧
      (int64 (req.height.toInt - int64 first.height.toNat)).toNat < leaves.length := by
  obtain ⟨-, hlow, hhigh⟩ := height_of_validate hvalid
  have hof := leavesOf_of_fetch hleaves
  have hlength := hof.length_eq
  have hle : req.start ≤ req.endHeight := by
    rw [UInt64.le_iff_toNat_le]
    omega
  rw [UInt64.toNat_sub_of_le _ _ hle, leafSize, maxAlloc] at hsize
  obtain ⟨first, hfirst⟩ : ∃ first, leaves[0]? = some first := ⟨_, List.getElem?_eq_getElem (by omega)⟩
  have hheight := hof.height_eq hfirst
  rw [add_zero] at hheight
  refine ⟨first, slot_eq_ok.mpr ⟨le_refl _, hfirst⟩, ?_⟩
  rw [hheight, int64_sub_int64 hlow (by omega)]
  omega

/-- Every response is to a valid request. -/
theorem valid_of_response {r : QueryBridgeCommitmentInclusionProofResponse}
    (h : bridgeCommitmentInclusionProof q req = .ok r) : ValidRequest q req := by
  simp only [bridgeCommitmentInclusionProof, except_bind_eq_ok, wrapping_eq_ok] at h
  obtain ⟨_, hvalid, _, -, _, -, _, -, _, -, _, -, results, hresults, h⟩ := h
  refine ⟨hvalid, results, hresults, ?_⟩
  split at h
  · rename_i hempty
    exact Or.inr ⟨List.length_eq_zero_iff.mp hempty.1, hempty.2⟩
  · simp only [except_bind_eq_ok, failIf_eq_ok] at h
    obtain ⟨_, hlt, _, -, result, hresult, -⟩ := h
    exact Or.inl ⟨(slot_eq_ok.mp hresult).1, not_le.mp hlt⟩

/-- The part of the query about the transaction. -/
theorem returns_transaction (hproofs : ∀ items, (q.merkle.proofsFromByteSlices items).length = items.length)
    (results : List ExecTxResult) (i : ℤ) (hle : ¬ i ≥ results.length) :
    Returns (proveResult q (newResults results) i) ∧ Returns (slot (newResults results) i) ↔ 0 ≤ i := by
  rw [proveResult, returns_slot, returns_slot, hproofs, toByteSlices, List.length_map, newResults, List.length_map,
    and_self]
  omega

/-- The query panics on the requests that are not safe, and on no other. -/
theorem returns_inclusionProof (hproofs : ∀ items, (q.merkle.proofsFromByteSlices items).length = items.length) :
    Returns (bridgeCommitmentInclusionProof q req) ↔ SafeRequest q req := by
  have htx := returns_transaction hproofs
  rw [bridgeCommitmentInclusionProof, returns_bind, and_iff_right returns_wrapping]
  refine Unique.forall_iff.trans ?_
  rw [wrapping_eq_ok]
  refine forall_congr' fun (hvalid : Validated q req) => ?_
  rw [returns_bind, returns_fetchBridgeCommitmentLeaves]
  refine and_congr_right fun hsize => forall_congr' fun leaves => forall_congr' fun hleaves => ?_
  -- the encoding and the lookups of the block succeed
  obtain ⟨first, hfirst, hnonneg, hlt⟩ := blockIndex_lt hvalid hsize hleaves
  have hencoded : wrapping id (encodeBridgeCommitment leaves) = .ok (leaves.map encodedLeaf) :=
    wrapping_eq_ok.mpr (encodeBridgeCommitment_eq leaves)
  have hplace := hlt
  rw [← List.length_map encodedLeaf, ← hproofs] at hplace
  obtain ⟨proof, hproof⟩ := exists_slot hnonneg hplace
  obtain ⟨leaf, hleaf⟩ := exists_slot hnonneg hlt
  rw [hfirst, ok_bind, hencoded, ok_bind, hproof, ok_bind, hleaf, ok_bind, returns_bind, and_iff_right returns_wrapping]
  refine forall_congr' fun results => ?_
  rw [wrapping_eq_ok]
  refine forall_congr' fun hresults => ?_
  split
  · rename_i hempty
    exact iff_of_true (returns_ok _) hempty.2.ge
  · rw [returns_bind, and_iff_right returns_failIf_err]
    by_cases hhigh : req.txIndex.toInt ≥ results.length
    · refine iff_of_true (fun _ h => absurd hhigh (failIf_eq_ok.mp h)) ?_
      omega
    · constructor
      · intro h
        have hprove := (returns_bind.mp (h () (failIf_of_not hhigh))).1
        exact (returns_slot.mp hprove).1
      · intro h _ _
        obtain ⟨hprove, hslot⟩ := (htx results _ hhigh).mpr h
        exact returns_bind.mpr ⟨hprove, fun _ _ => returns_bind.mpr ⟨hslot, fun _ _ => returns_ok _⟩⟩

/-- A request is answered with a response or an error, and only a valid one with a response, if it
is safe. Only the upper bound of the transaction index is checked, so that a negative index of a
block whose results are there runs into the lookup. -/
theorem answered_iff_safeRequest (hproofs : ∀ items, (q.merkle.proofsFromByteSlices items).length = items.length) :
    Answered q req ↔ SafeRequest q req := by
  rw [Answered, ← returns_inclusionProof hproofs]
  refine and_iff_left_of_imp fun hreturns hinvalid => ?_
  cases hr : bridgeCommitmentInclusionProof q req with
  | ok r => exact absurd (valid_of_response hr) hinvalid
  | error fault =>
    cases fault with
    | err e => exact ⟨e, rfl⟩
    | panic e => exact absurd hr (hreturns e)

theorem answered_iff_safeRequest_reference :
    (Answered referenceServer ⟨3, 1, 2, 4⟩ ↔ SafeRequest referenceServer ⟨3, 1, 2, 4⟩) ∧
    SafeRequest referenceServer ⟨3, 1, 2, 4⟩ ∧ (bridgeCommitmentInclusionProof referenceServer ⟨3, 1, 2, 4⟩).isOk := by
  refine ⟨answered_iff_safeRequest (merkleFunctions_lawful sha256).length_proofs, ?_, by decide +kernel⟩
  exact fun _ => ⟨by decide, fun _ _ _ _ => by decide⟩

/-- The third header is that of the two results of the second block, and there is no result before
the first. -/
theorem negative_index_panics :
    bridgeCommitmentInclusionProof referenceServer ⟨3, -1, 2, 4⟩ =
      .error (.panic (str "runtime error: index out of range")) ∧
    ¬ Answered referenceServer ⟨3, -1, 2, 4⟩ := by
  have hpanic : bridgeCommitmentInclusionProof referenceServer ⟨3, -1, 2, 4⟩ =
      .error (.panic (str "runtime error: index out of range")) := by decide +kernel
  exact ⟨hpanic, fun h => h.1 _ hpanic⟩

end FuelSequencer.Commitments
