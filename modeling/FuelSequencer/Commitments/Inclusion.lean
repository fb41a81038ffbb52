import FuelSequencer.Commitments.Reference

/-! # Inclusion proofs verify

A response of the inclusion query is about the very leaves whose root the commitment
query returns for the same range, and its proofs verify: the leaf against that root, and
the result of the transaction against the results hash in the leaf.
-/
namespace FuelSequencer.Commitments
open Go Wire Exec Lib

variable {q : QueryServer} {start endHeight : UInt64}

theorem slot_eq_ok {α : Type} {xs : List α} {i : ℤ} {a : α} :
    slot xs i = .ok a ↔ 0 ≤ i ∧ xs[i.toNat]? = some a := by
  rw [slot, required_eq_ok]
  by_cases hi : i < 0
  · rw [if_pos hi]
    simp [not_le.mpr hi]
  · rw [if_neg hi]
    simp [not_lt.mp hi]

/-! ## The leaves of a range -/

theorem fetchBridgeCommitmentLeaf_eq_ok {height : UInt64} {leaf : BridgeCommitmentLeaf} :
    fetchBridgeCommitmentLeaf q height = .ok leaf ↔ ∃ commit,
      getCommit q (int64 height.toNat) = .ok (some commit) ∧ leaf = ⟨height, commit.lastResultsHash⟩ := by
  rw [fetchBridgeCommitmentLeaf]
  cases getCommit q (int64 height.toNat) with
  | error e => simp [Except.mapError]
  | ok commit =>
    cases commit with
    | none => simp [Except.mapError]
    | some commit => simpa [Except.mapError] using eq_comm

/-- The leaves of a range: one for each height, in order. -/
structure LeavesOf (q : QueryServer) (start endHeight : UInt64) (leaves : List BridgeCommitmentLeaf) : Prop where
  length_eq : leaves.length = endHeight.toNat - start.toNat
  leaf : ∀ (i : ℕ) leaf, leaves[i]? = some leaf → fetchBridgeCommitmentLeaf q (start + UInt64.ofNat i) = .ok leaf

theorem leavesOf_of_fetch {leaves : List BridgeCommitmentLeaf}
    (h : fetchBridgeCommitmentLeaves q start endHeight = .ok leaves) : LeavesOf q start endHeight leaves := by
  rw [fetchBridgeCommitmentLeaves] at h
  obtain ⟨_, -, h⟩ := except_bind_eq_ok.mp h
  rw [wrapping_eq_ok, except_mapM_eq_ok, heights] at h
  have hlength := h.length_eq
  rw [List.length_map, List.length_range] at hlength
  refine ⟨hlength.symm, fun i leaf hleaf => ?_⟩
  obtain ⟨hi, rfl⟩ := List.getElem?_eq_some_iff.mp hleaf
  have hget := h.get (i := i) (by simpa [hlength] using hi) hi
  simpa using hget

/-- A height of the range is that of the leaf at its distance from the start. -/
theorem LeavesOf.height_eq {leaves : List BridgeCommitmentLeaf} (h : LeavesOf q start endHeight leaves) {i : ℕ}
    {leaf : BridgeCommitmentLeaf} (hleaf : leaves[i]? = some leaf) : leaf.height.toNat = start.toNat + i := by
  obtain ⟨commit, -, rfl⟩ := fetchBridgeCommitmentLeaf_eq_ok.mp (h.leaf i leaf hleaf)
  have hi : i < endHeight.toNat - start.toNat := by
    rw [← h.length_eq]
    exact (List.getElem?_eq_some_iff.mp hleaf).1
  have hlt := endHeight.toNat_lt
  have hsmall : (UInt64.ofNat i).toNat = i := UInt64.toNat_ofNat_of_lt' (show i < 2 ^ 64 by omega)
  rw [UInt64.toNat_add, hsmall]
  exact Nat.mod_eq_of_lt (by omega)

/-! ## Ranges and heights -/

/-- What the checks of a range guarantee about a chain without negative heights. -/
theorem range_of_validate (hheight : ∀ height, getLatestBlockHeight q = .ok height → 0 ≤ height.toInt)
    (h : validateBridgeCommitmentRange q start endHeight = .ok ()) :
    0 < start.toNat ∧ start.toNat < endHeight.toNat ∧ endHeight.toNat ≤ 2 ^ 63 := by
  simp only [validateBridgeCommitmentRange, except_bind_eq_ok, failIf_eq_ok, exists_const] at h
  obtain ⟨hstart, horder, hrange, -, height, hlatest, hend⟩ := h
  have hnonneg := hheight height hlatest
  have hmax := Int64.toInt_lt height
  rw [← UInt64.toNat_inj] at hstart hrange
  rw [gt_iff_lt, UInt64.not_lt] at horder
  rw [UInt64.toNat_sub_of_le _ _ horder] at hrange
  have hnext : (UInt64.ofNat (uint64 height.toInt) + 1).toNat ≤ height.toInt.toNat + 1 := by
    rw [UInt64.toNat_add, toNat_ofNat_uint64, uint64, Int.emod_eq_of_lt hnonneg (by omega)]
    exact Nat.mod_le _ _
  rw [gt_iff_lt, UInt64.not_lt, UInt64.le_iff_toNat_le] at hend
  rw [UInt64.le_iff_toNat_le] at horder
  simp only [UInt64.toNat_zero] at hstart hrange
  omega

/-- The checks of a request bound its height, read as an unsigned number. -/
theorem height_of_validate {height : Int64}
    (h : validateBridgeCommitmentInclusionProofRequest q (UInt64.ofNat (uint64 height.toInt)) start endHeight = .ok ()) :
    validateBridgeCommitmentRange q start endHeight = .ok () ∧
      start.toNat ≤ uint64 height.toInt ∧ uint64 height.toInt < endHeight.toNat := by
  obtain ⟨_, hrange, hin⟩ := except_bind_eq_ok.mp h
  rw [failIf_eq_ok, not_or, UInt64.not_lt, ge_iff_le, UInt64.not_le, UInt64.le_iff_toNat_le,
    UInt64.lt_iff_toNat_lt, toNat_ofNat_uint64] at hin
  exact ⟨hrange, hin⟩

/-- A height of the range is a positive `int64`, and so is its distance from the start. -/
theorem blockIndex_eq {height : Int64} (hstart : 0 < start.toNat) (hend : endHeight.toNat ≤ 2 ^ 63)
    (hlow : start.toNat ≤ uint64 height.toInt) (hhigh : uint64 height.toInt < endHeight.toNat) :
    0 < height.toInt ∧ int64 (height.toInt - int64 start.toNat) = height.toInt - start.toNat := by
  have hlo := Int64.le_toInt height
  have hhi := Int64.toInt_lt height
  have hpos : 0 < height.toInt := by
    unfold uint64 at hlow hhigh
    omega
  have hmod : uint64 height.toInt = height.toInt.toNat := by
    rw [uint64, Int.emod_eq_of_lt hpos.le (by omega)]
  refine ⟨hpos, ?_⟩
  rw [int64_eq_self (x := start.toNat) (by omega) (by omega)]
  exact int64_eq_self (by omega) (by omega)

/-! ## The response -/

/-- A response before the transaction is looked at: the leaf of the height and its proof among the
leaves of the range. -/
structure Included (q : QueryServer) (req : QueryBridgeCommitmentInclusionProofRequest)
    (leaf : BridgeCommitmentLeaf) (proof : MerkleProof) : Prop where
  height_pos : 0 < req.height.toInt
  fetched : ∃ commit, getCommit q req.height.toInt = .ok (some commit) ∧
    leaf.lastResultsHash = commit.lastResultsHash
  height_eq : (leaf.height.toNat : ℤ) = req.height.toInt
  index_eq : proof.index = req.height.toInt - req.start.toNat
  total_eq : proof.total = req.endHeight.toNat - req.start.toNat
  root : ∃ root encoded, bridgeCommitment q ⟨req.start, req.endHeight⟩ = .ok ⟨root⟩ ∧
    encodeLeaf leaf = .ok encoded ∧ q.merkle.verify proof root encoded = .ok ()

theorem included_of_validated (hlaw : q.Lawful) {req : QueryBridgeCommitmentInclusionProofRequest}
    {leaves : List BridgeCommitmentLeaf} {encodedLeaves : List Bytes} {first leaf : BridgeCommitmentLeaf}
    {proof : MerkleProof}
    (hvalid : validateBridgeCommitmentInclusionProofRequest q (UInt64.ofNat (uint64 req.height.toInt)) req.start
      req.endHeight = .ok ())
    (hleaves : fetchBridgeCommitmentLeaves q req.start req.endHeight = .ok leaves)
    (hfirst : slot leaves 0 = .ok first) (hencoded : encodeBridgeCommitment leaves = .ok encodedLeaves)
    (hproof : slot (q.merkle.proofsFromByteSlices encodedLeaves)
      (int64 (req.height.toInt - int64 first.height.toNat)) = .ok proof)
    (hleaf : slot leaves (int64 (req.height.toInt - int64 first.height.toNat)) = .ok leaf) :
    Included q req leaf proof := by
  obtain ⟨hrange, hlow, hhigh⟩ := height_of_validate hvalid
  have hheight : ∀ height, getLatestBlockHeight q = .ok height → 0 ≤ height.toInt := by
    intro height h
    obtain ⟨node, hnode, h⟩ := except_bind_eq_ok.mp h
    exact (hlaw.node node hnode).height_nonneg height h
  obtain ⟨hstart, horder, hend⟩ := range_of_validate hheight hrange
  obtain ⟨hpos, hindex⟩ := blockIndex_eq hstart hend hlow hhigh
  have hof := leavesOf_of_fetch hleaves
  -- the index is the distance of the height from the start
  have hzero := hof.height_eq (slot_eq_ok.mp hfirst).2
  rw [Int.toNat_zero, add_zero, UInt64.toNat_inj] at hzero
  rw [hzero, hindex, slot_eq_ok] at hproof hleaf
  obtain ⟨hnonneg, hleaf⟩ := hleaf
  have hdist : ((req.height.toInt - req.start.toNat).toNat : ℤ) = req.height.toInt - req.start.toNat :=
    Int.toNat_of_nonneg hnonneg
  have hheightEq := hof.height_eq hleaf
  have hheightInt : (leaf.height.toNat : ℤ) = req.height.toInt := by omega
  obtain ⟨commit, hcommit, hleafEq⟩ := fetchBridgeCommitmentLeaf_eq_ok.mp (hof.leaf _ _ hleaf)
  have hencode := except_mapM_eq_ok.mp hencoded
  have hlength := hencode.length_eq
  obtain ⟨hplace, htotal⟩ := hlaw.merkle.place _ _ _ hproof.2
  obtain ⟨hi, hget⟩ := List.getElem?_eq_some_iff.mp hleaf
  have hitem : (req.height.toInt - req.start.toNat).toNat < encodedLeaves.length := hlength ▸ hi
  refine ⟨hpos, ⟨commit, ?_, ?_⟩, hheightInt, ?_, ?_, ?_⟩
  · have hsame : leaf.height = req.start + UInt64.ofNat (req.height.toInt - req.start.toNat).toNat := by
      rw [hleafEq]
    have hmax := Int64.toInt_lt req.height
    rwa [← hsame, hheightInt, int64_eq_self (by omega) hmax] at hcommit
  · rw [hleafEq]
  · rw [hplace, hdist]
  · rw [htotal, ← hlength, hof.length_eq]
    omega
  · refine ⟨q.merkle.hashFromByteSlices encodedLeaves,
      encodedLeaves[(req.height.toInt - req.start.toNat).toNat], ?_, ?_, ?_⟩
    · rw [bridgeCommitment]
      simp only [hrange, hleaves, hencoded, wrapping, Except.mapError, ok_bind, except_pure]
    · rw [← hget]
      exact hencode.get hi hitem
    · exact hlaw.merkle.verify_proof _ _ _ _ hproof.2 (List.getElem?_eq_getElem hitem)

/-- The proof of a result verifies it against the results hash of the next header. -/
theorem verify_result (hlaw : q.Lawful) {height i : ℤ} {commit : Commit} {results : List ExecTxResult}
    {proof : MerkleProof} {result : ExecTxResult} (hcommit : getCommit q height = .ok (some commit))
    (hresults : getBlockResults q (height - 1) = .ok results)
    (hproof : proveResult q (newResults results) i = .ok proof)
    (hresult : slot (newResults results) i = .ok result) :
    proof.index = i ∧ q.merkle.verify proof commit.lastResultsHash result.marshal = .ok () := by
  obtain ⟨node, hnode, hcommit⟩ := except_bind_eq_ok.mp hcommit
  obtain ⟨node', hnode', hresults⟩ := except_bind_eq_ok.mp hresults
  obtain rfl : node = node' := Except.ok.inj (hnode.symm.trans hnode')
  obtain ⟨hnonneg, hproof⟩ := slot_eq_ok.mp hproof
  obtain ⟨-, hresult⟩ := slot_eq_ok.mp hresult
  refine ⟨?_, ?_⟩
  · rw [(hlaw.merkle.place _ _ _ hproof).1, Int.toNat_of_nonneg hnonneg]
  · rw [(hlaw.node node hnode).results_root height commit results hcommit hresults]
    refine hlaw.merkle.verify_proof _ _ _ _ hproof ?_
    rw [toByteSlices, List.getElem?_map, hresult]
    rfl

/-- Every response of the inclusion query: its leaf is the header's results hash at the height, its
proof places the leaf among those of the range and verifies it against the root that the commitment
query returns, and a proof of a transaction verifies the returned result against the leaf's hash. -/
theorem inclusion_proof_verifies (hlaw : q.Lawful) {req : QueryBridgeCommitmentInclusionProofRequest}
    {r : QueryBridgeCommitmentInclusionProofResponse} (h : bridgeCommitmentInclusionProof q req = .ok r) :
    (∃ commit, getCommit q req.height.toInt = .ok (some commit) ∧
      (r.bridgeCommitmentLeaf.height.toNat : ℤ) = req.height.toInt ∧
      r.bridgeCommitmentLeaf.lastResultsHash = commit.lastResultsHash) ∧
    r.bridgeCommitmentProof.index = req.height.toInt - req.start.toNat ∧
    r.bridgeCommitmentProof.total = req.endHeight.toNat - req.start.toNat ∧
    (∃ root encoded, bridgeCommitment q ⟨req.start, req.endHeight⟩ = .ok ⟨root⟩ ∧
      encodeLeaf r.bridgeCommitmentLeaf = .ok encoded ∧
      q.merkle.verify r.bridgeCommitmentProof.toMerkleProof root encoded = .ok ()) ∧
    ∀ proof, r.lastResultsProof = some proof → proof.index = req.txIndex.toInt ∧
      (∃ results result, getBlockResults q (req.height.toInt - 1) = .ok results ∧
        results[req.txIndex.toInt.toNat]? = some result ∧
        r.txResultMarshalled = (deterministicExecTxResult result).marshal) ∧
      q.merkle.verify proof.toMerkleProof r.bridgeCommitmentLeaf.lastResultsHash r.txResultMarshalled = .ok () := by
  simp only [bridgeCommitmentInclusionProof, except_bind_eq_ok, wrapping_eq_ok] at h
  obtain ⟨_, hvalid, leaves, hleaves, first, hfirst, encodedLeaves, hencoded, bcProof, hproof, leaf, hleaf, results,
    hresults, h⟩ := h
  have hin := included_of_validated hlaw hvalid hleaves hfirst hencoded hproof hleaf
  obtain ⟨commit, hcommit, hhash⟩ := hin.fetched
  have hpos := hin.height_pos
  have hmax := Int64.toInt_lt req.height
  rw [int64_eq_self (by omega) (by omega)] at hresults
  split at h
  · -- no transactions in the block
    cases h
    exact ⟨⟨commit, hcommit, hin.height_eq, hhash⟩, hin.index_eq, hin.total_eq, hin.root, fun proof hnone => by cases hnone⟩
  · simp only [except_bind_eq_ok] at h
    obtain ⟨_, -, txProof, htxProof, result, hresult, h⟩ := h
    cases h
    refine ⟨⟨commit, hcommit, hin.height_eq, hhash⟩, hin.index_eq, hin.total_eq, hin.root, ?_⟩
    intro proof hsome
    cases hsome
    obtain ⟨hindex, hverify⟩ := verify_result hlaw hcommit hresults htxProof hresult
    have hresult' := (slot_eq_ok.mp hresult).2
    rw [newResults, List.getElem?_map, Option.map_eq_some_iff] at hresult'
    obtain ⟨original, horiginal, rfl⟩ := hresult'
    rw [← hhash] at hverify
    exact ⟨hindex, ⟨results, original, hresults, horiginal, rfl⟩, hverify⟩

theorem inclusion_proof_verifies_reference : ∃ r proof root encoded,
    bridgeCommitmentInclusionProof referenceServer ⟨3, 1, 2, 4⟩ = .ok r ∧ r.lastResultsProof = some proof ∧
    proof.index = 1 ∧ r.bridgeCommitmentProof.index = 1 ∧ r.bridgeCommitmentProof.total = 2 ∧
    bridgeCommitment referenceServer ⟨2, 4⟩ = .ok ⟨root⟩ ∧ encodeLeaf r.bridgeCommitmentLeaf = .ok encoded ∧
    (merkleFunctions sha256).verify r.bridgeCommitmentProof.toMerkleProof root encoded = .ok () ∧
    (merkleFunctions sha256).verify proof.toMerkleProof r.bridgeCommitmentLeaf.lastResultsHash
      r.txResultMarshalled = .ok () := by
  have hsome : (bridgeCommitmentInclusionProof referenceServer ⟨3, 1, 2, 4⟩).toOption.any
      (fun r => r.lastResultsProof.isSome) = true := by decide +kernel
  cases hr : bridgeCommitmentInclusionProof referenceServer ⟨3, 1, 2, 4⟩ with
  | error fault =>
    rw [hr] at hsome
    cases hsome
  | ok r =>
    rw [hr] at hsome
    obtain ⟨proof, hproof⟩ := Option.isSome_iff_exists.mp hsome
    obtain ⟨-, hindex, htotal, ⟨root, encoded, hroot, hencoded, hverify⟩, htx⟩ :=
      inclusion_proof_verifies referenceServer_lawful hr
    obtain ⟨htxIndex, -, htxVerify⟩ := htx proof hproof
    exact ⟨r, proof, root, encoded, rfl, hproof, htxIndex, hindex, htotal, hroot, hencoded, hverify, htxVerify⟩

end FuelSequencer.Commitments
