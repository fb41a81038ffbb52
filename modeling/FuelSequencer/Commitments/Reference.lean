import FuelSequencer.Commitments.Query
import FuelSequencer.Lib.Merkle
import FuelSequencer.Lib.Sha256

/-! # A node for the commitments service

The Merkle functions over any hash function: leaves and inner nodes are hashed with
different first bytes. They are correct whatever the hash.
-/
namespace FuelSequencer.Commitments
open Go Wire Exec Lib

def merkleHashing (hash : Bytes → Bytes) : Hashing Bytes Bytes :=
  ⟨hash [], fun leaf => hash (0 :: leaf), fun left right => hash (1 :: (left ++ right))⟩

/-- The aunts are listed from the leaf up. -/
def merkleFunctions (hash : Bytes → Bytes) : Merkle where
  hashFromByteSlices := (merkleHashing hash).root
  proofsFromByteSlices items := items.mapIdx fun i item =>
    ⟨items.length, i, (merkleHashing hash).leaf item, ((merkleHashing hash).path items i).reverse⟩
  verify proof root leaf := do
    failIf (proof.total < 0) (str "proof total must be positive")
    failIf (proof.index < 0) (str "proof index cannot be negative")
    let leafHash := (merkleHashing hash).leaf leaf
    failIf (proof.leafHash ≠ leafHash)
      (str "invalid leaf hash: wanted " ++ hexUpper leafHash ++ str " got " ++ hexUpper proof.leafHash)
    let computed := (merkleHashing hash).climb proof.leafHash proof.index.toNat proof.total.toNat proof.aunts.reverse
    failIf (computed ≠ some root)
      (str "invalid root hash: wanted " ++ hexUpper root ++ str " got " ++ hexUpper (computed.getD []))

theorem merkleFunctions_lawful (hash : Bytes → Bytes) : (merkleFunctions hash).Lawful := by
  have hproofs : ∀ items (i : ℕ) proof, ((merkleFunctions hash).proofsFromByteSlices items)[i]? = some proof →
      ∃ item, items[i]? = some item ∧ proof = ⟨items.length, i, (merkleHashing hash).leaf item,
        ((merkleHashing hash).path items i).reverse⟩ := by
    intro items i proof h
    change (items.mapIdx _)[i]? = some proof at h
    rw [List.getElem?_mapIdx, Option.map_eq_some_iff] at h
    obtain ⟨item, hitem, rfl⟩ := h
    exact ⟨item, hitem, rfl⟩
  refine ⟨fun items => List.length_mapIdx, ?_, ?_⟩
  · intro items i proof h
    obtain ⟨item, -, rfl⟩ := hproofs items i proof h
    exact ⟨rfl, rfl⟩
  · intro items i proof item h hitem
    obtain ⟨item', hitem', rfl⟩ := hproofs items i proof h
    obtain rfl : item = item' := Option.some.inj (hitem.symm.trans hitem')
    have hclimb := (merkleHashing hash).climb_path hitem
    simp only [merkleFunctions, except_bind_eq_ok, failIf_eq_ok, exists_const, Int.toNat_natCast,
      List.reverse_reverse, hclimb, ne_eq, not_true_eq_false, not_false_eq_true, not_lt, and_true]
    exact ⟨Int.natCast_nonneg _, Int.natCast_nonneg _⟩

/-! ## A chain of three blocks -/

/-- Only the second block has transactions. -/
def resultsAt (height : ℤ) : List ExecTxResult :=
  if height = 2 then [⟨0, [], str "first", [], 1, 1, [], []⟩, ⟨5, [], str "second", [], 7, 3, [], str "sdk"⟩] else []

def referenceNode : Node where
  latestBlockHeight := .ok 3
  commit height :=
    if 0 < height ∧ height ≤ 3 then
      .ok (some ⟨(merkleFunctions sha256).hashFromByteSlices (toByteSlices (newResults (resultsAt (height - 1))))⟩)
    else .error (str "height is not available")
  blockResults height :=
    if 0 < height ∧ height ≤ 3 then .ok (resultsAt height) else .error (str "height is not available")

def referenceServer : QueryServer := ⟨merkleFunctions sha256, .ok referenceNode, 4096⟩

theorem referenceServer_lawful : referenceServer.Lawful := by
  refine ⟨merkleFunctions_lawful sha256, fun node hnode => ?_⟩
  cases hnode
  refine ⟨fun height h => ?_, fun height commit results hcommit hresults => ?_⟩
  · cases h
    decide
  · simp only [referenceNode] at hcommit hresults
    split at hcommit
    · split at hresults
      · cases hcommit
        cases hresults
        rfl
      · cases hresults
    · cases hcommit

end FuelSequencer.Commitments
