import FuelSequencer.Exec.Transaction
import FuelSequencer.Go.Basic
import FuelSequencer.Wire.Message

/-! # Data of the commitments service

What the service gets from its node, the Merkle functions it uses and what it returns.
-/
namespace FuelSequencer.Commitments
open Go Wire Exec

/-! ## Merkle proofs -/

/-- The proof of the Merkle library. -/
structure MerkleProof where
  total : ℤ
  index : ℤ
  leafHash : Bytes
  aunts : List Bytes
deriving DecidableEq, Repr

/-- The proof as the service returns it. -/
structure BinaryMerkleProof where
  total : ℤ
  index : ℤ
  leafHash : Bytes
  aunts : List Bytes
deriving DecidableEq, Repr

def newBinaryMerkleProof (proof : MerkleProof) : BinaryMerkleProof :=
  ⟨proof.total, proof.index, proof.leafHash, proof.aunts⟩

def BinaryMerkleProof.toMerkleProof (proof : BinaryMerkleProof) : MerkleProof :=
  ⟨proof.total, proof.index, proof.leafHash, proof.aunts⟩

@[simp] theorem toMerkleProof_newBinaryMerkleProof (proof : MerkleProof) :
    (newBinaryMerkleProof proof).toMerkleProof = proof := rfl

/-- The functions of the Merkle library. -/
structure Merkle where
  hashFromByteSlices : List Bytes → Bytes
  proofsFromByteSlices : List Bytes → List MerkleProof
  verify : MerkleProof → Bytes → Bytes → Except GoString Unit

/-- One proof for each item, which names its place and verifies it against the root. -/
structure Merkle.Lawful (m : Merkle) : Prop where
  length_proofs : ∀ items, (m.proofsFromByteSlices items).length = items.length
  place : ∀ items (i : ℕ) proof, (m.proofsFromByteSlices items)[i]? = some proof →
    proof.index = i ∧ proof.total = items.length
  verify_proof : ∀ items (i : ℕ) proof item, (m.proofsFromByteSlices items)[i]? = some proof →
    items[i]? = some item → m.verify proof (m.hashFromByteSlices items) item = .ok ()

/-! ## Transaction results -/

structure ExecTxResult where
  code : UInt32
  data : Bytes
  log : GoString
  info : GoString
  gasWanted : Int64
  gasUsed : Int64
  /-- The marshalled events. -/
  events : List Bytes
  codespace : GoString
deriving DecidableEq

def ExecTxResult.fields (r : ExecTxResult) : List Field :=
  uintField 1 r.code.toNat ++ bytesField 2 r.data ++ bytesField 3 r.log ++ bytesField 4 r.info ++
    uintField 5 (uint64 r.gasWanted.toInt) ++ uintField 6 (uint64 r.gasUsed.toInt) ++
    r.events.map (messageField 7) ++ bytesField 8 r.codespace

def ExecTxResult.marshal (r : ExecTxResult) : Bytes := encodeFields r.fields

/-- The result without what may differ between nodes. -/
def deterministicExecTxResult (r : ExecTxResult) : ExecTxResult :=
  ⟨r.code, r.data, [], [], r.gasWanted, r.gasUsed, [], []⟩

def newResults (results : List ExecTxResult) : List ExecTxResult := results.map deterministicExecTxResult

/-- The marshalled results, over which the results hash of a block is the root. -/
def toByteSlices (results : List ExecTxResult) : List Bytes := results.map ExecTxResult.marshal

/-! ## The node -/

/-- The part of a commit's header that is read. -/
structure Commit where
  lastResultsHash : Bytes
deriving DecidableEq

/-- What the node answers; its data does not change while it is asked. -/
structure Node where
  latestBlockHeight : Except GoString Int64
  commit : ℤ → Except GoString (Option Commit)
  /-- The results of the transactions of a block. -/
  blockResults : ℤ → Except GoString (List ExecTxResult)

/-- The chain has no negative height, and a header holds the root of the deterministic results of
the block before it. -/
structure Node.Lawful (merkle : Merkle) (node : Node) : Prop where
  height_nonneg : ∀ height, node.latestBlockHeight = .ok height → 0 ≤ height.toInt
  results_root : ∀ height commit results, node.commit height = .ok (some commit) →
    node.blockResults (height - 1) = .ok results →
    commit.lastResultsHash = merkle.hashFromByteSlices (toByteSlices (newResults results))

/-! ## Requests and responses -/

structure BridgeCommitmentLeaf where
  height : UInt64
  lastResultsHash : Bytes
deriving DecidableEq, Repr

structure QueryBridgeCommitmentRequest where
  start : UInt64
  endHeight : UInt64

structure QueryBridgeCommitmentResponse where
  bridgeCommitment : Bytes
deriving DecidableEq

structure QueryBridgeCommitmentInclusionProofRequest where
  height : Int64
  txIndex : Int64
  start : UInt64
  endHeight : UInt64

structure QueryBridgeCommitmentInclusionProofResponse where
  bridgeCommitmentLeaf : BridgeCommitmentLeaf
  bridgeCommitmentProof : BinaryMerkleProof
  txResultMarshalled : Bytes
  lastResultsProof : Option BinaryMerkleProof
deriving DecidableEq

end FuelSequencer.Commitments
