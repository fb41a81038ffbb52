import FuelSequencer.Commitments.Types
import FuelSequencer.Lib.Address

/-! # The commitments service

The bridge commitment of a range of blocks is the Merkle root over one leaf for each
block, its height with the results hash in its header. The inclusion proof shows that a
block is in the range, and that the result of a transaction of the block before it is in
the results hash.
-/
namespace FuelSequencer.Commitments
open Go Wire Exec Lib

structure QueryServer where
  merkle : Merkle
  getNode : Except GoString Node
  maxQueryRange : UInt64

/-- The Merkle functions are correct, and so is the node if there is one. -/
structure QueryServer.Lawful (q : QueryServer) : Prop where
  merkle : q.merkle.Lawful
  node : ∀ node, q.getNode = .ok node → node.Lawful q.merkle

/-- The element of a slice at an `int64` index. -/
def slot {α : Type} (xs : List α) (i : ℤ) : Outcome GoString α :=
  required (if i < 0 then none else xs[i.toNat]?) (.panic (str "runtime error: index out of range"))

/-! ## Encoding -/

def formatUint16 (number : UInt64) : GoString :=
  (Nat.toDigits 16 number.toNat).map fun c => UInt8.ofNat c.toNat

/-- `hex.DecodeString`. -/
def decodeString (s : GoString) : Except GoString Bytes := do
  failIf (¬ ∀ c ∈ s, (hexValue c).isSome) (str "encoding/hex: invalid byte")
  failIf (s.length % 2 = 1) (str "encoding/hex: odd length hex string")
  return hexPairs s

def padBytes (byt : Bytes) (length : ℕ) : Except GoString Bytes := do
  failIf (byt.length > length) (str "cannot pad bytes because length of bytes array: " ++ decimal byt.length ++
    str " is greater than given length: " ++ decimal length)
  return List.replicate (length - byt.length) 0 ++ byt

def to32PaddedHexBytes (number : UInt64) : Except GoString Bytes := do
  let hexRepresentation := formatUint16 number
  let hexBytes ← decodeString
    (if hexRepresentation.length % 2 = 1 then str "0" ++ hexRepresentation else hexRepresentation)
  padBytes hexBytes 32

def encodeLeaf (leaf : BridgeCommitmentLeaf) : Except GoString Bytes := do
  let paddedHeight ← to32PaddedHexBytes leaf.height
  return paddedHeight ++ leaf.lastResultsHash

def encodeBridgeCommitment (leaves : List BridgeCommitmentLeaf) : Except GoString (List Bytes) :=
  leaves.mapM encodeLeaf

/-! ## The node's data -/

def getLatestBlockHeight (q : QueryServer) : Except GoString Int64 := do
  let node ← q.getNode
  node.latestBlockHeight

def getCommit (q : QueryServer) (height : ℤ) : Except GoString (Option Commit) := do
  let node ← q.getNode
  node.commit height

def getBlockResults (q : QueryServer) (height : ℤ) : Except GoString (List ExecTxResult) := do
  let node ← q.getNode
  node.blockResults height

def fetchBridgeCommitmentLeaf (q : QueryServer) (height : UInt64) : Except GoString BridgeCommitmentLeaf := do
  match ← (getCommit q (int64 height.toNat)).mapError
    (str "couldn't load block " ++ decimal height.toNat ++ str ": " ++ ·) with
  | none => .error (str "couldn't load commit " ++ decimal height.toNat)
  | some commit => return ⟨height, commit.lastResultsHash⟩

/-- The loop over the heights of the range. -/
def heights (start endHeight : UInt64) : List UInt64 :=
  (List.range (endHeight.toNat - start.toNat)).map fun i => start + UInt64.ofNat i

/-- The largest allocation of the runtime on a 64-bit machine, in bytes. -/
def maxAlloc : ℕ := 2 ^ 48

/-- A leaf takes a number and a slice header. -/
def leafSize : ℕ := 32

/-- The slice is made with the capacity of the whole range at once. -/
def fetchBridgeCommitmentLeaves (q : QueryServer) (start endHeight : UInt64) :
    Outcome GoString (List BridgeCommitmentLeaf) := do
  failIf (leafSize * (endHeight - start).toNat > maxAlloc) (Fault.panic (str "runtime error: makeslice: cap out of range"))
  wrapping id ((heights start endHeight).mapM (fetchBridgeCommitmentLeaf q))

/-! ## Validation -/

def errZeroStart : GoString := str "the first block is 0"

def validateBridgeCommitmentRange (q : QueryServer) (start endHeight : UInt64) : Except GoString Unit := do
  failIf (start = 0) errZeroStart
  failIf (start > endHeight) (str "last block is smaller than first block")
  let heightsRange := endHeight - start
  failIf (heightsRange = 0) (str "cannot create the bridge commitments for an empty set of blocks")
  failIf (heightsRange > q.maxQueryRange)
    (str "the query exceeds the maximum block range " ++ decimal q.maxQueryRange.toNat)
  let height ← getLatestBlockHeight q
  failIf (endHeight > UInt64.ofNat (uint64 height.toInt) + 1)
    (str "end block " ++ decimal endHeight.toNat ++ str " is higher than current chain height " ++
      decimalInt height.toInt)

def validateBridgeCommitmentInclusionProofRequest (q : QueryServer) (height start endHeight : UInt64) :
    Except GoString Unit := do
  validateBridgeCommitmentRange q start endHeight
  failIf (height < start ∨ height ≥ endHeight)
    (str "height " ++ decimal height.toNat ++ str " should be in the end exclusive interval first_block " ++
      decimal start.toNat ++ str " last_block " ++ decimal endHeight.toNat)

/-! ## Queries -/

def bridgeCommitment (q : QueryServer) (req : QueryBridgeCommitmentRequest) :
    Outcome GoString QueryBridgeCommitmentResponse := do
  wrapping id (validateBridgeCommitmentRange q req.start req.endHeight)
  let leaves ← fetchBridgeCommitmentLeaves q req.start req.endHeight
  let encodedLeaves ← wrapping id (encodeBridgeCommitment leaves)
  return ⟨q.merkle.hashFromByteSlices encodedLeaves⟩

/-- `ABCIResults.ProveResult`. -/
def proveResult (q : QueryServer) (results : List ExecTxResult) (i : ℤ) : Outcome GoString MerkleProof :=
  slot (q.merkle.proofsFromByteSlices (toByteSlices results)) i

def bridgeCommitmentInclusionProof (q : QueryServer) (req : QueryBridgeCommitmentInclusionProofRequest) :
    Outcome GoString QueryBridgeCommitmentInclusionProofResponse := do
  wrapping id (validateBridgeCommitmentInclusionProofRequest q (UInt64.ofNat (uint64 req.height.toInt))
    req.start req.endHeight)
  let leaves ← fetchBridgeCommitmentLeaves q req.start req.endHeight
  let first ← slot leaves 0
  let blockIndex := int64 (req.height.toInt - int64 first.height.toNat)
  let encodedLeaves ← wrapping id (encodeBridgeCommitment leaves)
  let bcProof ← slot (q.merkle.proofsFromByteSlices encodedLeaves) blockIndex
  let bcLeaf ← slot leaves blockIndex
  let txsResults ← wrapping id (getBlockResults q (int64 (req.height.toInt - 1)))
  if txsResults.length = 0 ∧ req.txIndex.toInt = 0 then
    return ⟨bcLeaf, newBinaryMerkleProof bcProof, [], none⟩
  failIf (req.txIndex.toInt ≥ txsResults.length)
    (Fault.err (str "transaction index too high " ++ decimalInt req.txIndex.toInt))
  let deterministicTxResults := newResults txsResults
  let txMerkleProof ← proveResult q deterministicTxResults req.txIndex.toInt
  let txResult ← slot deterministicTxResults req.txIndex.toInt
  return ⟨bcLeaf, newBinaryMerkleProof bcProof, txResult.marshal, some (newBinaryMerkleProof txMerkleProof)⟩

end FuelSequencer.Commitments
