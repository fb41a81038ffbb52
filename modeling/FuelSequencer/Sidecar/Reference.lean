import FuelSequencer.App.Reference
import FuelSequencer.Sidecar.EventStore

/-! # A reference client

The hashes of the event signatures and the unpacking of the words that the logs of the
examples hold, and histories with one deposit.
-/
namespace FuelSequencer.Reference
open Go Wire Exec Lib Bridge Wiring Sidecar

def signatureHash : LogKind → Bytes
  | .deposit => [0xdc, 0xbc, 0x1c, 0x05, 0x24, 0x0f, 0x31, 0xff, 0x3a, 0xd0, 0x67, 0xef, 0x1e, 0xe3, 0x5c, 0xe4,
      0x99, 0x77, 0x62, 0x75, 0x2e, 0x3a, 0x09, 0x52, 0x84, 0x75, 0x45, 0x44, 0xf4, 0xc7, 0x09, 0xd7]
  | .delegate => [0x51, 0x0b, 0x11, 0xbb, 0x3f, 0x3c, 0x79, 0x9b, 0x11, 0x30, 0x7c, 0x01, 0xab, 0x7d, 0xb0, 0xd3,
      0x35, 0x68, 0x3e, 0xf5, 0xb2, 0xda, 0x98, 0xf7, 0x69, 0x7d, 0xe7, 0x44, 0xf4, 0x65, 0xea, 0xcc]
  | .redelegate => [0x3c, 0xa4, 0x9c, 0xdc, 0x02, 0x40, 0x9b, 0x29, 0x4e, 0xd8, 0xec, 0x6b, 0x98, 0x2a, 0x97, 0x85,
      0x70, 0x2a, 0x2a, 0xe8, 0x5e, 0x08, 0xb6, 0x20, 0x86, 0x25, 0xdd, 0x6b, 0xee, 0xe3, 0x60, 0x36]
  | .claimRewards => [0x62, 0xfb, 0x75, 0xd7, 0x91, 0xef, 0x63, 0xca, 0x4e, 0xd9, 0x4d, 0xc4, 0xe1, 0xeb, 0x60, 0x76,
      0xc3, 0xc2, 0xc7, 0x86, 0x51, 0xc6, 0xb3, 0x4a, 0xbf, 0x93, 0x5e, 0x52, 0xe0, 0xd8, 0xde, 0xa7]
  | .unbond => [0x81, 0x51, 0x34, 0xb5, 0xaa, 0x3c, 0x5c, 0xaa, 0xbc, 0xda, 0xf3, 0x05, 0xb7, 0xdc, 0x58, 0x6c,
      0xa5, 0x6a, 0xbd, 0xe8, 0x10, 0x12, 0x38, 0x85, 0x63, 0xe8, 0xc4, 0xc2, 0x17, 0x4a, 0x90, 0xf5]
  | .withdraw => [0x9b, 0x1b, 0xfa, 0x7f, 0xa9, 0xee, 0x42, 0x0a, 0x16, 0xe1, 0x24, 0xf7, 0x94, 0xc3, 0x5a, 0xc9,
      0xf9, 0x04, 0x72, 0xac, 0xc9, 0x91, 0x40, 0xeb, 0x2f, 0x64, 0x47, 0xc7, 0x14, 0xca, 0xd8, 0xeb]
  | .transfer => [0xdd, 0xf2, 0x52, 0xad, 0x1b, 0xe2, 0xc8, 0x9b, 0x69, 0xc2, 0xb0, 0x68, 0xfc, 0x37, 0x8d, 0xaa,
      0x95, 0x2b, 0xa7, 0xf1, 0x63, 0xc4, 0xa1, 0x16, 0x28, 0xf5, 0x5a, 0x4d, 0xf5, 0x23, 0xb3, 0xef]
  | .vote => [0x45, 0x63, 0x17, 0xab, 0x0c, 0x14, 0xca, 0x00, 0x6f, 0xef, 0xb6, 0xa1, 0x2b, 0xa5, 0xce, 0x82,
      0xad, 0xf5, 0x4f, 0xd3, 0xcf, 0x45, 0x5b, 0xe6, 0xb1, 0x28, 0x6e, 0x1f, 0x61, 0x2d, 0x3d, 0x19]
  | .setRewardRecipient => [0xc6, 0xb6, 0x6e, 0x0e, 0x28, 0x26, 0x73, 0xc4, 0x42, 0x42, 0x1e, 0x1c, 0x6b, 0x89, 0x45, 0x8b,
      0x76, 0x31, 0xf2, 0x6f, 0x5d, 0xcd, 0x0b, 0x2b, 0x21, 0x6c, 0x45, 0x83, 0x1c, 0xa1, 0xd7, 0xd5]
  | .grant => [0xfb, 0xc8, 0xcc, 0x9d, 0x57, 0x5f, 0xe0, 0x59, 0x1f, 0x35, 0x38, 0xb8, 0xf1, 0x80, 0x61, 0xb4,
      0x2b, 0x8b, 0x14, 0x1a, 0x2e, 0x85, 0xa4, 0xdb, 0x5e, 0x9a, 0x25, 0xa7, 0x32, 0x38, 0xaf, 0x6e]
  | .revoke => [0x89, 0xed, 0xca, 0x5e, 0x39, 0xec, 0x72, 0xc8, 0xbe, 0x42, 0xf6, 0x1c, 0x84, 0x98, 0x67, 0xad,
      0x40, 0x5a, 0xb6, 0xf8, 0x6a, 0x51, 0x81, 0x8b, 0x62, 0x45, 0x04, 0xb0, 0xc3, 0xf5, 0xf5, 0xb2]
  | .authorize => [0x38, 0xcf, 0x22, 0x22, 0xfd, 0x9d, 0xa5, 0xa0, 0xce, 0xb8, 0x50, 0x6c, 0x44, 0xfa, 0x5b, 0xcd,
      0x70, 0x11, 0xfe, 0x00, 0x16, 0x3d, 0xc1, 0x49, 0x50, 0xd5, 0x62, 0x8d, 0x8c, 0x30, 0x1f, 0x04]

/-- Only signatures of events are hashed. -/
def keccak256 (bz : Bytes) : Bytes :=
  ((LogKind.all.find? fun kind => kind.signature = bz).map signatureHash).getD []

def errAbiLength : GoString := str "abi: cannot marshal in to go type: length insufficient"

def word (data : Bytes) (i : ℕ) : Except GoString ℕ :=
  if 32 * (i + 1) ≤ data.length then .ok (bigEndian ((data.drop (32 * i)).take 32)) else .error errAbiLength

/-- A string or byte string behind the offset in its word. -/
def tail (data : Bytes) (i : ℕ) : Except GoString Bytes := do
  let offset ← word data i
  let length ← word (data.drop offset) 0
  let content := (data.drop (offset + 32)).take length
  if content.length = length then .ok content else .error errAbiLength

def contractAbi : ContractAbi where
  deposit data := do return (← word data 0, ← word data 1)
  amount _ data := word data 0
  empty _ _ := .ok ()
  vote data := do return (UInt32.ofNat (← word data 0), ← tail data 1)
  grant data := do return (← tail data 0, UInt32.ofNat (← word data 1))
  revoke data := tail data 0
  authorize data := tail data 0

def client : EthRpcClient := ⟨sdk, keccak256, contractAbi, ufuel⟩

def wordOf (n : ℕ) : Bytes := (List.range 32).map fun i => UInt8.ofNat (n / 256 ^ (31 - i))

def addressTopic (address : Bytes) : Bytes := List.replicate 12 0 ++ address

def proxyAddress : Bytes := [0x01, 0x65, 0x87, 0x8a, 0x59, 0x4c, 0xa2, 0x55, 0x33, 0x8a, 0xdf, 0xa4, 0xd4, 0x84,
  0x49, 0xf6, 0x92, 0x42, 0xeb, 0x8f]

theorem length_proxyAddress : proxyAddress.length = 20 := rfl

def depositLog (block : UInt64) (amount lockup : ℕ) : Log where
  address := proxyAddress
  topics := [signatureHash .deposit, addressTopic depositor, addressTopic recipient]
  data := wordOf amount ++ wordOf lockup
  blockNumber := block
  txHash := List.replicate 31 0 ++ [1]
  txIndex := 0
  index := 0
  removed := false
  address_length := length_proxyAddress
  topics_length := by decide

/-- One deposit in one block. -/
def oneDeposit (block : UInt64) (amount : ℕ) : History where
  logs n := if n = block.toNat then [depositLog block amount 0] else []
  block_eq {n log} h := by
    split at h
    · next hn =>
      rw [List.mem_singleton.mp h, hn]
      rfl
    · cases h
  not_removed {n log} h := by
    split at h
    · rw [List.mem_singleton.mp h]
      rfl
    · cases h
  ordered n := by
    split
    · exact List.pairwise_singleton _ _
    · exact List.Pairwise.nil

/-- A node that knows the history. -/
def nodeOf (H : History) : EthRpcClient.Response := fun first last => .ok (H.logsIn first last)

theorem nodeOf_answers (H : History) : H.Answers (nodeOf H) := by
  intro first last logs h
  rw [← Except.ok.inj h]

end FuelSequencer.Reference
