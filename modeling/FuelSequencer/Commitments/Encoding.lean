import FuelSequencer.Commitments.Query
import FuelSequencer.Lib.BigEndian

/-! # The encoding of the leaves

A height goes through its hexadecimal text, which is decoded and padded to 32 bytes. The
text of a 64-bit number always decodes and always fits, and the bytes are those of the
number in big-endian order. So a leaf is encoded as the contract ABI encodes a number and
a hash, and leaves can be told from their encoding.
-/
namespace FuelSequencer.Commitments
open Go Wire Exec Lib

theorem isSome_hexValue_digitChar {d : ℕ} (h : d < 16) : (hexValue (UInt8.ofNat d.digitChar.toNat)).isSome := by
  have hall : ∀ d < 16, (hexValue (UInt8.ofNat d.digitChar.toNat)).isSome := by decide
  exact hall d h

/-- By induction on the number, along the division that the digits come from. -/
theorem isSome_hexValue_toDigits {n : ℕ} {c : Char} (hc : c ∈ Nat.toDigits 16 n) :
    (hexValue (UInt8.ofNat c.toNat)).isSome := by
  induction n using Nat.strongRecOn with
  | ind n ih =>
    rw [Nat.toDigits_eq_if (by decide)] at hc
    split_ifs at hc with hlt
    · rw [List.mem_singleton.mp hc]
      exact isSome_hexValue_digitChar hlt
    · rcases List.mem_append.mp hc with hc | hc
      · exact ih (n / 16) (by omega) hc
      · rw [List.mem_singleton.mp hc]
        exact isSome_hexValue_digitChar (Nat.mod_lt _ (by decide))

theorem isSome_hexValue_formatUint16 {number : UInt64} {b : UInt8} (hb : b ∈ formatUint16 number) :
    (hexValue b).isSome := by
  obtain ⟨c, hc, rfl⟩ := List.mem_map.mp hb
  exact isSome_hexValue_toDigits hc

theorem length_formatUint16_le (number : UInt64) : (formatUint16 number).length ≤ 16 := by
  rw [formatUint16, List.length_map, Nat.length_toDigits_le_iff (by decide) (by decide)]
  exact number.toNat_lt

/-- The text with an even number of digits. -/
def evenHex (number : UInt64) : GoString :=
  if (formatUint16 number).length % 2 = 1 then str "0" ++ formatUint16 number else formatUint16 number

theorem isSome_hexValue_evenHex {number : UInt64} {b : UInt8} (hb : b ∈ evenHex number) : (hexValue b).isSome := by
  unfold evenHex at hb
  split_ifs at hb
  · rcases List.mem_append.mp hb with hb | hb
    · rw [List.mem_singleton.mp hb]
      rfl
    · exact isSome_hexValue_formatUint16 hb
  · exact isSome_hexValue_formatUint16 hb

theorem length_evenHex (number : UInt64) : (evenHex number).length % 2 = 0 ∧ (evenHex number).length ≤ 16 := by
  have hle := length_formatUint16_le number
  unfold evenHex
  split_ifs with hodd
  · have hlength : (str "0" ++ formatUint16 number).length = 1 + (formatUint16 number).length := List.length_append
    rw [hlength]
    omega
  · omega

/-- The bytes of the text behind zeros. -/
def paddedHeight (number : UInt64) : Bytes :=
  List.replicate (32 - (hexPairs (evenHex number)).length) 0 ++ hexPairs (evenHex number)

theorem to32PaddedHexBytes_eq (number : UInt64) : to32PaddedHexBytes number = .ok (paddedHeight number) := by
  obtain ⟨heven, hle⟩ := length_evenHex number
  have hvalid : ¬ ¬ ∀ c ∈ evenHex number, (hexValue c).isSome := not_not.mpr fun c hc => isSome_hexValue_evenHex hc
  have hpairs : (hexPairs (evenHex number)).length = (evenHex number).length / 2 :=
    length_hexPairs fun c hc => isSome_hexValue_evenHex hc
  have hdecode : decodeString (evenHex number) = .ok (hexPairs (evenHex number)) := by
    rw [decodeString, failIf_of_not hvalid, ok_bind, failIf_of_not (by omega)]
    rfl
  unfold to32PaddedHexBytes
  change (decodeString (evenHex number) >>= fun hexBytes => padBytes hexBytes 32) = _
  rw [hdecode, ok_bind, padBytes, failIf_of_not (by omega)]
  rfl

/-- The bytes of a leaf. -/
def encodedLeaf (leaf : BridgeCommitmentLeaf) : Bytes := paddedHeight leaf.height ++ leaf.lastResultsHash

/-- Encoding never fails, and goes leaf by leaf. -/
theorem encodeBridgeCommitment_eq (leaves : List BridgeCommitmentLeaf) :
    encodeBridgeCommitment leaves = .ok (leaves.map encodedLeaf) := by
  induction leaves with
  | nil => rfl
  | cons leaf leaves ih =>
    rw [encodeBridgeCommitment] at ih ⊢
    rw [List.mapM_cons, encodeLeaf, to32PaddedHexBytes_eq, ok_bind, ih]
    rfl

/-! ## The number of a height -/

theorem hexDigitValue_digitChar {d : ℕ} (h : d < 16) : hexDigitValue (UInt8.ofNat d.digitChar.toNat) = d := by
  have hall : ∀ d < 16, hexDigitValue (UInt8.ofNat d.digitChar.toNat) = d := by decide
  exact hall d h

/-- The digits of a number stand for it, by induction along the division they come from. -/
theorem readHex_toDigits (n : ℕ) : readHex ((Nat.toDigits 16 n).map fun c => UInt8.ofNat c.toNat) = n := by
  induction n using Nat.strongRecOn with
  | ind n ih =>
    rw [Nat.toDigits_eq_if (by decide)]
    split_ifs with hlt
    · rw [List.map_singleton, ← List.nil_append [_], readHex_append_singleton, hexDigitValue_digitChar hlt]
      exact Nat.add_zero n
    · have hmod : n % 16 < 16 := Nat.mod_lt _ (by decide)
      rw [List.map_append, List.map_singleton, readHex_append_singleton, ih (n / 16) (by omega),
        hexDigitValue_digitChar hmod]
      exact Nat.mod_add_div n 16

theorem readHex_evenHex (number : UInt64) : readHex (evenHex number) = number.toNat := by
  have hformat : readHex (formatUint16 number) = number.toNat := readHex_toDigits number.toNat
  unfold evenHex
  split_ifs
  · -- a zero before the digits does not count
    change readHex (48 :: formatUint16 number) = number.toNat
    have hzero : hexDigitValue 48 = 0 := by decide
    rw [readHex_cons, hzero, Nat.mul_zero, Nat.add_zero, hformat]
  · exact hformat

theorem toNat_lt_word (number : UInt64) : number.toNat < 256 ^ 32 := number.toNat_lt.trans (by decide)

/-- The padded text of a height is its number in 32 bytes. -/
theorem paddedHeight_eq_bigEndian (number : UInt64) : paddedHeight number = bigEndian 32 number.toNat := by
  obtain ⟨heven, hle⟩ := length_evenHex number
  have hvalid : ∀ c ∈ evenHex number, (hexValue c).isSome := fun c hc => isSome_hexValue_evenHex hc
  have hpairs := length_hexPairs hvalid
  apply eq_bigEndian
  · rw [paddedHeight, List.length_append, List.length_replicate]
    omega
  · rw [paddedHeight, readBigEndian_zeros_append, readBigEndian_hexPairs hvalid heven, readHex_evenHex]
  · exact toNat_lt_word number

/-- The bytes of a leaf determine it: the height takes the first 32. -/
theorem encodedLeaf_injective : Function.Injective encodedLeaf := by
  intro leaf leaf' h
  have hlength : (paddedHeight leaf.height).length = (paddedHeight leaf'.height).length := by
    rw [paddedHeight_eq_bigEndian, paddedHeight_eq_bigEndian, length_bigEndian, length_bigEndian]
  obtain ⟨hheight, hhash⟩ := List.append_inj h hlength
  have hread := congrArg readBigEndian hheight
  rw [paddedHeight_eq_bigEndian, paddedHeight_eq_bigEndian, readBigEndian_bigEndian (toNat_lt_word _),
    readBigEndian_bigEndian (toNat_lt_word _), UInt64.toNat_inj] at hread
  cases leaf
  cases leaf'
  cases hread
  cases hhash
  rfl

/-! ## The encoding of the contract ABI -/

/-- The two static types of a leaf on the side of the contract. -/
inductive AbiValue where
  | uint256 (value : Fin (2 ^ 256))
  | bytes32 (value : Vector UInt8 32)

/-- A static value takes one word of 32 bytes. -/
def AbiValue.encode : AbiValue → Bytes
  | .uint256 value => bigEndian 32 value
  | .bytes32 value => value.toList

/-- `abi.encode` of static values. -/
def abiEncode (values : List AbiValue) : Bytes := values.flatMap AbiValue.encode

/-- A height as a number of the contract. -/
def abiHeight (height : UInt64) : AbiValue := .uint256 ⟨height.toNat, height.toNat_lt.trans (by decide)⟩

/-- Every list of leaves is encoded, one leaf after the other, each as its height in 32 big-endian
bytes before its hash. With a hash of 32 bytes this is what the contract ABI gives. Different lists
have different encodings. -/
theorem leaves_encode_as_abi :
    (∀ leaves, encodeBridgeCommitment leaves =
      .ok (leaves.map fun leaf => bigEndian 32 leaf.height.toNat ++ leaf.lastResultsHash)) ∧
    (∀ (height : UInt64) (hash : Vector UInt8 32),
      encodeBridgeCommitment [⟨height, hash.toList⟩] = .ok [abiEncode [abiHeight height, .bytes32 hash]]) ∧
    Function.Injective encodeBridgeCommitment := by
  have hleaf : ∀ leaf, encodedLeaf leaf = bigEndian 32 leaf.height.toNat ++ leaf.lastResultsHash := by
    intro leaf
    rw [encodedLeaf, paddedHeight_eq_bigEndian]
  refine ⟨?_, ?_, ?_⟩
  · intro leaves
    rw [encodeBridgeCommitment_eq]
    exact congrArg Except.ok (List.map_congr_left fun leaf _ => hleaf leaf)
  · intro height hash
    rw [encodeBridgeCommitment_eq, List.map_singleton, hleaf, abiEncode, List.flatMap_cons, List.flatMap_cons,
      List.flatMap_nil, List.append_nil]
    rfl
  · intro leaves leaves' h
    rw [encodeBridgeCommitment_eq, encodeBridgeCommitment_eq, Except.ok.injEq] at h
    exact encodedLeaf_injective.list_map h

/-- A height with one hexadecimal digit and one with three. -/
theorem leaves_encode_as_abi_short_heights :
    encodeBridgeCommitment [⟨10, [1, 2]⟩, ⟨256, []⟩] =
      .ok [List.replicate 31 0 ++ [10, 1, 2], List.replicate 30 0 ++ [1, 0]] := by
  rw [leaves_encode_as_abi.1]
  decide +kernel

end FuelSequencer.Commitments
