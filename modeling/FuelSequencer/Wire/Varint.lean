import Mathlib

/-! # Base-128 variable-length integers

Seven payload bits a byte, lowest group first; a set high bit announces another
byte. The size of an encoding is the closed form used by generated marshalling
code, and decoding reads back the encoded number and leaves every later byte
untouched.
-/
namespace FuelSequencer.Wire

abbrev Bytes := List UInt8

/-- The encoding loop; the fuel counts the bytes that may still be written. -/
def encodeGroups : ℕ → ℕ → Bytes
  | 0, _ => []
  | fuel + 1, v =>
    if 128 ≤ v then UInt8.ofNat (v % 128 + 128) :: encodeGroups fuel (v / 128)
    else [UInt8.ofNat v]

/-- Bytes of an encoding: the bit length, at least one, in groups of seven. -/
def varintSize (v : ℕ) : ℕ := v.log2 / 7 + 1

def encodeVarint (v : ℕ) : Bytes := encodeGroups (varintSize v) v

/-- The number at the head of the input and the bytes after it. -/
def decodeVarint : Bytes → Option (ℕ × Bytes)
  | [] => none
  | b :: rest =>
    if b.toNat < 128 then some (b.toNat, rest)
    else (decodeVarint rest).map fun p => (b.toNat - 128 + 128 * p.1, p.2)

theorem varintSize_pos (v : ℕ) : 0 < varintSize v := Nat.succ_pos _

theorem varintSize_of_lt {v : ℕ} (h : v < 128) : varintSize v = 1 := by
  have hlog : v.log2 < 7 := by
    rcases Nat.eq_zero_or_pos v with rfl | hv
    · simp
    · exact (Nat.log2_lt (by omega)).mpr (by omega)
  unfold varintSize
  omega

theorem varintSize_div {v : ℕ} (h : 128 ≤ v) : varintSize v = varintSize (v / 128) + 1 := by
  have hlog : 7 ≤ v.log2 := (Nat.le_log2 (by omega)).mpr (by omega)
  have hdiv : (v / 128).log2 = v.log2 - 7 := by
    rw [Nat.log2_eq_log_two, Nat.log2_eq_log_two]
    exact Nat.log_div_base_pow 2 v 7
  unfold varintSize
  omega

theorem varintSize_mono {v w : ℕ} (h : v ≤ w) : varintSize v ≤ varintSize w := by
  have hlog : v.log2 ≤ w.log2 := by
    rw [Nat.log2_eq_log_two, Nat.log2_eq_log_two]
    exact Nat.log_mono_right h
  unfold varintSize
  omega

theorem varintSize_le_two {v : ℕ} (h : v < 16384) : varintSize v ≤ 2 :=
  (varintSize_mono (Nat.le_sub_one_of_lt h)).trans (by decide)

theorem varintSize_le_ten {v : ℕ} (h : v < 2 ^ 64) : varintSize v ≤ 10 :=
  (varintSize_mono (Nat.le_sub_one_of_lt h)).trans (by decide)

/-- One turn of the loop, with the fuel gone. -/
theorem encodeVarint_of_le {v : ℕ} (h : 128 ≤ v) :
    encodeVarint v = UInt8.ofNat (v % 128 + 128) :: encodeVarint (v / 128) := by
  simp only [encodeVarint, varintSize_div h, encodeGroups, if_pos h]

theorem encodeVarint_of_lt {v : ℕ} (h : v < 128) : encodeVarint v = [UInt8.ofNat v] := by
  simp only [encodeVarint, varintSize_of_lt h, encodeGroups, if_neg (Nat.not_le.mpr h)]

@[simp] theorem length_encodeVarint (v : ℕ) : (encodeVarint v).length = varintSize v := by
  induction v using Nat.strongRecOn with
  | ind v ih =>
    rcases Nat.lt_or_ge v 128 with h | h
    · simp [encodeVarint_of_lt h, varintSize_of_lt h]
    · rw [encodeVarint_of_le h, varintSize_div h, List.length_cons, ih (v / 128) (by omega)]

theorem toNat_ofNat_byte {v : ℕ} (h : v < 256) : (UInt8.ofNat v).toNat = v := by
  simp [UInt8.toNat_ofNat', Nat.mod_eq_of_lt h]

/-- Decoding after encoding, with any bytes behind the number. -/
@[simp] theorem decodeVarint_encodeVarint (v : ℕ) (rest : Bytes) :
    decodeVarint (encodeVarint v ++ rest) = some (v, rest) := by
  induction v using Nat.strongRecOn with
  | ind v ih =>
    rcases Nat.lt_or_ge v 128 with h | h
    · simp [encodeVarint_of_lt h, decodeVarint, toNat_ofNat_byte (show v < 256 by omega), h]
    · have hb := toNat_ofNat_byte (show v % 128 + 128 < 256 by omega)
      rw [encodeVarint_of_le h, List.cons_append, decodeVarint, hb, if_neg (by omega),
        ih (v / 128) (by omega), Option.map_some]
      simp only [Option.some.injEq, Prod.mk.injEq, and_true]
      omega

end FuelSequencer.Wire
