import FuelSequencer.Lib.Address

/-! # Numbers in big-endian bytes

A number is written in a fixed count of bytes, the highest first. Bytes of one length are
equal if their numbers are. A text of hexadecimal digits has the same number as the bytes
that are read from its pairs.
-/
namespace FuelSequencer.Lib
open Go Wire

/-- The lowest digits of a number in base 256, the highest of them first. -/
def bigEndian (width n : ℕ) : Bytes := ((List.range width).map fun i => UInt8.ofNat (n / 256 ^ i % 256)).reverse

/-- The number that bytes stand for, the highest first. -/
def readBigEndian (bz : Bytes) : ℕ := Nat.ofDigits 256 (bz.map UInt8.toNat).reverse

def hexDigitValue (c : UInt8) : ℕ := ((hexValue c).getD 0).toNat

/-- The number that hexadecimal digits stand for, the highest first. -/
def readHex (s : GoString) : ℕ := Nat.ofDigits 16 (s.map hexDigitValue).reverse

variable {bz bz' : Bytes} {width n : ℕ}

/-! ## Bytes -/

@[simp] theorem length_bigEndian (width n : ℕ) : (bigEndian width n).length = width := by
  simp [bigEndian]

theorem readBigEndian_cons (b : UInt8) (bz : Bytes) :
    readBigEndian (b :: bz) = readBigEndian bz + 256 ^ bz.length * b.toNat := by
  rw [readBigEndian, List.map_cons, Nat.ofDigits_reverse_cons, List.length_map]
  rfl

theorem readBigEndian_zeros_append (k : ℕ) (bz : Bytes) : readBigEndian (List.replicate k 0 ++ bz) = readBigEndian bz := by
  rw [readBigEndian, List.map_append, List.map_replicate, List.reverse_append, List.reverse_replicate]
  exact Nat.ofDigits_append_replicate_zero _

/-- By induction on the width: one more byte is one more digit of the remainder. -/
theorem ofDigits_lowest (width n : ℕ) :
    Nat.ofDigits 256 ((List.range width).map fun i => n / 256 ^ i % 256) = n % 256 ^ width := by
  induction width with
  | zero => simp [Nat.mod_one]
  | succ width ih =>
    rw [List.range_succ, List.map_append, Nat.ofDigits_append, ih, List.length_map, List.length_range, List.map_singleton,
      Nat.ofDigits_singleton, Nat.mod_pow_succ]

theorem readBigEndian_bigEndian (h : n < 256 ^ width) : readBigEndian (bigEndian width n) = n := by
  have hdigits : ((List.range width).map fun i => UInt8.ofNat (n / 256 ^ i % 256)).map UInt8.toNat =
      (List.range width).map fun i => n / 256 ^ i % 256 := by
    rw [List.map_map]
    refine List.map_congr_left fun i _ => ?_
    exact UInt8.toNat_ofNat_of_lt' (Nat.mod_lt _ (by decide))
  rw [readBigEndian, bigEndian, List.map_reverse, List.reverse_reverse, hdigits, ofDigits_lowest]
  exact Nat.mod_eq_of_lt h

/-- Bytes of one length are determined by their number. -/
theorem eq_of_readBigEndian_eq (hlength : bz.length = bz'.length) (h : readBigEndian bz = readBigEndian bz') : bz = bz' := by
  have hbytes : ∀ bz : Bytes, ∀ d ∈ (bz.map UInt8.toNat).reverse, d < 256 := by
    intro bz d hd
    obtain ⟨b, -, rfl⟩ := List.mem_map.mp (List.mem_reverse.mp hd)
    exact b.toNat_lt
  have hdigits := Nat.ofDigits_inj_of_len_eq (by decide) (by simpa using hlength) (hbytes bz) (hbytes bz') h
  have hinjective : Function.Injective UInt8.toNat := fun _ _ => UInt8.toNat_inj.mp
  exact hinjective.list_map (List.reverse_injective hdigits)

theorem eq_bigEndian (hlength : bz.length = width) (h : readBigEndian bz = n) (hn : n < 256 ^ width) :
    bz = bigEndian width n := by
  apply eq_of_readBigEndian_eq
  · rw [hlength, length_bigEndian]
  · rw [h, readBigEndian_bigEndian hn]

/-! ## Hexadecimal texts -/

theorem readHex_cons (c : UInt8) (s : GoString) : readHex (c :: s) = readHex s + 16 ^ s.length * hexDigitValue c := by
  rw [readHex, List.map_cons, Nat.ofDigits_reverse_cons, List.length_map]
  rfl

theorem readHex_append_singleton (s : GoString) (c : UInt8) : readHex (s ++ [c]) = hexDigitValue c + 16 * readHex s := by
  rw [readHex, List.map_append, List.map_singleton, List.reverse_append, List.reverse_singleton, List.singleton_append,
    Nat.ofDigits_cons]
  rfl

theorem hexValue_lt {c x : UInt8} (h : hexValue c = some x) : x.toNat < 16 := by
  have hall : ∀ n < 256, ∀ x ∈ hexValue (UInt8.ofNat n), x.toNat < 16 := by decide +kernel
  exact hall c.toNat c.toNat_lt x (by rwa [UInt8.ofNat_toNat])

/-- The bytes of an even text have its number. The recursion takes two digits at a time. -/
theorem readBigEndian_hexPairs : ∀ {s : GoString}, (∀ c ∈ s, (hexValue c).isSome) → s.length % 2 = 0 →
    readBigEndian (hexPairs s) = readHex s
  | [], _, _ => rfl
  | [_], _, heven => absurd heven (by simp)
  | a :: b :: rest, h, heven => by
    obtain ⟨x, hx⟩ := Option.isSome_iff_exists.mp (h a (by simp))
    obtain ⟨y, hy⟩ := Option.isSome_iff_exists.mp (h b (by simp))
    have hrest : ∀ c ∈ rest, (hexValue c).isSome := fun c hc =>
      h c (List.mem_cons_of_mem _ (List.mem_cons_of_mem _ hc))
    have heven' : rest.length % 2 = 0 := by
      rw [List.length_cons, List.length_cons] at heven
      omega
    have ih := readBigEndian_hexPairs hrest heven'
    have hbyte : (x * 16 + y).toNat = x.toNat * 16 + y.toNat := by
      have hxlt := hexValue_lt hx
      have hylt := hexValue_lt hy
      rw [UInt8.toNat_add, UInt8.toNat_mul]
      change (x.toNat * 16 % 256 + y.toNat) % 256 = _
      omega
    have hpow : 256 ^ (rest.length / 2) = 16 ^ rest.length := by
      have hsquare : (256 : ℕ) = 16 ^ 2 := by decide
      rw [hsquare, ← pow_mul, Nat.mul_div_cancel' (Nat.dvd_of_mod_eq_zero heven')]
    simp only [hexPairs, hx, hy]
    rw [readBigEndian_cons, ih, length_hexPairs hrest, hpow, hbyte, readHex_cons, readHex_cons, List.length_cons,
      hexDigitValue, hexDigitValue, hx, hy, Option.getD_some, Option.getD_some]
    ring

end FuelSequencer.Lib
