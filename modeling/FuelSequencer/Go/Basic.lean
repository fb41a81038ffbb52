import FuelSequencer.Wire.Varint

/-! # Go values the program computes with

Strings are byte strings, slices have a length and a capacity, times are counted
in nanoseconds from the Unix epoch, and integer conversions wrap.
-/
namespace FuelSequencer.Go
open Wire

abbrev GoString := Bytes

/-- Texts are compared byte by byte. -/
instance lawfulBEqText : LawfulBEq (List UInt8) := List.instLawfulBEq

/-- The bytes of a string literal. -/
def str (s : String) : GoString := s.toUTF8.data.toList

/-- Decimal text of a number, as `%d` prints it. -/
def decimal (n : ℕ) : GoString := (Nat.toDigits 10 n).map fun c => UInt8.ofNat c.toNat

def decimalInt (x : ℤ) : GoString :=
  if x < 0 then str "-" ++ decimal x.natAbs else decimal x.natAbs

def hexDigitUpper (d : UInt8) : UInt8 := if d < 10 then d + 48 else d + 55

/-- Upper case hexadecimal text, as `%X` prints it. -/
def hexUpper (bz : Bytes) : GoString :=
  bz.flatMap fun b => [hexDigitUpper (b / 16), hexDigitUpper (b % 16)]

def hexDigitLower (d : UInt8) : UInt8 := if d < 10 then d + 48 else d + 87

/-- Lower case hexadecimal text, as `hex.EncodeToString` gives it. -/
def hexLower (bz : Bytes) : GoString :=
  bz.flatMap fun b => [hexDigitLower (b / 16), hexDigitLower (b % 16)]

/-- Go's `len` is an `int`: no slice holds more elements than that. -/
def maxLen : ℕ := 2 ^ 63

/-- A slice: the visible elements, and those of the backing array between its
length and its capacity. -/
structure Slice (α : Type) where
  elems : List α
  spare : List α
  cap_lt : elems.length + spare.length < maxLen

/-- The expression `s[lo:hi]`, which may reach past the length up to the capacity
and panics beyond that. -/
def Slice.slice {α : Type} (s : Slice α) (lo hi : ℕ) : Option (List α) :=
  if lo ≤ hi ∧ hi ≤ s.elems.length + s.spare.length then
    some (((s.elems ++ s.spare).take hi).drop lo)
  else none

/-- Conversion of any integer to `int64`. -/
def int64 (x : ℤ) : ℤ := Int.bmod x (2 ^ 64)

/-- Conversion of any integer to `uint64`. -/
def uint64 (x : ℤ) : ℕ := (x % 2 ^ 64).toNat

/-- Subtraction of `uint64` values. -/
def subUint64 (a b : ℕ) : ℕ := uint64 ((a : ℤ) - b)

abbrev Time := ℤ
abbrev Duration := ℤ

/-- The zero `time.Time`, the first of January of year one. -/
def zeroTime : Time := -62135596800 * 10 ^ 9

/-- Whole seconds since the epoch, rounded down. -/
def unixSeconds (t : Time) : ℤ := t / 10 ^ 9

/-- A slice of fewer elements than its count keeps the visible ones only when it
stays within the length. -/
theorem Slice.slice_of_le {α : Type} (s : Slice α) {lo hi : ℕ} (h₁ : lo ≤ hi)
    (h₂ : hi ≤ s.elems.length) : s.slice lo hi = some ((s.elems.take hi).drop lo) := by
  rw [Slice.slice, if_pos ⟨h₁, by omega⟩, List.take_append_of_le_length h₂]

theorem uint64_natCast {n : ℕ} (h : n < 2 ^ 64) : uint64 (n : ℤ) = n := by
  unfold uint64
  omega

theorem uint64_lt (x : ℤ) : uint64 x < 2 ^ 64 := by
  unfold uint64
  omega

theorem toNat_ofNat_uint64 (x : ℤ) : (UInt64.ofNat (uint64 x)).toNat = uint64 x := by
  rw [UInt64.toNat_ofNat', Nat.mod_eq_of_lt (uint64_lt x)]

theorem int64_eq_self {x : ℤ} (hlo : -2 ^ 63 ≤ x) (hhi : x < 2 ^ 63) : int64 x = x :=
  Int.bmod_eq_of_le (by norm_num; omega) (by norm_num; omega)

theorem subUint64_of_le {a b : ℕ} (h : b ≤ a) (ha : a < 2 ^ 64) : subUint64 a b = a - b := by
  unfold subUint64 uint64
  omega

/-- Counts of in-memory elements survive the conversion to `uint64`. -/
theorem toNat_ofNat_of_lt_maxLen {n : ℕ} (h : n < maxLen) : (UInt64.ofNat n).toNat = n :=
  UInt64.toNat_ofNat_of_lt' (lt_trans h (by decide))

theorem toNat_add_one {n : UInt64} (h : n.toNat < maxLen) : (n + 1).toNat = n.toNat + 1 := by
  have hn : n.toNat < 2 ^ 63 := h
  rw [UInt64.toNat_add, UInt64.toNat_one]
  omega

theorem add_ofNat_succ (q : UInt64) (i : ℕ) :
    q + UInt64.ofNat (i + 1) = q + 1 + UInt64.ofNat i := by
  rw [UInt64.ofNat_add, UInt64.add_comm (UInt64.ofNat i), ← UInt64.add_assoc]
  rfl

end FuelSequencer.Go
