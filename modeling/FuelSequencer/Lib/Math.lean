import FuelSequencer.Go.Basic

/-! # Integers and decimals of the SDK

`Int` panics when a result needs more than 256 bits. A `LegacyDec` is an integer
scaled by ten to the eighteenth; its conversions to machine integers panic when
the value does not fit. A panic is an `error` here, carrying its text.
-/
namespace FuelSequencer.Lib
open Go

def maxBitLen : ℕ := 256

def checkInt (x : ℤ) : Except GoString ℤ :=
  if x.natAbs < 2 ^ maxBitLen then .ok x else .error (str "Int overflow")

def intAdd (x y : ℤ) : Except GoString ℤ := checkInt (x + y)
def intSub (x y : ℤ) : Except GoString ℤ := checkInt (x - y)

def isInt64 (x : ℤ) : Bool := decide (-2 ^ 63 ≤ x ∧ x < 2 ^ 63)

/-- `Int.Int64`. -/
def intInt64 (x : ℤ) : Except GoString ℤ :=
  if isInt64 x then .ok x else .error (str "Int64() out of bound")

def precisionReuse : ℤ := 10 ^ 18
def maxDecBitLen : ℕ := 315

/-- `LegacyDec.MulInt`, on the scaled integer. -/
def decMulInt (d i : ℤ) : Except GoString ℤ :=
  if (d * i).natAbs < 2 ^ maxDecBitLen then .ok (d * i) else .error (str "Int overflow")

/-- `LegacyDec.TruncateInt64`, which cuts toward zero. -/
def decTruncateInt64 (d : ℤ) : Except GoString ℤ :=
  if isInt64 (d.tdiv precisionReuse) then .ok (d.tdiv precisionReuse)
  else .error (str "Int64() out of bound")

theorem checkInt_eq_ok {x y : ℤ} : checkInt x = .ok y ↔ x.natAbs < 2 ^ maxBitLen ∧ x = y := by
  unfold checkInt
  split <;> simp_all

theorem intInt64_eq_ok {x y : ℤ} : intInt64 x = .ok y ↔ (-2 ^ 63 ≤ x ∧ x < 2 ^ 63) ∧ x = y := by
  unfold intInt64 isInt64
  split <;> simp_all

end FuelSequencer.Lib
