import FuelSequencer.Go.Basic

/-! # Decimal text of integers

Reading is the inverse of printing. A reader of signed integers takes one sign and then
digits only, so a text has at most one value.
-/
namespace FuelSequencer.Lib
open Go Wire

def isDecimalDigit (b : UInt8) : Bool := 48 ≤ b && b ≤ 57

def digitsValue (text : GoString) : ℕ := text.foldl (fun n b => 10 * n + (b.toNat - 48)) 0

/-- The value of a text of digits, at least one of them. -/
def readDigits (text : GoString) : Option ℕ :=
  if text ≠ [] ∧ text.all isDecimalDigit then some (digitsValue text) else none

/-- `SetString` of a big integer with base ten: an optional sign before the digits. -/
def setString (text : GoString) : Option ℤ :=
  match text with
  | 43 :: digits => (readDigits digits).map fun n => (n : ℤ)
  | 45 :: digits => (readDigits digits).map fun n => -(n : ℤ)
  | digits => (readDigits digits).map fun n => (n : ℤ)

theorem digitsValue_append (text : GoString) (b : UInt8) :
    digitsValue (text ++ [b]) = 10 * digitsValue text + (b.toNat - 48) := by
  rw [digitsValue, List.foldl_append]
  rfl

theorem decimal_of_lt {n : ℕ} (h : n < 10) : decimal n = [UInt8.ofNat (48 + n)] := by
  interval_cases n <;> rfl

/-- The last digit comes after those of the quotient. -/
theorem decimal_of_ge {n : ℕ} (h : 10 ≤ n) : decimal n = decimal (n / 10) ++ decimal (n % 10) := by
  unfold decimal
  rw [Nat.toDigits_eq_if (by decide), if_neg (by omega), List.map_append]
  congr 1
  have hlt : n % 10 < 10 := Nat.mod_lt _ (by decide)
  interval_cases n % 10 <;> rfl

theorem readDigits_decimal (n : ℕ) : readDigits (decimal n) = some n := by
  have hall : decimal n ≠ [] ∧ (decimal n).all isDecimalDigit ∧ digitsValue (decimal n) = n := by
    induction n using Nat.strong_induction_on with
    | _ n ih =>
      rcases Nat.lt_or_ge n 10 with hlt | hge
      · interval_cases n <;> decide
      · obtain ⟨hne, hdigits, hvalue⟩ := ih (n / 10) (by omega)
        have hlast : n % 10 < 10 := Nat.mod_lt _ (by decide)
        have hdigit : isDecimalDigit (UInt8.ofNat (48 + n % 10)) ∧ (UInt8.ofNat (48 + n % 10)).toNat - 48 = n % 10 := by
          interval_cases n % 10 <;> decide
        rw [decimal_of_ge hge, decimal_of_lt hlast]
        refine ⟨by simp, ?_, ?_⟩
        · rw [List.all_append, hdigits, List.all_cons, hdigit.1]
          rfl
        · rw [digitsValue_append, hvalue, hdigit.2]
          omega
  rw [readDigits, if_pos ⟨hall.1, hall.2.1⟩, hall.2.2]

/-- A printed number is read back. -/
theorem setString_decimal (n : ℕ) : setString (decimal n) = some (n : ℤ) := by
  have hread := readDigits_decimal n
  unfold setString
  split
  · next digits heq =>
    rw [heq] at hread
    cases hread
  · next digits heq =>
    rw [heq] at hread
    cases hread
  · rw [hread]
    rfl

end FuelSequencer.Lib
