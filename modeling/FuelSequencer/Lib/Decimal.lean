import FuelSequencer.Lib.Math

/-! # Rounding of decimals

Quotients, products and the conversion to an integer round to the nearest scaled integer
and in the middle to the even one. Rounding is monotone, so that a share of a larger
amount and a larger share of an amount are never smaller.
-/
namespace FuelSequencer.Lib
open Go

/-- Half of the precision. -/
def fivePrecision : ℤ := 5 * 10 ^ 17

/-- `chopPrecisionAndRound` of a number that is not negative. -/
def chopNonneg (x : ℤ) : ℤ :=
  let quo := x / precisionReuse
  let rem := x % precisionReuse
  if rem < fivePrecision then quo
  else if fivePrecision < rem then quo + 1
  else if quo % 2 = 0 then quo
  else quo + 1

def chopPrecisionAndRound (x : ℤ) : ℤ := if x < 0 then -chopNonneg (-x) else chopNonneg x

def legacyNewDec (x : ℤ) : ℤ := x * precisionReuse

def checkDec (x : ℤ) : Except GoString ℤ :=
  if x.natAbs < 2 ^ maxDecBitLen then .ok x else .error (str "Int overflow")

/-- `LegacyDec.Quo`: the quotient to twice the precision is cut and then rounded. -/
def decQuo (d d2 : ℤ) : Except GoString ℤ :=
  if d2 = 0 then .error (str "division by zero")
  else checkDec (chopPrecisionAndRound ((d * precisionReuse ^ 2).tdiv d2))

/-- `LegacyDec.Mul`. -/
def decMul (d d2 : ℤ) : Except GoString ℤ := checkDec (chopPrecisionAndRound (d * d2))

/-- `LegacyDec.RoundInt`. -/
def decRoundInt (d : ℤ) : Except GoString ℤ :=
  let x := chopPrecisionAndRound d
  if x.natAbs < 2 ^ maxBitLen then .ok x else .error (str "NewIntFromBigInt() out of bound")

/-- `LegacyDec.QuoInt`, which cuts toward zero. -/
def decQuoInt (d i : ℤ) : Except GoString ℤ :=
  if i = 0 then .error (str "division by zero") else .ok (d.tdiv i)

/-- `LegacyDec.TruncateInt`. -/
def decTruncateInt (d : ℤ) : Except GoString ℤ :=
  let x := d.tdiv precisionReuse
  if x.natAbs < 2 ^ maxBitLen then .ok x else .error (str "NewIntFromBigInt() out of bound")

/-! ## Rounding is monotone -/

theorem chopNonneg_mono {x y : ℤ} (h : x ≤ y) : chopNonneg x ≤ chopNonneg y := by
  unfold chopNonneg precisionReuse fivePrecision
  have hquo : x / 10 ^ 18 ≤ y / 10 ^ 18 := Int.ediv_le_ediv (by norm_num) h
  dsimp only
  split_ifs <;> omega

theorem chopPrecisionAndRound_of_nonneg {x : ℤ} (h : 0 ≤ x) : chopPrecisionAndRound x = chopNonneg x :=
  if_neg (not_lt.mpr h)

/-- A whole number stays what it is. -/
theorem chopNonneg_mul (n : ℤ) : chopNonneg (n * precisionReuse) = n := by
  unfold chopNonneg precisionReuse fivePrecision
  rw [Int.mul_ediv_cancel _ (by norm_num), Int.mul_emod_left, if_pos (by norm_num)]

theorem chopNonneg_nonneg {x : ℤ} (h : 0 ≤ x) : 0 ≤ chopNonneg x := by
  have hzero := chopNonneg_mul 0
  rw [zero_mul] at hzero
  rw [← hzero]
  exact chopNonneg_mono h

theorem checkDec_eq_ok {x y : ℤ} : checkDec x = .ok y ↔ x.natAbs < 2 ^ maxDecBitLen ∧ x = y := by
  unfold checkDec
  split <;> simp_all

/-! ## Shares of an amount -/

/-- The scaled quotient of a part and a whole. -/
def share (part whole : ℤ) : ℤ := chopNonneg (part * precisionReuse ^ 2 / whole)

/-- The rounded share of an amount. -/
def shareOf (amount scale : ℤ) : ℤ := chopNonneg (amount * scale)

theorem share_mono {part part' whole : ℤ} (hwhole : 0 < whole) (h : part ≤ part') :
    share part whole ≤ share part' whole := by
  refine chopNonneg_mono (Int.ediv_le_ediv hwhole ?_)
  exact mul_le_mul_of_nonneg_right h (by norm_num [precisionReuse])

theorem share_nonneg {part whole : ℤ} (hpart : 0 ≤ part) (hwhole : 0 < whole) : 0 ≤ share part whole :=
  chopNonneg_nonneg (Int.ediv_nonneg (mul_nonneg hpart (by norm_num [precisionReuse])) hwhole.le)

theorem share_le_one {part whole : ℤ} (hwhole : 0 < whole) (h : part ≤ whole) :
    share part whole ≤ precisionReuse := by
  have hself : share whole whole = precisionReuse := by
    rw [share, mul_comm, Int.mul_ediv_cancel _ hwhole.ne', sq, chopNonneg_mul]
  rw [← hself]
  exact share_mono hwhole h

@[simp] theorem shareOf_zero (scale : ℤ) : shareOf 0 scale = 0 := by
  rw [shareOf, zero_mul]
  rfl

theorem shareOf_nonneg {amount scale : ℤ} (hamount : 0 ≤ amount) (hscale : 0 ≤ scale) :
    0 ≤ shareOf amount scale := chopNonneg_nonneg (mul_nonneg hamount hscale)

theorem shareOf_mono {amount amount' scale scale' : ℤ} (hamount : 0 ≤ amount) (hscale : 0 ≤ scale)
    (h : amount ≤ amount') (h' : scale ≤ scale') : shareOf amount scale ≤ shareOf amount' scale' :=
  chopNonneg_mono (mul_le_mul h h' hscale (hamount.trans h))

theorem shareOf_le {amount scale : ℤ} (hamount : 0 ≤ amount) (hscale : 0 ≤ scale) (h : scale ≤ precisionReuse) :
    shareOf amount scale ≤ amount := by
  refine (shareOf_mono hamount hscale le_rfl h).trans ?_
  rw [shareOf, chopNonneg_mul]

/-! ## Release over time -/

/-- The part of an amount that is released at a time: nothing until the start, everything
from the end on, and in between the rounded share of the time passed. -/
def released (amount startTime endTime now : ℤ) : ℤ :=
  if now ≤ startTime then 0
  else if endTime ≤ now then amount
  else shareOf amount (share (now - startTime) (endTime - startTime))

section Released

variable {amount amount' startTime endTime now now' : ℤ}

theorem released_of_le_start (h : now ≤ startTime) : released amount startTime endTime now = 0 := if_pos h

theorem released_of_end_le (hstart : startTime < now) (h : endTime ≤ now) :
    released amount startTime endTime now = amount := by
  rw [released, if_neg (not_le.mpr hstart), if_pos h]

theorem released_of_between (hstart : startTime < now) (hend : now < endTime) :
    released amount startTime endTime now =
      shareOf amount (share (now - startTime) (endTime - startTime)) := by
  rw [released, if_neg (not_le.mpr hstart), if_neg (not_le.mpr hend)]

/-- The share of the time passed lies between nothing and one. -/
theorem share_between (hstart : startTime < now) (hend : now < endTime) :
    0 ≤ share (now - startTime) (endTime - startTime) ∧
      share (now - startTime) (endTime - startTime) ≤ precisionReuse :=
  ⟨share_nonneg (by omega) (by omega), share_le_one (by omega) (by omega)⟩

theorem released_bounds (hamount : 0 ≤ amount) :
    0 ≤ released amount startTime endTime now ∧ released amount startTime endTime now ≤ amount := by
  rcases le_or_gt now startTime with hstart | hstart
  · rw [released_of_le_start hstart]
    exact ⟨le_rfl, hamount⟩
  rcases le_or_gt endTime now with hend | hend
  · rw [released_of_end_le hstart hend]
    exact ⟨hamount, le_rfl⟩
  · obtain ⟨hscale, hone⟩ := share_between hstart hend
    rw [released_of_between hstart hend]
    exact ⟨shareOf_nonneg hamount hscale, shareOf_le hamount hscale hone⟩

/-- Nothing released is taken back. -/
theorem released_mono_time (hamount : 0 ≤ amount) (h : now ≤ now') :
    released amount startTime endTime now ≤ released amount startTime endTime now' := by
  rcases le_or_gt now startTime with hstart | hstart
  · rw [released_of_le_start hstart]
    exact (released_bounds hamount).1
  have hstart' : startTime < now' := hstart.trans_le h
  rcases le_or_gt endTime now' with hend' | hend'
  · rw [released_of_end_le hstart' hend']
    exact (released_bounds hamount).2
  have hend : now < endTime := h.trans_lt hend'
  rw [released_of_between hstart hend, released_of_between hstart' hend']
  exact shareOf_mono hamount (share_between hstart hend).1 le_rfl (share_mono (by omega) (by omega))

/-- A larger amount on the same schedule has at least as much released. -/
theorem released_mono_amount (hamount : 0 ≤ amount) (h : amount ≤ amount') :
    released amount startTime endTime now ≤ released amount' startTime endTime now := by
  rcases le_or_gt now startTime with hstart | hstart
  · rw [released_of_le_start hstart, released_of_le_start hstart]
  rcases le_or_gt endTime now with hend | hend
  · rwa [released_of_end_le hstart hend, released_of_end_le hstart hend]
  · rw [released_of_between hstart hend, released_of_between hstart hend]
    exact shareOf_mono hamount (share_between hstart hend).1 h le_rfl

end Released

/-! ## Results within the bounds -/

theorem decQuo_eq_ok {part whole scale : ℤ} (hpart : 0 ≤ part) (hwhole : 0 < whole) :
    decQuo (legacyNewDec part) (legacyNewDec whole) = .ok scale ↔
      (share part whole).natAbs < 2 ^ maxDecBitLen ∧ share part whole = scale := by
  have hpos : (0 : ℤ) < precisionReuse := by norm_num [precisionReuse]
  have hne : legacyNewDec whole ≠ 0 := (mul_pos hwhole hpos).ne'
  have hquo : (legacyNewDec part * precisionReuse ^ 2).tdiv (legacyNewDec whole) =
      part * precisionReuse ^ 2 / whole := by
    rw [legacyNewDec, legacyNewDec, Int.tdiv_eq_ediv_of_nonneg (by positivity), mul_right_comm,
      Int.mul_ediv_mul_of_pos_left _ _ hpos]
  have hnonneg : 0 ≤ part * precisionReuse ^ 2 / whole :=
    Int.ediv_nonneg (mul_nonneg hpart (by positivity)) hwhole.le
  rw [decQuo, if_neg hne, hquo, chopPrecisionAndRound_of_nonneg hnonneg, checkDec_eq_ok]
  rfl

/-- The product of a whole amount and a share is exact, so that only the last step rounds. -/
theorem decMul_eq_ok {amount scale product : ℤ} (hamount : 0 ≤ amount) (hscale : 0 ≤ scale) :
    decMul (legacyNewDec amount) scale = .ok product ↔
      (amount * scale).natAbs < 2 ^ maxDecBitLen ∧ amount * scale = product := by
  have hpos : (0 : ℤ) < precisionReuse := by norm_num [precisionReuse]
  have hnonneg := mul_nonneg (mul_nonneg hamount hscale) hpos.le
  rw [decMul, legacyNewDec, mul_right_comm, chopPrecisionAndRound_of_nonneg hnonneg, chopNonneg_mul, checkDec_eq_ok]

theorem decRoundInt_eq_ok {amount scale rounded : ℤ} (hamount : 0 ≤ amount) (hscale : 0 ≤ scale) :
    decRoundInt (amount * scale) = .ok rounded ↔
      (shareOf amount scale).natAbs < 2 ^ maxBitLen ∧ shareOf amount scale = rounded := by
  rw [decRoundInt, chopPrecisionAndRound_of_nonneg (mul_nonneg hamount hscale)]
  change (if (shareOf amount scale).natAbs < _ then Except.ok (shareOf amount scale) else _) = _ ↔ _
  split <;> simp_all

end FuelSequencer.Lib
