import StockBank.Lib.Binary64
import Mathlib.Data.UInt

/-!
# The type `double`

A `double` is an exact rational, an infinity or not a number, and it is sent as the bits of
`Double.doubleToRawLongBits`.  The two zeros are one value.

The arithmetic of the program is exact here, so a value need not be one that 64 bits can have: it
has the bits of the nearest one, which is what arrives when it is sent (`Double.nearest`).  What 64
bits can have arrives as itself (`nearest_longBitsToDouble`), and of any other value the error is
relative (`exists_nearest`).
-/

namespace StockBank.Java

open Lib

/-- A `double`: an exact value, an infinity, or not a number. -/
inductive Double
  | finite (q : ℚ)
  | infinite (negative : Bool)
  | nan
  deriving DecidableEq, Repr

/-- Division of a `double` by an `int`: division by zero is not an error. -/
def div (x : ℚ) (n : ℤ) : Double :=
  if n ≠ 0 then .finite (x / n)
  else if x = 0 then .nan
  else .infinite (x < 0)

/-- The one exception of `PremiumAccount.getLoan`: unboxing a null `Double`. -/
inductive NullPointerException
  | unboxing
  deriving DecidableEq, Repr

/-- The pattern of the absolute value, which is infinite when it is beyond the format. -/
def magnitude (q : ℚ) : ℕ :=
  min (Binary64.nearest (q.num.natAbs * Binary64.one) q.den) Binary64.infinity

/-- A sign, and the pattern of an absolute value. -/
def signed (negative : Bool) (magnitude : ℕ) : UInt64 :=
  UInt64.ofNat ((if negative then 2 ^ 63 else 0) + magnitude)

/-- `Double.doubleToRawLongBits`. -/
def doubleToRawLongBits : Double → UInt64
  | .finite q => signed (q < 0) (magnitude q)
  | .infinite negative => signed negative Binary64.infinity
  | .nan => 0x7ff8000000000000

/-- `Double.longBitsToDouble`. -/
def longBitsToDouble (bits : UInt64) : Double :=
  let negative : Bool := 2 ^ 63 ≤ bits.toNat
  let magnitude := bits.toNat % 2 ^ 63
  if magnitude < Binary64.infinity then
    .finite ((if negative then -1 else 1) * (Binary64.units magnitude / Binary64.one))
  else if magnitude = Binary64.infinity then
    .infinite negative
  else
    .nan

/-- The `double` that stands for a value. -/
def Double.nearest (v : Double) : Double := longBitsToDouble (doubleToRawLongBits v)

theorem longBitsToDouble_signed (negative : Bool) {b : ℕ} (hb : b ≤ Binary64.infinity) :
    longBitsToDouble (signed negative b) =
      if b < Binary64.infinity then
        .finite ((if negative then -1 else 1) * (Binary64.units b / Binary64.one))
      else .infinite negative := by
  have hlt : b < 2 ^ 63 := hb.trans_lt (by decide)
  have htoNat : (signed negative b).toNat = (if negative then 2 ^ 63 else 0) + b := by
    rw [signed, UInt64.toNat_ofNat']
    apply Nat.mod_eq_of_lt
    split <;> omega
  have hnegative : decide (2 ^ 63 ≤ (signed negative b).toNat) = negative := by
    rw [htoNat]
    cases negative <;> simp; omega
  have hmagnitude : (signed negative b).toNat % 2 ^ 63 = b := by
    rw [htoNat]
    cases negative <;> simp <;> omega
  rw [longBitsToDouble, hnegative, hmagnitude]
  split
  · rfl
  · rw [if_pos (by omega)]

/-- The fraction of units that a value is. -/
theorem natAbs_num (q : ℚ) : (q.num.natAbs : ℚ) = |q| * q.den := by
  rw [Nat.cast_natAbs, Int.cast_abs, ← Rat.mul_den_eq_num, abs_mul, Nat.abs_cast]

theorem one_pos : (0 : ℚ) < Binary64.one := Nat.cast_pos.mpr Binary64.one_pos

theorem magnitude_of_units {q : ℚ} {b : ℕ} (h : |q| = Binary64.units b / Binary64.one) :
    magnitude q = min b Binary64.infinity := by
  have hunits : (q.num.natAbs * Binary64.one : ℚ) = Binary64.units b * q.den := by
    rw [natAbs_num, h, mul_right_comm, div_mul_cancel₀ _ one_pos.ne']
  have hnat : q.num.natAbs * Binary64.one = Binary64.units b * q.den := by exact_mod_cast hunits
  rw [magnitude, hnat, Binary64.nearest_units b q.den_pos]

theorem abs_mul_sign (negative : Bool) {x : ℚ} (hx : 0 ≤ x) :
    |(if negative then -1 else 1) * x| = x := by
  cases negative <;> simp [abs_of_nonneg hx]

theorem mul_sign_lt_zero (negative : Bool) {x : ℚ} (hx : 0 < x) :
    decide ((if negative then -1 else 1) * x < 0) = negative := by
  cases negative <;> simp [hx, hx.le]

/-- **A `double` stands for itself.** -/
theorem nearest_longBitsToDouble (bits : UInt64) :
    (longBitsToDouble bits).nearest = longBitsToDouble bits := by
  rw [longBitsToDouble]
  generalize (decide (2 ^ 63 ≤ bits.toNat)) = negative
  generalize bits.toNat % 2 ^ 63 = b
  split
  · next hb =>
    rw [Double.nearest, doubleToRawLongBits]
    have hpos : (0 : ℚ) ≤ Binary64.units b / Binary64.one :=
      div_nonneg (Nat.cast_nonneg _) one_pos.le
    rw [magnitude_of_units (abs_mul_sign negative hpos), Nat.min_eq_left hb.le,
      longBitsToDouble_signed _ hb.le, if_pos hb]
    rcases hpos.eq_or_lt with hzero | hpos
    · rw [← hzero, mul_zero, mul_zero]
    · rw [mul_sign_lt_zero negative hpos]
  · split
    · rw [Double.nearest, doubleToRawLongBits, longBitsToDouble_signed _ le_rfl,
        if_neg (lt_irrefl _)]
    · decide +kernel

theorem nearest_zero : (Double.finite 0).nearest = .finite 0 := by decide +kernel

/-- An error that is relative is small, and so is what it is of. -/
theorem lt_of_error {x u : ℚ} (hx : 0 < x) (h : 2 ^ 53 * |x - u| ≤ x) : u < x * 2 := by
  have hle := neg_abs_le (x - u)
  linarith

theorem abs_sub_signed (q x : ℚ) :
    |q - (if decide (q < 0) = true then -1 else 1) * x| = |(|q| - x)| := by
  by_cases hq : q < 0
  · rw [decide_eq_true hq, if_pos rfl, abs_of_neg hq, ← abs_neg]
    congr 1
    ring
  · rw [decide_eq_false hq, if_neg Bool.false_ne_true, abs_of_nonneg (not_lt.mp hq), one_mul]

/-- **The error is relative**, where a `double` has 53 bits. -/
theorem exists_nearest {q : ℚ} (hlow : 2 ^ 52 ≤ |q| * Binary64.one) (hhigh : |q| * 2 ≤ 2 ^ 1024) :
    ∃ q', (Double.finite q).nearest = .finite q' ∧ 2 ^ 53 * |q - q'| ≤ |q| := by
  have hden : (0 : ℚ) < q.den := Nat.cast_pos.mpr q.den_pos
  have hunits : ((q.num.natAbs * Binary64.one : ℕ) / q.den : ℚ) = |q| * Binary64.one := by
    rw [Nat.cast_mul, natAbs_num, mul_right_comm, mul_div_cancel_right₀ _ hden.ne']
  have herror := Binary64.nearest_error q.den_pos (hunits ▸ hlow)
  rw [hunits] at herror
  rw [Double.nearest, doubleToRawLongBits, magnitude]
  generalize Binary64.nearest (q.num.natAbs * Binary64.one) q.den = b at herror ⊢
  have hb : b < Binary64.infinity := by
    have hlt := lt_of_error ((by positivity : (0 : ℚ) < 2 ^ 52).trans_le hlow) herror
    rw [mul_right_comm] at hlt
    have hmax := hlt.trans_le (mul_le_mul_of_nonneg_right hhigh one_pos.le)
    refine Binary64.units_strictMono.lt_iff_lt.mp ?_
    rw [Binary64.units_infinity]
    exact_mod_cast hmax
  rw [Nat.min_eq_left hb.le, longBitsToDouble_signed _ hb.le, if_pos hb]
  refine ⟨_, rfl, le_of_mul_le_mul_right ?_ one_pos⟩
  have hscaled : |q| * Binary64.one - Binary64.units b =
      (|q| - Binary64.units b / Binary64.one) * Binary64.one := by
    rw [sub_mul, div_mul_cancel₀ _ one_pos.ne']
  rwa [abs_sub_signed, mul_assoc, ← abs_of_pos one_pos, ← abs_mul, abs_of_pos one_pos, ← hscaled]

/-- That holds of what is neither tiny nor huge. -/
theorem exists_nearest_of_le {q : ℚ} (hlow : 1 ≤ |q| * 2 ^ 64) (hhigh : |q| ≤ 2 ^ 64) :
    ∃ q', (Double.finite q).nearest = .finite q' ∧ 2 ^ 53 * |q - q'| ≤ |q| := by
  have hone : (2 : ℚ) ^ 116 ≤ Binary64.one := by
    rw [Binary64.one, Nat.cast_pow, Nat.cast_two]
    exact pow_le_pow_right₀ one_le_two (by decide)
  apply exists_nearest
  · calc (2 : ℚ) ^ 52 ≤ |q| * 2 ^ 64 * 2 ^ 52 := le_mul_of_one_le_left (by positivity) hlow
      _ = |q| * 2 ^ 116 := by rw [mul_assoc, ← pow_add]
      _ ≤ |q| * Binary64.one := mul_le_mul_of_nonneg_left hone (abs_nonneg q)
  · calc |q| * 2 ≤ 2 ^ 64 * 2 := mul_le_mul_of_nonneg_right hhigh two_pos.le
      _ = 2 ^ (64 + 1) := (pow_succ _ _).symm
      _ ≤ 2 ^ 1024 := pow_le_pow_right₀ one_le_two (by decide)

example : doubleToRawLongBits (.finite (1 / 10)) = 0x3fb999999999999a := by decide +kernel

end StockBank.Java
