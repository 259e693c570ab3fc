import Mathlib.Data.Rat.Floor
import Mathlib.Tactic.Linarith
import Mathlib.Tactic.Ring

/-!
# Binary floating point with 64 bits

The finite numbers of the format, and the one of them that is nearest to a fraction.

A pattern of bits without its sign is a number below `2 ^ 63`: eleven bits of exponent, and
52 of the significand.  Every finite number of the format is a multiple of `2 ^ -1074`, the unit,
and `units` is which one.  The patterns are in the order of what they stand for
(`units_strictMono`), so one that rounding carries into the next binade needs no care.

`nearest` is rounding to nearest, where ties go to the even significand: nothing is nearer
(`nearest_le`), what is in the format stays (`nearest_units`), and the error is relative to the
fraction (`nearest_error`).
-/

namespace Lib.Binary64

/-! ## What a pattern stands for -/

/-- How many units a finite pattern stands for.  Below `2 ^ 52` there is no implicit bit. -/
def units (b : ℕ) : ℕ :=
  if b < 2 ^ 52 then b else (2 ^ 52 + b % 2 ^ 52) * 2 ^ (b / 2 ^ 52 - 1)

/-- How many units one is. -/
def one : ℕ := 2 ^ 1074

/-- The pattern of infinity.  Greater ones are no numbers. -/
def infinity : ℕ := 2047 * 2 ^ 52

/-- A significand, and the power of two that it is scaled by. -/
theorem units_eq {k n : ℕ} (hn : n ≤ 2 ^ 53) (hk : k = 0 ∨ 2 ^ 52 ≤ n) :
    units (k * 2 ^ 52 + n) = n * 2 ^ k := by
  unfold units
  split
  · next h =>
    obtain rfl : k = 0 := by omega
    omega
  · next h =>
    rcases Nat.lt_or_ge n (2 ^ 53) with hlt | hge
    · have hdiv : (k * 2 ^ 52 + n) / 2 ^ 52 - 1 = k := by omega
      have hmod : 2 ^ 52 + (k * 2 ^ 52 + n) % 2 ^ 52 = n := by omega
      rw [hdiv, hmod]
    · obtain rfl : n = 2 ^ 53 := by omega
      have hdiv : (k * 2 ^ 52 + 2 ^ 53) / 2 ^ 52 - 1 = k + 1 := by omega
      have hmod : (k * 2 ^ 52 + 2 ^ 53) % 2 ^ 52 = 0 := by omega
      rw [hdiv, hmod]
      ring

/-- Every pattern is one of a significand and a scale. -/
theorem exists_significand (b : ℕ) :
    ∃ k n, b = k * 2 ^ 52 + n ∧ n < 2 ^ 53 ∧ (k = 0 ∨ 2 ^ 52 ≤ n) := by
  rcases Nat.lt_or_ge b (2 ^ 52) with h | h
  · exact ⟨0, b, by omega, by omega, .inl rfl⟩
  · exact ⟨b / 2 ^ 52 - 1, 2 ^ 52 + b % 2 ^ 52, by omega, by omega, .inr (by omega)⟩

theorem units_strictMono : StrictMono units := by
  refine strictMono_nat_of_lt_succ fun b ↦ ?_
  obtain ⟨k, n, rfl, hn, hk⟩ := exists_significand b
  rw [Nat.add_assoc, units_eq hn.le hk, units_eq hn (by omega)]
  exact Nat.mul_lt_mul_of_pos_right n.lt_succ_self (Nat.two_pow_pos k)

theorem one_pos : 0 < one := pow_pos two_pos 1074

theorem units_infinity : units infinity = 2 ^ 1024 * one := by
  have hinfinity : infinity = 2046 * 2 ^ 52 + 2 ^ 52 := rfl
  rw [hinfinity, units_eq (by decide) (.inr le_rfl), one, ← pow_add, ← pow_add]

/-! ## The nearest multiple -/

/-- The quotient, rounded to the nearest number, and to the even one of two. -/
def roundHalfEven (a d : ℕ) : ℕ :=
  if 2 * (a % d) < d ∨ 2 * (a % d) = d ∧ a / d % 2 = 0 then a / d else a / d + 1

theorem roundHalfEven_error (a : ℕ) {d : ℕ} (hd : 0 < d) :
    2 * |(a : ℤ) - roundHalfEven a d * d| ≤ d := by
  have hdiv : (a : ℤ) = a / d * d + a % d := (Int.ediv_mul_add_emod a d).symm
  have hmod : a % d < d := Nat.mod_lt a hd
  unfold roundHalfEven
  split
  · have hle : 2 * (a % d) ≤ d := by omega
    have hsub : (a : ℤ) - (a / d : ℕ) * d = (a % d : ℕ) := by
      push_cast
      linarith
    rw [hsub, abs_of_nonneg (by positivity)]
    exact_mod_cast hle
  · have hle : d ≤ 2 * (a % d) := by omega
    have hsub : (a : ℤ) - (a / d + 1 : ℕ) * d = (a % d : ℕ) - d := by
      push_cast
      linarith
    rw [hsub, abs_of_nonpos (by omega)]
    omega

/-- No multiple is nearer. -/
theorem roundHalfEven_le (a : ℕ) {d : ℕ} (hd : 0 < d) (m : ℕ) :
    |(a : ℤ) - roundHalfEven a d * d| ≤ |(a : ℤ) - m * d| := by
  rcases eq_or_ne m (roundHalfEven a d) with rfl | hne
  · exact le_rfl
  have herror := roundHalfEven_error a hd
  have hone : (1 : ℤ) ≤ |(roundHalfEven a d : ℤ) - m| :=
    Int.one_le_abs (sub_ne_zero.mpr (by exact_mod_cast hne.symm))
  have hstep : (d : ℤ) ≤ |(roundHalfEven a d * d : ℤ) - m * d| := by
    rw [← sub_mul, abs_mul, Nat.abs_cast]
    exact le_mul_of_one_le_left (Int.natCast_nonneg d) hone
  have htriangle : |(roundHalfEven a d * d : ℤ) - m * d| ≤
      |(a : ℤ) - roundHalfEven a d * d| + |(a : ℤ) - m * d| := by
    rw [abs_sub_comm (a : ℤ) (roundHalfEven a d * d)]
    exact abs_sub_le _ _ _
  linarith

theorem le_roundHalfEven {a d m : ℕ} (hd : 0 < d) (h : m * d ≤ a) : m ≤ roundHalfEven a d := by
  have hle : m ≤ a / d := (Nat.le_div_iff_mul_le hd).mpr h
  unfold roundHalfEven
  split <;> omega

theorem roundHalfEven_le_of_lt {a d m : ℕ} (h : a < m * d) : roundHalfEven a d ≤ m := by
  have hlt : a / d < m := Nat.div_lt_of_lt_mul (by rwa [Nat.mul_comm])
  unfold roundHalfEven
  split <;> omega

/-! ## The nearest number of the format -/

/-- The scale at which a fraction has 53 bits, or the least one. -/
def scale (a d : ℕ) : ℕ := (a / d).log2 - 52

/-- The pattern of the number that is nearest to `a / d` units.  From `infinity` on, the fraction
is beyond the format. -/
def nearest (a d : ℕ) : ℕ := scale a d * 2 ^ 52 + roundHalfEven a (d * 2 ^ scale a d)

section

variable {a d : ℕ} (hd : 0 < d)

include hd

theorem lt_scale : a < 2 ^ 53 * (d * 2 ^ scale a d) := by
  have hlog : a / d < 2 ^ (53 + scale a d) :=
    Nat.lt_log2_self.trans_le (Nat.pow_le_pow_right (by decide) (by rw [scale]; omega))
  have hlt := (Nat.div_lt_iff_lt_mul hd).mp hlog
  rwa [Nat.pow_add, Nat.mul_assoc, Nat.mul_comm _ d] at hlt

/-- A fraction that is scaled has no less than 53 bits. -/
theorem le_of_scale (h : scale a d ≠ 0) : 2 ^ 52 * (d * 2 ^ scale a d) ≤ a := by
  have hexp : (a / d).log2 = 52 + scale a d := by
    rw [scale] at h ⊢
    omega
  have hne : a / d ≠ 0 := by
    intro hzero
    rw [hzero, Nat.log2_zero] at hexp
    omega
  have hle : 2 ^ (52 + scale a d) ≤ a / d := hexp ▸ Nat.log2_self_le hne
  have hmul := (Nat.le_div_iff_mul_le hd).mp hle
  rwa [Nat.pow_add, Nat.mul_assoc, Nat.mul_comm _ d] at hmul

theorem units_nearest :
    units (nearest a d) = roundHalfEven a (d * 2 ^ scale a d) * 2 ^ scale a d := by
  refine units_eq (roundHalfEven_le_of_lt (lt_scale hd)) (or_iff_not_imp_left.mpr fun h ↦ ?_)
  exact le_roundHalfEven (Nat.mul_pos hd (Nat.two_pow_pos _)) (le_of_scale hd h)

/-- **No number of the format is nearer** to `a / d` units. -/
theorem nearest_le (b : ℕ) :
    |(a : ℤ) - units (nearest a d) * d| ≤ |(a : ℤ) - units b * d| := by
  have hpos : 0 < d * 2 ^ scale a d := Nat.mul_pos hd (Nat.two_pow_pos _)
  have hscaled : ∀ m : ℕ, (m * (d * 2 ^ scale a d : ℕ) : ℤ) = (m * 2 ^ scale a d : ℕ) * d := by
    intro m
    push_cast
    ring
  have hround := fun m ↦ roundHalfEven_le a hpos m
  simp only [hscaled, ← units_nearest hd] at hround
  obtain ⟨k, n, rfl, hn, hk⟩ := exists_significand b
  rw [units_eq hn.le hk]
  rcases Nat.lt_or_ge k (scale a d) with hlt | hge
  · -- less than `2 ^ 52` multiples, where the fraction has more
    have hle := hround (2 ^ 52)
    have ha := le_of_scale hd (Nat.ne_zero_of_lt hlt)
    have hb : n * 2 ^ k ≤ 2 ^ 52 * 2 ^ scale a d := by
      calc n * 2 ^ k ≤ 2 ^ 53 * 2 ^ k := Nat.mul_le_mul_right _ hn.le
        _ = 2 ^ 52 * 2 ^ (k + 1) := by ring
        _ ≤ 2 ^ 52 * 2 ^ scale a d := Nat.mul_le_mul_left _ (Nat.pow_le_pow_right (by decide) hlt)
    have hb' : n * 2 ^ k * d ≤ 2 ^ 52 * 2 ^ scale a d * d := Nat.mul_le_mul_right d hb
    have ha' : 2 ^ 52 * 2 ^ scale a d * d ≤ a := by
      rwa [Nat.mul_assoc, Nat.mul_comm _ d]
    have hb'' : ((n * 2 ^ k : ℕ) * d : ℤ) ≤ (2 ^ 52 * 2 ^ scale a d : ℕ) * d := by exact_mod_cast hb'
    have ha'' : ((2 ^ 52 * 2 ^ scale a d : ℕ) * d : ℤ) ≤ a := by exact_mod_cast ha'
    refine hle.trans ?_
    rw [abs_of_nonneg (sub_nonneg.mpr ha''), abs_of_nonneg (sub_nonneg.mpr (hb''.trans ha''))]
    exact sub_le_sub_left hb'' _
  · -- a multiple itself
    have hmul : n * 2 ^ k = n * 2 ^ (k - scale a d) * 2 ^ scale a d := by
      rw [Nat.mul_assoc, ← Nat.pow_add, Nat.sub_add_cancel hge]
    rw [hmul]
    exact hround _

omit hd in
/-- **A number of the format stays.** -/
theorem nearest_units (b : ℕ) (hd : 0 < d) : nearest (units b * d) d = b := by
  have hle := nearest_le hd (a := units b * d) b
  rw [Nat.cast_mul, sub_self, abs_zero] at hle
  have heq := sub_eq_zero.mp (abs_eq_zero.mp (hle.antisymm (abs_nonneg _)))
  have hunits := Nat.eq_of_mul_eq_mul_right hd (by exact_mod_cast heq)
  exact (units_strictMono.injective hunits).symm

omit hd in
/-- An error in units, of the fraction itself. -/
theorem error_div {u : ℕ} (hd : 0 < d) (h : 2 ^ 53 * |(a : ℤ) - u * d| ≤ a) :
    2 ^ 53 * |(a / d : ℚ) - u| ≤ a / d := by
  have hd' : (0 : ℚ) < d := Nat.cast_pos.mpr hd
  have hrat : 2 ^ 53 * |(a : ℚ) - u * d| ≤ a := by exact_mod_cast h
  rw [le_div_iff₀ hd', mul_assoc]
  nth_rewrite 2 [← abs_of_pos hd']
  rwa [← abs_mul, sub_mul, div_mul_cancel₀ _ hd'.ne']

/-- **The error is relative**, where the format has 53 bits. -/
theorem nearest_error (h : 2 ^ 52 ≤ (a / d : ℚ)) :
    2 ^ 53 * |(a / d : ℚ) - units (nearest a d)| ≤ a / d := by
  have hnormal : 2 ^ 52 * d ≤ a := by
    exact_mod_cast (le_div_iff₀ (Nat.cast_pos.mpr hd)).mp h
  have hle : 2 ^ 52 * (d * 2 ^ scale a d) ≤ a := by
    rcases eq_or_ne (scale a d) 0 with hzero | hne
    · rwa [hzero, Nat.pow_zero, Nat.mul_one]
    · exact le_of_scale hd hne
  have herror := roundHalfEven_error a (Nat.mul_pos hd (Nat.two_pow_pos (scale a d)))
  have hunits : (units (nearest a d) * d : ℤ) =
      roundHalfEven a (d * 2 ^ scale a d) * (d * 2 ^ scale a d : ℕ) := by
    rw [units_nearest hd]
    push_cast
    ring
  have hle' : (2 ^ 52 * (d * 2 ^ scale a d : ℕ) : ℤ) ≤ a := by exact_mod_cast hle
  apply error_div hd
  rw [hunits]
  linarith

end

end Lib.Binary64
