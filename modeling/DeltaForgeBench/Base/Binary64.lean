import DeltaForgeBench.Base.Numeral
import Mathlib.Algebra.Order.Field.Power
import Mathlib.Data.Int.Log
import Mathlib.Tactic.FieldSimp
import Mathlib.Tactic.Positivity
import Mathlib.Tactic.Ring

/-! # The numbers a machine computes with

An operation on binary64 numbers returns the nearest one to its exact result,
ties to the even significand. The numbers are kept as the rationals they are. A
result beyond the largest of them stays a number here where the machine has an
infinity: both are over every number that the machine has. -/
namespace DeltaForgeBench.Base.Binary64
open DeltaForgeBench.Base.Numeral

/-- The exponent of the last place of a significand of 53 bits. -/
def exponent (x : ℚ) : Int := max (Int.log 2 |x| - 52) (-1074)

/-- The nearest binary64 number. -/
def binary64 (x : ℚ) : ℚ := roundHalfEven (x / 2 ^ exponent x) * 2 ^ exponent x

/-! ## Powers of two -/

theorem roundHalfEven_le {x : ℚ} {n : Int} (h : x ≤ n) : roundHalfEven x ≤ n := by
  have below : (⌊x⌋ : ℚ) ≤ x := Int.floor_le x
  have floor : ⌊x⌋ ≤ n := by exact_mod_cast below.trans h
  rcases floor.lt_or_eq with hlt | heq
  · have up : roundHalfEven x ≤ ⌊x⌋ + 1 := by
      simp only [roundHalfEven]
      split_ifs <;> omega
    omega
  · have whole : x = (n : ℚ) := le_antisymm h (heq ▸ below)
    rw [whole, roundHalfEven_intCast]

theorem le_roundHalfEven {x : ℚ} {n : Int} (h : (n : ℚ) ≤ x) : n ≤ roundHalfEven x := by
  have floor : n ≤ ⌊x⌋ := Int.le_floor.mpr h
  have up : ⌊x⌋ ≤ roundHalfEven x := by
    simp only [roundHalfEven]
    split_ifs <;> omega
  exact floor.trans up

/-- A power of two is a whole number of smaller ones. -/
theorem zpow_eq_mul {e k : Int} (h : e ≤ k) :
    (2 : ℚ) ^ k = ((2 ^ (k - e).toNat : Int) : ℚ) * 2 ^ e := by
  have whole : ((k - e).toNat : Int) = k - e := Int.toNat_of_nonneg (by omega)
  push_cast
  rw [← zpow_natCast, whole, ← zpow_add₀ two_ne_zero, sub_add_cancel]

theorem log_lt {x : ℚ} (hx : 0 < x) {k : Int} (h : x < 2 ^ k) : Int.log 2 |x| < k := by
  rw [abs_of_pos hx]
  exact (Int.lt_zpow_iff_log_lt Nat.one_lt_two hx).mp (by exact_mod_cast h)

theorem le_log {x : ℚ} {k : Int} (h : 2 ^ k ≤ x) : k ≤ Int.log 2 |x| := by
  have hx : 0 < x := lt_of_lt_of_le (by positivity) h
  rw [abs_of_pos hx]
  exact (Int.zpow_le_iff_le_log Nat.one_lt_two hx).mp (by exact_mod_cast h)

/-- The significand of a number has 53 bits. -/
theorem exponent_eq {x : ℚ} {e : Int} (he : -1074 ≤ e) (hlow : 2 ^ (52 + e) ≤ x)
    (hhigh : x < 2 ^ (53 + e)) : exponent x = e := by
  have hx : 0 < x := lt_of_lt_of_le (by positivity) hlow
  have lower := le_log hlow
  have upper := log_lt hx hhigh
  rw [exponent]
  omega

/-- What is below a power of two is not rounded beyond it. -/
theorem binary64_le_zpow {x : ℚ} {k : Int} (hk : -1074 ≤ k) (h : x < 2 ^ k) :
    binary64 x ≤ 2 ^ k := by
  have unit : (0 : ℚ) < 2 ^ exponent x := by positivity
  rcases le_or_gt x 0 with hx | hx
  · have down : roundHalfEven (x / 2 ^ exponent x) ≤ 0 :=
      roundHalfEven_le (by simpa using div_nonpos_of_nonpos_of_nonneg hx unit.le)
    have cast : (roundHalfEven (x / 2 ^ exponent x) : ℚ) ≤ 0 := by exact_mod_cast down
    exact (mul_nonpos_of_nonpos_of_nonneg cast unit.le).trans (by positivity)
  · have log := log_lt hx h
    have grid : exponent x ≤ k := max_le (by omega) hk
    rw [binary64, zpow_eq_mul grid]
    refine mul_le_mul_of_nonneg_right (Int.cast_le.mpr (roundHalfEven_le ?_)) unit.le
    rw [div_le_iff₀ unit, ← zpow_eq_mul grid]
    exact h.le

/-- What is over a power of two is not rounded below it. -/
theorem zpow_le_binary64 {x : ℚ} {k : Int} (hk : -1074 ≤ k) (h : 2 ^ k ≤ x) :
    2 ^ k ≤ binary64 x := by
  have unit : (0 : ℚ) < 2 ^ exponent x := by positivity
  have hx : 0 < x := lt_of_lt_of_le (by positivity) h
  have log := le_log h
  have grid : exponent x ≤ Int.log 2 |x| := max_le (by omega) (by omega)
  have top : (2 : ℚ) ^ Int.log 2 |x| ≤ x := by
    have self := Int.zpow_log_le_self Nat.one_lt_two hx
    rw [abs_of_pos hx]
    exact_mod_cast self
  refine (zpow_le_zpow_right₀ one_le_two log).trans ?_
  rw [binary64, zpow_eq_mul grid]
  refine mul_le_mul_of_nonneg_right (Int.cast_le.mpr (le_roundHalfEven ?_)) unit.le
  rw [le_div_iff₀ unit, ← zpow_eq_mul grid]
  exact top

/-! ## Comparing rounded numbers -/

/-- **What is rounded to an even number of the format or below it**: exactly what
is no more than half a unit in the last place over it. Then it is also below
whatever lies short of the next number. -/
theorem binary64_le_iff {m e : Int} (heven : m % 2 = 0) (hlow : 2 ^ 52 ≤ m) (hhigh : m < 2 ^ 53)
    (he : -1074 ≤ e) {r : ℚ} (hr : m * 2 ^ e ≤ r) (hr' : r < (m + 1) * 2 ^ e) (x : ℚ) :
    binary64 x ≤ r ↔ x ≤ (m + 1 / 2) * 2 ^ e := by
  have unit : (0 : ℚ) < 2 ^ e := by positivity
  have bottom : (2 : ℚ) ^ (52 + e) = ((2 ^ 52 : Int) : ℚ) * 2 ^ e := by
    rw [zpow_add₀ two_ne_zero]
    norm_num
  have top : (2 : ℚ) ^ (53 + e) = ((2 ^ 53 : Int) : ℚ) * 2 ^ e := by
    rw [zpow_add₀ two_ne_zero]
    norm_num
  have inside : (2 : ℚ) ^ (52 + e) ≤ m * 2 ^ e := by
    rw [bottom]
    exact mul_le_mul_of_nonneg_right (Int.cast_le.mpr hlow) unit.le
  have next : (m + 1 : ℚ) * 2 ^ e ≤ 2 ^ (53 + e) := by
    rw [top]
    refine mul_le_mul_of_nonneg_right ?_ unit.le
    exact_mod_cast (Int.cast_le (R := ℚ)).mpr (show m + 1 ≤ 2 ^ 53 by omega)
  have up : (m : ℚ) * 2 ^ e ≤ (m + 1 / 2) * 2 ^ e :=
    mul_le_mul_of_nonneg_right (by linarith) unit.le
  have half : (m + 1 / 2 : ℚ) * 2 ^ e < (m + 1) * 2 ^ e :=
    mul_lt_mul_of_pos_right (by linarith) unit
  rcases lt_or_ge x (2 ^ (52 + e)) with hbelow | hfrom
  · have down := binary64_le_zpow (by omega) hbelow
    exact ⟨fun _ => hbelow.le.trans (inside.trans up), fun _ => (down.trans inside).trans hr⟩
  rcases lt_or_ge x (2 ^ (53 + e)) with hunder | hover
  · have whole : ∀ n : Int, (n : ℚ) * 2 ^ e ≤ r ↔ n ≤ m := by
      intro n
      constructor
      · intro h
        have short : (n : ℚ) * 2 ^ e < (m + 1) * 2 ^ e := h.trans_lt hr'
        have cast : (n : ℚ) < (m + 1 : Int) := by
          push_cast
          exact lt_of_mul_lt_mul_right short unit.le
        exact Int.lt_add_one_iff.mp (Int.cast_lt.mp cast)
      · intro h
        exact (mul_le_mul_of_nonneg_right (Int.cast_le.mpr h) unit.le).trans hr
    rw [binary64, exponent_eq he hfrom hunder, whole, roundHalfEven_le_iff heven,
      div_le_iff₀ unit]
  · have above := zpow_le_binary64 (by omega) hover
    exact ⟨fun h => absurd (next.trans (above.trans h)) (not_le.mpr hr'),
      fun h => absurd (next.trans (hover.trans h)) (not_le.mpr half)⟩

end DeltaForgeBench.Base.Binary64
