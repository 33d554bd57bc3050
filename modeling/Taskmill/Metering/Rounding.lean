import Mathlib.Algebra.Order.Field.Power
import Mathlib.Algebra.Order.Floor.Ring
import Mathlib.Data.Int.Log
import Mathlib.Tactic.Linarith
import Mathlib.Tactic.Positivity

/-!
# Rounding

To the nearest integer, and to so many binary digits, as numbers are rounded to floating point.  A number half way
between two neighbours is rounded to the even one.  Rounding keeps the order.
-/

namespace Metering

variable {𝕜 : Type} [Field 𝕜] [LinearOrder 𝕜] [FloorRing 𝕜] {x y : 𝕜}

/-- The nearest integer, the even one of two. -/
def nearestEven (x : 𝕜) : ℤ :=
  if Int.fract x < 1 / 2 then ⌊x⌋
  else if 1 / 2 < Int.fract x then ⌊x⌋ + 1
  else if ⌊x⌋ % 2 = 0 then ⌊x⌋ else ⌊x⌋ + 1

theorem floor_le_nearestEven (x : 𝕜) : ⌊x⌋ ≤ nearestEven x := by
  unfold nearestEven
  split_ifs <;> omega

theorem nearestEven_le_floor_add_one (x : 𝕜) : nearestEven x ≤ ⌊x⌋ + 1 := by
  unfold nearestEven
  split_ifs <;> omega

theorem nearestEven_nonneg (h : 0 ≤ x) : 0 ≤ nearestEven x := (Int.floor_nonneg.2 h).trans (floor_le_nearestEven x)

variable [IsStrictOrderedRing 𝕜]

/-- An integer stays. -/
theorem nearestEven_intCast (n : ℤ) : nearestEven (n : 𝕜) = n := by
  unfold nearestEven
  rw [Int.fract_intCast, if_pos (by norm_num), Int.floor_intCast]

theorem nearestEven_mono (h : x ≤ y) : nearestEven x ≤ nearestEven y := by
  have hfloor : ⌊x⌋ ≤ ⌊y⌋ := Int.floor_le_floor h
  rcases hfloor.lt_or_eq with hlt | heq
  · have hx := nearestEven_le_floor_add_one x
    have hy := floor_le_nearestEven y
    omega
  · -- between the same integers the fractional parts decide
    have hfract : Int.fract x ≤ Int.fract y := by
      unfold Int.fract
      rw [heq]
      linarith
    unfold nearestEven
    rw [heq]
    split_ifs <;> first | omega | (exfalso; linarith)

/-- Rounding to so many binary digits after the first one. -/
def roundBinary (digits : ℕ) (x : 𝕜) : 𝕜 :=
  nearestEven (x / 2 ^ (Int.log 2 x - digits)) * 2 ^ (Int.log 2 x - digits)

theorem roundBinary_nonneg (digits : ℕ) (h : 0 ≤ x) : 0 ≤ roundBinary digits x := by
  unfold roundBinary
  have hrounded : 0 ≤ nearestEven (x / 2 ^ (Int.log 2 x - digits)) := nearestEven_nonneg (by positivity)
  have hcast : (0 : 𝕜) ≤ nearestEven (x / 2 ^ (Int.log 2 x - digits)) := Int.cast_nonneg hrounded
  positivity

omit [IsStrictOrderedRing 𝕜] in
/-- A power of two from which the digits of `x` are counted, and that power is an integer. -/
private theorem two_zpow_sub (e : ℤ) (digits : ℕ) : (2 : 𝕜) ^ e = ((2 ^ digits : ℤ) : 𝕜) * 2 ^ (e - digits) := by
  rw [Int.cast_pow, Int.cast_ofNat, ← zpow_natCast, ← zpow_add₀ two_ne_zero]
  congr 1
  omega

/-- The first digit stays. -/
theorem zpow_log_le_roundBinary (digits : ℕ) (h : 0 < x) : (2 : 𝕜) ^ Int.log 2 x ≤ roundBinary digits x := by
  have hle : (2 : 𝕜) ^ Int.log 2 x ≤ x := Int.zpow_log_le_self (by norm_num) h
  rw [two_zpow_sub _ digits, ← le_div_iff₀ (by positivity)] at hle
  have hrounded : (2 ^ digits : ℤ) ≤ nearestEven (x / 2 ^ (Int.log 2 x - digits)) := by
    rw [← nearestEven_intCast (𝕜 := 𝕜) (2 ^ digits)]
    exact nearestEven_mono hle
  rw [roundBinary, two_zpow_sub _ digits]
  gcongr

/-- The next power of two is not passed. -/
theorem roundBinary_le_zpow (digits : ℕ) (x : 𝕜) : roundBinary digits x ≤ (2 : 𝕜) ^ (Int.log 2 x + 1) := by
  have hlt : x < (2 : 𝕜) ^ (Int.log 2 x + 1) := Int.lt_zpow_succ_log_self (by norm_num) x
  have hsplit : (2 : 𝕜) ^ (Int.log 2 x + 1) = ((2 ^ (digits + 1) : ℤ) : 𝕜) * 2 ^ (Int.log 2 x - digits) := by
    rw [two_zpow_sub _ (digits + 1)]
    congr 2
    omega
  rw [hsplit] at hlt ⊢
  have hrounded : nearestEven (x / 2 ^ (Int.log 2 x - digits)) ≤ (2 ^ (digits + 1) : ℤ) := by
    rw [← nearestEven_intCast (𝕜 := 𝕜) (2 ^ (digits + 1))]
    exact nearestEven_mono ((div_lt_iff₀ (by positivity)).2 hlt).le
  rw [roundBinary]
  gcongr

theorem roundBinary_mono (digits : ℕ) (hx : 0 ≤ x) (h : x ≤ y) : roundBinary digits x ≤ roundBinary digits y := by
  rcases hx.eq_or_lt with rfl | hx
  · have hzero : roundBinary digits (0 : 𝕜) = 0 := by
      rw [roundBinary, zero_div, ← Int.cast_zero, nearestEven_intCast, Int.cast_zero, zero_mul]
    rw [hzero]
    exact roundBinary_nonneg digits h
  · rcases (Int.log_mono_right (b := 2) hx h).eq_or_lt with heq | hlt
    · -- the same digits are kept
      rw [roundBinary, roundBinary, heq]
      have hrounded : nearestEven (x / 2 ^ (Int.log 2 y - digits)) ≤ nearestEven (y / 2 ^ (Int.log 2 y - digits)) :=
        nearestEven_mono (by gcongr)
      gcongr
    · -- there is a power of two in between
      calc roundBinary digits x ≤ (2 : 𝕜) ^ (Int.log 2 x + 1) := roundBinary_le_zpow digits x
        _ ≤ (2 : 𝕜) ^ Int.log 2 y := zpow_le_zpow_right₀ (by norm_num) hlt
        _ ≤ roundBinary digits y := zpow_log_le_roundBinary digits (hx.trans_le h)

end Metering
