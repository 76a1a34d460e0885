import LunaBridge.Foundation.Double

/-!
# Rounding — how far rounding to a double moves a number

* `ulp`, the worth of the last bit of a double; rounding moves a number by half of it at most;
* rounding keeps the order of non-negative numbers;
* differences of doubles that are not rounded.
-/

namespace Foundation
namespace Python

/-- The unit in the last place of a double of the size of `x`. -/
def ulp (x : ℚ) : ℚ := if x = 0 then 2 ^ (-1074 : ℤ) else 2 ^ lastBit x

theorem ulp_pos (x : ℚ) : 0 < ulp x := by
  rw [ulp]
  split <;> exact zpow_pos (by norm_num) _

theorem abs_nearestDouble_sub_le (x : ℚ) : |nearestDouble x - x| ≤ ulp x / 2 := by
  by_cases hzero : x = 0
  · rw [hzero, nearestDouble]
    simpa using (half_pos (ulp_pos 0)).le
  have hpos : (0 : ℚ) < 2 ^ lastBit x := zpow_pos (by norm_num) _
  have hscaled : nearestDouble x - x =
      (roundHalfEven (x / 2 ^ lastBit x) - x / 2 ^ lastBit x) * 2 ^ lastBit x := by
    rw [sub_mul, div_mul_cancel₀ _ hpos.ne', nearestDouble]
  calc |nearestDouble x - x|
      _ = |roundHalfEven (x / 2 ^ lastBit x) - x / 2 ^ lastBit x| * 2 ^ lastBit x := by
        rw [hscaled, abs_mul, abs_of_pos hpos]
      _ ≤ 1 / 2 * 2 ^ lastBit x :=
        mul_le_mul_of_nonneg_right (abs_roundHalfEven_sub_le _) hpos.le
      _ = ulp x / 2 := by
        rw [ulp, if_neg hzero]
        ring

theorem nearestDouble_nonneg {x : ℚ} (h : 0 ≤ x) : 0 ≤ nearestDouble x := by
  have hpos : (0 : ℚ) < 2 ^ lastBit x := zpow_pos (by norm_num) _
  have hround : 0 ≤ roundHalfEven (x / 2 ^ lastBit x) := by
    rw [← roundHalfEven_zero]
    exact roundHalfEven_mono (div_nonneg h hpos.le)
  exact mul_nonneg (by exact_mod_cast hround) hpos.le

/-! ## Sizes -/

theorem lastBit_of_pos {x : ℚ} (hx : 0 < x) : lastBit x = max (Int.log 2 x - 52) (-1074) := by
  rw [lastBit, abs_of_pos hx]

theorem lastBit_mono {x y : ℚ} (hx : 0 < x) (hxy : x ≤ y) : lastBit x ≤ lastBit y := by
  rw [lastBit_of_pos hx, lastBit_of_pos (hx.trans_le hxy)]
  exact max_le_max_right _ (sub_le_sub_right (Int.log_mono_right hx hxy) _)

theorem ulp_mono {x y : ℚ} (hx : 0 ≤ x) (hxy : x ≤ y) : ulp x ≤ ulp y := by
  rcases hx.eq_or_lt with rfl | hpos
  · rw [ulp, if_pos rfl, ulp]
    split
    · exact le_rfl
    · exact zpow_le_zpow_right₀ (by norm_num) (le_max_right _ _)
  · rw [ulp, if_neg hpos.ne', ulp, if_neg (hpos.trans_le hxy).ne']
    exact zpow_le_zpow_right₀ (by norm_num) (lastBit_mono hpos hxy)

/-- The power of two below a number is still below it when it is rounded. -/
theorem zpow_log_le_nearestDouble {x : ℚ} (hx : 0 < x) (hnormal : lastBit x = Int.log 2 x - 52) :
    (2 : ℚ) ^ Int.log 2 x ≤ nearestDouble x := by
  have hpos : (0 : ℚ) < 2 ^ lastBit x := zpow_pos (by norm_num) _
  have hpow : (2 : ℚ) ^ Int.log 2 x = ((2 ^ 52 : ℤ) : ℚ) * 2 ^ lastBit x := by
    have hcast : ((2 ^ 52 : ℤ) : ℚ) = 2 ^ (52 : ℤ) := by norm_num
    rw [hnormal, hcast, ← zpow_add₀ (by norm_num : (2 : ℚ) ≠ 0), add_sub_cancel]
  have hlow : (2 : ℚ) ^ Int.log 2 x ≤ x := by
    exact_mod_cast Int.zpow_log_le_self (b := 2) (by norm_num) hx
  have hround : (2 ^ 52 : ℤ) ≤ roundHalfEven (x / 2 ^ lastBit x) := by
    rw [← roundHalfEven_intCast (2 ^ 52)]
    refine roundHalfEven_mono ?_
    rwa [le_div_iff₀ hpos, ← hpow]
  rw [hpow, nearestDouble]
  exact mul_le_mul_of_nonneg_right (by exact_mod_cast hround) hpos.le

/-- Rounding keeps the order of non-negative numbers. -/
theorem nearestDouble_mono {x y : ℚ} (hx : 0 ≤ x) (hxy : x ≤ y) :
    nearestDouble x ≤ nearestDouble y := by
  rcases hx.eq_or_lt with rfl | hpos
  · have hzero : nearestDouble 0 = 0 := by simp [nearestDouble]
    rw [hzero]
    exact nearestDouble_nonneg hxy
  have hposy := hpos.trans_le hxy
  rcases (lastBit_mono hpos hxy).eq_or_lt with heq | hlt
  · -- both are rounded at the same bit
    have hunit : (0 : ℚ) < 2 ^ lastBit y := zpow_pos (by norm_num) _
    rw [nearestDouble, nearestDouble, heq]
    refine mul_le_mul_of_nonneg_right ?_ hunit.le
    exact_mod_cast roundHalfEven_mono (div_le_div_of_nonneg_right hxy hunit.le)
  · -- a power of two lies between them
    have hlog := Int.log_mono_right (b := 2) hpos hxy
    rw [lastBit_of_pos hpos, lastBit_of_pos hposy] at hlt
    have hnormal : lastBit y = Int.log 2 y - 52 := by
      rw [lastBit_of_pos hposy]
      omega
    have hbelow : |x| < 2 ^ Int.log 2 y := by
      have hsucc : x < 2 ^ (Int.log 2 x + 1) := by
        exact_mod_cast Int.lt_zpow_succ_log_self (b := 2) (by norm_num) x
      rw [abs_of_pos hpos]
      exact hsucc.trans_le (zpow_le_zpow_right₀ (by norm_num) (by omega))
    calc nearestDouble x
        _ ≤ |nearestDouble x| := le_abs_self _
        _ ≤ 2 ^ Int.log 2 y := abs_nearestDouble_le_zpow (by omega) hbelow
        _ ≤ nearestDouble y := zpow_log_le_nearestDouble hposy hnormal

/-- Rounding does not bring a number down to where doubles are denser. -/
theorem ulp_le_ulp_nearestDouble {x : ℚ} (hx : 0 ≤ x) : ulp x ≤ ulp (nearestDouble x) := by
  rcases hx.eq_or_lt with rfl | hpos
  · exact ulp_mono le_rfl (nearestDouble_nonneg le_rfl)
  have hlast := lastBit_of_pos hpos
  rcases max_choice (Int.log 2 x - 52) (-1074) with hnormal | hsubnormal
  · have hle := zpow_log_le_nearestDouble hpos (hlast.trans hnormal)
    have hpow : (0 : ℚ) < 2 ^ Int.log 2 x := zpow_pos (by norm_num) _
    have hround := hpow.trans_le hle
    have hlog : Int.log 2 x ≤ Int.log 2 (nearestDouble x) := by
      refine (Int.zpow_le_iff_le_log (by norm_num) hround).1 ?_
      exact_mod_cast hle
    rw [ulp, if_neg hpos.ne', ulp, if_neg hround.ne', hlast, lastBit_of_pos hround]
    exact zpow_le_zpow_right₀ (by norm_num) (max_le_max_right _ (sub_le_sub_right hlog _))
  · have hfinest : ulp x = ulp 0 := by
      rw [ulp, if_neg hpos.ne', ulp, if_pos rfl, hlast, hsubnormal]
    rw [hfinest]
    exact ulp_mono le_rfl (nearestDouble_nonneg hx)

/-! ## Exact differences -/

/-- A multiple of a last bit that is not above a double with this last bit is not rounded. -/
theorem nearestDouble_of_multiple {z : ℚ} {p q k : ℤ} (hz : z = p * 2 ^ k) (hk : -1074 ≤ k)
    (hq : |q| < 2 ^ 53) (hnonneg : 0 ≤ z) (hle : z ≤ q * 2 ^ k) : nearestDouble z = z := by
  have hunit : (0 : ℚ) < 2 ^ k := zpow_pos (by norm_num) _
  rw [hz] at hnonneg hle
  have hp : 0 ≤ p := by exact_mod_cast nonneg_of_mul_nonneg_left hnonneg hunit
  have hpq : p ≤ q := by exact_mod_cast le_of_mul_le_mul_right hle hunit
  rw [hz]
  refine nearestDouble_bits ?_ hk
  rw [abs_of_nonneg hp]
  exact hpq.trans_lt (le_abs_self q |>.trans_lt hq)

/-- The difference of two doubles is not rounded when neither is more than twice the other. -/
theorem nearestDouble_sub {x y : ℚ} (hx : IsDouble x) (hy : IsDouble y) (hyx : y ≤ x)
    (hxy : x ≤ 2 * y) : nearestDouble (x - y) = x - y := by
  obtain ⟨m, e, rfl, hm, hlow, -⟩ := hx
  obtain ⟨n, f, rfl, hn, hlow', -⟩ := hy
  -- in units of the finer of the two last bits
  rcases le_total e f with hef | hfe
  · obtain ⟨n', hn'⟩ := two_zpow_div n hef
    rw [div_eq_iff (zpow_ne_zero _ (by norm_num))] at hn'
    refine nearestDouble_of_multiple (p := m - n') (k := e) ?_ hlow hm (by linarith) (by linarith)
    rw [hn']
    push_cast
    ring
  · obtain ⟨m', hm'⟩ := two_zpow_div m hfe
    rw [div_eq_iff (zpow_ne_zero _ (by norm_num))] at hm'
    refine nearestDouble_of_multiple (p := m' - n) (k := f) ?_ hlow' hn (by linarith) (by linarith)
    rw [hm']
    push_cast
    ring

end Python
end Foundation
