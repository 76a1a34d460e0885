import LunaBridge.Foundation.Python
import Mathlib.Data.Int.Log

/-!
# Double — the numbers a double can hold, and the shortest decimals that stand for them

* `IsDouble`, the finite doubles as rationals (a zero has no sign);
* `nearestDouble`, rounding to the nearest of them, half to even, without the bound at the top;
* `shortest`, a decimal with as few digits as possible that rounds back to a given double.
-/

namespace Foundation
namespace Python

/-! ## Doubles -/

/-- A significand of 53 bits and an exponent within the range of normal and subnormal numbers. -/
def IsDouble (x : ℚ) : Prop :=
  ∃ m e : ℤ, x = m * 2 ^ e ∧ |m| < 2 ^ 53 ∧ -1074 ≤ e ∧ e ≤ 971

/-- The exponent of the last bit a double of the size of `x` has. -/
def lastBit (x : ℚ) : ℤ := max (Int.log 2 |x| - 52) (-1074)

/-- The double nearest to `x`, or the even one of two. -/
def nearestDouble (x : ℚ) : ℚ := roundHalfEven (x / 2 ^ lastBit x) * 2 ^ lastBit x

@[simp] theorem roundHalfEven_intCast (n : ℤ) : roundHalfEven n = n := by
  simp [roundHalfEven]

theorem isDouble_zero : IsDouble 0 := ⟨0, 0, by simp, by norm_num, by norm_num, by norm_num⟩

theorem isDouble_neg {x : ℚ} (h : IsDouble x) : IsDouble (-x) := by
  obtain ⟨m, e, rfl, hm, hlow, hhigh⟩ := h
  exact ⟨-m, e, by push_cast; ring, by rwa [abs_neg], hlow, hhigh⟩

theorem isDouble_abs {x : ℚ} (h : IsDouble x) : IsDouble |x| := by
  rcases abs_choice x with habs | habs
  · rwa [habs]
  · rw [habs]
    exact isDouble_neg h

/-- A whole number of 53 bits is a double. -/
theorem isDouble_intCast {n : ℤ} (h : |n| < 2 ^ 53) : IsDouble n :=
  ⟨n, 0, by simp, h, by norm_num, by norm_num⟩

/-- A power of two with an exponent that is not smaller is a multiple of the other. -/
theorem two_zpow_div (m : ℤ) {d e : ℤ} (h : d ≤ e) :
    ∃ n : ℤ, (m * 2 ^ e / 2 ^ d : ℚ) = n := by
  obtain ⟨k, hk⟩ := Int.eq_ofNat_of_zero_le (sub_nonneg.2 h)
  refine ⟨m * 2 ^ k, ?_⟩
  rw [mul_div_assoc, ← zpow_sub₀ (by norm_num : (2 : ℚ) ≠ 0), hk]
  push_cast
  rw [zpow_natCast]

/-- A significand of 53 bits is not rounded. -/
theorem nearestDouble_bits {m e : ℤ} (hm : |m| < 2 ^ 53) (he : -1074 ≤ e) :
    nearestDouble (m * 2 ^ e) = m * 2 ^ e := by
  generalize hx : (m * 2 ^ e : ℚ) = x
  have htwo : (2 : ℚ) ^ lastBit x ≠ 0 := zpow_ne_zero _ (by norm_num)
  -- the last bit of `x` is worth at least as much as the last bit kept
  have hbit : x = 0 ∨ lastBit x ≤ e := by
    by_cases hzero : x = 0
    · exact Or.inl hzero
    · refine Or.inr (max_le ?_ he)
      have hpos : 0 < |x| := abs_pos.2 hzero
      have hlt : |x| < ((2 : ℕ) : ℚ) ^ (53 + e) := by
        have habs : |x| = |(m : ℚ)| * 2 ^ e := by
          rw [← hx, abs_mul, abs_of_pos (zpow_pos (by norm_num : (0 : ℚ) < 2) e)]
        have hm' : |(m : ℚ)| < 2 ^ (53 : ℤ) := by exact_mod_cast hm
        rw [habs, Nat.cast_ofNat, zpow_add₀ (by norm_num : (2 : ℚ) ≠ 0)]
        exact mul_lt_mul_of_pos_right hm' (zpow_pos (by norm_num) e)
      have hlog := (Int.lt_zpow_iff_log_lt (by norm_num) hpos).1 hlt
      omega
  rcases hbit with hzero | hbit
  · rw [nearestDouble, hzero]
    simp
  · obtain ⟨n, hn⟩ := two_zpow_div m hbit
    rw [nearestDouble]
    nth_rewrite 1 [← hx]
    rw [hn, roundHalfEven_intCast, ← hn, hx, div_mul_cancel₀ _ htwo]

/-- A double is not rounded. -/
theorem nearestDouble_of_isDouble {x : ℚ} (h : IsDouble x) : nearestDouble x = x := by
  obtain ⟨m, e, rfl, hm, hlow, -⟩ := h
  exact nearestDouble_bits hm hlow

/-- A number below a power of two by an integer rounds to a number that is not above it. -/
theorem abs_roundHalfEven_le {y : ℚ} {n : ℤ} (h : |y| < n) : |roundHalfEven y| ≤ n := by
  obtain ⟨hlow, hhigh⟩ := abs_lt.1 h
  have hfloor : ⌊y⌋ < n := Int.floor_lt.2 hhigh
  have hfloor' : -n ≤ ⌊y⌋ := Int.le_floor.2 (by push_cast; exact hlow.le)
  have h₁ := floor_le_roundHalfEven y
  have h₂ := roundHalfEven_le_floor_add_one y
  exact abs_le.2 ⟨by omega, by omega⟩

/-- Rounding leaves a significand of 53 bits. -/
theorem exists_bits_nearestDouble (x : ℚ) : ∃ m e : ℤ, nearestDouble x = m * 2 ^ e ∧
    |m| < 2 ^ 53 ∧ -1074 ≤ e ∧ e ≤ lastBit x + 1 := by
  have htwo : (2 : ℚ) ≠ 0 := by norm_num
  have hpos : (0 : ℚ) < 2 ^ lastBit x := zpow_pos (by norm_num) _
  have hlast : -1074 ≤ lastBit x ∧ Int.log 2 |x| - 52 ≤ lastBit x := by
    rw [lastBit]
    omega
  -- the significand has 53 bits, or is the next power of two
  have hsignificand : |x / 2 ^ lastBit x| < ((2 ^ 53 : ℤ) : ℚ) := by
    rw [abs_div, abs_of_pos hpos, div_lt_iff₀ hpos]
    have hlt : |x| < ((2 : ℕ) : ℚ) ^ (Int.log 2 |x| + 1) :=
      Int.lt_zpow_succ_log_self (by norm_num) _
    refine hlt.trans_le ?_
    have hcast : (((2 ^ 53 : ℤ)) : ℚ) = 2 ^ (53 : ℤ) := by norm_num
    rw [hcast, ← zpow_add₀ htwo, Nat.cast_ofNat]
    exact zpow_le_zpow_right₀ (by norm_num) (by omega)
  have hround := abs_roundHalfEven_le hsignificand
  rw [nearestDouble]
  rcases hround.lt_or_eq with hlt | heq
  · exact ⟨_, _, rfl, hlt, hlast.1, by omega⟩
  · rcases abs_eq (by norm_num) |>.1 heq with hk | hk
    · refine ⟨2 ^ 52, lastBit x + 1, ?_, by norm_num, by omega, le_rfl⟩
      rw [hk, zpow_add₀ htwo]
      push_cast
      ring
    · refine ⟨-2 ^ 52, lastBit x + 1, ?_, by norm_num, by omega, le_rfl⟩
      rw [hk, zpow_add₀ htwo]
      push_cast
      ring

/-- Rounding gives a double, below the bound at the top. -/
theorem isDouble_nearestDouble {x : ℚ} (h : |x| < 2 ^ 1023) : IsDouble (nearestDouble x) := by
  by_cases hzero : x = 0
  · rw [nearestDouble, hzero]
    simpa using isDouble_zero
  have hlog : Int.log 2 |x| < 1023 := by
    refine (Int.lt_zpow_iff_log_lt (by norm_num) (abs_pos.2 hzero)).1 ?_
    exact_mod_cast h
  obtain ⟨m, e, hx, hm, hlow, hhigh⟩ := exists_bits_nearestDouble x
  refine ⟨m, e, hx, hm, hlow, hhigh.trans ?_⟩
  rw [lastBit]
  omega

/-- What has been rounded is not rounded again. -/
theorem nearestDouble_nearestDouble (x : ℚ) :
    nearestDouble (nearestDouble x) = nearestDouble x := by
  obtain ⟨m, e, hx, hm, hlow, -⟩ := exists_bits_nearestDouble x
  rw [hx, nearestDouble_bits hm hlow]

/-- A number below a power of two does not become larger than the power. -/
theorem abs_nearestDouble_le_zpow {x : ℚ} {n : ℤ} (hn : -1074 ≤ n) (h : |x| < 2 ^ n) :
    |nearestDouble x| ≤ 2 ^ n := by
  by_cases hzero : x = 0
  · rw [nearestDouble, hzero]
    simpa using (zpow_pos (by norm_num : (0 : ℚ) < 2) n).le
  have hlog : Int.log 2 |x| < n := by
    refine (Int.lt_zpow_iff_log_lt (by norm_num) (abs_pos.2 hzero)).1 ?_
    exact_mod_cast h
  have hpos : (0 : ℚ) < 2 ^ lastBit x := zpow_pos (by norm_num) _
  obtain ⟨k, hk⟩ := Int.eq_ofNat_of_zero_le (show 0 ≤ n - lastBit x by rw [lastBit]; omega)
  -- the power is a multiple of the last bit
  have hpow : (2 : ℚ) ^ n = 2 ^ k * 2 ^ lastBit x := by
    rw [← zpow_natCast 2 k, ← zpow_add₀ (by norm_num : (2 : ℚ) ≠ 0)]
    congr 1
    omega
  have hbelow : |x / 2 ^ lastBit x| < ((2 ^ k : ℤ) : ℚ) := by
    rw [abs_div, abs_of_pos hpos, div_lt_iff₀ hpos]
    push_cast
    rwa [← hpow]
  have hround : |((roundHalfEven (x / 2 ^ lastBit x) : ℤ) : ℚ)| ≤ 2 ^ k := by
    exact_mod_cast abs_roundHalfEven_le hbelow
  rw [nearestDouble, abs_mul, abs_of_pos hpos, hpow]
  exact mul_le_mul_of_nonneg_right hround hpos.le

theorem abs_nearestDouble_le {x : ℚ} {n : ℕ} (h : |x| < 2 ^ n) : |nearestDouble x| ≤ 2 ^ n := by
  rw [← zpow_natCast] at h ⊢
  exact abs_nearestDouble_le_zpow (by omega) h

/-! ## Shortest decimals -/

/-- A decimal `digits * 10 ^ exponent`. -/
structure Decimal where
  digits : ℕ
  exponent : ℤ
  deriving DecidableEq, Repr

def Decimal.toRat (d : Decimal) : ℚ := d.digits * 10 ^ d.exponent

/-- The two decimals with `n` digits on both sides of `x`, the nearer one first. -/
def neighbours (x : ℚ) (n : ℕ) : List Decimal :=
  let exponent := Int.log 10 x - n + 1
  let y := x / 10 ^ exponent
  let near := roundHalfEven y
  [⟨near.toNat, exponent⟩, ⟨(if near = ⌊y⌋ then ⌊y⌋ + 1 else ⌊y⌋).toNat, exponent⟩]

/-- The most digits that are tried. -/
def maxDigits : ℕ := 1400

/-- A decimal with as few digits as possible that rounds to `x`, for a positive double `x`. -/
def shortest (x : ℚ) : Option Decimal :=
  (List.range maxDigits).findSome? fun n =>
    (neighbours x (n + 1)).find? fun d => decide (nearestDouble d.toRat = x)

/-- What is found rounds back. -/
theorem nearestDouble_shortest {x : ℚ} {d : Decimal} (h : shortest x = some d) :
    nearestDouble d.toRat = x := by
  obtain ⟨n, -, hfind⟩ := List.exists_of_findSome?_eq_some h
  simpa using List.find?_some hfind

/-- The bound at the top. -/
theorem two_zpow_lt_ten_zpow :
    (2 : ℚ) ^ (((53 : ℕ) : ℤ) + 971) < ((10 : ℕ) : ℚ) ^ (309 : ℤ) := by
  have hsplit : (2 : ℚ) ^ (((53 : ℕ) : ℤ) + 971) = (2 ^ (93 : ℕ)) ^ (11 : ℕ) * 2 := by
    rw [← pow_mul, ← pow_succ, ← zpow_natCast]
    norm_num
  have hfew : ((2 : ℚ) ^ (93 : ℕ)) ^ (11 : ℕ) < (10 ^ (28 : ℕ)) ^ (11 : ℕ) :=
    pow_lt_pow_left₀ (by norm_num) (by positivity) (by norm_num)
  have hten : ((10 : ℕ) : ℚ) ^ (309 : ℤ) = (10 ^ (28 : ℕ)) ^ (11 : ℕ) * 10 := by
    rw [← pow_mul, ← pow_succ, ← zpow_natCast]
    norm_num
  rw [hsplit, hten]
  exact mul_lt_mul hfew (by norm_num) (by norm_num) (by positivity)

/-- A positive double has a decimal with so many digits. -/
theorem exists_neighbour {x : ℚ} (hpos : 0 < x) (h : IsDouble x) :
    ∃ d ∈ neighbours x maxDigits, nearestDouble d.toRat = x := by
  have hdouble := h
  obtain ⟨m, e, hx, hm, hlow, hhigh⟩ := h
  have hlog : Int.log 10 x ≤ 308 := by
    have hlt : x < ((10 : ℕ) : ℚ) ^ (309 : ℤ) := by
      have hm' : (m : ℚ) < 2 ^ (53 : ℕ) := by exact_mod_cast (abs_lt.1 hm).2
      have he : (2 : ℚ) ^ e ≤ 2 ^ (971 : ℤ) := zpow_le_zpow_right₀ (by norm_num) hhigh
      have hepos : (0 : ℚ) < 2 ^ e := zpow_pos (by norm_num) e
      calc x
          _ = m * 2 ^ e := hx
          _ ≤ 2 ^ (53 : ℕ) * 2 ^ e := mul_le_mul_of_nonneg_right hm'.le hepos.le
          _ ≤ 2 ^ (53 : ℕ) * 2 ^ (971 : ℤ) := mul_le_mul_of_nonneg_left he (by positivity)
          _ < ((10 : ℕ) : ℚ) ^ (309 : ℤ) := by
            rw [← zpow_natCast, ← zpow_add₀ (by norm_num : (2 : ℚ) ≠ 0)]
            exact two_zpow_lt_ten_zpow
    have := (Int.lt_zpow_iff_log_lt (by norm_num) hpos).1 hlt
    omega
  -- with so many digits the decimal is exact
  have hexact : ∃ k : ℤ, x / 10 ^ (Int.log 10 x - maxDigits + 1) = k := by
    have hlow' : Int.log 10 x - maxDigits + 1 ≤ e := by
      rw [maxDigits]
      omega
    obtain ⟨n, hn⟩ := two_zpow_div m hlow'
    obtain ⟨j, hj⟩ := Int.eq_ofNat_of_zero_le
      (show 0 ≤ -(Int.log 10 x - maxDigits + 1) by rw [maxDigits]; omega)
    have hten : (10 : ℚ) = 2 * 5 := by norm_num
    refine ⟨n * 5 ^ j, ?_⟩
    nth_rewrite 1 [hx]
    rw [hten, mul_zpow, ← div_div, hn, div_eq_mul_inv, ← zpow_neg, hj, zpow_natCast]
    push_cast
    rfl
  obtain ⟨k, hk⟩ := hexact
  have hk0 : 0 ≤ k := by
    have hnonneg : (0 : ℚ) ≤ k := hk ▸ (div_pos hpos (zpow_pos (by norm_num) _)).le
    exact_mod_cast hnonneg
  refine ⟨⟨k.toNat, Int.log 10 x - maxDigits + 1⟩, ?_, ?_⟩
  · simp [neighbours, hk]
  · have hval : (Decimal.mk k.toNat (Int.log 10 x - maxDigits + 1)).toRat = x := by
      have hcast : ((k.toNat : ℕ) : ℚ) = k := by exact_mod_cast Int.toNat_of_nonneg hk0
      rw [Decimal.toRat, hcast, ← hk, div_mul_cancel₀ _ (zpow_ne_zero _ (by norm_num))]
    rw [hval, nearestDouble_of_isDouble hdouble]

/-- Every positive double has a shortest decimal, and it rounds back. -/
theorem exists_shortest {x : ℚ} (hpos : 0 < x) (h : IsDouble x) :
    ∃ d, shortest x = some d ∧ nearestDouble d.toRat = x ∧ 0 < d.digits := by
  have hsome : (shortest x).isSome := by
    obtain ⟨d, hd, hback⟩ := exists_neighbour hpos h
    rw [shortest, List.findSome?_isSome_iff]
    refine ⟨maxDigits - 1, by simp [maxDigits], ?_⟩
    rw [List.find?_isSome]
    exact ⟨d, hd, by simpa using hback⟩
  obtain ⟨d, hd⟩ := Option.isSome_iff_exists.1 hsome
  have hback := nearestDouble_shortest hd
  refine ⟨d, hd, hback, Nat.pos_of_ne_zero fun hzero => hpos.ne ?_⟩
  rw [← hback, Decimal.toRat, hzero]
  simp [nearestDouble]

end Python
end Foundation
