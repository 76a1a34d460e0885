import LunaBridge.Foundation.Sampling
import Mathlib.Algebra.Order.Floor.Ring
import Mathlib.Algebra.Order.Group.MinMax
import Mathlib.Data.Rat.Floor
import Mathlib.Order.Interval.Finset.Basic
import Mathlib.Data.Int.Interval
import Mathlib.Tactic.Linarith
import Mathlib.Tactic.Ring

/-!
# Grid — counting instants at equal distances

The `i`-th instant is `t0 + i * dt`.  On an interval where a predicate holds of the instants after
some threshold, the number of instants that satisfy it is the length of what is left of the
interval, in units of `dt`, up to one.
-/

namespace Foundation
namespace Grid

open Sampling

/-- The `i`-th instant. -/
def instant (t0 dt : ℚ) (i : ℤ) : ℚ := t0 + i * dt

/-- The index of the first instant that is not before `x`. -/
def firstFrom (t0 dt x : ℚ) : ℤ := ⌈(x - t0) / dt⌉

/-- The index of the first instant after `x`. -/
def firstAfter (t0 dt x : ℚ) : ℤ := ⌊(x - t0) / dt⌋ + 1

@[simp] theorem firstFrom_self (t0 dt : ℚ) : firstFrom t0 dt t0 = 0 := by
  simp [firstFrom]

/-- An interval holds no more instants than steps, and one more. -/
theorem firstFrom_sub_le (t0 dt lo hi : ℚ) :
    (firstFrom t0 dt hi : ℚ) - firstFrom t0 dt lo ≤ (hi - lo) / dt + 1 := by
  have hhi : (firstFrom t0 dt hi : ℚ) < (hi - t0) / dt + 1 := Int.ceil_lt_add_one _
  have hlo : (lo - t0) / dt ≤ firstFrom t0 dt lo := Int.le_ceil _
  have hsteps : (hi - lo) / dt = (hi - t0) / dt - (lo - t0) / dt := by ring
  linarith

/-- What satisfies a predicate only between two indices is counted there. -/
theorem tally_le_of_between {p : ℤ → Bool} {lo hi first last : ℤ}
    (h : ∀ i, lo ≤ i → i < hi → p i = true → first ≤ i ∧ i < last) :
    tally p lo hi ≤ (last - first).toNat := by
  have hnodup : (((List.range (hi - lo).toNat).filter fun i : ℕ => p (lo + i)).map
      fun i : ℕ => lo + i).Nodup :=
    (List.nodup_range.filter _).map fun i j hij => by simpa using hij
  have hsub : (((List.range (hi - lo).toNat).filter fun i : ℕ => p (lo + i)).map
      fun i : ℕ => lo + i).toFinset ⊆ Finset.Ico first last := by
    intro i hmem
    obtain ⟨j, hj, rfl⟩ := List.mem_map.1 (List.mem_toFinset.1 hmem)
    rcases List.mem_filter.1 hj with ⟨hrange, hp⟩
    have hlt := List.mem_range.1 hrange
    exact Finset.mem_Ico.2 (h (lo + j) (by omega) (by omega) hp)
  calc tally p lo hi
      _ = (((List.range (hi - lo).toNat).filter fun i : ℕ => p (lo + i)).map
            fun i : ℕ => lo + i).toFinset.card := by
        rw [List.toFinset_card_of_nodup hnodup, List.length_map, ← List.countP_eq_length_filter]
        rfl
      _ ≤ (Finset.Ico first last).card := Finset.card_le_card hsub
      _ = (last - first).toNat := Int.card_Ico first last

section Instants

variable {t0 dt : ℚ} (hdt : 0 < dt)
include hdt

theorem firstFrom_le_iff {x : ℚ} {i : ℤ} : firstFrom t0 dt x ≤ i ↔ x ≤ instant t0 dt i := by
  rw [firstFrom, Int.ceil_le, div_le_iff₀ hdt, instant, sub_le_iff_le_add']

theorem lt_firstFrom_iff {x : ℚ} {i : ℤ} : i < firstFrom t0 dt x ↔ instant t0 dt i < x := by
  rw [← not_le, firstFrom_le_iff hdt, not_le]

theorem firstAfter_le_iff {x : ℚ} {i : ℤ} : firstAfter t0 dt x ≤ i ↔ x < instant t0 dt i := by
  rw [firstAfter, Int.add_one_le_iff, Int.floor_lt, div_lt_iff₀ hdt, instant, sub_lt_iff_lt_add']

theorem firstFrom_mono {x y : ℚ} (hxy : x ≤ y) : firstFrom t0 dt x ≤ firstFrom t0 dt y :=
  Int.ceil_mono (div_le_div_of_nonneg_right (sub_le_sub_right hxy t0) hdt.le)

/-- Up to one, the instants after `x` in `[lo, hi)` are as many as there are steps behind `x`. -/
theorem abs_tally_after_sub_le {p : ℤ → Bool} {lo x hi : ℚ} (hlo : lo ≤ hi) (hx : x < hi)
    (h : ∀ i, lo ≤ instant t0 dt i → instant t0 dt i < hi →
      (p i = true ↔ x < instant t0 dt i)) :
    |(tally p (firstFrom t0 dt lo) (firstFrom t0 dt hi) : ℚ) - (hi - max lo x) / dt| ≤ 1 := by
  have hafter : firstAfter t0 dt x ≤ firstFrom t0 dt hi := by
    rw [firstAfter_le_iff hdt]
    exact hx.trans_le ((firstFrom_le_iff hdt).1 le_rfl)
  have hcount := tally_from (le_max_left (firstFrom t0 dt lo) (firstAfter t0 dt x))
    (max_le (firstFrom_mono hdt hlo) hafter) fun i hi₁ hi₂ => by
      rw [h i ((firstFrom_le_iff hdt).1 hi₁) ((lt_firstFrom_iff hdt).1 hi₂), max_le_iff,
        firstAfter_le_iff hdt]
      exact (and_iff_right hi₁).symm
  have hcount' : (tally p (firstFrom t0 dt lo) (firstFrom t0 dt hi) : ℚ) =
      (firstFrom t0 dt hi : ℚ) - max (firstFrom t0 dt lo : ℚ) (firstAfter t0 dt x : ℚ) := by
    exact_mod_cast congrArg (Int.cast (R := ℚ)) hcount
  -- both ends are rounded, each by less than a step
  have hsteps : (hi - max lo x) / dt =
      (hi - t0) / dt - max ((lo - t0) / dt) ((x - t0) / dt) := by
    rw [max_div_div_right hdt.le, max_sub_sub_right]
    ring
  have hhi₁ : (hi - t0) / dt ≤ firstFrom t0 dt hi := Int.le_ceil _
  have hhi₂ : (firstFrom t0 dt hi : ℚ) < (hi - t0) / dt + 1 := Int.ceil_lt_add_one _
  have hlo₁ : (lo - t0) / dt ≤ firstFrom t0 dt lo := Int.le_ceil _
  have hlo₂ : (firstFrom t0 dt lo : ℚ) < (lo - t0) / dt + 1 := Int.ceil_lt_add_one _
  have hx₁ : (x - t0) / dt ≤ (firstAfter t0 dt x : ℚ) := by
    rw [firstAfter]
    push_cast
    exact (Int.lt_floor_add_one _).le
  have hx₂ : (firstAfter t0 dt x : ℚ) ≤ (x - t0) / dt + 1 := by
    rw [firstAfter]
    push_cast
    linarith [Int.floor_le ((x - t0) / dt)]
  have hmax₁ : max ((lo - t0) / dt) ((x - t0) / dt) ≤
      max (firstFrom t0 dt lo : ℚ) (firstAfter t0 dt x) := max_le_max hlo₁ hx₁
  have hmax₂ : max (firstFrom t0 dt lo : ℚ) (firstAfter t0 dt x) ≤
      max ((lo - t0) / dt) ((x - t0) / dt) + 1 := by
    refine max_le (hlo₂.le.trans ?_) (hx₂.trans ?_)
    · exact add_le_add_left (le_max_left _ _) 1
    · exact add_le_add_left (le_max_right _ _) 1
  rw [hcount', hsteps, abs_le]
  constructor <;> linarith

end Instants

end Grid
end Foundation
