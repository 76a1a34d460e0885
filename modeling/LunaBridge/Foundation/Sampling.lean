import Mathlib.Data.Int.Order.Basic
import Mathlib.Data.List.Count
import Mathlib.Data.List.Range
import Mathlib.Tactic.Common

/-!
# Sampling — counting the integers of an interval that satisfy a predicate

`tally p lo hi` counts over `[lo, hi)`.  An interval is counted piece by piece (`tally_split`), and
on a piece where `p` holds from a threshold on, the count is a length (`tally_from`).
-/

namespace Foundation
namespace Sampling

/-- How many integers of `[lo, hi)` satisfy `p`. -/
def tally (p : ℤ → Bool) (lo hi : ℤ) : ℕ :=
  (List.range (hi - lo).toNat).countP fun i : ℕ => p (lo + i)

variable {p q : ℤ → Bool} {lo mid hi : ℤ}

@[simp] theorem tally_self (p : ℤ → Bool) (lo : ℤ) : tally p lo lo = 0 := by
  simp [tally]

theorem tally_split (p : ℤ → Bool) (hlo : lo ≤ mid) (hhi : mid ≤ hi) :
    tally p lo hi = tally p lo mid + tally p mid hi := by
  have hlen : (hi - lo).toNat = (mid - lo).toNat + (hi - mid).toNat := by omega
  have hshift : ∀ i : ℕ, lo + ((mid - lo).toNat + i : ℕ) = mid + i := by omega
  simp only [tally, hlen, List.range_add, List.countP_append, List.countP_map, Function.comp_def,
    hshift]

theorem tally_congr (h : ∀ j, lo ≤ j → j < hi → p j = q j) : tally p lo hi = tally q lo hi := by
  refine List.countP_congr fun i hi' => ?_
  have hlt := List.mem_range.1 hi'
  rw [h (lo + i) (by omega) (by omega)]

/-- If `p` holds exactly from the threshold `c` on, it holds between `c` and the end. -/
theorem tally_from {c : ℤ} (hlo : lo ≤ c) (hhi : c ≤ hi)
    (h : ∀ j, lo ≤ j → j < hi → (p j = true ↔ c ≤ j)) : (tally p lo hi : ℤ) = hi - c := by
  have hbelow : tally p lo c = 0 := by
    refine List.countP_eq_zero.2 fun i hi' hp => ?_
    have hlt := List.mem_range.1 hi'
    have := (h (lo + i) (by omega) (by omega)).1 hp
    omega
  have habove : tally p c hi = (List.range (hi - c).toNat).length := by
    refine List.countP_eq_length.2 fun i hi' => ?_
    have hlt := List.mem_range.1 hi'
    exact (h (c + i) (by omega) (by omega)).2 (by omega)
  rw [tally_split p hlo hhi, hbelow, habove, List.length_range]
  omega

end Sampling
end Foundation
