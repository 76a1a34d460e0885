import Mathlib.Data.List.Basic
import Mathlib.Data.Rat.Floor
import Mathlib.Order.Lattice
import Mathlib.Tactic.Common
import Mathlib.Tactic.Linarith

/-!
# Python — the pieces of the Python runtime the sources rest on

* `PyError`, the exceptions raised by the modelled code;
* `bisectRight`, the binary search of the standard `bisect` module, with the loop it runs;
* `roundHalfEven`, the built-in `round` on exact numbers.
-/

namespace Foundation
namespace Python

/-- Exceptions of the modelled programs.  `outOfFuel` is no Python exception: it marks a loop cut
off by the bound its Lean definition recurses on. -/
inductive PyError
  | valueError (message : String)
  | runtimeError (message : String)
  | typeError
  | zeroDivisionError
  | indexError
  | structError
  | outOfFuel
  deriving DecidableEq, Repr

/-! ## bisect_right -/

section Bisect

variable {α : Type} [LinearOrder α]

/-- The loop of `bisect_right`, for at most `fuel` rounds: `lo` and `hi` close in on the insertion
point. -/
def bisectRightLoop (xs : List α) (x : α) : ℕ → ℕ → ℕ → ℕ
  | 0, lo, _ => lo
  | fuel + 1, lo, hi =>
      if lo < hi then
        let mid := (lo + hi) / 2
        match xs[mid]? with
        | some y => if x < y then bisectRightLoop xs x fuel lo mid
                    else bisectRightLoop xs x fuel (mid + 1) hi
        | none => lo
      else
        lo

/-- `bisect.bisect_right(xs, x)`. -/
def bisectRight (xs : List α) (x : α) : ℕ :=
  bisectRightLoop xs x xs.length 0 xs.length

private theorem bisectRightLoop_append {as bs : List α} {x : α} (has : ∀ a ∈ as, a ≤ x)
    (hbs : ∀ b ∈ bs, x < b) :
    ∀ fuel lo hi, lo ≤ as.length → as.length ≤ hi → hi ≤ (as ++ bs).length → hi - lo ≤ fuel →
      bisectRightLoop (as ++ bs) x fuel lo hi = as.length := by
  -- the split point stays between the bounds
  intro fuel
  induction fuel with
  | zero =>
      intro lo hi hlo hhi _ hfuel
      simp only [bisectRightLoop]
      omega
  | succ fuel ih =>
      intro lo hi hlo hhi hlen hfuel
      by_cases hlt : lo < hi
      · have hmid : (lo + hi) / 2 < (as ++ bs).length := by omega
        simp only [bisectRightLoop, hlt, if_true, List.getElem?_eq_getElem hmid]
        by_cases hm : (lo + hi) / 2 < as.length
        · -- the probe lands among the elements up to `x`
          have hle : ¬ x < (as ++ bs)[(lo + hi) / 2] := by
            rw [List.getElem_append_left hm]
            exact not_lt.2 (has _ (List.getElem_mem hm))
          rw [if_neg hle]
          exact ih _ _ (by omega) hhi hlen (by omega)
        · -- it lands among the elements above `x`
          have hgt : x < (as ++ bs)[(lo + hi) / 2] := by
            rw [List.getElem_append_right (Nat.le_of_not_lt hm)]
            exact hbs _ (List.getElem_mem _)
          rw [if_pos hgt]
          exact ih _ _ hlo (Nat.le_of_not_lt hm) (by omega) (by omega)
      · -- the bounds have met, with the split between them
        simp only [bisectRightLoop, hlt, if_false]
        omega

/-- On a list split into elements up to `x` and elements above `x`, the search finds the split. -/
theorem bisectRight_append {as bs : List α} {x : α} (has : ∀ a ∈ as, a ≤ x)
    (hbs : ∀ b ∈ bs, x < b) : bisectRight (as ++ bs) x = as.length :=
  bisectRightLoop_append has hbs _ _ _ (Nat.zero_le _) (by simp) (Nat.le_refl _) (Nat.sub_le _ _)

end Bisect

/-! ## round -/

/-- `round(x)`: the nearest integer, the even one of two that are equally near. -/
def roundHalfEven (x : ℚ) : ℤ :=
  if x - ⌊x⌋ < 1 / 2 then ⌊x⌋
  else if 1 / 2 < x - ⌊x⌋ then ⌊x⌋ + 1
  else if ⌊x⌋ % 2 = 0 then ⌊x⌋
  else ⌊x⌋ + 1

theorem floor_le_roundHalfEven (x : ℚ) : ⌊x⌋ ≤ roundHalfEven x := by
  unfold roundHalfEven
  split_ifs <;> omega

theorem roundHalfEven_le_floor_add_one (x : ℚ) : roundHalfEven x ≤ ⌊x⌋ + 1 := by
  unfold roundHalfEven
  split_ifs <;> omega

/-- Rounding moves a number by half a unit at most. -/
theorem abs_roundHalfEven_sub_le (x : ℚ) : |roundHalfEven x - x| ≤ 1 / 2 := by
  have hfloor := Int.floor_le x
  unfold roundHalfEven
  split_ifs with hlow hhigh
  all_goals
    rw [abs_le]
    push_cast
    constructor <;> linarith [Int.lt_floor_add_one x]

@[simp] theorem roundHalfEven_zero : roundHalfEven 0 = 0 := by
  simp [roundHalfEven]

theorem roundHalfEven_mono {x y : ℚ} (hxy : x ≤ y) : roundHalfEven x ≤ roundHalfEven y := by
  rcases (Int.floor_mono hxy).lt_or_eq with hlt | heq
  · -- an integer lies between the two
    calc roundHalfEven x
        _ ≤ ⌊x⌋ + 1 := roundHalfEven_le_floor_add_one x
        _ ≤ ⌊y⌋ := hlt
        _ ≤ roundHalfEven y := floor_le_roundHalfEven y
  · -- both round within the same unit interval
    have hfrac : x - ⌊x⌋ ≤ y - ⌊y⌋ := by
      rw [heq]
      exact sub_le_sub_right hxy _
    unfold roundHalfEven
    split_ifs <;> first | omega | linarith

end Python
end Foundation
