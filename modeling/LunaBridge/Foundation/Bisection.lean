import Mathlib.Algebra.Field.Basic
import Mathlib.Tactic.Common

/-!
# Bisection — halving an interval by an oracle

`bisect query rounds lo hi` asks the oracle about the middle of the interval, keeps the lower half
where it says yes and the upper half where it says no, and returns the upper end it is left with.
The oracle may raise, and may answer differently in different rounds; it is told how many rounds
come after the one it is asked in.  Nothing is said about the oracle being monotone.
-/

namespace Foundation
namespace Bisection

variable {K ε : Type} [Field K]

def bisect (query : ℕ → K → Except ε Bool) : ℕ → K → K → Except ε K
  | 0, _, hi => .ok hi
  | rounds + 1, lo, hi => do
      let yes ← query rounds ((lo + hi) / 2)
      if yes then
        bisect query rounds lo ((lo + hi) / 2)
      else
        bisect query rounds ((lo + hi) / 2) hi

/-- What is returned is the upper end one began with, unless the oracle has said yes to it.  `I`
holds of both ends and of all the points in between that are asked about. -/
theorem bisect_spec {query : ℕ → K → Except ε Bool} {I : K → Prop}
    (hmid : ∀ x y, I x → I y → I ((x + y) / 2))
    (hquery : ∀ round x, I x → ∃ yes, query round x = .ok yes) :
    ∀ (rounds : ℕ) (lo hi : K), I lo → I hi →
      ∃ r, bisect query rounds lo hi = .ok r ∧ I r ∧
        (r = hi ∨ ∃ round, query round r = .ok true) := by
  intro rounds
  induction rounds with
  | zero => exact fun lo hi _ hhi => ⟨hi, rfl, hhi, Or.inl rfl⟩
  | succ rounds ih =>
      intro lo hi hlo hhi
      have hI := hmid lo hi hlo hhi
      obtain ⟨yes, hyes⟩ := hquery rounds _ hI
      cases yes with
      | true =>
          -- the middle becomes the upper end, and the oracle has said yes to it
          obtain ⟨r, hrun, hr, hcase⟩ := ih lo ((lo + hi) / 2) hlo hI
          refine ⟨r, by rw [bisect, hyes]; exact hrun, hr, Or.inr ?_⟩
          rcases hcase with rfl | hasked
          · exact ⟨rounds, hyes⟩
          · exact hasked
      | false =>
          obtain ⟨r, hrun, hr, hcase⟩ := ih ((lo + hi) / 2) hi hI hhi
          exact ⟨r, by rw [bisect, hyes]; exact hrun, hr, hcase⟩

end Bisection
end Foundation
