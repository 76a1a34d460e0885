import Mathlib.Data.Rat.Defs
import Mathlib.Tactic.Common
import Mathlib.Tactic.NormNum

/-!
# Traffic — the LunaBridge traffic taxonomy

The four traffic classes and the per-class numbers the scheduler reads.  The flags
`custody_required` and `expendable` of a class are read by no scheduling code and are left out.
-/

namespace LunaBridge
namespace Gateway

/-- The traffic classes. -/
inductive TrafficClass
  | emergency
  | telemetry
  | scienceBulk
  | media
  deriving DecidableEq, Repr

/-- The string an enum member carries. -/
def TrafficClass.value : TrafficClass → String
  | .emergency => "emergency"
  | .telemetry => "telemetry"
  | .scienceBulk => "sci_bulk"
  | .media => "media"

/-- Per-class scheduling metadata; rank 0 is the highest priority. -/
structure ClassSpec where
  rank : ℤ
  utilityWeight : ℚ
  defaultTtlS : ℚ
  queueBudget : ℚ := 1

/-- `CLASS_SPECS`. -/
def classSpecs : TrafficClass → ClassSpec
  | .emergency => { rank := 0, utilityWeight := 100, defaultTtlS := 300 }
  | .telemetry => { rank := 1, utilityWeight := 10, defaultTtlS := 3600, queueBudget := 10 }
  | .scienceBulk => { rank := 2, utilityWeight := 1, defaultTtlS := 57600, queueBudget := 1 }
  | .media => { rank := 3, utilityWeight := 0, defaultTtlS := 3600, queueBudget := 1 }

theorem classSpecs_queueBudget_pos (tc : TrafficClass) : 0 < (classSpecs tc).queueBudget := by
  cases tc <;> norm_num [classSpecs]

/-- Only EMERGENCY has rank 0, and no class ranks above it. -/
theorem classSpecs_rank_le_zero_iff (tc : TrafficClass) :
    (classSpecs tc).rank ≤ 0 ↔ tc = .emergency := by
  cases tc <;> simp [classSpecs]

end Gateway
end LunaBridge
