import LunaBridge.Scheduling.IdleSplits
import Mathlib.Data.Finset.Max

/-!
# SkipOver — the exit test of the round robin with skip-over

A turn with skip-over tries every bundle of its class, but the loop asks only about heads whether to
go on.  It idles when all heads are too large and a bundle behind one of them is not.
-/

namespace LunaBridge
namespace Gateway

open Foundation.Machine Foundation.Selection Foundation.GreedyFill Foundation.StableSort

section Window

variable {w : ContactWindow} {bs : List Bundle} {s : SchedulerState}

/-! ## Queues that never grow smaller -/

end Window

/-! ## Queues that do -/

section Turns

variable {w : ContactWindow} {tc : TrafficClass} {rnd : ℕ} {l : RoundLocals} {s : SchedulerState}

end Turns

/-- The class visited after `tc`. -/
def rival : TrafficClass → TrafficClass
  | .telemetry => .scienceBulk
  | .scienceBulk => .media
  | _ => .telemetry

/-- The rotation index at which `tc` is visited first. -/
def turnOf : TrafficClass → ℕ
  | .scienceBulk => 1
  | .media => 2
  | _ => 0

theorem rotation_turnOf {tc : TrafficClass} (htc : tc ∈ wfqClasses) :
    rotation (turnOf tc) = [tc, rival tc, rival (rival tc)] := by
  cases tc <;> first | rfl | simp [wfqClasses] at htc

theorem rival_ne {tc : TrafficClass} (htc : tc ∈ wfqClasses) :
    rival tc ≠ tc ∧ rival (rival tc) ≠ tc ∧ rival (rival tc) ≠ rival tc ∧
      rival tc ≠ .emergency := by
  cases tc <;> simp [wfqClasses, rival] at htc ⊢

/-- Class `tc` has the given queue, its rival the bundle `bulky`, and the third class is idle. -/
structure TwoQueues (tc : TrafficClass) (queue : List Bundle) (bulky : Bundle) (l : RoundLocals) :
    Prop where
  own : l.byClass tc = queue
  other : l.byClass (rival tc) = [bulky]
  idle : l.byClass (rival (rival tc)) = []

section Idle

variable {w : ContactWindow} {tc : TrafficClass} {queue front rest : List Bundle}
  {b c bulky : Bundle} {l : RoundLocals} {s : SchedulerState}

theorem TwoQueues.backlogged_eq (h : TwoQueues tc queue bulky l) (htc : tc ∈ wfqClasses)
    (hne : queue ≠ []) : backlogged (rotation (turnOf tc)) l.byClass = [tc, rival tc] := by
  simp [backlogged, rotation_turnOf htc, h.own, h.other, h.idle, hne]

/-- Where neither head fits the loop is over. -/
theorem TwoQueues.spent (h : TwoQueues tc (b :: rest) bulky l) (htc : tc ∈ wfqClasses)
    (hb : l.remainingBits < b.bits) (hbulky : l.remainingBits < bulky.bits) :
    l.Spent (rotation (turnOf tc)) := by
  right
  rw [someHeadFits_iff, rotation_turnOf htc]
  rintro ⟨u, hu, d, hd, hfit⟩
  simp only [List.mem_cons, List.not_mem_nil, or_false] at hu
  rcases hu with rfl | rfl | rfl
  · rw [h.own] at hd
    cases hd
    exact not_le.2 hb hfit
  · rw [h.other] at hd
    cases hd
    exact not_le.2 hbulky hfit
  · rw [h.idle] at hd
    cases hd

/-- The front of the queue goes. -/
theorem TwoQueues.advance (h : TwoQueues tc queue bulky l) (htc : tc ∈ wfqClasses) (bits : ℚ)
    (queue' : List Bundle) :
    TwoQueues tc queue' bulky ⟨bits, Function.update l.byClass tc queue'⟩ := by
  obtain ⟨hne, hne', -, -⟩ := rival_ne htc
  exact ⟨Function.update_self .., (Function.update_of_ne hne _ _).trans h.other,
    (Function.update_of_ne hne' _ _).trans h.idle⟩

end Idle

section Scenario

variable {tc : TrafficClass} {queue : List Bundle}

end Scenario

end Gateway
end LunaBridge
