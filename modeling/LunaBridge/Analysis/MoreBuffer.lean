import LunaBridge.Analysis.MinBuffer
import LunaBridge.Scheduling.DropTail
import Mathlib.Data.List.DropRight

/-!
# MoreBuffer — is a larger buffer always at least as safe?

Halving an interval finds the smallest safe cap only if every cap above a safe one is safe.  With
priority-aware admission that is so.  A drop-tail queue may spend a larger cap on an early bundle
that the smaller cap refuses, and refuse a protected one later on; `Crowding` says of which
traces that is true.
-/

namespace LunaBridge
namespace Analysis

open Gateway Foundation.Python Foundation.Machine Foundation.GreedyFill Foundation.StableSort

/-- The arrivals in order, up to the last one that is protected. -/
def criticalArrivals (trace : List Bundle) : List Bundle :=
  (sortBy Bundle.ingressTs trace).rdropWhile fun b => !isProtected b.trafficClass

/-- Some of the critical arrivals, none of them protected, can be left out such that each is larger
than everything that is kept behind it: a cap that holds just what is kept refuses them. -/
def Crowding (trace : List Bundle) : Prop :=
  ∃ kept, LeavesHeavier Bundle.bytes kept (criticalArrivals trace) ∧
    kept ≠ criticalArrivals trace ∧
    ∀ b ∈ criticalArrivals trace, isProtected b.trafficClass = true → b ∈ kept

section Critical

variable {trace : List Bundle}

/-- Nothing protected arrives after the critical arrivals. -/
theorem criticalArrivals_append (trace : List Bundle) :
    ∃ back, sortBy Bundle.ingressTs trace = criticalArrivals trace ++ back ∧
      ∀ b ∈ back, isProtected b.trafficClass = false := by
  refine ⟨(sortBy Bundle.ingressTs trace).rtakeWhile fun b => !isProtected b.trafficClass,
    (List.rdropWhile_append_rtakeWhile ..).symm, fun b hb => ?_⟩
  simpa using List.mem_rtakeWhile_imp hb

/-- The last of them is protected. -/
theorem criticalArrivals_cases (trace : List Bundle) :
    criticalArrivals trace = [] ∨ ∃ front last, criticalArrivals trace = front ++ [last] ∧
      isProtected last.trafficClass = true := by
  by_cases hnil : criticalArrivals trace = []
  · exact Or.inl hnil
  · refine Or.inr ⟨_, _, (List.dropLast_append_getLast hnil).symm, ?_⟩
    have hlast := List.rdropWhile_last_not _ (sortBy Bundle.ingressTs trace) hnil
    rw [Bool.not_eq_true', Bool.not_eq_false] at hlast
    exact hlast

theorem mem_trace_of_critical {b : Bundle} (hb : b ∈ criticalArrivals trace) : b ∈ trace := by
  obtain ⟨back, hsplit, -⟩ := criticalArrivals_append trace
  rw [← mem_sortBy Bundle.ingressTs, hsplit]
  exact List.mem_append_left _ hb

/-- A drop-tail queue takes all protected bundles if it takes those among the critical arrivals. -/
theorem dropTail_protected_iff (cap : ℚ) :
    (∀ b ∈ trace, isProtected b.trafficClass = true →
        b ∈ greedyFill Bundle.bytes false cap (sortBy Bundle.ingressTs trace)) ↔
      ∀ b ∈ criticalArrivals trace, isProtected b.trafficClass = true →
        b ∈ greedyFill Bundle.bytes false cap (criticalArrivals trace) := by
  obtain ⟨back, hsplit, hback⟩ := criticalArrivals_append trace
  have hlate : ∀ b, isProtected b.trafficClass = true → b ∉ back := fun b hprot hb => by
    rw [hback b hb] at hprot
    cases hprot
  rw [hsplit, greedyFill_append]
  constructor
  · intro htaken b hb hprot
    refine (List.mem_append.1 (htaken b (mem_trace_of_critical hb) hprot)).resolve_right ?_
    exact fun hb' => hlate b hprot ((greedyFill_sublist _ _ _ _).subset hb')
  · intro htaken b hb hprot
    rw [← mem_sortBy Bundle.ingressTs, hsplit] at hb
    exact List.mem_append_left _
      (htaken b ((List.mem_append.1 hb).resolve_right (hlate b hprot)) hprot)

end Critical

/-! ## What the simulation answers -/

namespace Rehearsal

variable {profile : List ClassLoad} {gapS : ℚ} {trace : List Bundle} {plan : ContactPlan}
  {w : ContactWindow} {cap : ℚ}

/-- With priority-aware admission the cap has to cover the protected bundles. -/
theorem safe_aware_iff (h : Rehearsal profile gapS trace plan w)
    (halive : ∀ b ∈ trace, gapS < b.deadline) (hcap : 0 < cap) (now : ℚ) :
    safe plan trace true now cap = .ok true ↔
      ((totalBytes (protectedBundles trace) : ℤ) : ℚ) ≤ cap := by
  have hawaits : AwaitsOneContact (simulator plan true hcap).plan w trace :=
    h.emitted.awaits h.drain halive
  obtain ⟨s', hrun, hiff⟩ := hawaits.allProtectedDelivered_iff rfl rfl h.valid now
  rw [safe_eq hcap hrun, Except.ok.injEq]
  exact hiff

/-- With drop-tail admission the queue has to take all protected bundles among the critical
arrivals. -/
theorem safe_blind_iff (h : Rehearsal profile gapS trace plan w)
    (halive : ∀ b ∈ trace, gapS < b.deadline) (hcap : 0 < cap) (now : ℚ) :
    safe plan trace false now cap = .ok true ↔
      ∀ b ∈ criticalArrivals trace, isProtected b.trafficClass = true →
        b ∈ greedyFill Bundle.bytes false cap (criticalArrivals trace) := by
  have hawaits : AwaitsOneContact (simulator plan false hcap).plan w trace :=
    h.emitted.awaits h.drain halive
  rcases hawaits.delivers_blind_iff rfl h.valid now with ⟨_, s', hrun, hdel⟩
  rw [safe_eq hcap hrun, Except.ok.injEq, allProtectedDelivered_iff, ← dropTail_protected_iff]
  refine forall₂_congr fun b hb => ?_
  rw [hdel b hb]
  exact imp_congr decide_eq_true_iff.symm Iff.rfl

/-- A safe cap decides what it depends on: the bundles outlive the gap, or all caps are safe. -/
theorem alive_or_safe (h : Rehearsal profile gapS trace plan w) {priorityAware : Bool} {now : ℚ}
    (hsafe : safe plan trace priorityAware now cap = .ok true) :
    (∀ b ∈ trace, gapS < b.deadline) ∨
      ∀ now' cap', 0 < cap' → safe plan trace priorityAware now' cap' = .ok true := by
  refine (h.alive_or_unprotected (h.outlive_of_safe hsafe)).imp_right
    fun hnone now' cap' hcap' => ?_
  exact safe_of_unprotected h.valid hcap' hnone

theorem alive_iff_expiredBy (h : Rehearsal profile gapS trace plan w) :
    (∀ b ∈ trace, b.expiredBy gapS = false) ↔ ∀ b ∈ trace, gapS < b.deadline := by
  refine forall₂_congr fun b hb => ?_
  rw [Bool.eq_false_iff, Ne, Bundle.expiredBy_iff (h.valid.lifetimes b hb), not_le]

/-- A larger cap is never less safe with priority-aware admission. -/
theorem aware_monotone (h : Rehearsal profile gapS trace plan w) {now now' cap' : ℚ}
    (hle : cap ≤ cap') (hsafe : safe plan trace true now cap = .ok true) :
    safe plan trace true now' cap' = .ok true := by
  have hcap := cap_pos_of_safe hsafe
  rcases h.alive_or_safe hsafe with halive | hall
  · rw [h.safe_aware_iff halive hcap] at hsafe
    rw [h.safe_aware_iff halive (hcap.trans_le hle)]
    exact hsafe.trans hle
  · exact hall now' cap' (hcap.trans_le hle)

/-- With drop-tail admission that is so exactly if the trace does not crowd. -/
theorem blind_monotone_iff (h : Rehearsal profile gapS trace plan w)
    (halive : ∀ b ∈ trace, gapS < b.deadline) :
    (∀ now now' cap cap', cap ≤ cap' → safe plan trace false now cap = .ok true →
      safe plan trace false now' cap' = .ok true) ↔ ¬ Crowding trace := by
  have hmono : (∀ now now' cap cap', cap ≤ cap' → safe plan trace false now cap = .ok true →
      safe plan trace false now' cap' = .ok true) ↔
      ∀ r r', 0 < r → r ≤ r' →
        (∀ b ∈ criticalArrivals trace, isProtected b.trafficClass = true →
          b ∈ greedyFill Bundle.bytes false r (criticalArrivals trace)) →
        ∀ b ∈ criticalArrivals trace, isProtected b.trafficClass = true →
          b ∈ greedyFill Bundle.bytes false r' (criticalArrivals trace) := by
    constructor
    · intro hgrow r r' hr hle htaken
      rw [← h.safe_blind_iff halive (hr.trans_le hle) 0]
      exact hgrow 0 0 r r' hle ((h.safe_blind_iff halive hr 0).2 htaken)
    · intro hgrow now now' cap cap' hle hsafe
      have hcap := cap_pos_of_safe hsafe
      rw [h.safe_blind_iff halive hcap] at hsafe
      rw [h.safe_blind_iff halive (hcap.trans_le hle)]
      exact hgrow cap cap' hcap hle hsafe
  rw [hmono]
  rcases criticalArrivals_cases trace with hnil | ⟨front, last, hcritical, hprot⟩
  · -- nothing is protected, and nothing can be left out of an empty list
    rw [Crowding, hnil]
    refine iff_of_true (fun _ _ _ _ _ => nofun) ?_
    rintro ⟨kept, hkept, hne, -⟩
    exact hne (List.sublist_nil.1 hkept.sublist)
  · rw [Crowding, hcritical]
    refine greedyFill_larger_iff (fun b hb => ?_) hprot ?_
    · have hmem : b ∈ trace := mem_trace_of_critical (hcritical ▸ hb)
      exact Int.cast_pos.2 (h.valid.sizes b hmem)
    · -- the last arrival is not one of those before
      obtain ⟨back, hsplit, -⟩ := criticalArrivals_append trace
      have hnd : (criticalArrivals trace ++ back).Nodup :=
        hsplit ▸ (sortBy_perm Bundle.ingressTs trace).nodup_iff.2 h.valid.nodup
      have hnd' := (List.nodup_append.1 hnd).1
      rw [hcritical] at hnd'
      exact fun hmem => (List.nodup_append.1 hnd').2.2 last hmem last (by simp) rfl

end Rehearsal

/-- A simulation that answers has rehearsed the trace of its profile. -/
theorem rehearsal_of_simulate {profile : List ClassLoad} {gapS now cap : ℚ}
    {priorityAware yes : Bool}
    (hsizes : ∀ c ∈ profile, 0 < c.bundleSize)
    (h : simulate profile gapS priorityAware now cap = .ok yes) :
    ∃ trace plan w, Rehearsal profile gapS trace plan w := by
  obtain ⟨trace, htrace, h⟩ := except_bind_eq_ok.1 h
  refine ⟨trace, exists_rehearsal hsizes htrace ?_⟩
  rintro rfl
  obtain ⟨plan, hplan, -⟩ := except_bind_eq_ok.1 h
  obtain ⟨message, herr⟩ := drainPlan_zero gapS
  rw [totalBytes_nil, herr] at hplan
  cases hplan

/-- More buffer never hurts a simulation with priority-aware admission.  With drop-tail admission it
never hurts exactly if the trace, should all of it outlive the gap, does not crowd. -/
theorem more_buffer_never_hurts {profile : List ClassLoad} (gapS : ℚ)
    (hsizes : ∀ c ∈ profile, 0 < c.bundleSize) :
    (∀ now now' cap cap', cap ≤ cap' → simulate profile gapS true now cap = .ok true →
      simulate profile gapS true now' cap' = .ok true) ∧
    ((∀ now now' cap cap', cap ≤ cap' → simulate profile gapS false now cap = .ok true →
      simulate profile gapS false now' cap' = .ok true) ↔
      ∀ trace, makeTrace profile gapS = .ok trace → (∀ b ∈ trace, b.expiredBy gapS = false) →
        ¬ Crowding trace) := by
  refine ⟨fun now now' cap cap' hle hsafe => ?_, fun hgrow trace htrace halive => ?_,
    fun hcalm now now' cap cap' hle hsafe => ?_⟩
  · obtain ⟨trace, plan, w, h⟩ := rehearsal_of_simulate hsizes hsafe
    rw [h.simulate_eq] at hsafe ⊢
    exact h.aware_monotone hle hsafe
  · by_cases hne : trace = []
    · -- without arrivals there is nothing to leave out
      subst hne
      rintro ⟨kept, hkept, hproper, -⟩
      exact hproper (List.sublist_nil.1 hkept.sublist)
    · obtain ⟨plan, w, h⟩ := exists_rehearsal hsizes htrace hne
      refine (h.blind_monotone_iff (h.alive_iff_expiredBy.1 halive)).1 ?_
      intro now now' cap cap' hle hsafe
      rw [← h.simulate_eq] at hsafe ⊢
      exact hgrow now now' cap cap' hle hsafe
  · obtain ⟨trace, plan, w, h⟩ := rehearsal_of_simulate hsizes hsafe
    rw [h.simulate_eq] at hsafe ⊢
    rcases h.alive_or_safe hsafe with halive | hall
    · have hcalm' := hcalm trace h.trace_eq (h.alive_iff_expiredBy.2 halive)
      exact (h.blind_monotone_iff halive).2 hcalm' now now' cap cap' hle hsafe
    · exact hall now' cap' ((cap_pos_of_safe hsafe).trans_le hle)

/-- An instrument that fills the buffer before the alert of the same instant arrives. -/
def crowded : List ClassLoad := [⟨.scienceBulk, 4, 20⟩, ⟨.emergency, 2, 10⟩]

theorem more_buffer_never_hurts_small :
    simulate crowded 5 true 0 10 = .ok true ∧ simulate crowded 5 true 0 20 = .ok true := by
  have hten : simulate crowded 5 true 0 10 = .ok true := by decide +kernel
  have hsizes : ∀ c ∈ crowded, 0 < c.bundleSize := by decide +kernel
  exact ⟨hten, (more_buffer_never_hurts 5 hsizes).1 0 0 10 20 (by decide +kernel) hten⟩

/-- Ten bytes refuse the instrument and hold the alert, twenty hold the instrument and refuse the
alert. -/
theorem more_buffer_hurts :
    (∃ trace, makeTrace crowded 5 = .ok trace ∧ ∀ b ∈ trace, b.expiredBy 5 = false) ∧
    simulate crowded 5 false 0 10 = .ok true ∧ simulate crowded 5 false 0 20 = .ok false := by
  refine ⟨⟨[ClassLoad.emit ⟨.scienceBulk, 4, 20⟩ 1 0, ClassLoad.emit ⟨.emergency, 2, 10⟩ 2 0],
    ?_, ?_⟩, ?_, ?_⟩ <;> decide +kernel

end Analysis
end LunaBridge
