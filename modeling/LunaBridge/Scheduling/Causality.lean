import LunaBridge.Scheduling.Ample

/-!
# Causality — deliveries that precede the arrival

Arrivals are admitted up to the end of a window, but what the window sends is stamped with its
start.  A bundle that arrives while a window is open can therefore be sent before it is there, and
this is the only way in which it can happen.
-/

namespace LunaBridge
namespace Gateway

open Foundation.Machine Foundation.GreedyFill

/-- Arrival, admission, transmission and delivery come in this order. -/
def Causal (b : Bundle) (r : Lifecycle) : Prop :=
  ∃ admitted sent delivered, r.queueAdmissionTs = some admitted ∧ r.transmissionTs = some sent ∧
    r.deliveryTs = some delivered ∧ b.ingressTs ≤ admitted ∧ admitted ≤ sent ∧ sent ≤ delivered

/-- Causal records have no negative delays. -/
theorem Causal.delays_nonneg {b : Bundle} {r : Lifecycle} (h : Causal b r) :
    (∃ d, r.queueingDelayS = some d ∧ 0 ≤ d) ∧ ∃ d, r.endToEndLatencyS b = some d ∧ 0 ≤ d := by
  obtain ⟨admitted, sent, delivered, hadmitted, hsent, hdelivered, h₁, h₂, h₃⟩ := h
  refine ⟨⟨sent - admitted, ?_, sub_nonneg.2 h₂⟩, ⟨delivered - b.ingressTs, ?_, ?_⟩⟩
  · simp [Lifecycle.queueingDelayS, hadmitted, hsent]
  · simp [Lifecycle.endToEndLatencyS, hdelivered]
  · exact sub_nonneg.2 (h₁.trans (h₂.trans h₃))

/-- The bundle arrives strictly inside a window that has room for it and opened before its
deadline. -/
def ArrivesMidContact (plan : ContactPlan) (b : Bundle) : Prop :=
  ∃ w ∈ plan.windows, w.startTs < b.ingressTs ∧ b.ingressTs < w.endTs ∧
    b.bits ≤ w.rawBitBudget ∧ w.startTs < b.deadline

/-- What was sent in `w` is causal iff it had arrived when `w` opened. -/
theorem causal_delivered_iff {b : Bundle} {w : ContactWindow} :
    Causal b ((({} : Lifecycle).admitted b.ingressTs).delivered w) ↔ b.ingressTs ≤ w.startTs := by
  constructor
  · rintro ⟨admitted, sent, _, hadmitted, hsent, _, h₁, h₂, _⟩
    cases hadmitted
    cases hsent
    exact h₂
  · exact fun h => ⟨b.ingressTs, w.startTs, w.startTs, rfl, rfl, rfl, le_rfl, h, le_rfl⟩

/-- The fate of a bundle that does not arrive mid-contact is causal if it is delivery. -/
theorem Fate.causal {plan : ContactPlan} {b : Bundle} {r : Lifecycle}
    (hmid : ¬ ArrivesMidContact plan b) (h : Fate plan b {} r)
    (hdel : r.terminalState = .delivered) : Causal b r := by
  cases h with
  | @delivered w hw harrived halive hfits =>
      rw [causal_delivered_iff]
      by_contra hlate
      exact hmid ⟨w, hw, not_le.1 hlate, harrived, hfits, halive⟩
  | expired => cases hdel
  | dropped => cases hdel
  | evicted => cases hdel
  | unscheduled => cases hdel

/-- A FIFO scheduler whose buffer holds just the one bundle. -/
def soloScheduler (plan : ContactPlan) (b : Bundle) (hsize : 0 < b.sizeBytes) : Scheduler where
  plan := plan
  maxQueueBytes := b.sizeBytes
  policy := .fifo
  maxQueueBytes_pos := by exact_mod_cast hsize

/-- On its own a bundle that arrives mid-contact is sent in that very window. -/
theorem solo_outcome {plan : ContactPlan} {b : Bundle} {w : ContactWindow} (hw : w ∈ plan.windows)
    (hopen : w.startTs < b.ingressTs) (harrived : b.ingressTs < w.endTs)
    (hfits : b.bits ≤ w.rawBitBudget) (halive : w.startTs < b.deadline) (hsize : 0 < b.sizeBytes)
    (hlife : b.expirationTs ≠ none) (now : ℚ) :
    Valid [b] (fun _ => {}) ∧ ∃ s', run (soloScheduler plan b hsize) now [b]
      (SchedulerState.fresh fun _ => {}) = .ok ⟨⟩ s' ∧
      s'.records b = (({} : Lifecycle).admitted b.ingressTs).delivered w := by
  have hvalid : Valid [b] (fun _ => {}) :=
    ⟨by simp, by simpa using hsize, by simpa using hlife, fun _ _ => rfl⟩
  have hfirst := ContactPlan.firstContact_eq_open hw hopen.le harrived
  have hroom : Roomy (soloScheduler plan b hsize) [b] := by
    refine ⟨by simp [soloScheduler], fun v _ => ?_⟩
    show load Bundle.bits ([b].filter fun c => decide (plan.firstContact c = some v)) ≤ _
    by_cases hv : v = w
    · subst hv
      simpa [hfirst] using hfits
    · have hempty : [b].filter (fun c => decide (plan.firstContact c = some v)) = [] := by
        simp [hfirst, Ne.symm hv]
      rw [hempty, load_nil]
      exact v.rawBitBudget_pos.le
  rcases run_outcome now hroom hvalid (SchedulerState.fresh_idle _)
    (SchedulerState.fresh_inCredit _) with ⟨_, s', hrun, hrec⟩
  refine ⟨hvalid, s', hrun, ?_⟩
  have hout : outcome plan b {} = (({} : Lifecycle).admitted b.ingressTs).delivered w := by
    simp [outcome, hfirst, not_le.2 halive]
  exact (hrec b (by simp)).trans hout

/-- Whatever the cap, the policy, the flags and the other bundles: if a run over the plan delivers
`b`, it does so causally. -/
def CausalInEveryRun (plan : ContactPlan) (b : Bundle) : Prop :=
  ∀ (sch : Scheduler) (now : ℚ) (bundles : List Bundle), sch.plan = plan → b ∈ bundles →
    Valid bundles (fun _ => {}) →
    ∀ s', run sch now bundles (SchedulerState.fresh fun _ => {}) = .ok ⟨⟩ s' →
      (s'.records b).terminalState = .delivered → Causal b (s'.records b)

/-- Runs deliver a bundle causally exactly if it does not arrive mid-contact. -/
theorem causalInEveryRun_iff (plan : ContactPlan) {b : Bundle} (hsize : 0 < b.sizeBytes)
    (hlife : b.expirationTs ≠ none) :
    CausalInEveryRun plan b ↔ ¬ ArrivesMidContact plan b := by
  constructor
  · -- a run with `b` alone delivers it in that window, before it has arrived
    rintro hcausal ⟨w, hw, hopen, harrived, hfits, halive⟩
    obtain ⟨hvalid, s', hrun, hrec⟩ := solo_outcome hw hopen harrived hfits halive hsize hlife 0
    have hb := hcausal (soloScheduler plan b hsize) 0 [b] rfl (by simp) hvalid s' hrun
      (by rw [hrec]; rfl)
    rw [hrec, causal_delivered_iff] at hb
    exact absurd hopen (not_lt.2 hb)
  · -- whatever run delivers `b` does so in a window it had arrived for
    intro hmid sch now bundles hplan hb hvalid s' hrun hdel
    rcases run_fates sch now hvalid (SchedulerState.fresh_idle _) with ⟨_, t, hrun', hfate⟩
    rw [hrun] at hrun'
    cases hrun'
    exact Fate.causal hmid (hplan ▸ hfate b hb) hdel

theorem causalInEveryRun_iff_small :
    CausalInEveryRun Small.plan Small.early ↔ ¬ ArrivesMidContact Small.plan Small.early :=
  causalInEveryRun_iff Small.plan (by decide +kernel) (by decide +kernel)

/-- Arrives in the middle of the window. -/
def Small.midway : Bundle := Small.bundle "midway" .telemetry 100 15 100

/-- The bundle that arrives at 15 is sent at 10, five seconds before it is there. -/
theorem midway_sent_before_arrival :
    ∃ s', run Small.scheduler 0 [Small.midway] (SchedulerState.fresh fun _ => {}) = .ok ⟨⟩ s' ∧
      (s'.records Small.midway).terminalState = .delivered ∧
      (s'.records Small.midway).queueingDelayS = some (-5) ∧
      ¬ Causal Small.midway (s'.records Small.midway) := by
  have hrec : recordAfter Small.midway (run Small.scheduler 0 [Small.midway]
      (SchedulerState.fresh fun _ => {})) =
      some ((({} : Lifecycle).admitted Small.midway.ingressTs).delivered Small.window) := by
    decide +kernel
  obtain ⟨s', hrun, hrec'⟩ := finalState_map_eq_some hrec
  refine ⟨s', hrun, ?_, ?_, ?_⟩
  · rw [hrec']
    rfl
  · rw [hrec']
    decide +kernel
  · rw [hrec', causal_delivered_iff]
    decide +kernel

end Gateway
end LunaBridge
