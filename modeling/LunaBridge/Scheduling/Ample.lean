import LunaBridge.LinkController.CeilingPilot
import LunaBridge.Scheduling.Fate

/-!
# Ample — runs in which capacity is no constraint

When the cap holds all bundles and every window can carry the bundles that wait for it, what
becomes of a bundle is a function of the plan and the bundle alone (`outcome`): the policy, the
flags and the other bundles do not matter.
-/

namespace LunaBridge
namespace Gateway

open Foundation.Machine Foundation.Selection Foundation.Trace Foundation.StableSort
open Foundation.GreedyFill

/-- The first window that ends after the bundle has arrived. -/
def ContactPlan.firstContact (plan : ContactPlan) (b : Bundle) : Option ContactWindow :=
  plan.windows.find? fun w => decide (b.ingressTs < w.endTs)

theorem ContactPlan.firstContact_mem {plan : ContactPlan} {b : Bundle} {w : ContactWindow}
    (h : plan.firstContact b = some w) : w ∈ plan.windows ∧ b.ingressTs < w.endTs :=
  ⟨List.mem_of_find?_eq_some h, by simpa using List.find?_some h⟩

/-- Among the windows from `w` on, the first contact of a bundle that arrives before `w` ends can
only be `w`. -/
theorem ContactPlan.firstContact_eq {plan : ContactPlan} {b : Bundle} {w : ContactWindow}
    {ws : List ContactWindow} (hsub : (w :: ws).Sublist plan.windows)
    (harrived : b.ingressTs < w.endTs)
    (hahead : ∀ v, plan.firstContact b = some v → v ∈ w :: ws) : plan.firstContact b = some w := by
  have hw : w ∈ plan.windows := hsub.subset (by simp)
  cases hfirst : plan.firstContact b with
  | none =>
      have := List.find?_eq_none.1 hfirst w hw
      simp [harrived] at this
  | some v =>
      rcases List.mem_cons.1 (hahead v hfirst) with rfl | hv
      · rfl
      · -- `w` comes before `v` and would have been found first
        rcases List.find?_eq_some_iff_append.1 hfirst with ⟨_, front, back, heq, hfront⟩
        have hord := plan.pairwise_startTs
        have hwv := (List.pairwise_cons.1 (hord.sublist hsub)).1 v hv
        rw [heq] at hw hord
        rcases List.mem_append.1 hw with hw | hw
        · have := hfront w hw
          simp [harrived] at this
        · rcases List.mem_cons.1 hw with rfl | hw
          · rfl
          · have hvw := (List.pairwise_cons.1 (List.pairwise_append.1 hord).2.1).1 w hw
            exact absurd hvw (lt_asymm hwv)

/-- A window that is open when the bundle arrives is its first contact. -/
theorem ContactPlan.firstContact_eq_open {plan : ContactPlan} {b : Bundle} {w : ContactWindow}
    (hw : w ∈ plan.windows) (hopen : w.startTs ≤ b.ingressTs) (harrived : b.ingressTs < w.endTs) :
    plan.firstContact b = some w := by
  obtain ⟨front, back, heq⟩ := List.append_of_mem hw
  refine List.find?_eq_some_iff_append.2 ⟨by simpa using harrived, front, back, heq, ?_⟩
  intro v hv
  have hdisj := plan.disjoint
  rw [heq] at hdisj
  have hvw := (List.pairwise_append.1 hdisj).2.2 v hv w (by simp)
  simpa using hvw.trans hopen

/-- Room for everything: the cap covers all bundles, and each window the bundles that wait for
it. -/
structure Roomy (sch : Scheduler) (bundles : List Bundle) : Prop where
  cap : ((totalBytes bundles : ℤ) : ℚ) ≤ sch.maxQueueBytes
  windows : ∀ w ∈ sch.plan.windows, load Bundle.bits
    (bundles.filter fun b => decide (sch.plan.firstContact b = some w)) ≤ w.rawBitBudget

/-- The final record of `b`, which had the record `r` when it arrived. -/
def outcome (plan : ContactPlan) (b : Bundle) (r : Lifecycle) : Lifecycle :=
  match plan.firstContact b with
  | some w =>
      if b.deadline ≤ w.startTs then (r.admitted b.ingressTs).expired
      else (r.admitted b.ingressTs).delivered w
  | none =>
      if plan.lastEnd.any fun lastEndTs => decide (b.deadline ≤ lastEndTs) then
        (r.admitted b.ingressTs).expired
      else (r.admitted b.ingressTs).unscheduled

/-- A bundle that has died before its first contact opens, or before the plan ends, expires. -/
theorem outcome_expired {plan : ContactPlan} {b : Bundle} {r : Lifecycle}
    (hsome : ∀ w, plan.firstContact b = some w → b.deadline ≤ w.startTs)
    (hnone : plan.firstContact b = none →
      ∃ lastEndTs, plan.lastEnd = some lastEndTs ∧ b.deadline ≤ lastEndTs) :
    outcome plan b r = (r.admitted b.ingressTs).expired := by
  unfold outcome
  cases hfirst : plan.firstContact b with
  | some w => simp [hsome w hfirst]
  | none =>
      obtain ⟨lastEndTs, hlast, hdead⟩ := hnone hfirst
      simp [hlast, hdead]

/-! ## The invariant -/

/-- With `es` still to come, every settled bundle has its outcome, and every queued bundle waits
for a contact still to come or for none at all. -/
structure Waiting (sch : Scheduler) (bundles : List Bundle) (records : Bundle → Lifecycle)
    (es : List Event) (β : Buffer) : Prop where
  tracked : Tracked (fun b r => r = outcome sch.plan b (records b)) bundles records (offered es) β
  ahead : ∀ b ∈ β.active, ∀ w, sch.plan.firstContact b = some w → w ∈ contacts es

section Step

variable {sch : Scheduler} {bundles : List Bundle} {records : Bundle → Lifecycle}
  {es : List Event} {β : Buffer}

/-- An arrival always fits, and its contact is still to come. -/
theorem Waiting.arrival {b : Bundle} (hroom : Roomy sch bundles) (hvalid : Valid bundles records)
    (hon : OnTimeline sch bundles (.arrival b :: es) β)
    (h : Waiting sch bundles records (.arrival b :: es) β) :
    Waiting sch bundles records es (β.offer sch b) := by
  have hoffer : β.offer sch b = β.accept b :=
    Buffer.offer_eq_accept hvalid hroom.cap hon.wellFormed hon.known
  rw [hoffer]
  refine ⟨h.tracked.accept hon.wellFormed, fun c hc w hw => ?_⟩
  rcases List.mem_append.1 hc with hc | hc
  · exact h.ahead c hc w hw
  · -- a window served before the arrival had closed by then
    obtain rfl := List.mem_singleton.1 hc
    rcases ContactPlan.firstContact_mem hw with ⟨hplan, harrived⟩
    by_contra hserved
    exact lt_asymm harrived (hon.passed w hplan hserved c (by simp))

/-- The bundles that are dead when a contact opens expire. -/
theorem Waiting.dead {w : ContactWindow} (hon : OnTimeline sch bundles (.contact w :: es) β)
    (h : Waiting sch bundles records (.contact w :: es) β) :
    ∀ b ∈ β.active.filter (fun b => b.expiredBy w.startTs),
      ((records b).admitted b.ingressTs).expired = outcome sch.plan b (records b) := by
  intro b hb
  rcases List.mem_filter.1 hb with ⟨hact, hexp⟩
  have hdeadline :=
    (Bundle.expiredBy_iff (hon.wellFormed.active_lifetime hact) w.startTs).1 hexp
  refine (outcome_expired (fun v hv => ?_) fun _ => ?_).symm
  · -- its contact, if any, opens no earlier than `w`
    exact hdeadline.trans (hon.startTs_le (h.ahead b hact v hv))
  · exact ContactPlan.exists_lastEnd_of_le hon.window_mem hdeadline

/-- The bundles that are ready in a window have it as their contact. -/
theorem Waiting.ready {w : ContactWindow} (hon : OnTimeline sch bundles (.contact w :: es) β)
    (h : Waiting sch bundles records (.contact w :: es) β) :
    ∀ b ∈ (β.expire w.startTs).ready w, sch.plan.firstContact b = some w := by
  intro b hb
  rcases of_mem_ready_expire hon.wellFormed hb with ⟨hact, harrived, _⟩
  exact ContactPlan.firstContact_eq hon.ahead harrived (h.ahead b hact)

/-- A contact sends all bundles that are ready. -/
theorem Waiting.sendsAll {credit : Prop} (hcredit : credit) {w : ContactWindow}
    {sent : List Bundle} (hroom : Roomy sch bundles) (hvalid : Valid bundles records)
    (hon : OnTimeline sch bundles (.contact w :: es) β)
    (h : Waiting sch bundles records (.contact w :: es) β)
    (service : Service sch w ((β.expire w.startTs).ready w) sent credit) :
    ∀ b ∈ (β.expire w.startTs).ready w, b ∈ sent := by
  refine service.complete hcredit (le_trans ?_ (hroom.windows w hon.window_mem))
  refine load_le_of_subperm (List.subperm_of_subset ?_ fun b hb => ?_) fun b hb => ?_
  · exact ((hon.wellFormed.expire w.startTs).active_nodup).filter _
  · have hact := (of_mem_ready_expire hon.wellFormed hb).1
    exact List.mem_filter.2 ⟨hon.known_active hact, by simp [h.ready hon b hb]⟩
  · exact Bundle.bits_nonneg (hvalid.sizes b (List.mem_of_mem_filter hb))

/-- A contact settles the queued bundles it is the first contact of, and expires the dead. -/
theorem Waiting.contact {credit : Prop} (hcredit : credit) {w : ContactWindow} {sent : List Bundle}
    (hroom : Roomy sch bundles) (hvalid : Valid bundles records)
    (hon : OnTimeline sch bundles (.contact w :: es) β)
    (h : Waiting sch bundles records (.contact w :: es) β)
    (service : Service sch w ((β.expire w.startTs).ready w) sent credit) :
    Waiting sch bundles records es ((β.expire w.startTs).transmitted w sent) := by
  have hwf := hon.wellFormed
  have hexpired := h.tracked.remove (f := Lifecycle.expired) hwf
    (fun b hb => List.mem_of_mem_filter hb) (h.dead hon)
  refine ⟨?_, fun b hb v hv => ?_⟩
  · refine Tracked.remove hexpired (hwf.expire w.startTs)
      (fun b hb => List.mem_of_mem_filter (service.subset b hb)) fun b hb => ?_
    have hb' := service.subset b hb
    simp [outcome, h.ready hon b hb', not_le.2 (of_mem_ready_expire hwf hb').2.2]
  · rcases mem_without.1 hb with ⟨hact, hnot⟩
    rcases List.mem_cons.1 (h.ahead b (mem_without.1 hact).1 v hv) with rfl | hv'
    · -- `w` would have taken the bundle
      have hready := Buffer.mem_ready.2 ⟨hact, (ContactPlan.firstContact_mem hv).2⟩
      exact absurd (h.sendsAll hcredit hroom hvalid hon service b hready) hnot
    · exact hv'

end Step

/-! ## The outcome of a run -/

/-- With room for everything and no class in debt, a run gives every bundle its outcome. -/
theorem run_outcome {sch : Scheduler} (now : ℚ) {bundles : List Bundle} {s : SchedulerState}
    (hroom : Roomy sch bundles) (h : Valid bundles s.records) (hs : s.Idle) (hcredit : s.InCredit) :
    Returns (run sch now bundles) s fun _ s' =>
      ∀ b ∈ bundles, s'.records b = outcome sch.plan b (s.records b) := by
  have hstart : Waiting sch bundles s.records (timeline sch.plan.windows bundles) s.toBuffer :=
    ⟨.start hs, by simp [hs.active]⟩
  refine (run_induction (I := Waiting sch bundles s.records)
    (fun e es β β' hon hI he => by
      cases he with
      | arrival b => exact hI.arrival hroom h hon
      | contact service => exact hI.contact hcredit hroom h hon service)
    h hs hstart now).mono ?_
  rintro _ s' ⟨β, hwf, hend, hbuffer⟩
  -- who is still queued has no contact
  have hnone : ∀ b ∈ β.active, sch.plan.firstContact b = none := by
    intro b hb
    rw [Option.eq_none_iff_forall_ne_some]
    exact fun w hw => List.not_mem_nil (hend.ahead b hb w hw)
  rw [hbuffer]
  refine hend.tracked.finish hwf (fun b hb lastEndTs hlast hdead => ?_) fun b hb halive => ?_
  · exact (outcome_expired (by simp [hnone b hb]) fun _ => ⟨lastEndTs, hlast, hdead⟩).symm
  · have hlive :
        sch.plan.lastEnd.any (fun lastEndTs => decide (b.deadline ≤ lastEndTs)) = false := by
      cases hlast : sch.plan.lastEnd with
      | none => rfl
      | some lastEndTs => simpa using halive lastEndTs hlast
    simp [outcome, hnone b hb, hlive]

/-! ## Agreement with the predictor -/

theorem outcome_delivered_iff {plan : ContactPlan} {b : Bundle} {r : Lifecycle} :
    (outcome plan b r).terminalState = .delivered ↔
      ∃ w, plan.firstContact b = some w ∧ w.startTs < b.deadline := by
  unfold outcome
  cases hfirst : plan.firstContact b with
  | some w =>
      by_cases hdead : b.deadline ≤ w.startTs
      · simp [hdead, Lifecycle.expired]
      · simp [hdead, Lifecycle.delivered, not_le.1 hdead]
  | none =>
      cases plan.lastEnd.any (fun lastEndTs => decide (b.deadline ≤ lastEndTs)) <;>
        simp [Lifecycle.expired, Lifecycle.unscheduled]

theorem outcome_undelivered {plan : ContactPlan} {b : Bundle} {r : Lifecycle} {lastEndTs : ℚ}
    (hlast : plan.lastEnd = some lastEndTs) (h : (outcome plan b r).terminalState ≠ .delivered) :
    (outcome plan b r).terminalState =
      if b.deadline ≤ lastEndTs then .ttlExpired else .neverScheduled := by
  rw [ne_eq, outcome_delivered_iff] at h
  unfold outcome
  cases hfirst : plan.firstContact b with
  | some w =>
      have hdead : b.deadline ≤ w.startTs := by
        by_contra halive
        exact h ⟨w, hfirst, not_le.1 halive⟩
      have hend := ContactPlan.le_lastEnd (ContactPlan.firstContact_mem hfirst).1 hlast
      have hdead' : b.deadline ≤ lastEndTs := by
        calc b.deadline
            _ ≤ w.startTs := hdead
            _ ≤ w.endTs := w.start_lt_end.le
            _ ≤ lastEndTs := hend
      simp [hdead, hdead', Lifecycle.expired]
  | none =>
      by_cases hdead : b.deadline ≤ lastEndTs
      · simp [hlast, hdead, Lifecycle.expired]
      · simp [hlast, hdead, Lifecycle.unscheduled]

theorem roomy_of_budgets {sch : Scheduler} {bundles : List Bundle}
    (hsizes : ∀ b ∈ bundles, 0 < b.sizeBytes)
    (hcap : ((totalBytes bundles : ℤ) : ℚ) ≤ sch.maxQueueBytes)
    (hbudget : ∀ w ∈ sch.plan.windows, ((totalBytes bundles : ℤ) : ℚ) * 8 ≤ w.rawBitBudget) :
    Roomy sch bundles := by
  refine ⟨hcap, fun w hw => le_trans ?_ (hbudget w hw)⟩
  rw [← load_bits]
  exact load_le_of_subperm List.filter_sublist.subperm fun b hb => Bundle.bits_nonneg (hsizes b hb)

/-- With ample capacity all policies give every bundle the same final record, a bundle is delivered
iff the predictor says so and then in its first contact, and the others are told apart by the end
of the plan. -/
theorem ample_capacity_levels_policies (plan : ContactPlan) {bundles : List Bundle}
    {records : Bundle → Lifecycle} {lastEndTs : ℚ} (hlast : plan.lastEnd = some lastEndTs)
    (h : Valid bundles records) (httl : ∀ b ∈ bundles, b.ingressTs < b.deadline)
    (hbudget : ∀ w ∈ plan.windows, ((totalBytes bundles : ℤ) : ℚ) * 8 ≤ w.rawBitBudget) :
    ∃ final : Bundle → Lifecycle,
      (∀ (sch : Scheduler) (now : ℚ), sch.plan = plan →
        ((totalBytes bundles : ℤ) : ℚ) ≤ sch.maxQueueBytes →
        ∃ s', run sch now bundles (SchedulerState.fresh records) = .ok ⟨⟩ s' ∧
          ∀ b ∈ bundles, s'.records b = final b) ∧
      ∀ b ∈ bundles,
        ((final b).terminalState = .delivered ↔ LinkController.predictOne b.ingressTs
          (plan.windows.map fun w => (w.startTs, w.endTs)) (b.deadline - b.ingressTs) = true) ∧
        ((final b).terminalState = .delivered → ∃ w,
          plan.windows.find? (fun w => decide (b.ingressTs < w.endTs)) = some w ∧
          (final b).transmissionTs = some w.startTs ∧ (final b).contactId = some w.contactId) ∧
        ((final b).terminalState ≠ .delivered → (final b).terminalState =
          if b.deadline ≤ lastEndTs then .ttlExpired else .neverScheduled) := by
  refine ⟨fun b => outcome plan b (records b), fun sch now hplan hcap => ?_,
    fun b hb => ⟨?_, ?_, ?_⟩⟩
  · subst hplan
    rcases run_outcome now (roomy_of_budgets h.sizes hcap hbudget) h
      (SchedulerState.fresh_idle records) (SchedulerState.fresh_inCredit records)
      with ⟨_, s', hrun, hrec⟩
    exact ⟨s', hrun, hrec⟩
  · rw [outcome_delivered_iff,
      LinkController.predictOne_eq_true_iff (sub_pos.2 (httl b hb)) plan.windows,
      add_sub_cancel]
    rfl
  · intro hdel
    obtain ⟨w, hfirst, halive⟩ := outcome_delivered_iff.1 hdel
    exact ⟨w, hfirst, by simp [outcome, hfirst, not_le.2 halive, Lifecycle.delivered]⟩
  · exact outcome_undelivered hlast

/-- Three bundles and one window with room for all of them. -/
theorem ample_capacity_levels_policies_small : ∃ final : Bundle → Lifecycle,
    (∀ (sch : Scheduler) (now : ℚ), sch.plan = Small.plan →
      ((totalBytes [Small.early, Small.doomed, Small.late] : ℤ) : ℚ) ≤ sch.maxQueueBytes →
      ∃ s', run sch now [Small.early, Small.doomed, Small.late]
          (SchedulerState.fresh fun _ => {}) = .ok ⟨⟩ s' ∧
        ∀ b ∈ [Small.early, Small.doomed, Small.late], s'.records b = final b) ∧
    ((final Small.early).terminalState = .delivered ↔ LinkController.predictOne
      Small.early.ingressTs (Small.plan.windows.map fun w => (w.startTs, w.endTs))
      (Small.early.deadline - Small.early.ingressTs) = true) := by
  obtain ⟨final, hruns, hfinal⟩ := ample_capacity_levels_policies Small.plan
    (rfl : Small.plan.lastEnd = some 20) Small.valid (by decide +kernel) (by decide +kernel)
  exact ⟨final, hruns, (hfinal Small.early (by simp)).1⟩

end Gateway
end LunaBridge
