import LunaBridge.Scheduling.Tracking

/-!
# Fate — what can become of a bundle

`Fate` lists the ways a bundle can end, with the plan data that justify each of them.  Every run
gives every bundle a fate.
-/

namespace LunaBridge
namespace Gateway

open Foundation.Machine Foundation.Selection Foundation.Trace Foundation.StableSort
open Foundation.GreedyFill

/-- What can become of the bundle `b` with initial record `r`. -/
inductive Fate (plan : ContactPlan) (b : Bundle) (r : Lifecycle) : Lifecycle → Prop
  | delivered {w : ContactWindow} (hw : w ∈ plan.windows) (harrived : b.ingressTs < w.endTs)
      (halive : w.startTs < b.deadline) (hfits : b.bits ≤ w.rawBitBudget) :
      Fate plan b r ((r.admitted b.ingressTs).delivered w)
  | expired {lastEndTs : ℚ} (hlast : plan.lastEnd = some lastEndTs)
      (hdead : b.deadline ≤ lastEndTs) : Fate plan b r (r.admitted b.ingressTs).expired
  | dropped : Fate plan b r r.overflowed
  | evicted : Fate plan b r (r.admitted b.ingressTs).overflowed
  | unscheduled (halive : ∀ lastEndTs, plan.lastEnd = some lastEndTs → lastEndTs < b.deadline) :
      Fate plan b r (r.admitted b.ingressTs).unscheduled

/-- A fate is one of the four terminal states. -/
theorem Fate.terminal {plan : ContactPlan} {b : Bundle} {r r' : Lifecycle} (h : Fate plan b r r') :
    r'.terminalState ∈ [.delivered, .ttlExpired, .queueOverflow, .neverScheduled] := by
  cases h <;> simp [Lifecycle.delivered, Lifecycle.expired, Lifecycle.overflowed,
    Lifecycle.unscheduled]

/-- One event keeps track of every bundle on the way to its fate. -/
theorem Tracked.step {sch : Scheduler} {bundles : List Bundle} {records : Bundle → Lifecycle}
    {credit : Prop} {e : Event} {es : List Event} {β β' : Buffer}
    (hon : OnTimeline sch bundles (e :: es) β)
    (h : Tracked (fun b r => Fate sch.plan b (records b) r) bundles records (offered (e :: es)) β)
    (hstep : Step sch credit e β β') :
    Tracked (fun b r => Fate sch.plan b (records b) r) bundles records (offered es) β' := by
  have hwf := hon.wellFormed
  cases hstep with
  | arrival b => exact h.offer hwf .dropped fun _ _ => .evicted
  | @contact w _ sent service =>
      -- first the dead leave, then what is sent
      have hdead : ∀ v ∈ β.active.filter (fun b => b.expiredBy w.startTs),
          Fate sch.plan v (records v) ((records v).admitted v.ingressTs).expired := by
        intro v hv
        rcases List.mem_filter.1 hv with ⟨hact, hexp⟩
        have hdeadline := (Bundle.expiredBy_iff (hwf.active_lifetime hact) w.startTs).1 hexp
        obtain ⟨lastEndTs, hlast, hpast⟩ :=
          ContactPlan.exists_lastEnd_of_le hon.window_mem hdeadline
        exact .expired hlast hpast
      have hexp := h.remove (f := Lifecycle.expired) hwf
        (fun v hv => List.mem_of_mem_filter hv) hdead
      have hready := fun b (hb : b ∈ sent) => of_mem_ready_expire hwf (service.subset b hb)
      refine Tracked.remove hexp (hwf.expire w.startTs)
        (fun b hb => List.mem_of_mem_filter (service.subset b hb)) fun b hb => ?_
      refine .delivered hon.window_mem (hready b hb).2.1 (hready b hb).2.2 ?_
      calc b.bits
          _ = load Bundle.bits [b] := by simp
          _ ≤ load Bundle.bits sent :=
            load_le_of_subperm (List.singleton_sublist.2 hb).subperm
              fun c hc => Bundle.bits_nonneg (hwf.active_size_pos (hready c hc).1)
          _ ≤ w.rawBitBudget := service.inBudget

/-- Every run gives every bundle a fate. -/
theorem run_fates (sch : Scheduler) (now : ℚ) {bundles : List Bundle} {s : SchedulerState}
    (h : Valid bundles s.records) (hs : s.Idle) :
    Returns (run sch now bundles) s fun _ s' =>
      ∀ b ∈ bundles, Fate sch.plan b (s.records b) (s'.records b) := by
  refine (run_induction (I := fun es β => Tracked (fun b r => Fate sch.plan b (s.records b) r)
    bundles s.records (offered es) β) (fun _ _ _ _ hon hI he => hI.step hon he) h hs (.start hs)
    now).mono ?_
  rintro _ s' ⟨β, hwf, hend, hbuffer⟩
  rw [hbuffer]
  exact hend.finish hwf (fun _ _ _ hlast hdead => .expired hlast hdead)
    fun _ _ halive => .unscheduled halive

/-- The window loop visits every window once, in order of their starts, and a run on valid bundles
raises nothing and leaves every bundle in one of the four terminal states.  When a lifetime is
missing, the run raises with nothing changed. -/
theorem run_settles_every_bundle (sch : Scheduler) (now : ℚ) (bundles : List Bundle)
    (records : Bundle → Lifecycle) :
    (∀ fuel, sch.plan.windows.length ≤ fuel →
      walkPlan sch fuel (sch.plan.nextAfter ⊥) bundles none =
        serveEach sch sch.plan.windows bundles none) ∧
    sch.plan.windows.Pairwise (fun v w => v.startTs < w.startTs) ∧
    (Valid bundles records →
      ∃ s', run sch now bundles (SchedulerState.fresh records) = .ok ⟨⟩ s' ∧
        ∀ b ∈ bundles, (s'.records b).terminalState ∈
          [.delivered, .ttlExpired, .queueOverflow, .neverScheduled]) ∧
    ((∃ b ∈ bundles, b.expirationTs = none) → ∀ s, ∃ b ∈ bundles, b.expirationTs = none ∧
      run sch now bundles s = .error (missingExpiration b) s) := by
  refine ⟨fun fuel hfuel => ?_, sch.plan.pairwise_startTs, fun h => ?_,
    fun h s => run_missing_expiration h now s⟩
  · rw [sch.plan.nextAfter_bot]
    exact walkPlan_eq_serveEach sch _ [] _ bundles none rfl hfuel
  · rcases run_fates sch now h (SchedulerState.fresh_idle records) with ⟨_, s', hrun, hfate⟩
    exact ⟨s', hrun, fun b hb => (hfate b hb).terminal⟩

theorem run_settles_every_bundle_small :
    ∃ s', run Small.scheduler 0 [Small.early, Small.doomed, Small.late]
        (SchedulerState.fresh fun _ => {}) = .ok ⟨⟩ s' ∧
      ∀ b ∈ [Small.early, Small.doomed, Small.late], (s'.records b).terminalState ∈
        [.delivered, .ttlExpired, .queueOverflow, .neverScheduled] :=
  (run_settles_every_bundle Small.scheduler 0 _ _).2.2.1 Small.valid

/-- What the record of a bundle that started out blank says about the bundle. -/
structure Accounted (plan : ContactPlan) (b : Bundle) (r : Lifecycle) : Prop where
  delivered : r.terminalState = .delivered → ∃ w ∈ plan.windows,
    r.transmissionTs = some w.startTs ∧ r.deliveryTs = some w.startTs ∧
    r.contactId = some w.contactId ∧ b.ingressTs < w.endTs ∧ w.startTs < b.deadline
  expired : r.terminalState = .ttlExpired → r.queueAdmissionTs = some b.ingressTs ∧
    r.transmissionTs = none ∧ r.deliveryTs = none ∧
    ∃ lastEndTs, plan.lastEnd = some lastEndTs ∧ b.deadline ≤ lastEndTs
  unscheduled : r.terminalState = .neverScheduled → r.queueAdmissionTs = some b.ingressTs ∧
    r.transmissionTs = none ∧ r.deliveryTs = none ∧
    ∀ lastEndTs, plan.lastEnd = some lastEndTs → lastEndTs < b.deadline
  overflowed : r.terminalState = .queueOverflow → r.transmissionTs = none ∧ r.deliveryTs = none
  emptyPlan : plan.windows = [] → r.queueAdmissionTs ≠ none → r.terminalState ≠ .queueOverflow →
    r.terminalState = .neverScheduled

theorem Fate.accounted {plan : ContactPlan} {b : Bundle} {r : Lifecycle} (h : Fate plan b {} r) :
    Accounted plan b r := by
  cases h with
  | @delivered w hw harrived halive hfits =>
      refine ⟨fun _ => ⟨w, hw, rfl, rfl, rfl, harrived, halive⟩, nofun, nofun, nofun, ?_⟩
      intro hnil
      rw [hnil] at hw
      cases hw
  | @expired lastEndTs hlast hdead =>
      refine ⟨nofun, fun _ => ⟨rfl, rfl, rfl, lastEndTs, hlast, hdead⟩, nofun, nofun, ?_⟩
      intro hnil
      rw [ContactPlan.lastEnd_eq_none.2 hnil] at hlast
      cases hlast
  | dropped => exact ⟨nofun, nofun, nofun, fun _ => ⟨rfl, rfl⟩, fun _ h => absurd rfl h⟩
  | evicted => exact ⟨nofun, nofun, nofun, fun _ => ⟨rfl, rfl⟩, fun _ _ h => absurd rfl h⟩
  | unscheduled halive =>
      exact ⟨nofun, nofun, fun _ => ⟨rfl, rfl, rfl, halive⟩, nofun, fun _ _ _ => rfl⟩

/-- Delivery, deadline loss, starvation and overflow are told apart as the records say. -/
theorem run_accounts_for_every_bundle (sch : Scheduler) (now : ℚ) {bundles : List Bundle}
    {records : Bundle → Lifecycle} (h : Valid bundles records)
    (hblank : ∀ b ∈ bundles, records b = {}) :
    ∃ s', run sch now bundles (SchedulerState.fresh records) = .ok ⟨⟩ s' ∧
      ∀ b ∈ bundles, Accounted sch.plan b (s'.records b) := by
  rcases run_fates sch now h (SchedulerState.fresh_idle records) with ⟨_, s', hrun, hfate⟩
  refine ⟨s', hrun, fun b hb => Fate.accounted ?_⟩
  have hb' : Fate sch.plan b (records b) (s'.records b) := hfate b hb
  rwa [hblank b hb] at hb'

/-- One bundle of each outcome but overflow: sent, expired in the queue, and left over. -/
theorem run_accounts_for_every_bundle_small :
    ∃ s', run Small.scheduler 0 [Small.early, Small.doomed, Small.late]
        (SchedulerState.fresh fun _ => {}) = .ok ⟨⟩ s' ∧
      ∀ b ∈ [Small.early, Small.doomed, Small.late],
        Accounted Small.scheduler.plan b (s'.records b) :=
  run_accounts_for_every_bundle Small.scheduler 0 Small.valid fun _ _ => rfl

end Gateway
end LunaBridge
