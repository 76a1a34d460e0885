import LunaBridge.Gateway.SweepHarness
import LunaBridge.Scheduling.Noninterference

/-!
# TtlSweep — one workload under every policy, and under several lifetimes of one class

`runAllPolicies` reports on a run under each policy, `sweepTtl` does so for each lifetime that is
tried for a class.  `sweepTtl_spares_higher_ranks` says which entries of the reports cannot depend
on the lifetime.
-/

namespace LunaBridge
namespace Gateway

open Foundation Foundation.Machine Foundation.Python

/-! ## The sweep -/

/-- The three metrics of a run. -/
structure PolicyMetrics where
  missionUtility : ℚ
  deliveryRatioByClass : Dict String ℚ
  starvationSummary : StarvationSummary

/-- The metrics of the records of one run. -/
def policyMetrics (records : List BundleRecord) : Except SweepError PolicyMetrics :=
  match deliveryRatioByClass records with
  | .ok ratios =>
      .ok { missionUtility := missionUtility records
            deliveryRatioByClass := ratios
            starvationSummary := starvationSummary records }
  | .error e => .error (.raised e)

/-- The run of one policy, and its metrics. -/
def runOnePolicy (clock : SchedulingPolicy → ℚ) (bundles : List BundleRecord) (plan : ContactPlan)
    (policy : SchedulingPolicy) : Except SweepError PolicyMetrics := do
  let run ← rerun plan policy (clock policy) bundles
  policyMetrics run

/-- `run_all_policies`, with the reading of the clock in the run of each policy. -/
def runAllPolicies (clock : SchedulingPolicy → ℚ) (bundles : List BundleRecord)
    (plan : ContactPlan) : Except SweepError (Dict String PolicyMetrics) :=
  allPolicies.foldlM (Dict.assignM SchedulingPolicy.value (runOnePolicy clock bundles plan)) .empty

/-- `if b.traffic_class is traffic_class: b.set_ttl(ttl_s=ttl)`. -/
def overrideTtl (tc : TrafficClass) (ttl : ℚ) (b : BundleRecord) : BundleRecord :=
  if b.trafficClass = tc then { b with toBundle := b.toBundle.setTtl (some ttl) } else b

/-- `sweep_ttl`, for the plan that has been loaded and the workload that the seed gives. -/
def sweepTtl (clock : ℚ → SchedulingPolicy → ℚ) (tc : TrafficClass) (ttlValues : List ℚ)
    (workload : List BundleRecord) (plan : ContactPlan) :
    Except SweepError (Dict ℚ (Dict String PolicyMetrics)) :=
  ttlValues.foldlM (Dict.assignM id fun ttl =>
    runAllPolicies (clock ttl) (workload.map (overrideTtl tc ttl)) plan) .empty

/-- What the metrics of a run say about one class alone. -/
def PolicyMetrics.ofClass (m : PolicyMetrics) (c : TrafficClass) :
    Option ℚ × Option ℕ × Option ℕ :=
  (m.deliveryRatioByClass.get? c.value, m.starvationSummary.ttlExpiredByClass.get? c.value,
    m.starvationSummary.neverScheduledByClass.get? c.value)

/-! ## The records of a run -/

/-- The fresh record of a bundle that has a lifetime. -/
def copyOf (b : BundleRecord) : Bundle where
  bundleId := b.bundleId
  flowId := b.flowId
  trafficClass := b.trafficClass
  sizeBytes := b.sizeBytes
  ingressTs := b.ingressTs
  expirationTs := b.expirationTs

theorem freshCopy_eq {b : BundleRecord} (h : b.expirationTs ≠ none) :
    freshCopy b = .ok (copyOf b) := by
  obtain ⟨expirationTs, hexp⟩ := Option.ne_none_iff_exists'.1 h
  rw [freshCopy, copyOf, hexp]
  simp [Bundle.setTtl]

theorem valid_copies {bundles : List BundleRecord} (h : Fresh bundles) :
    Valid (bundles.map copyOf) fun _ => {} where
  distinct := by
    rw [List.map_map]
    exact h.distinct
  sizes := List.forall_mem_map.2 h.sizes
  lifetimes := List.forall_mem_map.2 h.lifetimes
  pending := fun _ _ => rfl

/-- The scheduler of a sweep. -/
def sweepScheduler (plan : ContactPlan) (policy : SchedulingPolicy) : Scheduler where
  plan := plan
  maxQueueBytes := sweepMaxQueueBytes
  policy := policy
  maxQueueBytes_pos := sweepMaxQueueBytes_pos

theorem rerun_eq {bundles : List BundleRecord} (h : Fresh bundles) {plan : ContactPlan}
    {policy : SchedulingPolicy} {now : ℚ} {s : SchedulerState}
    (hrun : run (sweepScheduler plan policy) now (bundles.map copyOf)
      (SchedulerState.fresh fun _ => {}) = .ok ⟨⟩ s) :
    rerun plan policy now bundles =
      .ok ((bundles.map copyOf).map fun b => { toBundle := b, toLifecycle := s.records b }) := by
  have hcopies : bundles.mapM freshCopy = .ok (bundles.map copyOf) :=
    mapM_eq_ok fun b hb => freshCopy_eq (h.lifetimes b hb)
  rw [sweepScheduler] at hrun
  simp only [rerun, hcopies, bind, Except.bind, hrun]

/-- A count of records, as it is filed under their class: there is no entry for zero. -/
def entry (n : ℕ) : Option ℕ := if n = 0 then none else some n

theorem get?_tally_class (records : List BundleRecord) (c : TrafficClass) :
    (Dict.tally BundleRecord.classKey records).get? c.value =
      entry (records.filter fun r => decide (r.trafficClass = c)).length := by
  rw [Dict.get?_tally, countP_classKey, List.countP_eq_length_filter, entry]

theorem filter_inState (state : TerminalState) (records : List BundleRecord) (c : TrafficClass) :
    (inState state records).filter (fun r => decide (r.trafficClass = c)) =
      inState state (records.filter fun r => decide (r.trafficClass = c)) := by
  rw [inState, inState, List.filter_filter, List.filter_filter]
  simp only [Bool.and_comm]

/-- The metrics can be computed, and what they say about a class is read off its own records. -/
theorem policyMetrics_eq (records : List BundleRecord) :
    ∃ m, policyMetrics records = .ok m ∧ ∀ c, m.ofClass c =
      let own := records.filter fun r => decide (r.trafficClass = c)
      ((entry own.length).map fun n : ℕ => (inState .delivered own).length / (n : ℚ),
        entry (inState .ttlExpired own).length, entry (inState .neverScheduled own).length) := by
  refine ⟨_, by rw [policyMetrics, deliveryRatioByClass_eq], fun c => ?_⟩
  have hdelivered : (Dict.tally BundleRecord.classKey (inState .delivered records)).getD c.value 0 =
      (inState .delivered (records.filter fun r => decide (r.trafficClass = c))).length := by
    rw [Dict.getD_tally, countP_classKey, List.countP_eq_length_filter, filter_inState]
  simp only [PolicyMetrics.ofClass, starvationSummary_eq, Dict.get?_mapValues, get?_tally_class,
    filter_inState, hdelivered]

/-! ## Two runs of a sweep -/

/-- What the runs of two preempting policies do to the bundles up to some rank is the same if these
bundles are. -/
theorem runs_agree {sch₁ sch₂ : Scheduler} {r : ℤ} (halike : Alike sch₁ sch₂ r)
    {bundles₁ bundles₂ : List Bundle} {records : Bundle → Lifecycle}
    (h₁ : Valid bundles₁ records) (h₂ : Valid bundles₂ records)
    (hsame : bundles₁.filter (Bundle.upTo r) = bundles₂.filter (Bundle.upTo r)) (now₁ now₂ : ℚ) :
    ∃ s₁ s₂, run sch₁ now₁ bundles₁ (SchedulerState.fresh records) = .ok ⟨⟩ s₁ ∧
      run sch₂ now₂ bundles₂ (SchedulerState.fresh records) = .ok ⟨⟩ s₂ ∧
      ∀ b : Bundle, b.rank ≤ r → s₁.records b = s₂.records b := by
  have hidle := SchedulerState.fresh_idle records
  have halike₂ : Alike sch₂ sch₂ r :=
    ⟨rfl, rfl, halike.aware', halike.aware', halike.preempts', halike.preempts'⟩
  -- both are compared with the second scheduler's run on these bundles alone
  obtain ⟨s₁, t₁, hrun₁, ht₁, hsame₁⟩ :=
    run_shadow halike h₁ hidle hidle (fun _ _ => rfl) now₁ 0
  obtain ⟨s₂, t₂, hrun₂, ht₂, hsame₂⟩ :=
    run_shadow halike₂ h₂ hidle hidle (fun _ _ => rfl) now₂ 0
  rw [hsame, ht₂] at ht₁
  cases ht₁
  refine ⟨s₁, s₂, hrun₁, hrun₂, fun b hb => ?_⟩
  calc s₁.records b
      _ = t₁.records b := hsame₁ b hb
      _ = s₂.records b := (hsame₂ b hb).symm

/-- The bundles of the other classes are the same whichever lifetime is tried. -/
theorem filter_override {tc : TrafficClass} {r : ℤ} (hr : r < (classSpecs tc).rank) (ttl : ℚ)
    (workload : List BundleRecord) :
    ((workload.map (overrideTtl tc ttl)).map copyOf).filter (Bundle.upTo r) =
      (workload.map copyOf).filter (Bundle.upTo r) := by
  induction workload with
  | nil => rfl
  | cons b workload ih =>
      rw [List.map_cons, List.map_cons, List.map_cons, List.filter_cons, List.filter_cons, ih]
      by_cases hb : b.trafficClass = tc
      · have hout : ∀ b' : Bundle, b'.trafficClass = tc → Bundle.upTo r b' = false := by
          rintro b' rfl
          exact Bundle.upTo_eq_false.2 hr
        have hclass : (copyOf (overrideTtl tc ttl b)).trafficClass = tc := by
          rw [overrideTtl, if_pos hb]
          exact hb
        rw [hout _ hclass, hout (copyOf b) hb]
        rfl
      · rw [overrideTtl, if_neg hb]

theorem fresh_override {workload : List BundleRecord} (h : Fresh workload) (tc : TrafficClass)
    (ttl : ℚ) : Fresh (workload.map (overrideTtl tc ttl)) where
  distinct := by
    have hid : ∀ b : BundleRecord, (overrideTtl tc ttl b).bundleId = b.bundleId := fun b => by
      rw [overrideTtl]
      split_ifs <;> rfl
    rw [List.map_map]
    simp only [Function.comp_def, hid]
    exact h.distinct
  sizes := by
    refine List.forall_mem_map.2 fun b hb => ?_
    rw [overrideTtl]
    split_ifs
    · exact h.sizes b hb
    · exact h.sizes b hb
  lifetimes := by
    refine List.forall_mem_map.2 fun b hb => ?_
    rw [overrideTtl]
    split_ifs
    · exact Option.some_ne_none _
    · exact h.lifetimes b hb
  pending := by
    refine List.forall_mem_map.2 fun b hb => ?_
    rw [overrideTtl]
    split_ifs
    · exact h.pending b hb
    · exact h.pending b hb

/-- The records of one class after two runs that agree on it. -/
theorem own_records_eq {copies₁ copies₂ : List Bundle} {s₁ s₂ : SchedulerState} {c : TrafficClass}
    (hcopies : copies₁.filter (Bundle.upTo (classSpecs c).rank) =
      copies₂.filter (Bundle.upTo (classSpecs c).rank))
    (hrecords : ∀ b : Bundle, b.rank ≤ (classSpecs c).rank → s₁.records b = s₂.records b) :
    (copies₁.map fun b => (⟨b, s₁.records b⟩ : BundleRecord)).filter
        (fun r => decide (r.trafficClass = c)) =
      (copies₂.map fun b => (⟨b, s₂.records b⟩ : BundleRecord)).filter
        fun r => decide (r.trafficClass = c) := by
  have hfilter : ∀ copies : List Bundle, copies.filter (fun b => decide (b.trafficClass = c)) =
      (copies.filter (Bundle.upTo (classSpecs c).rank)).filter
        fun b => decide (b.trafficClass = c) := by
    intro copies
    rw [List.filter_filter]
    refine List.filter_congr fun b _ => ?_
    by_cases hb : b.trafficClass = c
    · have hrank : Bundle.upTo (classSpecs c).rank b = true := by
        rw [Bundle.upTo_eq_true, Bundle.rank, hb]
      simp [hb, hrank]
    · simp [hb]
  rw [List.filter_map, List.filter_map]
  have hown : copies₁.filter (fun b => decide (b.trafficClass = c)) =
      copies₂.filter fun b => decide (b.trafficClass = c) := by
    rw [hfilter, hfilter copies₂, hcopies]
  show (copies₁.filter fun b => decide (b.trafficClass = c)).map _ =
    (copies₂.filter fun b => decide (b.trafficClass = c)).map _
  rw [hown]
  refine List.map_congr_left fun b hb => ?_
  have hclass : b.trafficClass = c := by simpa using (List.mem_filter.1 hb).2
  rw [hrecords b (by rw [Bundle.rank, hclass])]

/-! ## The reports of a sweep -/

/-- The report on a policy at a lifetime. -/
def reportOn (results : Dict ℚ (Dict String PolicyMetrics)) (ttl : ℚ) (policy : SchedulingPolicy) :
    Option PolicyMetrics :=
  (results.get? ttl).bind fun reports => reports.get? policy.value

theorem runOnePolicy_returns {bundles : List BundleRecord} (h : Fresh bundles)
    (clock : SchedulingPolicy → ℚ) (plan : ContactPlan) (policy : SchedulingPolicy) :
    ∃ m, runOnePolicy clock bundles plan policy = .ok m := by
  obtain ⟨_, s, hrun, -⟩ := run_spec (valid_copies h)
    (SchedulerState.fresh_idle _) (clock policy)
  obtain ⟨m, hm, -⟩ := policyMetrics_eq
    ((bundles.map copyOf).map fun b => { toBundle := b, toLifecycle := s.records b })
  exact ⟨m, except_bind_eq_ok.2 ⟨_, rerun_eq h hrun, hm⟩⟩

theorem sweepTtl_returns {workload : List BundleRecord} (h : Fresh workload)
    (clock : ℚ → SchedulingPolicy → ℚ) (tc : TrafficClass) (ttlValues : List ℚ)
    (plan : ContactPlan) :
    ∃ results, sweepTtl clock tc ttlValues workload plan = .ok results ∧
      ∀ ttl ∈ ttlValues, ∀ policy, ∃ m, reportOn results ttl policy = some m ∧
        runOnePolicy (clock ttl) (workload.map (overrideTtl tc ttl)) plan policy = .ok m := by
  have hone : ∀ ttl policy, ∃ m,
      runOnePolicy (clock ttl) (workload.map (overrideTtl tc ttl)) plan policy = .ok m :=
    fun ttl policy => runOnePolicy_returns (fresh_override h tc ttl) (clock ttl) plan policy
  choose metrics hmetrics using hone
  have hvalue : Function.Injective SchedulingPolicy.value := by
    intro p q hpq
    cases p <;> cases q <;> first | rfl | exact absurd hpq (by decide)
  have hall : ∀ ttl, ∃ reports,
      runAllPolicies (clock ttl) (workload.map (overrideTtl tc ttl)) plan = .ok reports ∧
        ∀ policy : SchedulingPolicy, reports.get? policy.value = some (metrics ttl policy) := by
    intro ttl
    obtain ⟨reports, hrun, hget⟩ :=
      Dict.foldlM_assignM_eq_ok hvalue allPolicies fun policy _ => hmetrics ttl policy
    refine ⟨reports, hrun, fun policy => ?_⟩
    rw [hget, if_pos (by cases policy <;> decide)]
  choose reports hreports hentries using hall
  obtain ⟨results, hrun, hget⟩ :=
    Dict.foldlM_assignM_eq_ok Function.injective_id ttlValues fun ttl _ => hreports ttl
  refine ⟨results, hrun, fun ttl httl policy => ⟨metrics ttl policy, ?_, hmetrics ttl policy⟩⟩
  have hresults : results.get? ttl = some (reports ttl) := (hget ttl).trans (if_pos httl)
  rw [reportOn, hresults, Option.bind_some, hentries]

/-- Two reports agree on a class that both policies serve first. -/
theorem runOnePolicy_agrees {workload : List BundleRecord} (h : Fresh workload)
    {clock clock' : SchedulingPolicy → ℚ} {tc c : TrafficClass}
    (hrank : (classSpecs c).rank < (classSpecs tc).rank) {plan : ContactPlan} {ttl ttl' : ℚ}
    {policy policy' : SchedulingPolicy}
    (halike : Alike (sweepScheduler plan policy) (sweepScheduler plan policy') (classSpecs c).rank)
    {m m' : PolicyMetrics}
    (hm : runOnePolicy clock (workload.map (overrideTtl tc ttl)) plan policy = .ok m)
    (hm' : runOnePolicy clock' (workload.map (overrideTtl tc ttl')) plan policy' = .ok m') :
    m.ofClass c = m'.ofClass c := by
  have hfresh := fresh_override h tc ttl
  have hfresh' := fresh_override h tc ttl'
  have hsame := (filter_override hrank ttl workload).trans
    (filter_override hrank ttl' workload).symm
  obtain ⟨s, s', hrun, hrun', hrecords⟩ := runs_agree halike (valid_copies hfresh)
    (valid_copies hfresh') hsame (clock policy) (clock' policy')
  rw [runOnePolicy, rerun_eq hfresh hrun] at hm
  rw [runOnePolicy, rerun_eq hfresh' hrun'] at hm'
  have hown := own_records_eq hsame hrecords
  obtain ⟨n, hn, hclass⟩ := policyMetrics_eq
    (((workload.map (overrideTtl tc ttl)).map copyOf).map fun b =>
      { toBundle := b, toLifecycle := s.records b })
  obtain ⟨n', hn', hclass'⟩ := policyMetrics_eq
    (((workload.map (overrideTtl tc ttl')).map copyOf).map fun b =>
      { toBundle := b, toLifecycle := s'.records b })
  obtain rfl : n = m := Except.ok.inj (hn.symm.trans hm)
  obtain rfl : n' = m' := Except.ok.inj (hn'.symm.trans hm')
  rw [hclass, hclass']
  dsimp only
  rw [hown]

/-- Whichever lifetimes are tried for a class, and at whatever instants the runs are made: there is
a report for every lifetime and policy; the reports of STRICT_PRIORITY all say the same about every
class of higher priority, and if the class is not EMERGENCY, all reports of the three preempting
policies say the same about EMERGENCY. -/
theorem sweepTtl_spares_higher_ranks {workload : List BundleRecord} (h : Fresh workload)
    (clock : ℚ → SchedulingPolicy → ℚ) (tc : TrafficClass) (ttlValues : List ℚ)
    (plan : ContactPlan) :
    ∃ results, sweepTtl clock tc ttlValues workload plan = .ok results ∧
      (∀ ttl ∈ ttlValues, ∀ policy, ∃ m, reportOn results ttl policy = some m) ∧
      ∀ ttl ∈ ttlValues, ∀ ttl' ∈ ttlValues,
        (∀ c : TrafficClass, (classSpecs c).rank < (classSpecs tc).rank →
          (reportOn results ttl .strictPriority).map (·.ofClass c) =
            (reportOn results ttl' .strictPriority).map (·.ofClass c)) ∧
        (tc ≠ .emergency → ∀ policy policy', Preempting policy → Preempting policy' →
          (reportOn results ttl policy).map (·.ofClass .emergency) =
            (reportOn results ttl' policy').map (·.ofClass .emergency)) := by
  obtain ⟨results, hrun, hreports⟩ := sweepTtl_returns h clock tc ttlValues plan
  refine ⟨results, hrun, fun ttl httl policy => ?_, fun ttl httl ttl' httl' => ⟨?_, ?_⟩⟩
  · obtain ⟨m, hm, -⟩ := hreports ttl httl policy
    exact ⟨m, hm⟩
  · intro c hrank
    obtain ⟨m, hm, hone⟩ := hreports ttl httl .strictPriority
    obtain ⟨m', hm', hone'⟩ := hreports ttl' httl' .strictPriority
    have hpre : Preempts (sweepScheduler plan .strictPriority) (classSpecs c).rank :=
      preempts_strictPriority rfl _
    rw [hm, hm', Option.map_some, Option.map_some,
      runOnePolicy_agrees h hrank ⟨rfl, rfl, rfl, rfl, hpre, hpre⟩ hone hone']
  · intro htc policy policy' hpolicy hpolicy'
    obtain ⟨m, hm, hone⟩ := hreports ttl httl policy
    obtain ⟨m', hm', hone'⟩ := hreports ttl' httl' policy'
    have hrank : (classSpecs .emergency).rank < (classSpecs tc).rank :=
      not_le.1 (mt (classSpecs_rank_le_zero_iff tc).1 htc)
    have haware : ∀ {p}, Preempting p →
        (sweepScheduler plan p).admissionIsPriorityAware = true := by
      rintro p (rfl | rfl | rfl) <;> rfl
    have halike : Alike (sweepScheduler plan policy) (sweepScheduler plan policy')
        (classSpecs .emergency).rank :=
      ⟨rfl, rfl, haware hpolicy, haware hpolicy', preempts_emergency hpolicy,
        preempts_emergency hpolicy'⟩
    rw [hm, hm', Option.map_some, Option.map_some, runOnePolicy_agrees h hrank halike hone hone']

namespace Small

/-- An alert and a segment of video. -/
def sweptWorkload : List BundleRecord :=
  [{ bundleId := "1", flowId := "f", trafficClass := .emergency, sizeBytes := 128, ingressTs := 0
     expirationTs := some 300 },
    { bundleId := "2", flowId := "f", trafficClass := .media, sizeBytes := 1400, ingressTs := 1
      expirationTs := some 3601 }]

theorem sweptWorkload_fresh : Fresh sweptWorkload where
  distinct := by decide +kernel
  sizes := by decide +kernel
  lifetimes := by decide +kernel
  pending := by decide +kernel

end Small

/-- Two lifetimes of the video. -/
theorem sweepTtl_spares_higher_ranks_small :
    ∃ results, sweepTtl (fun _ _ => 0) .media [5, 100] Small.sweptWorkload Small.plan =
        .ok results ∧
      ∀ policy policy', Preempting policy → Preempting policy' →
        (reportOn results 5 policy).map (·.ofClass .emergency) =
          (reportOn results 100 policy').map (·.ofClass .emergency) := by
  obtain ⟨results, hrun, -, hspared⟩ := sweepTtl_spares_higher_ranks Small.sweptWorkload_fresh
    (fun _ _ => 0) .media [5, 100] Small.plan
  exact ⟨results, hrun, (hspared 5 (by simp) 100 (by simp)).2 (by decide)⟩

end Gateway
end LunaBridge
