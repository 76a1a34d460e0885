import LunaBridge.Gateway.Metrics
import LunaBridge.Gateway.Scheduler

/-!
# SweepHarness — one run per policy, counted by class and outcome

`computeTriageBreakdown` reruns the same bundles under every policy and counts the records of each
run in a dictionary of dictionaries.  `triageCounts_spec` says what the counting loop leaves, and
`metrics_agree` that the metrics of the same records are sums of its entries.
-/

namespace LunaBridge
namespace Gateway

open Foundation Foundation.Machine Foundation.Python

/-- The string an enum member carries. -/
def SchedulingPolicy.value : SchedulingPolicy → String
  | .fifo => "fifo"
  | .strictPriority => "strict_priority"
  | .wfq => "wfq"
  | .wfqSkipOver => "wfq_skip_over"
  | .deadlineAware => "deadline_aware"
  | .utilityAware => "utility_aware"
  | .utilityPure => "utility_pure"

/-- `ALL_POLICIES`. -/
def allPolicies : List SchedulingPolicy :=
  [.fifo, .strictPriority, .wfq, .wfqSkipOver, .deadlineAware, .utilityAware, .utilityPure]

/-- `MAX_QUEUE_BYTES`. -/
def sweepMaxQueueBytes : ℚ := 20000000000

theorem sweepMaxQueueBytes_pos : 0 < sweepMaxQueueBytes := by
  norm_num [sweepMaxQueueBytes]

/-- What the harness can raise: an exception of a run, or the `KeyError` of `counts[cls][state]`. -/
inductive SweepError
  | raised (e : PyError)
  | keyError
  deriving DecidableEq, Repr

/-! ## compute_triage_breakdown -/

/-- Records that have been captured and not yet scheduled. -/
structure Fresh (records : List BundleRecord) : Prop where
  distinct : (records.map fun r => r.bundleId).Nodup
  sizes : ∀ r ∈ records, 0 < r.sizeBytes
  lifetimes : ∀ r ∈ records, r.expirationTs ≠ none
  pending : ∀ r ∈ records, r.terminalState = .pending

/-- The fresh record of a bundle, with the lifetime of the original. -/
def freshCopy (b : BundleRecord) : Except SweepError Bundle :=
  match b.expirationTs with
  | none => .error (.raised .typeError)
  | some expirationTs =>
      .ok (Bundle.setTtl { bundleId := b.bundleId
                           flowId := b.flowId
                           trafficClass := b.trafficClass
                           sizeBytes := b.sizeBytes
                           ingressTs := b.ingressTs } (some (expirationTs - b.ingressTs)))

/-- One run: the fresh records as the scheduler leaves them.  `now` is what `time.time()` returns
in that run. -/
def rerun (plan : ContactPlan) (policy : SchedulingPolicy) (now : ℚ)
    (bundles : List BundleRecord) : Except SweepError (List BundleRecord) := do
  let runBundles ← bundles.mapM freshCopy
  let sched : Scheduler := { plan := plan
                             maxQueueBytes := sweepMaxQueueBytes
                             policy := policy
                             maxQueueBytes_pos := sweepMaxQueueBytes_pos }
  match run sched now runBundles (SchedulerState.fresh fun _ => {}) with
  | .ok _ s => .ok (runBundles.map fun b => { toBundle := b, toLifecycle := s.records b })
  | .error e _ => .error (.raised e)

/-- The counting of one record. -/
def countTriage (counts : Dict String (Dict String ℕ)) (b : BundleRecord) :
    Except SweepError (Dict String (Dict String ℕ)) :=
  let cls := b.classKey
  let state := b.terminalState.value
  -- `setdefault` returns the dictionary that is stored, so the inner default is stored too
  let counts := counts.setdefault cls .empty
  let counts := counts.set cls ((counts.getD cls .empty).setdefault state 0)
  match counts.get? cls with
  | none => .error .keyError
  | some inner =>
      match inner.get? state with
      | none => .error .keyError
      | some n => .ok (counts.set cls (inner.set state (n + 1)))

/-- The counting loop over the records of one run. -/
def triageCounts (records : List BundleRecord) : Except SweepError (Dict String (Dict String ℕ)) :=
  records.foldlM countTriage .empty

/-- `compute_triage_breakdown`, with the reading of the clock in the run of each policy. -/
def computeTriageBreakdown (clock : SchedulingPolicy → ℚ) (bundles : List BundleRecord)
    (plan : ContactPlan) : Except SweepError (Dict String (Dict String (Dict String ℕ))) :=
  let countsOf := fun policy => do
    let run ← rerun plan policy (clock policy) bundles
    triageCounts run
  allPolicies.foldlM (Dict.assignM SchedulingPolicy.value countsOf) .empty

/-- `counts[c][s]`, zero where there is no entry. -/
def triageCount (counts : Dict String (Dict String ℕ)) (c : TrafficClass) (s : TerminalState) : ℕ :=
  (counts.getD c.value .empty).getD s.value 0

/-! ## What the loop counts -/

theorem TrafficClass.value_injective : Function.Injective TrafficClass.value := by
  intro c c' h
  cases c <;> cases c' <;> first | rfl | exact absurd h (by decide)

theorem TerminalState.value_injective : Function.Injective TerminalState.value := by
  intro s s' h
  cases s <;> cases s' <;> first | rfl | exact absurd h (by decide)

/-- The two keys are there when they are read: one entry goes up by one. -/
theorem countTriage_eq (counts : Dict String (Dict String ℕ)) (b : BundleRecord) :
    countTriage counts b = .ok (counts.set b.classKey
      ((counts.getD b.classKey .empty).increment b.terminalState.value)) := by
  have hinner : (counts.setdefault b.classKey .empty).getD b.classKey .empty =
      counts.getD b.classKey .empty := by
    rw [Dict.getD, Dict.get?_setdefault_self, Option.getD_some]
  simp only [countTriage, hinner, Dict.get?_set_self, Dict.get?_setdefault_self,
    Dict.set_setdefault, Dict.set_set, Dict.increment]

theorem triageCounts_concat {records : List BundleRecord} {counts : Dict String (Dict String ℕ)}
    (h : triageCounts records = .ok counts) (b : BundleRecord) :
    triageCounts (records ++ [b]) = .ok (counts.set b.classKey
      ((counts.getD b.classKey .empty).increment b.terminalState.value)) := by
  rw [triageCounts] at h
  rw [triageCounts, List.foldlM_append, h, ← countTriage_eq]
  exact bind_pure (countTriage counts b)

/-- The loop raises nothing, and the dictionary of a class counts the states of its records. -/
theorem triageCounts_spec (records : List BundleRecord) :
    ∃ counts, triageCounts records = .ok counts ∧
      ∀ k, counts.getD k .empty = .tally (fun r => r.terminalState.value)
        (records.filter fun r => decide (r.classKey = k)) := by
  induction records using List.reverseRecOn with
  | nil => exact ⟨.empty, rfl, fun _ => rfl⟩
  | append_singleton rs r ih =>
      obtain ⟨counts, hrun, hcounts⟩ := ih
      refine ⟨_, triageCounts_concat hrun r, fun k => ?_⟩
      rw [Dict.getD, Dict.get?_set]
      by_cases hk : k = r.classKey
      · rw [if_pos hk, Option.getD_some, hcounts, hk]
        simp [Dict.tally_concat]
      · -- another class: its entry and its records are as before
        rw [if_neg hk, ← Dict.getD, hcounts, List.filter_append]
        simp [Ne.symm hk]

/-- An entry is the number of records of its class and state. -/
theorem triageCount_eq {records : List BundleRecord} {counts : Dict String (Dict String ℕ)}
    (hcounts : ∀ k, counts.getD k .empty = .tally (fun r => r.terminalState.value)
      (records.filter fun r => decide (r.classKey = k))) (c : TrafficClass) (s : TerminalState) :
    triageCount counts c s = (inState s records).countP fun r => decide (r.trafficClass = c) := by
  rw [triageCount, hcounts, Dict.getD_tally, List.countP_filter, inState, List.countP_filter]
  refine List.countP_congr fun r _ => ?_
  simp only [BundleRecord.classKey, TrafficClass.value_injective.eq_iff,
    TerminalState.value_injective.eq_iff, Bool.and_eq_true, decide_eq_true_eq]
  exact and_comm

/-- The breakdown has the counts of every policy's own run. -/
theorem computeTriageBreakdown_entry {clock : SchedulingPolicy → ℚ} {bundles : List BundleRecord}
    {plan : ContactPlan} {breakdown : Dict String (Dict String (Dict String ℕ))}
    (h : computeTriageBreakdown clock bundles plan = .ok breakdown) (policy : SchedulingPolicy) :
    ∃ records counts, rerun plan policy (clock policy) bundles = .ok records ∧
      triageCounts records = .ok counts ∧ breakdown.get? policy.value = some counts := by
  obtain ⟨counts, hrun, hget⟩ := Dict.foldlM_assignM SchedulingPolicy.value _ (by decide) h policy
    (by cases policy <;> decide)
  obtain ⟨records, hrecords, hcounts⟩ := except_bind_eq_ok.1 hrun
  exact ⟨records, counts, hrecords, hcounts, hget⟩

/-! ## One story -/

/-- `list(TrafficClass)`. -/
def trafficClasses : List TrafficClass := [.emergency, .telemetry, .scienceBulk, .media]

/-- The four outcomes. -/
def terminalStates : List TerminalState :=
  [.delivered, .ttlExpired, .queueOverflow, .neverScheduled]

theorem mem_trafficClasses (c : TrafficClass) : c ∈ trafficClasses := by
  cases c <;> decide

theorem mem_terminalStates {s : TerminalState} (hs : isTerminal s = true) :
    s ∈ terminalStates := by
  cases s <;> first | decide | exact absurd hs (by decide)

/-- A dictionary keyed by class values, with an entry on exactly the classes in `present`. -/
def Tabulates {α : Type} (d : Dict String α) (present : TrafficClass → Prop)
    (entry : TrafficClass → α) : Prop :=
  ∀ k v, d.get? k = some v ↔ ∃ c : TrafficClass, c.value = k ∧ present c ∧ v = entry c

theorem Tabulates.mapValues {α β : Type} {d : Dict String α} {present : TrafficClass → Prop}
    {entry : TrafficClass → α} (h : Tabulates d present entry) (f : String → α → β) :
    Tabulates (d.mapValues f) present fun c => f c.value (entry c) := by
  intro k v
  rw [Dict.get?_mapValues, Option.map_eq_some_iff]
  constructor
  · rintro ⟨a, ha, rfl⟩
    obtain ⟨c, rfl, hc, rfl⟩ := (h k a).1 ha
    exact ⟨c, rfl, hc, rfl⟩
  · rintro ⟨c, rfl, hc, rfl⟩
    exact ⟨entry c, (h _ _).2 ⟨c, rfl, hc, rfl⟩, rfl⟩

theorem countP_classKey (records : List BundleRecord) (c : TrafficClass) :
    records.countP (fun r => decide (r.classKey = c.value)) =
      records.countP fun r => decide (r.trafficClass = c) := by
  simp only [BundleRecord.classKey, TrafficClass.value_injective.eq_iff]

theorem tabulates_tally (records : List BundleRecord) :
    Tabulates (.tally BundleRecord.classKey records)
      (fun c => records.countP (fun r => decide (r.trafficClass = c)) ≠ 0)
      fun c => records.countP fun r => decide (r.trafficClass = c) := by
  intro k n
  rw [Dict.get?_tally_eq_some_iff]
  constructor
  · rintro ⟨rfl, hne⟩
    -- a key that is counted is the key of a record
    obtain ⟨r, _, hr⟩ := List.countP_pos_iff.1 (Nat.pos_of_ne_zero hne)
    obtain rfl : r.trafficClass.value = k := of_decide_eq_true hr
    rw [countP_classKey] at hne ⊢
    exact ⟨r.trafficClass, rfl, hne, rfl⟩
  · rintro ⟨c, rfl, hne, rfl⟩
    rw [countP_classKey]
    exact ⟨rfl, hne⟩

/-- The class counts of any records add up to their number. -/
theorem sum_countP_trafficClass (records : List BundleRecord) :
    (trafficClasses.map fun c => records.countP fun r => decide (r.trafficClass = c)).sum =
      records.length :=
  sum_countP_eq_length (fun r : BundleRecord => r.trafficClass) (by decide)
    fun _ _ => mem_trafficClasses _

/-- The state counts of a class add up to the number of its finished records. -/
theorem sum_countP_terminalState {records : List BundleRecord}
    (hterminal : ∀ r ∈ records, isTerminal r.terminalState = true) (c : TrafficClass) :
    (terminalStates.map fun s =>
      (inState s records).countP fun r => decide (r.trafficClass = c)).sum =
        records.countP fun r => decide (r.trafficClass = c) := by
  have hswap : ∀ s, (inState s records).countP (fun r => decide (r.trafficClass = c)) =
      (records.filter fun r => decide (r.trafficClass = c)).countP
        fun r => decide (r.terminalState = s) := by
    intro s
    rw [inState, List.countP_filter, List.countP_filter]
    simp only [Bool.and_comm]
  simp only [hswap]
  rw [List.countP_eq_length_filter]
  exact sum_countP_eq_length (fun r : BundleRecord => r.terminalState) (by decide)
    fun r hr => mem_terminalStates (hterminal r (List.mem_of_mem_filter hr))

/-- Every metric of these records is what the entries of `counts` make it. -/
structure Agree (counts : Dict String (Dict String ℕ)) (records : List BundleRecord) : Prop where
  missionUtility : missionUtility records =
    (trafficClasses.map fun c =>
      (classSpecs c).utilityWeight * triageCount counts c .delivered).sum -
        1000 * triageCount counts .emergency .ttlExpired
  ttlExpired : (starvationSummary records).ttlExpired =
    (trafficClasses.map fun c => triageCount counts c .ttlExpired).sum
  neverScheduled : (starvationSummary records).neverScheduled =
    (trafficClasses.map fun c => triageCount counts c .neverScheduled).sum
  queueOverflow : (starvationSummary records).queueOverflow =
    (trafficClasses.map fun c => triageCount counts c .queueOverflow).sum
  ttlExpiredByClass : Tabulates (starvationSummary records).ttlExpiredByClass
    (fun c => triageCount counts c .ttlExpired ≠ 0) fun c => triageCount counts c .ttlExpired
  neverScheduledByClass : Tabulates (starvationSummary records).neverScheduledByClass
    (fun c => triageCount counts c .neverScheduled ≠ 0)
    fun c => triageCount counts c .neverScheduled
  deliveryRatioByClass : ∃ ratios, deliveryRatioByClass records = .ok ratios ∧
    Tabulates ratios (fun c => ∃ r ∈ records, r.trafficClass = c) fun c =>
      triageCount counts c .delivered / (terminalStates.map fun s => triageCount counts c s).sum
  total : (trafficClasses.map fun c =>
    (terminalStates.map fun s => triageCount counts c s).sum).sum = records.length

theorem Agree.of_counts {counts : Dict String (Dict String ℕ)} {records : List BundleRecord}
    (hterminal : ∀ r ∈ records, isTerminal r.terminalState = true)
    (hN : ∀ c s, triageCount counts c s =
      (inState s records).countP fun r => decide (r.trafficClass = c)) : Agree counts records where
  missionUtility := by
    rw [missionUtility_eq, hN, sum_map_eq_sum_countP (fun r : BundleRecord => r.trafficClass)
      (by decide : trafficClasses.Nodup) (fun c => (classSpecs c).utilityWeight)
      fun _ _ => mem_trafficClasses _]
    simp only [hN]
  ttlExpired := by
    simp only [starvationSummary_eq, hN, sum_countP_trafficClass]
  neverScheduled := by
    simp only [starvationSummary_eq, hN, sum_countP_trafficClass]
  queueOverflow := by
    simp only [starvationSummary_eq, hN, sum_countP_trafficClass]
  ttlExpiredByClass := by
    simp only [starvationSummary_eq, hN]
    exact tabulates_tally _
  neverScheduledByClass := by
    simp only [starvationSummary_eq, hN]
    exact tabulates_tally _
  deliveryRatioByClass := by
    refine ⟨_, deliveryRatioByClass_eq records, ?_⟩
    have hpresent : ∀ c, (∃ r ∈ records, r.trafficClass = c) ↔
        records.countP (fun r => decide (r.trafficClass = c)) ≠ 0 := by
      intro c
      simp [List.countP_eq_zero]
    have hkey : ∀ c, (inState .delivered records).countP (fun r => decide (r.trafficClass = c)) =
        (Dict.tally BundleRecord.classKey (inState .delivered records)).getD c.value 0 := by
      intro c
      rw [Dict.getD_tally, countP_classKey]
    simp only [hN, hpresent, sum_countP_terminalState hterminal, hkey]
    exact (tabulates_tally records).mapValues _
  total := by
    simp only [hN, sum_countP_terminalState hterminal, sum_countP_trafficClass]

/-- However the records are listed, the metrics, the summaries and the breakdown agree. -/
theorem metrics_agree {records : List BundleRecord}
    (hterminal : ∀ r ∈ records, isTerminal r.terminalState = true) :
    ∃ counts, triageCounts records = .ok counts ∧
      ∀ records' : List BundleRecord, records'.Perm records → Agree counts records' := by
  obtain ⟨counts, hrun, hcounts⟩ := triageCounts_spec records
  refine ⟨counts, hrun, fun records' hperm => ?_⟩
  refine .of_counts (fun r hr => hterminal r (hperm.mem_iff.1 hr)) fun c s => ?_
  rw [triageCount_eq hcounts]
  exact ((hperm.filter _).countP_eq _).symm

namespace Small

/-- A finished record. -/
def finished (bundleId : String) (trafficClass : TrafficClass) (state : TerminalState) :
    BundleRecord where
  bundleId := bundleId
  flowId := "f"
  trafficClass := trafficClass
  sizeBytes := 100
  ingressTs := 0
  terminalState := state

/-- Two classes, three outcomes. -/
def finishedRecords : List BundleRecord :=
  [finished "a" .emergency .ttlExpired, finished "b" .media .delivered,
    finished "c" .media .neverScheduled]

end Small

theorem metrics_agree_small :
    ∃ counts, triageCounts Small.finishedRecords = .ok counts ∧
      ∀ records' : List BundleRecord, records'.Perm Small.finishedRecords → Agree counts records' :=
  metrics_agree (by decide)

end Gateway
end LunaBridge
