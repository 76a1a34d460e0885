import LunaBridge.Gateway.PcapToTrace
import LunaBridge.Gateway.SweepHarness
import LunaBridge.Scheduling.Fate

/-!
# TraceScheduler — a captured trace, replayed under a policy

* `runPolicy` runs copies of the records that have been read back, `outcomeTable` counts them;
* `every_packet_has_an_outcome` follows the packets of a capture through the file and the scheduler
  into the table.
-/

namespace LunaBridge
namespace Analysis

open Gateway Foundation Foundation.Machine Foundation.Python Foundation.Text

/-! ## Records that have been read -/

def asStr : Json → Option String
  | .str s => some (String.ofList s)
  | _ => none

def asInt : Json → Option ℤ
  | .int n => some n
  | _ => none

/-- A whole number serves as a float. -/
def asFloat : Json → Option ℚ
  | .float x => some x
  | .int n => some n
  | _ => none

/-- `Optional[...]`. -/
def asOptional {α : Type} (f : Json → Option α) : Json → Option (Option α)
  | .null => some none
  | v => (f v).map some

/-- A record all of whose fields have the types that the class declares. -/
def typed (r : LoadedRecord) : Option BundleRecord := do
  let bundleId ← asStr r.bundleId
  let flowId ← asStr r.flowId
  let sizeBytes ← asInt r.sizeBytes
  let ingressTs ← asFloat r.ingressTs
  let createdTs ← asOptional asFloat r.createdTs
  let queueAdmissionTs ← asOptional asFloat r.queueAdmissionTs
  let transmissionTs ← asOptional asFloat r.transmissionTs
  let deliveryTs ← asOptional asFloat r.deliveryTs
  let expirationTs ← asOptional asFloat r.expirationTs
  let contactId ← asOptional asStr r.contactId
  some {
    bundleId, flowId, sizeBytes, ingressTs, createdTs, queueAdmissionTs, transmissionTs
    deliveryTs, expirationTs, contactId
    trafficClass := r.trafficClass
    terminalState := r.terminalState }

theorem asOptional_jsonFloat (x : Option ℚ) : asOptional asFloat (jsonFloat x) = some x := by
  cases x <;> rfl

theorem asOptional_jsonOptStr (s : Option String) : asOptional asStr (jsonOptStr s) = some s := by
  cases s with
  | none => rfl
  | some s => exact congrArg (some ∘ some) (String.ofList_toList (s := s))

/-- What was written has these types. -/
theorem typed_of (r : BundleRecord) : typed (LoadedRecord.of r) = some r := by
  have hstr : ∀ s, asStr (jsonStr s) = some s := fun s => congrArg some String.ofList_toList
  simp only [typed, LoadedRecord.of, hstr, asInt, asFloat, asOptional_jsonFloat,
    asOptional_jsonOptStr, Option.bind_eq_bind, Option.bind_some]

/-! ## The scheduler on a trace -/

/-- The records of some bundles by their bundle. -/
def lifecyclesOf (records : List BundleRecord) (b : Bundle) : Lifecycle :=
  ((records.find? fun r => decide (r.toBundle = b)).map BundleRecord.toLifecycle).getD {}

/-- `run_policy`: the copies of the bundles, as the scheduler leaves them. -/
def runPolicy (bundles : List BundleRecord) (plan : ContactPlan) (queueBytes : ℚ)
    (policy : SchedulingPolicy) (now : ℚ) : Except PyError (List BundleRecord) := do
  let sched ← Scheduler.make plan queueBytes policy none true
  match run sched now (bundles.map BundleRecord.toBundle)
      (SchedulerState.fresh (lifecyclesOf bundles)) with
  | .ok _ s =>
      .ok (bundles.map fun r => { toBundle := r.toBundle, toLifecycle := s.records r.toBundle })
  | .error e _ => .error e

/-- A row of the outcome table. -/
structure OutcomeRow where
  total : ℕ := 0
  delivered : ℕ := 0
  ttl : ℕ := 0
  never : ℕ := 0
  overflow : ℕ := 0
  deriving DecidableEq, Repr

/-- The counting of one record. -/
def OutcomeRow.count (d : OutcomeRow) (r : BundleRecord) : OutcomeRow :=
  let d := { d with total := d.total + 1 }
  match r.terminalState with
  | .delivered => { d with delivered := d.delivered + 1 }
  | .ttlExpired => { d with ttl := d.ttl + 1 }
  | .neverScheduled => { d with never := d.never + 1 }
  | .queueOverflow => { d with overflow := d.overflow + 1 }
  | .pending => d

/-- `outcome_table`. -/
def outcomeTable (records : List BundleRecord) : Dict String OutcomeRow :=
  records.foldl (fun rows r =>
    let rows := rows.setdefault r.classKey {}
    rows.set r.classKey ((rows.getD r.classKey {}).count r)) .empty

/-! ## What the table says -/

theorem outcomeTable_eq (records : List BundleRecord) :
    outcomeTable records = .gather BundleRecord.classKey {} OutcomeRow.count records := by
  have hbody : ∀ (rows : Dict String OutcomeRow) (r : BundleRecord),
      (rows.setdefault r.classKey {}).set r.classKey
        (((rows.setdefault r.classKey {}).getD r.classKey {}).count r) =
        rows.set r.classKey ((rows.getD r.classKey {}).count r) := by
    intro rows r
    rw [Dict.set_setdefault, Dict.getD, Dict.get?_setdefault_self, Option.getD_some]
  simp only [outcomeTable, hbody]
  rfl

/-- The columns of a row are numbers of records. -/
theorem foldl_count (records : List BundleRecord) :
    records.foldl OutcomeRow.count {} =
      { total := records.length
        delivered := (inState .delivered records).length
        ttl := (inState .ttlExpired records).length
        never := (inState .neverScheduled records).length
        overflow := (inState .queueOverflow records).length } := by
  induction records using List.reverseRecOn with
  | nil => rfl
  | append_singleton rs r ih =>
      rw [List.foldl_append, ih, List.foldl_cons, List.foldl_nil, OutcomeRow.count]
      cases hr : r.terminalState <;>
        simp [inState_append_same hr, inState_append_other, hr]

/-- A row is there for every class that occurs, and counts its records. -/
theorem outcomeTable_row (records : List BundleRecord) (c : TrafficClass) :
    (outcomeTable records).getD c.value {} =
      { total := records.countP fun r => decide (r.trafficClass = c)
        delivered := (inState .delivered records).countP fun r => decide (r.trafficClass = c)
        ttl := (inState .ttlExpired records).countP fun r => decide (r.trafficClass = c)
        never := (inState .neverScheduled records).countP fun r => decide (r.trafficClass = c)
        overflow :=
          (inState .queueOverflow records).countP fun r => decide (r.trafficClass = c) } := by
  have hkey : ∀ r : BundleRecord,
      decide (r.classKey = c.value) = decide (r.trafficClass = c) := fun r => by
    simp only [BundleRecord.classKey, TrafficClass.value_injective.eq_iff]
  have hcolumn : ∀ s, (inState s (records.filter fun r => decide (r.trafficClass = c))).length =
      (inState s records).countP fun r => decide (r.trafficClass = c) := by
    intro s
    rw [inState, inState, List.countP_eq_length_filter, List.filter_filter, List.filter_filter]
    simp only [Bool.and_comm]
  rw [outcomeTable_eq, Dict.getD_gather]
  simp only [hkey, foldl_count, hcolumn, List.countP_eq_length_filter]

/-- Of finished records each is in one column. -/
theorem outcomeTable_total {records : List BundleRecord}
    (hterminal : ∀ r ∈ records, isTerminal r.terminalState = true) (c : TrafficClass) :
    let row := (outcomeTable records).getD c.value {}
    row.delivered + row.ttl + row.never + row.overflow = row.total := by
  have hsum := sum_countP_terminalState hterminal c
  simp only [terminalStates, List.map_cons, List.map_nil, List.sum_cons, List.sum_nil] at hsum
  rw [outcomeTable_row]
  dsimp only
  omega

/-! ## A run -/

theorem valid_of_fresh {records : List BundleRecord} (h : Fresh records) :
    Valid (records.map BundleRecord.toBundle) (lifecyclesOf records) where
  distinct := by
    rw [List.map_map]
    exact h.distinct
  sizes := List.forall_mem_map.2 h.sizes
  lifetimes := List.forall_mem_map.2 h.lifetimes
  pending := by
    refine List.forall_mem_map.2 fun r hr => ?_
    rw [lifecyclesOf]
    cases hfind : records.find? fun r' => decide (r'.toBundle = r.toBundle) with
    | none => rfl
    | some r' => exact h.pending r' (List.mem_of_find?_eq_some hfind)

/-- A policy settles every record of a fresh trace, and changes nothing that was captured. -/
theorem runPolicy_settles {bundles : List BundleRecord} (h : Fresh bundles) (plan : ContactPlan)
    {queueBytes : ℚ} (hcap : 0 < queueBytes) (policy : SchedulingPolicy) (now : ℚ) :
    ∃ records, runPolicy bundles plan queueBytes policy now = .ok records ∧
      records.map BundleRecord.toBundle = bundles.map BundleRecord.toBundle ∧
      ∀ r ∈ records, isTerminal r.terminalState = true := by
  let sched : Scheduler := { plan := plan
                             maxQueueBytes := queueBytes
                             policy := policy
                             maxQueueBytes_pos := hcap }
  have hmake : Scheduler.make plan queueBytes policy none true = .ok sched := by
    rw [Scheduler.make, dif_neg (not_le.2 hcap)]
  obtain ⟨_, s, hrun, hfates⟩ := run_fates sched now (valid_of_fresh h)
    (SchedulerState.fresh_idle (lifecyclesOf bundles))
  refine ⟨bundles.map fun r => { toBundle := r.toBundle, toLifecycle := s.records r.toBundle },
    ?_, ?_, ?_⟩
  · rw [runPolicy, hmake, Bytes.ok_bind, hrun]
  · rw [List.map_map]
    rfl
  · refine List.forall_mem_map.2 fun r hr => ?_
    have hterminal := (hfates r.toBundle (List.mem_map_of_mem hr)).terminal
    refine decide_eq_true fun hpending : (s.records r.toBundle).terminalState = .pending => ?_
    simp [hpending] at hterminal

/-! ## From the packets to the table -/

theorem map_bundleId_traceOf (ps : List (ClockReading × IpLayer)) :
    (traceOf ps).map (fun r => r.bundleId) =
      (List.range ps.length).map fun i => String.ofList (decimal (i + 1)) := by
  refine List.ext_getElem? fun i => ?_
  rw [traceOf, List.getElem?_map, List.getElem?_mapIdx, Option.map_map, List.getElem?_map]
  by_cases hi : i < ps.length
  · rw [List.getElem?_eq_getElem hi, List.getElem?_range hi]
    rfl
  · rw [List.getElem?_eq_none (not_lt.1 hi), List.getElem?_eq_none (by simpa using hi)]
    rfl

theorem fresh_traceOf (ps : List (ClockReading × IpLayer)) : Fresh (traceOf ps) where
  distinct := by
    rw [map_bundleId_traceOf]
    refine List.nodup_range.map fun i j hij => ?_
    exact Nat.succ_injective (decimal_injective (String.ofList_injective hij))
  sizes := by
    intro r hr
    obtain ⟨i, hi, rfl⟩ := List.mem_mapIdx.1 hr
    have hheader := (ps[i]).2.header
    have hpos : (0 : ℤ) < (ps[i]).2.raw.length := by
      rw [IpLayer.raw, List.length_append]
      omega
    exact hpos
  lifetimes := by
    intro r hr
    obtain ⟨i, hi, rfl⟩ := List.mem_mapIdx.1 hr
    exact Option.some_ne_none _
  pending := by
    intro r hr
    obtain ⟨i, hi, rfl⟩ := List.mem_mapIdx.1 hr
    rfl

/-- The packets of a class are its records in the trace. -/
theorem countP_traceOf (ps : List (ClockReading × IpLayer)) (c : TrafficClass) :
    (traceOf ps).countP (fun r => decide (r.trafficClass = c)) =
      ps.countP fun p => decide (p.2.trafficClass = c) := by
  have hclasses : (traceOf ps).map (fun r => r.trafficClass) =
      ps.map fun p => p.2.trafficClass := by
    refine List.ext_getElem? fun i => ?_
    rw [traceOf, List.getElem?_map, List.getElem?_mapIdx, Option.map_map, List.getElem?_map]
    rfl
  have hcount := congrArg (List.countP fun c' => decide (c' = c)) hclasses
  rw [List.countP_map, List.countP_map] at hcount
  exact hcount

/-- Whatever the capture, the plan, the cap and the policy: what the converter has written is read
back, the scheduler settles all of it without changing what was captured, and the table has every
packet in one column of the row of its class, the rows with the totals that the converter has
counted. -/
theorem every_packet_has_an_outcome {pkts : List CapturedPacket} (hpkts : ipLayers pkts ≠ [])
    (plan : ContactPlan) {queueBytes : ℚ} (hcap : 0 < queueBytes) (policy : SchedulingPolicy)
    (now : ℚ) :
    ∃ conversion loaded bundles records, convert {} pkts = .ok ⟨⟩ conversion ∧
      readBundles conversion.dir = .ok loaded ∧ loaded.map typed = bundles.map some ∧
      runPolicy bundles plan queueBytes policy now = .ok records ∧
      records.map BundleRecord.toBundle = bundles.map BundleRecord.toBundle ∧
      conversion.seq = (ipLayers pkts).length ∧ records.length = conversion.seq ∧
      (∀ c : TrafficClass,
        let row := (outcomeTable records).getD c.value {}
        row.total = conversion.perClass.getD c.value 0 ∧
          row.delivered + row.ttl + row.never + row.overflow = row.total) ∧
      (trafficClasses.map fun c => ((outcomeTable records).getD c.value {}).total).sum =
        conversion.seq ∧
      ∀ (port : ℤ) (c : TrafficClass),
        ((conversion.perPortClass.getD port .empty).getD c.value 0) =
          (ipLayers pkts).countP fun p => decide (p.2.port = port ∧ p.2.trafficClass = c) := by
  have hread := readBundles_convert (ipLayers pkts)
  rw [if_neg hpkts] at hread
  obtain ⟨records, hrun, hbundles, hterminal⟩ :=
    runPolicy_settles (fresh_traceOf (ipLayers pkts)) plan hcap policy now
  have htyped : ((traceOf (ipLayers pkts)).map LoadedRecord.of).map typed =
      (traceOf (ipLayers pkts)).map some := by
    rw [List.map_map]
    exact List.map_congr_left fun r _ => typed_of r
  have hlength : records.length = (ipLayers pkts).length := by
    have hlengths := congrArg List.length hbundles
    rwa [List.length_map, List.length_map, traceOf, List.length_mapIdx] at hlengths
  have hclass : ∀ c, records.countP (fun r => decide (r.trafficClass = c)) =
      (traceOf (ipLayers pkts)).countP fun r => decide (r.trafficClass = c) := by
    intro c
    have hcount := congrArg (List.countP fun b => decide (b.trafficClass = c)) hbundles
    rw [List.countP_map, List.countP_map] at hcount
    exact hcount
  have hkey : ∀ p : ClockReading × IpLayer, ∀ c : TrafficClass,
      decide (classOf p = c.value) = decide (p.2.trafficClass = c) := fun p c => by
    simp only [classOf, TrafficClass.value_injective.eq_iff]
  refine ⟨_, _, _, records, convert_eq {} pkts, hread, htyped, hrun, hbundles, rfl, hlength, ?_, ?_,
    ?_⟩
  · intro c
    refine ⟨?_, outcomeTable_total hterminal c⟩
    rw [outcomeTable_row, conversionOf, Dict.getD_tally]
    simp only [hclass, countP_traceOf, hkey]
  · simp only [outcomeTable_row]
    rw [sum_countP_trafficClass, hlength]
    rfl
  · intro port c
    rw [conversionOf, Dict.getD_gather]
    have hfold : ∀ ps : List (ClockReading × IpLayer),
        ps.foldl (fun d p => d.increment (classOf p)) .empty = Dict.tally classOf ps := fun _ => rfl
    rw [hfold, Dict.getD_tally, List.countP_filter]
    refine List.countP_congr fun p _ => ?_
    simp only [hkey, Bool.and_eq_true, decide_eq_true_eq]
    exact and_comm

/-- Two packets of different classes and ports, under weighted fair queueing. -/
theorem every_packet_has_an_outcome_small :
    ∃ conversion loaded bundles records,
      convert {} Small.capturedPackets = .ok ⟨⟩ conversion ∧
      readBundles conversion.dir = .ok loaded ∧ loaded.map typed = bundles.map some ∧
      runPolicy bundles Small.plan 2000 .wfq 0 = .ok records ∧
      records.map BundleRecord.toBundle = bundles.map BundleRecord.toBundle ∧
      records.length = 2 ∧
      (∀ c : TrafficClass,
        let row := (outcomeTable records).getD c.value {}
        row.total = (if c = .emergency ∨ c = .scienceBulk then 1 else 0) ∧
          row.delivered + row.ttl + row.never + row.overflow = row.total) ∧
      (trafficClasses.map fun c => ((outcomeTable records).getD c.value {}).total).sum = 2 ∧
      (conversion.perPortClass.getD (-1) .empty).getD "emergency" 0 = 1 ∧
      (conversion.perPortClass.getD 6001 .empty).getD "sci_bulk" 0 = 1 ∧
      (conversion.perPortClass.getD 6001 .empty).getD "emergency" 0 = 0 := by
  obtain ⟨conversion, loaded, bundles, records, hconvert, hread, htyped, hrun, hbundles, hseq,
    hlength, hrows, htotal, hports⟩ := @every_packet_has_an_outcome Small.capturedPackets
      (List.cons_ne_nil _ _) Small.plan 2000 (by norm_num) .wfq 0
  have hconversion := EStateM.Result.ok.inj (hconvert.symm.trans (convert_eq {} _))
  obtain ⟨-, rfl⟩ := hconversion
  refine ⟨_, loaded, bundles, records, hconvert, hread, htyped, hrun, hbundles,
    hlength.trans hseq, fun c => ⟨(hrows c).1.trans ?_, (hrows c).2⟩, htotal.trans hseq,
    (hports (-1) .emergency).trans (by decide), (hports 6001 .scienceBulk).trans (by decide),
    (hports 6001 .emergency).trans (by decide)⟩
  cases c <;> decide

end Analysis
end LunaBridge
