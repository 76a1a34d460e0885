import LunaBridge.Foundation.Dict
import LunaBridge.Gateway.Telemetry

/-!
# Metrics — what is reported about a list of records

Three folds of `telemetry.py` over finished records: the delivery ratio of each class, the mission
utility, and the summary that keeps deadline loss and starvation apart.  Each is stated as counts
of records: `ratioLoop_eq`, `missionUtility_eq` and `starvationSummary_eq`.
-/

namespace LunaBridge
namespace Gateway

open Foundation Foundation.Python

/-- One row per bundle: what is fixed about it, and what a run has filled in. -/
structure BundleRecord extends Bundle, Lifecycle
  deriving DecidableEq, Repr

namespace BundleRecord

/-- `delivered`. -/
def delivered (r : BundleRecord) : Bool := decide (r.terminalState = .delivered)

/-- `r.traffic_class.value`, under which the metrics file a record. -/
def classKey (r : BundleRecord) : String := r.trafficClass.value

end BundleRecord

/-! ## delivery_ratio_by_class -/

/-- The loop body over `total` and `delivered`. -/
def countDelivery (counts : Dict String ℕ × Dict String ℕ) (r : BundleRecord) :
    Dict String ℕ × Dict String ℕ :=
  (counts.1.increment r.classKey,
    if r.delivered then counts.2.increment r.classKey else counts.2)

/-- `delivered.get(k, 0) / total[k]`. -/
def classRatio (delivered : Dict String ℕ) (k : String) (total : ℕ) : Except PyError ℚ :=
  if total = 0 then
    .error .zeroDivisionError
  else
    .ok (delivered.getD k 0 / total)

/-- `delivery_ratio_by_class`. -/
def deliveryRatioByClass (records : List BundleRecord) : Except PyError (Dict String ℚ) :=
  let counts := records.foldl countDelivery (.empty, .empty)
  counts.1.mapValuesM (classRatio counts.2)

/-! ## mission_utility -/

/-- `mission_utility`: what the delivered bundles are worth, less the penalty for emergencies that
expired. -/
def missionUtility (records : List BundleRecord) : ℚ :=
  let u := records.foldl (fun u r =>
    if r.delivered then u + (classSpecs r.trafficClass).utilityWeight else u) 0
  let expiredEmergencies := records.countP fun r =>
    decide (r.trafficClass = .emergency) && decide (r.terminalState = .ttlExpired)
  u - 1000 * expiredEmergencies

/-! ## starvation_summary -/

/-- The dictionary `starvation_summary` returns. -/
structure StarvationSummary where
  ttlExpired : ℕ
  neverScheduled : ℕ
  queueOverflow : ℕ
  ttlExpiredByClass : Dict String ℕ
  neverScheduledByClass : Dict String ℕ

/-- The loop body: deadline loss and starvation are counted apart, overflow in total only. -/
def countStarvation (sm : StarvationSummary) (r : BundleRecord) : StarvationSummary :=
  if r.terminalState = .ttlExpired then
    { sm with
      ttlExpired := sm.ttlExpired + 1
      ttlExpiredByClass := sm.ttlExpiredByClass.increment r.classKey }
  else if r.terminalState = .neverScheduled then
    { sm with
      neverScheduled := sm.neverScheduled + 1
      neverScheduledByClass := sm.neverScheduledByClass.increment r.classKey }
  else if r.terminalState = .queueOverflow then
    { sm with queueOverflow := sm.queueOverflow + 1 }
  else
    sm

/-- `starvation_summary`. -/
def starvationSummary (records : List BundleRecord) : StarvationSummary :=
  records.foldl countStarvation
    { ttlExpired := 0
      neverScheduled := 0
      queueOverflow := 0
      ttlExpiredByClass := .empty
      neverScheduledByClass := .empty }

/-! ## The folds as counts -/

/-- The records in one state. -/
def inState (state : TerminalState) (records : List BundleRecord) : List BundleRecord :=
  records.filter fun r => decide (r.terminalState = state)

theorem inState_append_same {state : TerminalState} {r : BundleRecord}
    (hr : r.terminalState = state) (rs : List BundleRecord) :
    inState state (rs ++ [r]) = inState state rs ++ [r] := by
  simp [inState, hr]

theorem inState_append_other {state : TerminalState} {r : BundleRecord}
    (hr : r.terminalState ≠ state) (rs : List BundleRecord) :
    inState state (rs ++ [r]) = inState state rs := by
  simp [inState, hr]

theorem ratioLoop_eq (records : List BundleRecord) :
    records.foldl countDelivery (.empty, .empty) =
      (.tally BundleRecord.classKey records,
        .tally BundleRecord.classKey (inState .delivered records)) := by
  induction records using List.reverseRecOn with
  | nil => rfl
  | append_singleton rs r ih =>
      rw [List.foldl_append, ih, List.foldl_cons, List.foldl_nil, countDelivery,
        Dict.tally_concat, BundleRecord.delivered]
      by_cases hr : r.terminalState = .delivered
      · rw [inState_append_same hr, Dict.tally_concat, if_pos (by simpa using hr)]
      · rw [inState_append_other hr, if_neg (by simpa using hr)]

/-- Nothing is divided by zero: the ratios are those of the counts. -/
theorem deliveryRatioByClass_eq (records : List BundleRecord) :
    deliveryRatioByClass records =
      .ok ((Dict.tally BundleRecord.classKey records).mapValues fun k total =>
        ((Dict.tally BundleRecord.classKey (inState .delivered records)).getD k 0 : ℚ) /
          total) := by
  rw [deliveryRatioByClass, ratioLoop_eq]
  -- a class has an entry only once a record of it has been counted
  refine Dict.mapValuesM_eq_ok fun k total hmem => ?_
  rw [← Dict.get?_eq_some_iff, Dict.get?_tally_eq_some_iff] at hmem
  exact if_neg hmem.2

theorem missionUtility_eq (records : List BundleRecord) :
    missionUtility records =
      ((inState .delivered records).map fun r => (classSpecs r.trafficClass).utilityWeight).sum -
        1000 * ((inState .ttlExpired records).countP fun r =>
          decide (r.trafficClass = .emergency) : ℕ) := by
  have hgain : records.foldl (fun u r =>
        if r.delivered then u + (classSpecs r.trafficClass).utilityWeight else u) 0 =
      ((inState .delivered records).map fun r =>
        (classSpecs r.trafficClass).utilityWeight).sum := by
    induction records using List.reverseRecOn with
    | nil => rfl
    | append_singleton rs r ih =>
        rw [List.foldl_append, ih, List.foldl_cons, List.foldl_nil, BundleRecord.delivered]
        by_cases hr : r.terminalState = .delivered
        · rw [inState_append_same hr, if_pos (by simpa using hr)]
          simp
        · rw [inState_append_other hr, if_neg (by simpa using hr)]
  have hpenalty : (inState .ttlExpired records).countP
        (fun r => decide (r.trafficClass = .emergency)) =
      records.countP fun r =>
        decide (r.trafficClass = .emergency) && decide (r.terminalState = .ttlExpired) :=
    List.countP_filter
  rw [missionUtility, hgain, hpenalty]

theorem starvationSummary_eq (records : List BundleRecord) :
    starvationSummary records =
      { ttlExpired := (inState .ttlExpired records).length
        neverScheduled := (inState .neverScheduled records).length
        queueOverflow := (inState .queueOverflow records).length
        ttlExpiredByClass := .tally BundleRecord.classKey (inState .ttlExpired records)
        neverScheduledByClass :=
          .tally BundleRecord.classKey (inState .neverScheduled records) } := by
  induction records using List.reverseRecOn with
  | nil => rfl
  | append_singleton rs r ih =>
      rw [starvationSummary] at ih ⊢
      rw [List.foldl_append, ih, List.foldl_cons, List.foldl_nil, countStarvation]
      cases hr : r.terminalState with
      | ttlExpired =>
          simp [inState_append_same hr, inState_append_other, hr, Dict.tally_concat]
      | neverScheduled =>
          simp [inState_append_same hr, inState_append_other, hr, Dict.tally_concat]
      | queueOverflow =>
          simp [inState_append_same hr, inState_append_other, hr]
      | delivered => simp [inState_append_other, hr]
      | pending => simp [inState_append_other, hr]

end Gateway
end LunaBridge
