import LunaBridge.Analysis.TraceScheduler
import LunaBridge.Gateway.TtlSweep
import LunaBridge.Scheduling.EmergencyFirst

/-!
# LabelChecks — do the outcomes of a trace respect its labels?

* `labelReport` makes the four checks of a trace run under FIFO and under strict priority;
* `verify_labels_protects_emergency` says which of them cannot fail, and for which traces, caps and
  plans.
-/

namespace LunaBridge
namespace Analysis

open Gateway Foundation Foundation.Machine Foundation.Python

/-! ## The checks -/

/-- `RANK_ORDER`. -/
def rankOrder : List TrafficClass := trafficClasses.insertionSort fun c d =>
  (classSpecs c).rank ≤ (classSpecs d).rank

/-- `ddr`: the delivered share of a class that has a row. -/
def ddr (tab : Dict String OutcomeRow) (c : TrafficClass) : Option ℚ :=
  match tab.get? c.value with
  | some d => if d.total ≠ 0 then some ((d.delivered : ℚ) / d.total) else none
  | none => none

/-- What the comparisons of shares forgive. -/
def tolerance : ℚ := 1 / 10 ^ 9

/-- One class of the first check: the share before it, and whether none has grown so far. -/
def checkShare (tab : Dict String OutcomeRow) (acc : Option ℚ × Bool) (c : TrafficClass) :
    Option ℚ × Bool :=
  match ddr tab c with
  | none => acc
  | some r =>
      match acc.1 with
      | some prev => (some r, if prev + tolerance < r then false else acc.2)
      | none => (some r, acc.2)

/-- The outcomes of the checks; the second one is only made if EMERGENCY has a row in both
tables. -/
structure LabelReport where
  nonIncreasing : Bool
  emergency : Option Bool
  utility : Bool
  noOverflow : Bool
  deriving DecidableEq, Repr

/-- "labels respected". -/
def LabelReport.ok (report : LabelReport) : Bool :=
  report.nonIncreasing && report.emergency.getD true && report.utility && report.noOverflow

/-- The checks, from the records under strict priority and under FIFO. -/
def labelReport (strict fifo : List BundleRecord) : LabelReport :=
  let sp := outcomeTable strict
  let fi := outcomeTable fifo
  { nonIncreasing := (rankOrder.foldl (checkShare sp) (none, true)).2
    emergency :=
      match ddr sp .emergency, ddr fi .emergency with
      | some eSp, some eFi => some (decide (eFi ≤ eSp + tolerance))
      | _, _ => none
    utility := decide (missionUtility fifo ≤ missionUtility strict)
    noOverflow := decide ((sp.getD TrafficClass.emergency.value {}).overflow = 0) }

/-- The verification of a trace: three policies are run, two of them compared.  `clock` is what is
read during each run. -/
def verifyLabels (bundles : List BundleRecord) (plan : ContactPlan) (queueBytes : ℚ)
    (clock : SchedulingPolicy → ℚ) : Except PyError LabelReport := do
  let fifo ← runPolicy bundles plan queueBytes .fifo (clock .fifo)
  let strict ← runPolicy bundles plan queueBytes .strictPriority (clock .strictPriority)
  let _ ← runPolicy bundles plan queueBytes .wfq (clock .wfq)
  pure (labelReport strict fifo)

/-! ## The columns of EMERGENCY -/

/-- The records of a trace with the lifecycles that a run has left. -/
def settledBy (bundles : List BundleRecord) (records : Bundle → Lifecycle) : List BundleRecord :=
  bundles.map fun r => { toBundle := r.toBundle, toLifecycle := records r.toBundle }

/-- The scheduler that `run_policy` makes. -/
def tracePolicy (plan : ContactPlan) {queueBytes : ℚ} (hcap : 0 < queueBytes)
    (policy : SchedulingPolicy) : Scheduler where
  plan := plan
  maxQueueBytes := queueBytes
  policy := policy
  maxQueueBytes_pos := hcap

theorem runPolicy_eq {bundles : List BundleRecord} {plan : ContactPlan} {queueBytes : ℚ}
    (hcap : 0 < queueBytes) {policy : SchedulingPolicy} {now : ℚ} {s : SchedulerState}
    (hrun : run (tracePolicy plan hcap policy) now (bundles.map BundleRecord.toBundle)
      (SchedulerState.fresh (lifecyclesOf bundles)) = .ok ⟨⟩ s) :
    runPolicy bundles plan queueBytes policy now = .ok (settledBy bundles s.records) := by
  have hmake : Scheduler.make plan queueBytes policy none true =
      .ok (tracePolicy plan hcap policy) := by
    rw [Scheduler.make, dif_neg (not_le.2 hcap)]
    rfl
  rw [runPolicy, hmake, Bytes.ok_bind, hrun]
  rfl

section Columns

variable {bundles : List BundleRecord} {records : Bundle → Lifecycle}

/-- The delivered EMERGENCY records of the table are the delivered EMERGENCY bundles. -/
theorem delivered_column (h : Fresh bundles) :
    ((outcomeTable (settledBy bundles records)).getD TrafficClass.emergency.value {}).delivered =
      (delivered (emergencies (bundles.map BundleRecord.toBundle)) records).card := by
  have hnodup : (bundles.map BundleRecord.toBundle).Nodup := (valid_of_fresh h).nodup
  have hset : delivered (emergencies (bundles.map BundleRecord.toBundle)) records =
      ((bundles.map BundleRecord.toBundle).filter fun b => decide
        (b.trafficClass = .emergency ∧ (records b).terminalState = .delivered)).toFinset := by
    ext b
    simp [mem_delivered, mem_emergencies, and_assoc]
  rw [hset, List.toFinset_card_of_nodup (hnodup.filter _), outcomeTable_row,
    ← List.countP_eq_length_filter]
  simp only [inState, settledBy, List.countP_filter, List.countP_map]
  refine List.countP_congr fun r _ => ?_
  simp

/-- The column of overflows is empty if no EMERGENCY bundle overflows. -/
theorem overflow_column
    (hnever : ∀ b ∈ emergencies (bundles.map BundleRecord.toBundle),
      (records b).terminalState ≠ .queueOverflow) :
    ((outcomeTable (settledBy bundles records)).getD TrafficClass.emergency.value {}).overflow =
      0 := by
  rw [outcomeTable_row]
  simp only [inState, settledBy, List.countP_filter, List.countP_map]
  refine List.countP_eq_zero.2 fun r hr hcount => ?_
  simp only [Function.comp_apply, Bool.and_eq_true, decide_eq_true_eq] at hcount
  exact hnever r.toBundle (mem_emergencies.2 ⟨List.mem_map_of_mem hr, hcount.1⟩) hcount.2

/-- A run changes no total. -/
theorem total_column :
    ((outcomeTable (settledBy bundles records)).getD TrafficClass.emergency.value {}).total =
      bundles.countP fun r => decide (r.trafficClass = .emergency) := by
  rw [outcomeTable_row]
  simp only [settledBy, List.countP_map]
  rfl

end Columns

theorem ddr_eq (tab : Dict String OutcomeRow) (c : TrafficClass) :
    ddr tab c =
      if (tab.getD c.value {}).total ≠ 0 then
        some (((tab.getD c.value {}).delivered : ℚ) / (tab.getD c.value {}).total)
      else none := by
  unfold ddr Dict.getD
  cases tab.get? c.value with
  | none => rfl
  | some d => rfl

/-! ## What the checks can find -/

/-- With as many deliveries of as many records the second check passes. -/
theorem labelReport_emergency {strict fifo : List BundleRecord}
    (htotal : ((outcomeTable strict).getD TrafficClass.emergency.value {}).total =
      ((outcomeTable fifo).getD TrafficClass.emergency.value {}).total)
    (hdelivered : ((outcomeTable fifo).getD TrafficClass.emergency.value {}).delivered ≤
      ((outcomeTable strict).getD TrafficClass.emergency.value {}).delivered) :
    (labelReport strict fifo).emergency.getD true = true := by
  rw [labelReport, ddr_eq, ddr_eq, htotal]
  by_cases hnone : ((outcomeTable fifo).getD TrafficClass.emergency.value {}).total = 0
  · simp [hnone]
  · simp only [hnone, ne_eq, not_false_eq_true, if_true, Option.getD_some, decide_eq_true_eq]
    have hshare : (((outcomeTable fifo).getD TrafficClass.emergency.value {}).delivered : ℚ) /
          ((outcomeTable fifo).getD TrafficClass.emergency.value {}).total ≤
        (((outcomeTable strict).getD TrafficClass.emergency.value {}).delivered : ℚ) /
          ((outcomeTable fifo).getD TrafficClass.emergency.value {}).total :=
      div_le_div_of_nonneg_right (by exact_mod_cast hdelivered) (Nat.cast_nonneg _)
    have htolerance : 0 ≤ tolerance := by norm_num [tolerance]
    linarith

/-- A policy that drains EMERGENCY first, on a trace whose EMERGENCY records the queue can hold. -/
theorem runPolicy_emergency_first {bundles : List BundleRecord} (h : Fresh bundles)
    (plan : ContactPlan) {queueBytes : ℚ} (hcap : 0 < queueBytes)
    (hholds : ((totalBytes (emergencies (bundles.map BundleRecord.toBundle)) : ℤ) : ℚ) ≤ queueBytes)
    {policy : SchedulingPolicy} (hpolicy : Preempting policy) (now : ℚ) :
    ∃ records, runPolicy bundles plan queueBytes policy now = .ok records ∧
      ((outcomeTable records).getD TrafficClass.emergency.value {}).overflow = 0 ∧
      (Regular (emergencies (bundles.map BundleRecord.toBundle)) →
        ∀ (rival : SchedulingPolicy) (rivalBytes now' : ℚ), 0 < rivalBytes →
          ∃ rivals, runPolicy bundles plan rivalBytes rival now' = .ok rivals ∧
            ((outcomeTable rivals).getD TrafficClass.emergency.value {}).total =
              ((outcomeTable records).getD TrafficClass.emergency.value {}).total ∧
            ((outcomeTable rivals).getD TrafficClass.emergency.value {}).delivered ≤
              ((outcomeTable records).getD TrafficClass.emergency.value {}).delivered) := by
  have haware : (tracePolicy plan hcap policy).admissionIsPriorityAware = true := by
    rcases hpolicy with rfl | rfl | rfl <;> rfl
  obtain ⟨s, hrun, hnever, hmost⟩ :=
    emergency_first_delivers_most hpolicy haware now (valid_of_fresh h) hholds
  refine ⟨_, runPolicy_eq hcap hrun, overflow_column hnever,
    fun hregular rival rivalBytes now' hrival => ?_⟩
  obtain ⟨t, hrun', hle⟩ := hmost hregular (tracePolicy plan hrival rival) now' rfl
  refine ⟨_, runPolicy_eq hrival hrun', total_column.trans total_column.symm, ?_⟩
  rw [delivered_column h, delivered_column h]
  exact hle

/-- On any plan, a queue that holds the EMERGENCY records of the trace loses none of them under
strict priority.  If these have one size and deadlines that follow their arrivals, strict priority,
like every policy that drains them first, delivers as many of them as any policy with any queue, and
the verification finds no less of them delivered than under FIFO. -/
theorem verify_labels_protects_emergency {bundles : List BundleRecord} (h : Fresh bundles)
    (plan : ContactPlan) {queueBytes : ℚ} (hcap : 0 < queueBytes)
    (hholds : ((totalBytes (emergencies (bundles.map BundleRecord.toBundle)) : ℤ) : ℚ) ≤ queueBytes)
    (clock : SchedulingPolicy → ℚ) :
    ∃ report, verifyLabels bundles plan queueBytes clock = .ok report ∧
      report.noOverflow = true ∧
      (Regular (emergencies (bundles.map BundleRecord.toBundle)) →
        report.emergency.getD true = true ∧
        ∀ policy, Preempting policy → ∀ (rival : SchedulingPolicy) (rivalBytes : ℚ),
          0 < rivalBytes →
            ∃ records rivals,
              runPolicy bundles plan queueBytes policy (clock policy) = .ok records ∧
              runPolicy bundles plan rivalBytes rival (clock rival) = .ok rivals ∧
              ((outcomeTable rivals).getD TrafficClass.emergency.value {}).delivered ≤
                ((outcomeTable records).getD TrafficClass.emergency.value {}).delivered) := by
  obtain ⟨fifo, hfifo, -⟩ := runPolicy_settles h plan hcap .fifo (clock .fifo)
  obtain ⟨wfq, hwfq, -⟩ := runPolicy_settles h plan hcap .wfq (clock .wfq)
  obtain ⟨strict, hstrict, hoverflow, hmost⟩ :=
    runPolicy_emergency_first h plan hcap hholds (Or.inr (Or.inr rfl)) (clock .strictPriority)
  refine ⟨labelReport strict fifo, ?_, decide_eq_true hoverflow, fun hregular => ⟨?_, ?_⟩⟩
  · rw [verifyLabels, hfifo, Bytes.ok_bind, hstrict, Bytes.ok_bind, hwfq]
    rfl
  · obtain ⟨fifo', hfifo', htotal, hle⟩ := hmost hregular .fifo queueBytes (clock .fifo) hcap
    rw [hfifo] at hfifo'
    cases hfifo'
    exact labelReport_emergency htotal.symm hle
  · intro policy hpolicy rival rivalBytes hrival
    obtain ⟨records, hrecords, -, hmost'⟩ :=
      runPolicy_emergency_first h plan hcap hholds hpolicy (clock policy)
    obtain ⟨rivals, hrivals, -, hle⟩ := hmost' hregular rival rivalBytes (clock rival) hrival
    exact ⟨records, rivals, hrecords, hrivals, hle⟩

/-- An alert and a segment of video. -/
theorem verify_labels_protects_emergency_small :
    ∃ report, verifyLabels Small.sweptWorkload Small.plan 200 (fun _ => 0) = .ok report ∧
      report.noOverflow = true ∧ report.emergency.getD true = true := by
  have hholds : ((totalBytes (emergencies (Small.sweptWorkload.map BundleRecord.toBundle)) : ℤ) :
      ℚ) ≤ 200 := by decide +kernel
  have hregular : Regular (emergencies (Small.sweptWorkload.map BundleRecord.toBundle)) :=
    ⟨by decide +kernel, by decide +kernel⟩
  obtain ⟨report, hreport, hoverflow, hchecks⟩ := verify_labels_protects_emergency
    Small.sweptWorkload_fresh Small.plan (by norm_num) hholds fun _ => 0
  exact ⟨report, hreport, hoverflow, (hchecks hregular).1⟩

end Analysis
end LunaBridge
