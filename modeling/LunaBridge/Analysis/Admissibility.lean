import LunaBridge.Foundation.Bytes
import LunaBridge.Foundation.Double
import LunaBridge.Foundation.Text
import LunaBridge.Gateway.Scheduler

/-!
# Admissibility — one class alone on a plan, and the closed form of what it delivers

* `planStats` describes a plan, `closedFormP` is the admissibility law;
* `runClass` runs sustained arrivals of one class over the span of the plan, with a buffer that is
  never meant to be full.

The size of the bundles and the instants of their capture are computed in doubles, since a step that
is rounded makes for another number of bundles.
-/

namespace LunaBridge
namespace Analysis

open Gateway Foundation Foundation.Machine Foundation.Python Foundation.StableSort Foundation.Text

/-- `HUGE`, the cap of the buffer. -/
def huge : ℚ := 10 ^ 18

/-- `RATE`: the sustained rate of a class, in bytes per second. -/
def classRate : TrafficClass → ℚ
  | .emergency => nearestDouble (128 / 60)
  | .telemetry => 2000
  | .scienceBulk => 250000
  | .media => 1500000

/-! ## The plan -/

/-- The lengths of the gaps between consecutive windows. -/
def gapsOf (ws : List ContactWindow) : List ℚ :=
  List.zipWith (fun w next => next.startTs - w.endTs) ws ws.tail

/-- The middle of the sorted list, or the mean of the two in the middle. -/
def median (xs : List ℚ) : ℚ :=
  let sorted := sortBy id xs
  let middle := sorted.length / 2
  if sorted.length % 2 = 1 then
    sorted.getD middle 0
  else
    (sorted.getD (middle - 1) 0 + sorted.getD middle 0) / 2

/-- The dictionary `plan_stats` returns. -/
structure PlanStats where
  n : ℕ
  span : ℚ
  contact : ℚ
  duty : ℚ
  gmax : ℚ
  gmed : ℚ
  avgBhBps : ℚ
  deriving DecidableEq, Repr

/-- `plan_stats`: a plan with one window has no longest gap. -/
def planStats (plan : ContactPlan) : Except PyError PlanStats :=
  match plan.windows.head?, plan.windows.getLast? with
  | some first, some last =>
      let span := last.endTs - first.startTs
      let contact := (plan.windows.map ContactWindow.durationS).sum
      let budgetBits := (plan.windows.map ContactWindow.rawBitBudget).sum
      match gapsOf plan.windows with
      | [] => .error (.valueError "max() arg is an empty sequence")
      | g :: gaps =>
          .ok { n := plan.windows.length
                span := span
                contact := contact
                duty := contact / span
                gmax := gaps.foldl max g
                gmed := median (g :: gaps)
                avgBhBps := budgetBits / span }
  | _, _ => .error .indexError

/-- `closed_form_P`: the share of the span in which sending succeeds, capped by the share of the
offered rate that the plan carries. -/
def closedFormP (plan : ContactPlan) (st : PlanStats) (L rateBps : ℚ) : Except PyError ℚ :=
  if rateBps = 0 then
    .error .zeroDivisionError
  else
    let pGap := (st.contact + ((gapsOf plan.windows).map (min L)).sum) / st.span
    .ok (min pGap (st.avgBhBps / rateBps))

/-! ## One class -/

/-- `int(x)`. -/
def truncate (x : ℚ) : ℤ := if 0 ≤ x then ⌊x⌋ else ⌈x⌉

/-- `rate`, in bytes per second. -/
def offeredRate (cls : TrafficClass) (rateOverride : Option ℚ) : ℚ :=
  rateOverride.getD (classRate cls)

/-- The size of the bundles that stand for `dt` seconds of a class, at least one byte. -/
def bundleSize (cls : TrafficClass) (dt : ℚ) (rateOverride : Option ℚ) : ℤ :=
  max 1 (truncate (nearestDouble (offeredRate cls rateOverride * dt)))

/-- The bundle with sequence number `seq`, captured at `t`. -/
def sustained (cls : TrafficClass) (size : ℤ) (ttlS : ℚ) (seq : ℕ) (t : ℚ) : Bundle :=
  Bundle.setTtl { bundleId := String.ofList (decimal seq)
                  flowId := cls.value
                  trafficClass := cls
                  sizeBytes := size
                  ingressTs := t } (some ttlS)

/-- The `while t < end` loop, for at most `fuel` rounds. -/
def arrivalLoop (cls : TrafficClass) (size : ℤ) (ttlS dt endTs : ℚ) :
    ℕ → ℕ → ℚ → Except PyError (List Bundle)
  | 0, _, t =>
      if t < endTs then
        .error .outOfFuel
      else
        .ok []
  | fuel + 1, seq, t =>
      if t < endTs then do
        let later ← arrivalLoop cls size ttlS dt endTs fuel (seq + 1) (nearestDouble (t + dt))
        .ok (sustained cls size ttlS (seq + 1) t :: later)
      else
        .ok []

/-- What `run_class` returns: the delivered share, the number of bundles in every state, and of
all. -/
structure ClassRun where
  deliv : ℚ
  cnt : TerminalState → ℕ
  tot : ℕ

/-- The outcomes of some bundles, counted. -/
def ClassRun.of (bundles : List Bundle) (records : Bundle → Lifecycle) : ClassRun :=
  let cnt := fun st => bundles.countP fun b => decide ((records b).terminalState = st)
  let tot := bundles.length
  { deliv := if tot = 0 then 0 else (cnt .delivered : ℚ) / tot
    cnt := cnt
    tot := tot }

/-- `run_class`, with at most `fuel` arrivals: a step that is lost in rounding is never over. -/
def runClass (plan : ContactPlan) (cls : TrafficClass) (ttlS dt : ℚ) (rateOverride : Option ℚ)
    (now : ℚ) (fuel : ℕ) : Except PyError ClassRun := do
  let size := bundleSize cls dt rateOverride
  match plan.windows.head?, plan.windows.getLast? with
  | some first, some last => do
      let b ← arrivalLoop cls size ttlS dt last.endTs fuel 0 first.startTs
      let s ← Scheduler.make plan huge .strictPriority none true
      match run s now b (SchedulerState.fresh fun _ => {}) with
      | .ok _ s' => .ok (.of b s'.records)
      | .error e _ => .error e
  | _, _ => .error .indexError

end Analysis
end LunaBridge
