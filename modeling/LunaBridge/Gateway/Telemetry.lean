import LunaBridge.Foundation.Python
import LunaBridge.Gateway.Traffic

/-!
# Telemetry — the per-bundle record and its one transition

A `BundleRecord` is split in two: `Bundle` holds the fields known when a bundle enters the
scheduler, which no scheduling code writes, and `Lifecycle` holds the fields a run fills in.
Two records with the same `Bundle` part are the same record.
-/

namespace LunaBridge
namespace Gateway

open Foundation.Python

/-- Lifecycle outcome of a bundle; `pending` is the only non-terminal state. -/
inductive TerminalState
  | pending
  | delivered
  | ttlExpired
  | queueOverflow
  | neverScheduled
  deriving DecidableEq, Repr

def TerminalState.value : TerminalState → String
  | .pending => "pending"
  | .delivered => "delivered"
  | .ttlExpired => "ttl_expired"
  | .queueOverflow => "queue_overflow"
  | .neverScheduled => "never_scheduled"

/-- `is_terminal`: every state except PENDING. -/
def isTerminal (state : TerminalState) : Bool :=
  decide (state ≠ .pending)

/-- What is fixed about a bundle before scheduling starts.  `expirationTs` is `none` until
`setTtl` has run. -/
structure Bundle where
  bundleId : String
  flowId : String
  trafficClass : TrafficClass
  sizeBytes : ℤ
  ingressTs : ℚ
  createdTs : Option ℚ := none
  expirationTs : Option ℚ := none
  deriving DecidableEq, Repr

namespace Bundle

/-- `CLASS_SPECS[b.traffic_class].rank`. -/
def rank (b : Bundle) : ℤ := (classSpecs b.trafficClass).rank

/-- The bits a bundle takes on the link. -/
def bits (b : Bundle) : ℚ := b.sizeBytes * 8

/-- `set_ttl`: the class default applies when no lifetime is given. -/
def setTtl (b : Bundle) (ttlS : Option ℚ) : Bundle :=
  { b with expirationTs := some (b.ingressTs + ttlS.getD (classSpecs b.trafficClass).defaultTtlS) }

/-- The expiry instant of a bundle whose lifetime has been set. -/
def deadline (b : Bundle) : ℚ := b.expirationTs.getD 0

end Bundle

/-- The fields of a record that change while a bundle is scheduled. -/
structure Lifecycle where
  queueAdmissionTs : Option ℚ := none
  transmissionTs : Option ℚ := none
  deliveryTs : Option ℚ := none
  terminalState : TerminalState := .pending
  contactId : Option String := none
  deriving DecidableEq, Repr

namespace Lifecycle

/-- `queueing_delay_s`: undefined until the bundle has been admitted and transmitted. -/
def queueingDelayS (r : Lifecycle) : Option ℚ :=
  match r.queueAdmissionTs, r.transmissionTs with
  | some admitted, some sent => some (sent - admitted)
  | _, _ => none

/-- `end_to_end_latency_s`: undefined unless delivered. -/
def endToEndLatencyS (b : Bundle) (r : Lifecycle) : Option ℚ :=
  r.deliveryTs.map (fun delivered => delivered - b.ingressTs)

/-- `mark`: move to a terminal state.  `ts` is the caller's timestamp, or the reading of
`time.time()` where the caller gives none. -/
def mark (b : Bundle) (r : Lifecycle) (newState : TerminalState) (ts : ℚ) :
    Except PyError Lifecycle :=
  if newState = .pending then
    .error (.valueError "mark() requires a terminal state, not PENDING")
  else if isTerminal r.terminalState then
    .error (.runtimeError ("bundle " ++ b.bundleId ++ " already terminal (" ++
      r.terminalState.value ++ "); refusing to re-mark as " ++ newState.value))
  else
    .ok { r with
      -- only a delivery is stamped, and only once
      deliveryTs :=
        if newState = .delivered ∧ r.deliveryTs = none then some ts else r.deliveryTs
      terminalState := newState }

/-- A pending record accepts any terminal state. -/
theorem mark_pending {b : Bundle} {r : Lifecycle} {newState : TerminalState} {ts : ℚ}
    (hr : r.terminalState = .pending) (hn : newState ≠ .pending) :
    mark b r newState ts = .ok { r with
      deliveryTs :=
        if newState = .delivered ∧ r.deliveryTs = none then some ts else r.deliveryTs
      terminalState := newState } := by
  simp [mark, isTerminal, hr, hn]

/-- A terminal record is never marked again. -/
theorem mark_terminal {b : Bundle} {r : Lifecycle} {newState : TerminalState} {ts : ℚ}
    (hr : r.terminalState ≠ .pending) : ∃ e, mark b r newState ts = .error e := by
  unfold mark
  split
  · exact ⟨_, rfl⟩
  · simp [isTerminal, hr]

end Lifecycle

/-- What a decision entry records.  In the source `action` is a text; these are the three that are
ever logged. -/
inductive DecisionAction
  | transmit
  | defer
  | drop
  deriving DecidableEq, Repr

/-- One entry of the decision log. -/
structure SchedulingDecision where
  ts : ℚ
  bundleId : String
  trafficClass : String
  action : DecisionAction
  reason : String
  contactId : Option String
  deriving DecidableEq, Repr

end Gateway
end LunaBridge
