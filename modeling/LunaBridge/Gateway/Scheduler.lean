import LunaBridge.Foundation.Machine
import LunaBridge.Gateway.ContactPlan
import LunaBridge.Gateway.Telemetry
import Mathlib.Logic.Function.Basic
import Mathlib.Data.Prod.Lex

/-!
# Scheduler — bundle admission and transmission against a contact plan

The constructor arguments of a `Scheduler` are a structure of their own; what a run changes is a
`SchedulerState`.  Methods are programs in `SchedM`, which keeps every write made before an
exception is raised.  Timestamps, sizes, budgets and deficits are exact: rationals where the
source has floats, integers where it has ints.
-/

namespace LunaBridge
namespace Gateway

open Foundation.Python Foundation.StableSort Foundation.Text

/-- The drain policies. -/
inductive SchedulingPolicy
  | fifo
  | strictPriority
  | wfq
  | wfqSkipOver
  | deadlineAware
  | utilityAware
  | utilityPure
  deriving DecidableEq, Repr

/-- The constructor arguments of a scheduler, with the check the constructor makes. -/
structure Scheduler where
  plan : ContactPlan
  maxQueueBytes : ℚ
  policy : SchedulingPolicy := .strictPriority
  priorityAwareAdmission : Option Bool := none
  fifoSkipOver : Bool := true
  maxQueueBytes_pos : 0 < maxQueueBytes

/-- The active queue, its byte counter, and the records of all bundles. -/
structure Buffer where
  active : List Bundle
  activeBytes : ℤ
  records : Bundle → Lifecycle

/-- Everything a run reads and writes. -/
structure SchedulerState extends Buffer where
  decisions : List SchedulingDecision
  deficit : TrafficClass → ℚ
  rotationIndex : ℕ

/-- Programs over the scheduler's state. -/
abbrev SchedM := EStateM PyError SchedulerState

/-- The state `__init__` sets up, over the given records. -/
def SchedulerState.fresh (records : Bundle → Lifecycle) : SchedulerState where
  active := []
  activeBytes := 0
  records := records
  decisions := []
  deficit := fun _ => 0
  rotationIndex := 0

/-- `sum(b.size_bytes for b in bs)`. -/
def totalBytes (bs : List Bundle) : ℤ := (bs.map Bundle.sizeBytes).sum

/-- `_WFQ_CLASSES`. -/
def wfqClasses : List TrafficClass := [.telemetry, .scienceBulk, .media]

namespace Scheduler

theorem cap_pos {cap : ℚ} (h : ¬ cap ≤ 0) : 0 < cap := not_le.1 h

/-- The check of `__init__`. -/
def make (plan : ContactPlan) (maxQueueBytes : ℚ) (policy : SchedulingPolicy)
    (priorityAwareAdmission : Option Bool) (fifoSkipOver : Bool) : Except PyError Scheduler :=
  if hcap : maxQueueBytes ≤ 0 then
    .error (.valueError ("max_queue_bytes (" ++ floatText maxQueueBytes ++
      ") must be > 0; a zero-or-negative cap can never admit anything, which is " ++
      "not a meaningful scheduler configuration."))
  else
    .ok { plan := plan
          maxQueueBytes := maxQueueBytes
          policy := policy
          priorityAwareAdmission := priorityAwareAdmission
          fifoSkipOver := fifoSkipOver
          maxQueueBytes_pos := cap_pos hcap }

/-- `_admission_is_priority_aware`. -/
def admissionIsPriorityAware (sch : Scheduler) : Bool :=
  match sch.priorityAwareAdmission with
  | none => decide (sch.policy ≠ .fifo)
  | some flag => flag

/-- A bundle fits when the cap covers it on top of the queued bytes. -/
def Fits (sch : Scheduler) (queued : ℤ) (size : ℤ) : Prop :=
  ((queued + size : ℤ) : ℚ) ≤ sch.maxQueueBytes

instance (sch : Scheduler) (queued size : ℤ) : Decidable (sch.Fits queued size) :=
  inferInstanceAs (Decidable (_ ≤ _))

end Scheduler

/-! ## Writes -/

/-- `_log`. -/
def log (ts : ℚ) (b : Bundle) (action : DecisionAction) (reason : String)
    (contactId : Option String) : SchedM PUnit :=
  modify fun s => { s with
    decisions := s.decisions ++ [{ ts := ts
                                   bundleId := b.bundleId
                                   trafficClass := b.trafficClass.value
                                   action := action
                                   reason := reason
                                   contactId := contactId }] }

/-- Write the record of one bundle. -/
def setRecord (b : Bundle) (r : Lifecycle) : SchedM PUnit :=
  modify fun s => { s with records := Function.update s.records b r }

/-- `self._active_bytes += delta`. -/
def addActiveBytes (delta : ℤ) : SchedM PUnit :=
  modify fun s => { s with activeBytes := s.activeBytes + delta }

/-- `b.mark(new_state, ts)` on the stored record. -/
def mark (b : Bundle) (newState : TerminalState) (ts : ℚ) : SchedM PUnit := do
  let s ← get
  -- what `mark` raises ends the run
  match Lifecycle.mark b (s.records b) newState ts with
  | .ok r => setRecord b r
  | .error e => throw e

/-- `self._active.remove(b)`. -/
def removeActive (b : Bundle) : SchedM PUnit := do
  let s ← get
  if b ∈ s.active then
    set { s with active := s.active.erase b }
  else
    throw (.valueError "list.remove(x): x not in list")

/-! ## Admission -/

/-- `_admit_one`. -/
def admitOne (b : Bundle) (ts : ℚ) : SchedM PUnit := do
  let s ← get
  setRecord b { s.records b with queueAdmissionTs := some ts }
  modify fun s => { s with active := s.active ++ [b] }
  addActiveBytes b.sizeBytes

/-- The victim loop of `_evict_lower_priority_to_fit`: it stops at the first victim that no
longer has to go. -/
def evictLoop (sch : Scheduler) (incoming : Bundle) (ts : ℚ) : List Bundle → SchedM PUnit
  | [] => pure ⟨⟩
  | victim :: rest => do
      let s ← get
      if sch.Fits s.activeBytes incoming.sizeBytes then
        -- enough room has been made: the other candidates stay
        pure ⟨⟩
      else do
        removeActive victim
        addActiveBytes (-victim.sizeBytes)
        mark victim .queueOverflow ts
        log ts victim .drop "evicted_by_priority" none
        evictLoop sch incoming ts rest

/-- The queued bundles of strictly lower priority than `incoming`. -/
def candidates (active : List Bundle) (incoming : Bundle) : List Bundle :=
  active.filter fun b => decide (incoming.rank < b.rank)

/-- Victim order: lowest priority first, most recent arrival first within a rank. -/
def victimOrder (bs : List Bundle) : List Bundle :=
  sortBy (fun b => toLex (-b.rank, -b.ingressTs)) bs

/-- `_evict_lower_priority_to_fit`. -/
def evictLowerPriorityToFit (sch : Scheduler) (incoming : Bundle) (ts : ℚ) : SchedM Bool := do
  let s ← get
  if candidates s.active incoming = [] then
    -- nothing lower-priority to sacrifice
    pure false
  else if sch.maxQueueBytes - s.activeBytes + totalBytes (candidates s.active incoming) <
      incoming.sizeBytes then
    -- evicting all of them would not make room, so nobody is evicted
    pure false
  else do
    evictLoop sch incoming ts (victimOrder (candidates s.active incoming))
    let s ← get
    pure (decide (sch.Fits s.activeBytes incoming.sizeBytes))

/-- The arrival itself is dropped. -/
def overflow (b : Bundle) (ts : ℚ) : SchedM PUnit := do
  mark b .queueOverflow ts
  log ts b .drop "queue_overflow" none

/-- `_try_admit`. -/
def tryAdmit (sch : Scheduler) (b : Bundle) (ts : ℚ) : SchedM PUnit := do
  let s ← get
  if sch.Fits s.activeBytes b.sizeBytes then
    admitOne b ts
  else if sch.admissionIsPriorityAware then do
    let roomMade ← evictLowerPriorityToFit sch b ts
    if roomMade then
      admitOne b ts
    else
      overflow b ts
  else
    overflow b ts

/-- `_admit_arrivals`: offer everything that has arrived by the cutoff, in ingress order, and
return what has not arrived yet.  The cutoff may be plus infinity. -/
def admitArrivals (sch : Scheduler) (pendingArrivals : List Bundle) (cutoffTs : WithTop ℚ) :
    SchedM (List Bundle) := do
  let ready := pendingArrivals.filter fun b => decide ((b.ingressTs : WithTop ℚ) ≤ cutoffTs)
  let stillFuture := pendingArrivals.filter fun b => decide (cutoffTs < (b.ingressTs : WithTop ℚ))
  (sortBy Bundle.ingressTs ready).forM fun b => tryAdmit sch b b.ingressTs
  pure stillFuture

/-! ## Expiry -/

/-- `b.expiration_ts is not None and b.expiration_ts <= cutoff_ts`. -/
def Bundle.expiredBy (b : Bundle) (cutoffTs : ℚ) : Bool :=
  match b.expirationTs with
  | some e => decide (e ≤ cutoffTs)
  | none => false

/-- The loop of `_expire_in_blackout`, returning `still_active`. -/
def expireLoop (cutoffTs : ℚ) : List Bundle → SchedM (List Bundle)
  | [] => pure []
  | b :: bs => do
      let s ← get
      if (s.records b).terminalState = .pending ∧ b.expiredBy cutoffTs then do
        -- the lifetime has ended by the cutoff, the cutoff included
        mark b .ttlExpired cutoffTs
        addActiveBytes (-b.sizeBytes)
        log cutoffTs b .drop "ttl_expired" none
        expireLoop cutoffTs bs
      else do
        let stillActive ← expireLoop cutoffTs bs
        pure (b :: stillActive)

/-- `_expire_in_blackout`. -/
def expireInBlackout (cutoffTs : ℚ) : SchedM PUnit := do
  let s ← get
  let stillActive ← expireLoop cutoffTs s.active
  modify fun s => { s with active := stillActive }

/-! ## Drains that walk one ordered list -/

/-- Put a bundle on the link: every drain loop transmits with these writes. -/
def transmit (w : ContactWindow) (b : Bundle) (reason : String) : SchedM PUnit := do
  let s ← get
  setRecord b { s.records b with
    transmissionTs := some w.startTs
    contactId := some w.contactId }
  mark b .delivered w.startTs
  addActiveBytes (-b.sizeBytes)
  log w.startTs b .transmit reason (some w.contactId)

/-- Note that a bundle stays queued. -/
def defer (w : ContactWindow) (b : Bundle) (reason : String) : SchedM PUnit :=
  log w.startTs b .defer reason (some w.contactId)

/-- The greedy loop over an ordered list, returning the bits left.  `_drain_ordered`, the tiers of
`_drain_utility_aware` and the EMERGENCY loop of `_drain_wfq` are instances. -/
def transmitLoop (w : ContactWindow) (reason : String) (stopOnNonfit : Bool) :
    List Bundle → ℚ → SchedM ℚ
  | [], remainingBits => pure remainingBits
  | b :: bs, remainingBits =>
      if b.bits ≤ remainingBits then do
        transmit w b reason
        transmitLoop w reason stopOnNonfit bs (remainingBits - b.bits)
      else do
        defer w b "insufficient_budget"
        if stopOnNonfit then
          -- strict FIFO: the window closes at the first bundle that does not fit
          pure remainingBits
        else
          -- skip-over: a later bundle may be smaller
          transmitLoop w reason stopOnNonfit bs remainingBits

/-- `_drain_ordered`. -/
def drainOrdered (ordered : List Bundle) (w : ContactWindow) (reason : String)
    (stopOnNonfit : Bool) : SchedM ℚ :=
  transmitLoop w reason stopOnNonfit ordered w.rawBitBudget

/-- The order of `_drain_strict_priority`. -/
def strictOrder (bs : List Bundle) : List Bundle :=
  sortBy (fun b => toLex (b.rank, b.ingressTs)) bs

/-- `_drain_strict_priority`. -/
def drainStrictPriority (eligible : List Bundle) (w : ContactWindow) : SchedM PUnit := do
  let _ ← drainOrdered (strictOrder eligible) w "strict_priority" false
  pure ⟨⟩

/-- `_drain_fifo`. -/
def drainFifo (sch : Scheduler) (eligible : List Bundle) (w : ContactWindow) : SchedM PUnit := do
  let _ ← drainOrdered (sortBy Bundle.ingressTs eligible) w "fifo" (!sch.fifoSkipOver)
  pure ⟨⟩

/-- `_drain_edf`.  Comparing a missing `expiration_ts` raises, so with two or more bundles all
must have one. -/
def drainEdf (eligible : List Bundle) (w : ContactWindow) : SchedM PUnit := do
  if 1 < eligible.length ∧ eligible.any (fun b => b.expirationTs.isNone) then
    throw .typeError
  else do
    let _ ← drainOrdered (sortBy Bundle.deadline eligible) w "edf" false
    pure ⟨⟩

/-- `CLASS_SPECS[b.traffic_class].utility_weight`. -/
def Bundle.utilityWeight (b : Bundle) : ℚ := (classSpecs b.trafficClass).utilityWeight

/-- `utility_weight / size_bytes`. -/
def Bundle.utilityDensity (b : Bundle) : ℚ := b.utilityWeight / b.sizeBytes

/-- The start of the window after `w`, plus infinity when `w` is the last one. -/
def nextWindowStart (sch : Scheduler) (w : ContactWindow) : WithTop ℚ :=
  match sch.plan.nextAfter w.endTs with
  | some next => (next.startTs : WithTop ℚ)
  | none => ⊤

/-- Tier 1 of UTILITY_AWARE: bundles that expire before the next window opens. -/
def atRisk (nextStart : WithTop ℚ) (b : Bundle) : Bool :=
  decide ((b.deadline : WithTop ℚ) < nextStart)

/-- `_drain_utility_aware`: the at-risk tier by weight, then the rest by density, against one
budget. -/
def drainUtilityAware (sch : Scheduler) (eligible : List Bundle) (w : ContactWindow) :
    SchedM PUnit := do
  if eligible.any (fun b => b.expirationTs.isNone) then
    throw .typeError
  else do
    let risky := eligible.filter (atRisk (nextWindowStart sch w))
    let safe := eligible.filter fun b => !atRisk (nextWindowStart sch w) b
    if safe.any (fun b => decide (b.sizeBytes = 0)) then
      throw .zeroDivisionError
    else do
      let remainingBits ← transmitLoop w "utility_at_risk" false
        (sortByDesc Bundle.utilityWeight risky) w.rawBitBudget
      let _ ← transmitLoop w "utility_opportunistic" false
        (sortByDesc Bundle.utilityDensity safe) remainingBits
      pure ⟨⟩

/-- `_drain_utility_pure`. -/
def drainUtilityPure (eligible : List Bundle) (w : ContactWindow) : SchedM PUnit := do
  if eligible.any (fun b => decide (b.sizeBytes = 0)) then
    throw .zeroDivisionError
  else do
    let _ ← drainOrdered (sortByDesc Bundle.utilityDensity eligible) w "utility_density_only" false
    pure ⟨⟩

/-! ## Deficit round robin -/

/-- `self._deficit[tc] = value`. -/
def setDeficit (tc : TrafficClass) (value : ℚ) : SchedM PUnit :=
  modify fun s => { s with deficit := Function.update s.deficit tc value }

/-- The reason logged for the first round's deferrals. -/
def deferReason (bitsNeeded deficit : ℚ) : String :=
  if deficit < bitsNeeded then "insufficient_deficit" else "insufficient_budget"

/-- One class's turn without skip-over: send from the head of the queue until the head exceeds the
deficit or the budget.  Returns the queue and the bits left. -/
def headTurn (w : ContactWindow) (tc : TrafficClass) (rnd : ℕ) :
    List Bundle → ℚ → SchedM (List Bundle × ℚ)
  | [], remainingBits => pure ([], remainingBits)
  | head :: queue, remainingBits => do
      let s ← get
      if head.bits ≤ s.deficit tc ∧ head.bits ≤ remainingBits then do
        setDeficit tc (s.deficit tc - head.bits)
        transmit w head ("wfq_" ++ tc.value)
        headTurn w tc rnd queue (remainingBits - head.bits)
      else if rnd = 0 then do
        -- a deferral is logged in the first round only
        defer w head (deferReason head.bits (s.deficit tc))
        pure (head :: queue, remainingBits)
      else
        pure (head :: queue, remainingBits)

/-- One class's turn with skip-over: try every bundle of the queue, keep those that do not fit. -/
def skipTurn (w : ContactWindow) (tc : TrafficClass) (rnd : ℕ) :
    List Bundle → ℚ → SchedM (List Bundle × ℚ)
  | [], remainingBits => pure ([], remainingBits)
  | b :: queue, remainingBits => do
      let s ← get
      if b.bits ≤ s.deficit tc ∧ b.bits ≤ remainingBits then do
        setDeficit tc (s.deficit tc - b.bits)
        transmit w b ("wfq_skip_" ++ tc.value)
        skipTurn w tc rnd queue (remainingBits - b.bits)
      else if rnd = 0 then do
        defer w b (deferReason b.bits (s.deficit tc))
        -- the bundles behind it are still tried, against the same deficit
        let (stillQueued, left) ← skipTurn w tc rnd queue remainingBits
        pure (b :: stillQueued, left)
      else do
        let (stillQueued, left) ← skipTurn w tc rnd queue remainingBits
        pure (b :: stillQueued, left)

/-- The local variables of the round-robin loop. -/
structure RoundLocals where
  remainingBits : ℚ
  byClass : TrafficClass → List Bundle

/-- The body of `for tc in backlogged`. -/
def classTurn (w : ContactWindow) (skipOverDeficit : Bool) (rnd : ℕ) (budgetThisRound wTotal : ℚ)
    (tc : TrafficClass) (l : RoundLocals) : SchedM RoundLocals := do
  if wTotal = 0 then
    throw .zeroDivisionError
  else do
    let s ← get
    -- the class's share comes on top of what it has carried over
    setDeficit tc (s.deficit tc + budgetThisRound * ((classSpecs tc).queueBudget / wTotal))
    let (queue, left) ←
      if skipOverDeficit then skipTurn w tc rnd (l.byClass tc) l.remainingBits
      else headTurn w tc rnd (l.byClass tc) l.remainingBits
    let l' : RoundLocals :=
      { remainingBits := left, byClass := Function.update l.byClass tc queue }
    if queue = [] then do
      -- emptied: no hoarding
      setDeficit tc 0
      pure l'
    else
      pure l'

/-- `for tc in backlogged`. -/
def roundOver (w : ContactWindow) (skipOverDeficit : Bool) (rnd : ℕ)
    (budgetThisRound wTotal : ℚ) : List TrafficClass → RoundLocals → SchedM RoundLocals
  | [], l => pure l
  | tc :: tcs, l => do
      let l' ← classTurn w skipOverDeficit rnd budgetThisRound wTotal tc l
      roundOver w skipOverDeficit rnd budgetThisRound wTotal tcs l'

/-- The classes that still have bundles to send. -/
def backlogged (order : List TrafficClass) (byClass : TrafficClass → List Bundle) :
    List TrafficClass :=
  order.filter fun tc => decide (byClass tc ≠ [])

/-- Some backlogged class's head fits the bits left. -/
def someHeadFits (l : RoundLocals) (tcs : List TrafficClass) : Bool :=
  tcs.any fun tc =>
    match l.byClass tc with
    | [] => false
    | head :: _ => decide (head.bits ≤ l.remainingBits)

/-- The `while remaining_bits > 0` loop.  Its first argument counts down the rounds the defensive
bound allows. -/
def drrLoop (w : ContactWindow) (skipOverDeficit : Bool) (order : List TrafficClass) :
    ℕ → ℕ → RoundLocals → SchedM RoundLocals
  | 0, _, l => pure l
  | left + 1, rnd, l =>
      if 0 < l.remainingBits then
        if someHeadFits l (backlogged order l.byClass) then do
          -- what is left of the budget is shared out anew among the backlogged classes
          let wTotal := ((backlogged order l.byClass).map
            fun tc => (classSpecs tc).queueBudget).sum
          let l' ← roundOver w skipOverDeficit rnd l.remainingBits wTotal
            (backlogged order l.byClass) l
          drrLoop w skipOverDeficit order left (rnd + 1) l'
        else
          -- no class can use what is left of the budget
          pure l
      else
        pure l

/-- Rounds run until `rnd > 10000`: the bound lets 10001 of them start. -/
def maxRounds : ℕ := 10001

/-- The visiting order of a window: `_WFQ_CLASSES` rotated by `_rotation_index`. -/
def rotation (rotationIndex : ℕ) : List TrafficClass :=
  wfqClasses.drop (rotationIndex % wfqClasses.length) ++
    wfqClasses.take (rotationIndex % wfqClasses.length)

/-- Idle classes do not hoard deficit. -/
def resetIdle (byClass : TrafficClass → List Bundle) : List TrafficClass → SchedM PUnit
  | [] => pure ⟨⟩
  | tc :: tcs =>
      if byClass tc = [] then do
        setDeficit tc 0
        resetIdle byClass tcs
      else
        resetIdle byClass tcs

/-- A class's eligible bundles in ingress order. -/
def classQueue (eligible : List Bundle) (tc : TrafficClass) : List Bundle :=
  sortBy Bundle.ingressTs (eligible.filter fun b => decide (b.trafficClass = tc))

/-- `_drain_wfq`. -/
def drainWfq (eligible : List Bundle) (w : ContactWindow) (skipOverDeficit : Bool) :
    SchedM PUnit := do
  -- EMERGENCY goes first, against the whole budget
  let remainingBits ← transmitLoop w "rank0" false (classQueue eligible .emergency) w.rawBitBudget
  let s ← get
  let order := rotation s.rotationIndex
  resetIdle (classQueue eligible) order
  let _ ← drrLoop w skipOverDeficit order maxRounds 0
    { remainingBits := remainingBits, byClass := classQueue eligible }
  -- the next window starts its rounds with the next class
  modify fun s => { s with rotationIndex := (s.rotationIndex + 1) % wfqClasses.length }

/-! ## Dispatch -/

/-- A queued bundle may be sent in `w` if it is pending and arrives before `w` closes. -/
def eligible (w : ContactWindow) (s : Buffer) : List Bundle :=
  s.active.filter fun b =>
    decide ((s.records b).terminalState = .pending ∧ b.ingressTs < w.endTs)

/-- The policy's drain. -/
def drainByPolicy (sch : Scheduler) (eligible : List Bundle) (w : ContactWindow) : SchedM PUnit :=
  match sch.policy with
  | .fifo => drainFifo sch eligible w
  | .strictPriority => drainStrictPriority eligible w
  | .wfq => drainWfq eligible w false
  | .wfqSkipOver => drainWfq eligible w true
  | .deadlineAware => drainEdf eligible w
  | .utilityAware => drainUtilityAware sch eligible w
  | .utilityPure => drainUtilityPure eligible w

/-- `_drain_window`. -/
def drainWindow (sch : Scheduler) (w : ContactWindow) : SchedM PUnit := do
  let s ← get
  drainByPolicy sch (eligible w s.toBuffer) w
  -- what was sent is taken off the queue in one go
  modify fun s => { s with
    active := s.active.filter fun b => decide ((s.records b).terminalState = .pending) }

/-! ## The run -/

/-- The exception for a bundle whose lifetime has not been set. -/
def missingExpiration (b : Bundle) : PyError :=
  .valueError ("bundle " ++ b.bundleId ++ ": expiration_ts is None -- call " ++
    "set_ttl() before passing bundles to Scheduler.run(). " ++
    "This is a caller bug, not something the scheduler " ++
    "should silently paper over.")

/-- The loud check at the top of `run`. -/
def checkExpirations (bundles : List Bundle) : SchedM PUnit :=
  bundles.forM fun b =>
    if b.expirationTs = none then
      throw (missingExpiration b)
    else
      pure ⟨⟩

/-- The `while window is not None` loop, for at most `fuel` windows.  Returns the arrivals still to
come and the end of the last window served. -/
def walkPlan (sch : Scheduler) :
    ℕ → Option ContactWindow → List Bundle → Option ℚ → SchedM (List Bundle × Option ℚ)
  | _, none, pendingArrivals, lastEndTs => pure (pendingArrivals, lastEndTs)
  | 0, some _, _, _ => throw .outOfFuel
  | fuel + 1, some w, pendingArrivals, _ => do
      -- arrivals are admitted up to the end of the window, lifetimes are checked at its start
      let stillFuture ← admitArrivals sch pendingArrivals (w.endTs : WithTop ℚ)
      expireInBlackout w.startTs
      drainWindow sch w
      walkPlan sch fuel (sch.plan.nextAfter w.endTs) stillFuture (some w.endTs)

/-- What happens once no window is left: late arrivals are admitted, and a plan with windows has
one last expiry pass at the end of its last window. -/
def afterLastWindow (sch : Scheduler) (pendingArrivals : List Bundle) :
    Option ℚ → SchedM PUnit
  | some lastEndTs => do
      let _ ← admitArrivals sch pendingArrivals ⊤
      expireInBlackout lastEndTs
  | none => do
      let _ ← admitArrivals sch pendingArrivals ⊤
      pure ⟨⟩

/-- The body of the final loop over the active queue.  `now` is what `time.time()` returns. -/
def sweepOne (now : ℚ) (lastEndTs : Option ℚ) (b : Bundle) : SchedM PUnit := do
  let s ← get
  if (s.records b).terminalState = .pending then do
    mark b .neverScheduled now
    log (lastEndTs.getD 0) b .drop "never_scheduled" none
  else
    pure ⟨⟩

/-- Dispose of whatever is still queued, then empty the list. -/
def finalSweep (now : ℚ) (lastEndTs : Option ℚ) : SchedM PUnit := do
  let s ← get
  s.active.forM (sweepOne now lastEndTs)
  -- the byte counter is not touched here
  modify fun s => { s with active := [] }

/-- The run up to the final sweep; it returns the end of the last window. -/
def serveContacts (sch : Scheduler) (bundles : List Bundle) : SchedM (Option ℚ) := do
  let walked ← walkPlan sch (sch.plan.windows.length + 1) (sch.plan.nextAfter ⊥) bundles none
  afterLastWindow sch walked.1 walked.2
  pure walked.2

/-- `Scheduler.run`. -/
def run (sch : Scheduler) (now : ℚ) (bundles : List Bundle) : SchedM PUnit := do
  checkExpirations bundles
  let lastEndTs ← serveContacts sch bundles
  finalSweep now lastEndTs

end Gateway
end LunaBridge
