import LunaBridge.Foundation.Machine
import LunaBridge.Foundation.Python
import LunaBridge.Foundation.StableSort
import LunaBridge.Gateway.Traffic
import Mathlib.Logic.Function.Basic
import Mathlib.Data.Rat.Floor

/-!
# LiveGateway — the gateway scheduler behind the live bridge

Every method of a `LiveGateway` that touches its state runs under one lock, so two threads see a
sequence of whole `admit` and `next` calls.  The constructor arguments are a structure of their own;
`LiveState` is what the calls change, with the `gone` flags of the bundles and the calls of the log
callback.  Sizes and the cap are natural numbers of bytes, the byte counter is an integer, times
and deficits are rationals.
-/

namespace LunaBridge
namespace LinkController

open Foundation.Python Foundation.StableSort Gateway

/-! ## Data -/

/-- `RANK`. -/
def rank : TrafficClass → ℕ
  | .emergency => 0
  | .telemetry => 1
  | .scienceBulk => 2
  | .media => 3

/-- The keys of `RANK`, in the order of the dictionary. -/
def rankClasses : List TrafficClass := [.emergency, .telemetry, .scienceBulk, .media]

/-- `WFQ_WEIGHT`; the dictionary has no entry for EMERGENCY, and none is looked up. -/
def wfqWeight : TrafficClass → ℚ
  | .emergency => 0
  | .telemetry => 10
  | .scienceBulk => 1
  | .media => 1

/-- The keys of `WFQ_WEIGHT`. -/
def wfqWeightClasses : List TrafficClass := [.telemetry, .scienceBulk, .media]

/-- `WFQ_QUANTUM`. -/
def wfqQuantum : ℚ := 1500

/-- A bundle dictionary.  `ref` is its identity; its sequence number and payload are not read by
the gateway and are left out, its `gone` flag is part of the state. -/
structure LiveBundle where
  ref : ℕ
  cls : TrafficClass
  n : ℕ
  t : ℚ
  deriving DecidableEq, Repr

/-- The drain policies the constructor accepts. -/
inductive LivePolicy
  | fifo
  | strict
  | wfq
  deriving DecidableEq, Repr

/-- The admission modes the constructor accepts. -/
inductive LiveAdmission
  | droptail
  | priority
  deriving DecidableEq, Repr

/-- What the log callback is told about a bundle. -/
inductive LogEvent
  | evict
  | drop
  | expire
  deriving DecidableEq, Repr

/-- One call of the log callback. -/
structure LogEntry where
  event : LogEvent
  bundle : LiveBundle
  now : ℚ
  deriving DecidableEq, Repr

/-- The constructor arguments; `L` has a lifetime for every class. -/
structure LiveGateway where
  policy : LivePolicy
  admission : LiveAdmission
  cap : ℕ
  L : TrafficClass → ℚ

/-- Everything the calls read and write.  `q` has the queues by class, `fifo` the global order. -/
structure LiveState where
  q : TrafficClass → List LiveBundle
  fifo : List LiveBundle
  bytes : ℤ
  deficit : TrafficClass → ℚ
  rr : List TrafficClass
  gone : LiveBundle → Bool
  log : List LogEntry

/-- What the constructor sets up. -/
def LiveState.initial : LiveState where
  q := fun _ => []
  fifo := []
  bytes := 0
  deficit := fun _ => 0
  rr := wfqWeightClasses
  gone := fun _ => false
  log := []

/-- Programs over the gateway's state. -/
abbrev LiveM := EStateM PyError LiveState

/-! ## Writes -/

def setQueue (c : TrafficClass) (bs : List LiveBundle) : LiveM PUnit :=
  modify fun s => { s with q := Function.update s.q c bs }

def setFifo (bs : List LiveBundle) : LiveM PUnit :=
  modify fun s => { s with fifo := bs }

def setGone (b : LiveBundle) (flag : Bool) : LiveM PUnit :=
  modify fun s => { s with gone := Function.update s.gone b flag }

/-- `self.bytes += delta`. -/
def addBytes (delta : ℤ) : LiveM PUnit :=
  modify fun s => { s with bytes := s.bytes + delta }

def setDeficit (c : TrafficClass) (value : ℚ) : LiveM PUnit :=
  modify fun s => { s with deficit := Function.update s.deficit c value }

/-- `self.rr.append(self.rr.pop(0))`, where `c` is the first of the order and `cs` the rest. -/
def rotate (c : TrafficClass) (cs : List TrafficClass) : LiveM PUnit :=
  modify fun s => { s with rr := cs ++ [c] }

/-- `self.log(event, b, now)`. -/
def logEvent (event : LogEvent) (b : LiveBundle) (now : ℚ) : LiveM PUnit :=
  modify fun s => { s with log := s.log ++ [{ event := event, bundle := b, now := now }] }

namespace LiveGateway

variable (gw : LiveGateway)

/-! ## Heads -/

/-- The loop of `_head`: `dq` is the queue of class `c` at the top of the loop. -/
def headLoop (c : TrafficClass) (now : ℚ) : List LiveBundle → LiveM (Option LiveBundle)
  | [] => pure none
  | h :: dq => do
      let s ← get
      if s.gone h then do
        setQueue c dq
        headLoop c now dq
      else if gw.L c < now - h.t then do
        -- older than its lifetime when it reaches the head
        setQueue c dq
        setGone h true
        addBytes (-h.n)
        logEvent .expire h now
        headLoop c now dq
      else
        pure (some h)

/-- `_head`. -/
def head (c : TrafficClass) (now : ℚ) : LiveM (Option LiveBundle) := do
  let s ← get
  gw.headLoop c now (s.q c)

/-- `_take`. -/
def take (c : TrafficClass) : LiveM LiveBundle := do
  let s ← get
  match s.q c with
  | [] => throw .indexError
  | b :: dq => do
      setQueue c dq
      setGone b true
      addBytes (-b.n)
      pure b

/-! ## Admission -/

/-- `self.bytes + b["n"] > self.cap`. -/
def Over (b : LiveBundle) (s : LiveState) : Prop := (gw.cap : ℤ) < s.bytes + b.n

instance (b : LiveBundle) (s : LiveState) : Decidable (gw.Over b s) :=
  inferInstanceAs (Decidable (_ < _))

/-- `for c in RANK: self._head(c, now)`. -/
def purge (now : ℚ) : List TrafficClass → LiveM PUnit
  | [] => pure ⟨⟩
  | c :: cs => do
      let _ ← gw.head c now
      purge now cs

/-- The loop that evicts from one class; its argument is the queue, newest first. -/
def evictLoop (b : LiveBundle) (now : ℚ) (c : TrafficClass) : List LiveBundle → LiveM PUnit
  | [] => pure ⟨⟩
  | v :: older => do
      let s ← get
      if gw.Over b s then do
        setQueue c older.reverse
        setGone v true
        addBytes (-v.n)
        logEvent .evict v now
        evictLoop b now c older
      else
        pure ⟨⟩

/-- The loop over the classes, which ends at the first class that may not be displaced. -/
def evictClasses (b : LiveBundle) (now : ℚ) : List TrafficClass → LiveM PUnit
  | [] => pure ⟨⟩
  | c :: cs =>
      if rank c ≤ rank b.cls then
        pure ⟨⟩
      else do
        let s ← get
        gw.evictLoop b now c (s.q c).reverse
        evictClasses b now cs

/-- `sorted(RANK, key=RANK.get, reverse=True)`. -/
def lowestFirst : List TrafficClass := sortByDesc rank rankClasses

/-- While `b` does not fit, the expired heads are purged first. -/
def purgeIfOver (b : LiveBundle) (now : ℚ) : LiveM PUnit := do
  let s ← get
  if gw.Over b s then
    gw.purge now rankClasses
  else
    pure ⟨⟩

/-- If `b` still does not fit, priority-aware admission evicts. -/
def evictIfOver (b : LiveBundle) (now : ℚ) : LiveM PUnit := do
  let s ← get
  if gw.Over b s ∧ gw.admission = .priority then
    gw.evictClasses b now lowestFirst
  else
    pure ⟨⟩

/-- `b` joins its class and the global order. -/
def enqueue (b : LiveBundle) : LiveM PUnit := do
  setGone b false
  let s ← get
  setQueue b.cls (s.q b.cls ++ [b])
  setFifo (s.fifo ++ [b])
  addBytes b.n

/-- `admit`. -/
def admitBundle (b : LiveBundle) (now : ℚ) : LiveM Bool := do
  gw.purgeIfOver b now
  gw.evictIfOver b now
  let s ← get
  if gw.Over b s then do
    logEvent .drop b now
    pure false
  else do
    enqueue b
    pure true

/-! ## Drain -/

/-- The FIFO loop; its argument is the global order at the top of the loop. -/
def fifoLoop (now : ℚ) : List LiveBundle → LiveM (Option LiveBundle)
  | [] => pure none
  | b :: rest => do
      let s ← get
      if s.gone b then do
        setFifo rest
        fifoLoop now rest
      else do
        let h ← gw.head b.cls now
        if h = some b then do
          setFifo rest
          let taken ← take b.cls
          pure (some taken)
        else do
          -- expired, or the two structures have drifted apart
          setFifo rest
          fifoLoop now rest

/-- The first class of the list with a head gives it up. -/
def strictLoop (now : ℚ) : List TrafficClass → LiveM (Option LiveBundle)
  | [] => pure none
  | c :: cs => do
      let h ← gw.head c now
      if h.isSome then do
        let taken ← take c
        pure (some taken)
      else
        strictLoop now cs

/-- The classes of the visiting order that have a head. -/
def backlogged (now : ℚ) : List TrafficClass → LiveM (List TrafficClass)
  | [] => pure []
  | c :: cs => do
      let h ← gw.head c now
      let rest ← backlogged now cs
      pure (if h.isSome then c :: rest else rest)

/-- `for c in self.deficit: self.deficit[c] = 0.0`. -/
def resetDeficits : LiveM PUnit :=
  modify fun s => { s with
    deficit := fun c => if c ∈ wfqWeightClasses then 0 else s.deficit c }

/-- The round-robin loop, for at most as many visits as its argument says. -/
def wfqRounds (now : ℚ) : ℕ → LiveM (Option LiveBundle)
  | 0 => pure none
  | visits + 1 => do
      let s ← get
      match s.rr with
      | [] => throw .indexError
      | c :: cs => do
          let h ← gw.head c now
          match h with
          | none => do
              setDeficit c 0
              rotate c cs
              wfqRounds now visits
          | some h => do
              let s ← get
              if (h.n : ℚ) ≤ s.deficit c then do
                setDeficit c (s.deficit c - h.n)
                let taken ← take c
                pure (some taken)
              else do
                -- the class saves up a quantum and the turn passes on
                setDeficit c (s.deficit c + wfqQuantum * wfqWeight c)
                rotate c cs
                wfqRounds now visits

/-- Deficit round robin over the classes below EMERGENCY. -/
def wfqNext (now : ℚ) : LiveM (Option LiveBundle) := do
  let s ← get
  let waiting ← gw.backlogged now s.rr
  if waiting = [] then do
    resetDeficits
    pure none
  else
    gw.wfqRounds now 10000

/-- `next`. -/
def next (now : ℚ) : LiveM (Option LiveBundle) :=
  if gw.policy = .fifo then do
    let s ← get
    gw.fifoLoop now s.fifo
  else do
    -- strict and wfq: EMERGENCY preempts
    let h ← gw.head .emergency now
    if h.isSome then do
      let taken ← take .emergency
      pure (some taken)
    else if gw.policy = .strict then
      gw.strictLoop now [.telemetry, .scienceBulk, .media]
    else
      gw.wfqNext now

end LiveGateway

/-- `snapshot`. -/
def LiveState.snapshot (s : LiveState) (c : TrafficClass) : List LiveBundle :=
  (s.q c).filter fun b => !s.gone b

/-! ## Calls -/

/-- A call one of the threads makes. -/
inductive LiveCall
  | admitBundle (b : LiveBundle) (now : ℚ)
  | next (now : ℚ)
  deriving DecidableEq, Repr

/-- What a call returns. -/
inductive LiveAnswer
  | admitted (accepted : Bool)
  | popped (b : Option LiveBundle)
  deriving DecidableEq, Repr

namespace LiveCall

/-- The `now` of a call. -/
def now : LiveCall → ℚ
  | .admitBundle _ now => now
  | .next now => now

/-- The bundle a call offers. -/
def offered? : LiveCall → Option LiveBundle
  | .admitBundle b _ => some b
  | .next _ => none

def exec (gw : LiveGateway) : LiveCall → LiveM LiveAnswer
  | .admitBundle b now => do
      let accepted ← gw.admitBundle b now
      pure (.admitted accepted)
  | .next now => do
      let b ← gw.next now
      pure (.popped b)

end LiveCall

/-- The calls in the order in which they take the lock, with their answers. -/
def LiveGateway.serve (gw : LiveGateway) : List LiveCall → LiveM (List LiveAnswer)
  | [] => pure []
  | call :: calls => do
      let answer ← call.exec gw
      let answers ← serve gw calls
      pure (answer :: answers)

/-! ## A small instance -/

namespace Small

/-- Room for a thousand bytes, ten seconds for every class. -/
def gateway (policy : LivePolicy) : LiveGateway where
  policy := policy
  admission := .priority
  cap := 1000
  L := fun _ => 10

/-- Evicted by the next one. -/
def clip : LiveBundle := { ref := 0, cls := .media, n := 600, t := 0 }

/-- Returned. -/
def alarm : LiveBundle := { ref := 1, cls := .emergency, n := 700, t := 1 }

/-- Does not fit while the buffer is full. -/
def survey : LiveBundle := { ref := 2, cls := .scienceBulk, n := 400, t := 2 }

/-- Expires before the next drain. -/
def beacon : LiveBundle := { ref := 3, cls := .telemetry, n := 100, t := 4 }

def calls : List LiveCall :=
  [.admitBundle clip 0, .admitBundle alarm 1, .admitBundle survey 2, .next 3,
    .admitBundle beacon 4, .next 15]

end Small

end LinkController
end LunaBridge
