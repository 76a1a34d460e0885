import LunaBridge.Foundation.Format
import LunaBridge.Foundation.StableSort
import LunaBridge.LinkController.CeilingPilot
import LunaBridge.LinkController.LiveGateway
import LunaBridge.LinkController.QosMap

/-!
# BridgeFiles — what the workers of the bridge write down, and what `analyze` makes of it

A bundle carries its header in front of the inner packet, and the receiver keeps the header only.
`analyze` reads the lines of `sent.jsonl`, `recv.jsonl` and `gw.jsonl` back as the records they were
written from.  What it prints is left out.
-/

namespace LunaBridge
namespace LinkController

open Foundation Foundation.Python Foundation.StableSort Foundation.Text Gateway

/-! ## Payloads -/

/-- How an f-string prints a QFI. -/
def qfiText : Option ℕ → Text
  | none => "None".toList
  | some qfi => decimal qfi

namespace Encapsulated

variable (e : Encapsulated)

/-- `hdr`, before it is encoded. -/
def header : Text :=
  [':'].intercalate [decimal e.seq, e.cls.value.toList, decimal e.teid, qfiText e.qfi,
    decimal e.fiveqi, fixed 3 e.t]

/-- `hdr + b"|" + inner`. -/
def payload : List UInt8 := utf8 e.header ++ 0x7C :: e.inner

/-- One size for buffer and link: 60 bytes of overhead on top of the payload. -/
def size : ℕ := e.payload.length + 60

/-- The dictionary handed to the gateway. -/
def bundle : LiveBundle := { ref := e.seq, cls := e.cls, n := e.size, t := e.t }

end Encapsulated

/-! ## Lines -/

/-- A line of `sent.jsonl`; the plain bridge writes no size. -/
structure SentLine where
  seq : ℕ
  cls : TrafficClass
  teid : ℕ
  qfi : Option ℕ
  fiveqi : ℕ
  n : ℕ
  size : Option ℕ
  t : ℚ
  tCap : ℚ
  deriving DecidableEq, Repr

/-- A line of `recv.jsonl`. -/
structure RecvLine where
  h : Text
  n : ℕ
  t : ℚ
  deriving DecidableEq, Repr

/-- The events of `gw.jsonl`. -/
inductive GatewayEvent
  | fwd
  | drop
  | evict
  | expire
  | queuedAtEnd
  deriving DecidableEq, Repr

/-- A line of `gw.jsonl`. -/
structure GatewayLine where
  ev : GatewayEvent
  seq : ℕ
  cls : TrafficClass
  t : ℚ
  deriving DecidableEq, Repr

/-- What `worker_gateway` writes of a packet it has encapsulated. -/
def Encapsulated.sentLine (e : Encapsulated) : SentLine where
  seq := e.seq
  cls := e.cls
  teid := e.teid
  qfi := e.qfi
  fiveqi := e.fiveqi
  n := e.inner.length
  size := some e.size
  t := e.t
  tCap := e.tCap

/-! ## The receiver -/

/-- What `worker_rx` makes of one message. -/
def receiveLine (payload : Option (List UInt8)) (t : ℚ) : Except PyError (Option RecvLine) :=
  match payload with
  | none => .ok none
  | some [] => .ok none
  | some pl =>
      if (0x7C : UInt8) ∈ pl then do
        let hdr ← decodeUtf8 (pl.takeWhile fun b => decide (b ≠ 0x7C))
        pure (some { h := hdr, n := pl.length, t := t })
      else
        .error (.valueError "subsection not found")

/-- The loop of `worker_rx`, over the payloads of the messages with the readings of the clock. -/
def receiveLoop : List (Option (List UInt8) × ℚ) → EStateM PyError (List RecvLine) PUnit
  | [] => pure ⟨⟩
  | (payload, t) :: messages => do
      let line ← MonadExcept.ofExcept (receiveLine payload t)
      modify fun lines => lines ++ line.toList
      receiveLoop messages

/-! ## analyze -/

/-- The fields of `schedule.json` that are read. -/
structure Schedule where
  windowsRel : List (ℤ × ℤ)
  contactsUnix : List (ℚ × ℚ)
  lifetimes : TrafficClass → ℚ

/-- A row of `results.json`; `gateway` is there in a run with the live gateway. -/
structure BridgeRow where
  cls : TrafficClass
  fiveqi : ℕ
  qfi : List (Option ℕ)
  L : ℚ
  rho : ℚ
  sent : ℕ
  delivered : ℕ
  measured : ℚ
  perBundle : ℚ
  closedForm : ℚ
  gateway : Option (Dict GatewayEvent ℕ)

/-- `int(h.split(":")[0])`. -/
def headerSeq (h : Text) : Except PyError ℕ := parseInt 10 ((h.splitOn ':').headD [])

/-- `sorted({s["qfi"] for s in mine})`: numbers and `None` do not compare. -/
def sortedQfis (qfis : List (Option ℕ)) : Except PyError (List (Option ℕ)) :=
  match qfis.dedup with
  | [qfi] => .ok [qfi]
  | distinct =>
      if none ∈ distinct then .error .typeError
      else .ok ((sortBy id (distinct.filterMap id)).map some)

/-- `max(W[j + 1][0] - W[j][1] ...)`. -/
def largestGap (windows : List (ℤ × ℤ)) : Except PyError ℤ :=
  match (gaps windows).max? with
  | some g => .ok g
  | none => .error (.valueError "max() iterable argument is empty")

/-- `a / b` for two numbers. -/
def divide (a b : ℚ) : Except PyError ℚ :=
  if b = 0 then .error .zeroDivisionError else .ok (a / b)

/-- The row of one class; nothing for a class that has sent nothing. -/
def bridgeRow (sched : Schedule) (gmax : ℤ) (sent : List SentLine) (got : List ℕ)
    (cls : TrafficClass) : Except PyError (Option BridgeRow) :=
  match sent.filter fun s => decide (s.cls = cls) with
  | [] => .ok none
  | first :: rest => do
      let mine := first :: rest
      let L := sched.lifetimes cls
      let delivered := mine.countP fun s => decide (s.seq ∈ got)
      let qfi ← sortedQfis (mine.map SentLine.qfi)
      let rho ← divide L gmax
      let closed ← closedForm sched.windowsRel L
      pure (some
        { cls := cls
          fiveqi := first.fiveqi
          qfi := qfi
          L := L
          rho := rho
          sent := mine.length
          delivered := delivered
          measured := delivered / mine.length
          perBundle := (mine.countP fun s => predictOne s.t sched.contactsUnix L) / mine.length
          closedForm := closed
          gateway := none })

/-- `fate.setdefault(cls, {}).setdefault(ev, 0); fate[cls][ev] += 1`. -/
def countFate (fate : Dict TrafficClass (Dict GatewayEvent ℕ)) (e : GatewayLine) :
    Dict TrafficClass (Dict GatewayEvent ℕ) :=
  fate.set e.cls ((fate.getD e.cls Dict.empty).increment e.ev)

/-- The fate of every bundle, counted by class and event. -/
def fateCounts (lines : List GatewayLine) : Dict TrafficClass (Dict GatewayEvent ℕ) :=
  lines.foldl countFate Dict.empty

/-- `analyze`; `gw` is there if `gw.jsonl` exists. -/
def analyze (sched : Schedule) (sent : List SentLine) (recv : List RecvLine)
    (gw : Option (List GatewayLine)) : Except PyError (List BridgeRow) := do
  let got ← recv.mapM fun l => headerSeq l.h
  let gmax ← largestGap sched.windowsRel
  let rows ← rankClasses.mapM (bridgeRow sched gmax sent got)
  pure (rows.reduceOption.map fun r =>
    { r with gateway := gw.map fun lines => (fateCounts lines).getD r.cls Dict.empty })

end LinkController
end LunaBridge
