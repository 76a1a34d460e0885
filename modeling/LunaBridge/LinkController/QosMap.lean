import LunaBridge.Foundation.Dict
import LunaBridge.Foundation.Text
import LunaBridge.Gateway.Traffic
import LunaBridge.LinkController.N6Bridge

/-!
# QosMap — from the session set-up to the traffic class of a packet

`N2QosMap.main` makes a table of TEIDs and 5QIs of what `tshark` prints of an N2 capture, and the
workers of the bridge look up the TEID of every packet in it.  The loop by which they do so is the
same in both, `intakeLoop`; the header of a bundle is kept as its fields.
-/

namespace LunaBridge
namespace LinkController

open Foundation Foundation.Python Foundation.Text Gateway

/-! ## n2_qos_map -/

namespace N2QosMap

/-- One line of the output, split into its fields: the TEID and the 5QI listed first.  The QFIs are
printed only. -/
def parseRow (r : Text) : Except PyError (ℕ × ℕ) :=
  match r.splitOn '|' with
  | [teids, _, fiveqis] => do
      let teid ← parseInt 16 (((teids.splitOn ',').headD []).filter fun c => decide (c ≠ ':'))
      let fiveqi ← parseInt 10 ((fiveqis.splitOn ',').headD [])
      pure (teid, fiveqi)
  | fields =>
      .error (.valueError (if fields.length < 3 then
          "not enough values to unpack (expected 3, got " ++ toString fields.length ++ ")"
        else
          "too many values to unpack (expected 3)"))

/-- The loop over the lines. -/
def rowLoop : List Text → Dict ℕ ℕ → Except PyError (Dict ℕ ℕ)
  | [], qmap => .ok qmap
  | r :: rows, qmap =>
      if isBlank r then
        rowLoop rows qmap
      else do
        let (teid, fiveqi) ← parseRow r
        rowLoop rows (qmap.set teid fiveqi)

/-- What `main` leaves behind: the items of the JSON object it has written, whose keys are texts,
and the message it exits with. -/
structure MapFile where
  items : List (Text × ℕ)
  exit : Option String
  deriving DecidableEq, Repr

/-- `main`, from the output of `tshark`. -/
def main (stdout : Text) : Except PyError MapFile := do
  let qmap ← rowLoop (stdout.splitOn '\n') Dict.empty
  pure
    { items := qmap.items.map fun e => (decimal e.1, e.2)
      exit := if qmap.items = [] then
          some "no PDU Session Resource Setup with a 5QI found"
        else
          none }

end N2QosMap

/-! ## The bridge -/

/-- `{int(k): int(v) for k, v in json.load(f).items()}`. -/
def loadQosMap (items : List (Text × ℕ)) : Except PyError (Dict ℕ ℕ) := do
  let es ← (Dict.ofList items).items.mapM fun e => do
    let teid ← parseInt 10 e.1
    pure (teid, e.2)
  pure (Dict.ofList es)

/-- `FIVEQI_CLASS.get(fiveqi)`. -/
def fiveqiClass : ℕ → Option TrafficClass
  | 69 => some .emergency
  | 70 => some .telemetry
  | 9 => some .scienceBulk
  | 7 => some .media
  | _ => none

/-- A packet that has been given a class: the fields of its header, the inner packet and the capture
timestamp. -/
structure Encapsulated where
  seq : ℕ
  cls : TrafficClass
  teid : ℕ
  qfi : Option ℕ
  fiveqi : ℕ
  t : ℚ
  inner : List UInt8
  tCap : ℚ
  deriving DecidableEq, Repr

/-- The counters of a worker, and what it has passed on: to a node, or to the gateway. -/
structure Intake where
  seq : ℕ
  unknown : ℕ
  passed : List Encapsulated
  deriving DecidableEq, Repr

def Intake.start : Intake := { seq := 0, unknown := 0, passed := [] }

/-- One packet, which the generator gives the worker at `now`. -/
def Intake.classify (qmap : Dict ℕ ℕ) (s : Intake) (now : ℚ) (p : GtpuPacket) : Intake :=
  match qmap.get? p.teid with
  -- FIVEQI_CLASS has no entry for None
  | none => { s with unknown := s.unknown + 1 }
  | some fiveqi =>
      match fiveqiClass fiveqi with
      | none => { s with unknown := s.unknown + 1 }
      | some cls =>
          { s with
            seq := s.seq + 1
            passed := s.passed ++ [{ seq := s.seq, cls := cls, teid := p.teid, qfi := p.qfi,
                                     fiveqi := fiveqi, t := now, inner := p.inner, tCap := p.ts }] }

/-- The loop of `worker_bridge`, and of the reader in `worker_gateway`, over the packets with the
readings of the clock. -/
def intakeLoop (qmap : Dict ℕ ℕ) (t0 t1 : ℚ) : List (ℚ × GtpuPacket) → Intake → Intake
  | [], s => s
  | (now, p) :: rest, s =>
      if t1 ≤ now then s
      else if now < t0 then intakeLoop qmap t0 t1 rest s
      else intakeLoop qmap t0 t1 rest (s.classify qmap now p)

end LinkController
end LunaBridge
