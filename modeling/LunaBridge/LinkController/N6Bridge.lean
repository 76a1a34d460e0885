import LunaBridge.Foundation.Bytes
import LunaBridge.Foundation.Machine

/-!
# N6Bridge — GTP-U packets out of a capture stream

`gtpuPackets` is the generator of the bridge as a program over what is left of the stream and the
tuples yielded so far; it keeps them when it raises.  Its two loops recurse on a fuel argument.
Timestamps are exact rationals.
-/

namespace LunaBridge
namespace LinkController

open Foundation.Python Foundation.Bytes

/-! ## Data -/

/-- A tuple the generator yields. -/
structure GtpuPacket where
  ts : ℚ
  teid : ℕ
  qfi : Option ℕ
  inner : List UInt8
  deriving DecidableEq, Repr

/-- The generator between two steps: what the stream still holds, and the tuples yielded. -/
structure Capture where
  unread : List UInt8
  yielded : List GtpuPacket
  deriving DecidableEq, Repr

/-- A generator that has yet to start. -/
def Capture.start (stream : List UInt8) : Capture := { unread := stream, yielded := [] }

/-- Programs of the generator. -/
abbrev GtpuM := EStateM PyError Capture

/-- `stream.read(n)`: fewer bytes only at the end of the stream. -/
def read (n : ℕ) : GtpuM (List UInt8) := do
  let s ← get
  set { s with unread := s.unread.drop n }
  pure (s.unread.take n)

/-- `yield`. -/
def yieldPacket (p : GtpuPacket) : GtpuM PUnit :=
  modify fun s => { s with yielded := s.yielded ++ [p] }

/-! ## One packet -/

/-- `{1: 14, 113: 16, 276: 20}.get(linktype, 14)`. -/
def linkHeader (linktype : ℕ) : ℕ :=
  if linktype = 1 then 14
  else if linktype = 113 then 16
  else if linktype = 276 then 20
  else 14

/-- The captured bytes from the flags of the GTP-U header on; nothing where the loop continues
with the next record. -/
def gtpOctets (l2 : ℕ) (pkt : List UInt8) : Except PyError (Option (List UInt8)) := do
  let ip := pkt.drop l2
  if ip.length < 28 then
    pure none
  else do
    let first ← index ip 0
    if first >>> 4 ≠ 4 then
      pure none
    else do
      let protocol ← index ip 9
      if protocol ≠ 17 then
        pure none
      else do
        let ihl := (first &&& 0x0F).toNat * 4
        let udp := ip.drop ihl
        let g := udp.drop 8
        if g.length < 8 then
          pure none
        else do
          let kind ← index g 1
          -- G-PDU only
          if kind ≠ 0xFF then
            pure none
          else
            pure (some g)

/-- `while nxt`, over the chain of extension headers. -/
def extensionLoop (g : List UInt8) :
    ℕ → UInt8 → ℕ → Option ℕ → Except PyError (ℕ × Option ℕ)
  | 0, _, _, _ => .error .outOfFuel
  | fuel + 1, nxt, off, qfi =>
      if nxt = 0 then
        .ok (off, qfi)
      else do
        let units ← index g off
        let ln := units.toNat * 4
        let qfi ←
          -- PDU session container
          if nxt = 0x85 ∧ 4 ≤ ln then do
            let octet ← index g (off + 2)
            pure (some (octet &&& 0x3F).toNat)
          else
            pure qfi
        let nxt ← index g (off + ln - 1)
        extensionLoop g fuel nxt (off + ln) qfi

/-- What the loop makes of one packet captured at `ts`. -/
def decodePacket (l2 : ℕ) (ts : ℚ) (fuel : ℕ) (pkt : List UInt8) :
    Except PyError (Option GtpuPacket) := do
  match ← gtpOctets l2 pkt with
  | none => pure none
  | some g => do
      let flags ← index g 0
      let teid ← unpackI .big ((g.drop 4).take 4)
      -- E/S/PN present: 4 more bytes
      if flags &&& 0x07 ≠ 0 then do
        let nxt ← index g 11
        let (off, qfi) ← extensionLoop g fuel nxt 12 none
        pure (some { ts := ts, teid := teid, qfi := qfi, inner := g.drop off })
      else
        pure (some { ts := ts, teid := teid, qfi := none, inner := g.drop 8 })

/-! ## The stream -/

/-- `sec + frac / (1e9 if nano else 1e6)`. -/
def timestamp (nano : Bool) (sec frac : ℕ) : ℚ := sec + frac / (if nano then 10 ^ 9 else 10 ^ 6)

/-- `while True`, over the records. -/
def recordLoop (e : Endian) (nano : Bool) (l2 : ℕ) : ℕ → GtpuM PUnit
  | 0 => throw .outOfFuel
  | fuel + 1 => do
      let ph ← read 16
      if ph.length < 16 then
        pure ⟨⟩
      else do
        let (sec, frac, incl, _) ← MonadExcept.ofExcept (unpackIIII e ph)
        let pkt ← read incl
        match ← MonadExcept.ofExcept (decodePacket l2 (timestamp nano sec frac) fuel pkt) with
        | none => recordLoop e nano l2 fuel
        | some p => do
            yieldPacket p
            recordLoop e nano l2 fuel

/-- The byte order the magic number, read as little-endian, stands for. -/
def endianOf (magic : ℕ) : Endian :=
  if magic ∈ [0xA1B2C3D4, 0xA1B23C4D] then .little else .big

/-- Whether the magic number stands for nanoseconds. -/
def nanoOf (magic : ℕ) : Bool := decide (magic ∈ [0xA1B23C4D, 0x4D3CB2A1])

/-- `gtpu_packets`. -/
def gtpuPackets (fuel : ℕ) : GtpuM PUnit := do
  let gh ← read 24
  if gh.length < 24 then
    pure ⟨⟩
  else do
    let magic ← MonadExcept.ofExcept (unpackI .little (gh.take 4))
    let endian := endianOf magic
    let linktype ← MonadExcept.ofExcept (unpackI endian ((gh.drop 20).take 4))
    recordLoop endian (nanoOf magic) (linkHeader linktype) fuel

end LinkController
end LunaBridge
