import LunaBridge.Gtpu.Records
import Mathlib.Data.List.GetD

/-!
# RoundTrip — the generator undoes the encoding of a capture

`CaptureFile` says what a capture consists of, and `encode` how it is laid out, octet by octet.
The pieces are undone from the inside out: the chain of extension headers, the G-PDU, the record,
the stream.
-/

namespace LunaBridge
namespace LinkController

open Foundation.Python Foundation.Bytes

/-! ## The format -/

/-- An extension header: its type, its length in units of four octets and what stands between the
length and the type of the next one. -/
structure ExtensionHeader where
  type : UInt8
  units : UInt8
  content : List UInt8
  type_ne : type ≠ 0
  units_ne : units ≠ 0
  length_eq : content.length + 2 = units.toNat * 4

/-- The type of the first extension header, then the headers. -/
def encodeChain : List ExtensionHeader → List UInt8
  | [] => [0]
  | x :: xs => x.type :: x.units :: x.content ++ encodeChain xs

/-- A PDU session container. -/
def ExtensionHeader.container (x : ExtensionHeader) : Bool := decide (x.type = 0x85)

/-- The low six bits of the QFI octet. -/
def ExtensionHeader.qfi (x : ExtensionHeader) : ℕ := (x.content.getD 1 0).toNat % 64

/-- The QFI of the last PDU session container. -/
def lastQfi (xs : List ExtensionHeader) : Option ℕ :=
  (xs.filter ExtensionHeader.container).getLast?.map ExtensionHeader.qfi

/-- An IPv4/UDP packet with a G-PDU: `front` and `rest` are the octets of the IP header before and
after the protocol, `length` those of the GTP-U length, `sequence` the three optional ones before
the type of the first extension header. -/
structure GPdu where
  ihl : ℕ
  front : List UInt8
  rest : List UInt8
  udp : List UInt8
  flags : UInt8
  length : List UInt8
  teid : UInt32
  sequence : List UInt8
  extensions : List ExtensionHeader
  inner : List UInt8
  ihl_ge : 5 ≤ ihl
  ihl_le : ihl ≤ 15
  front_length : front.length = 8
  rest_length : rest.length + 10 = ihl * 4
  udp_length : udp.length = 8
  length_length : length.length = 2
  sequence_length : sequence.length = 3
  extensions_flag : flags &&& 0x04 = 0 → extensions = []

namespace GPdu

/-- The octets before the inner packet. -/
def header (p : GPdu) : List UInt8 :=
  p.flags :: 0xFF :: p.length ++ Endian.big.encode 4 p.teid.toNat

/-- The octets of GTP-U. -/
def gtp (p : GPdu) : List UInt8 :=
  if p.flags &&& 0x07 = 0 then p.header ++ p.inner
  else p.header ++ p.sequence ++ encodeChain p.extensions ++ p.inner

/-- The octets of IP. -/
def encode (p : GPdu) : List UInt8 :=
  UInt8.ofNat (4 * 16 + p.ihl) :: p.front ++ 17 :: p.rest ++ p.udp ++ p.gtp

/-- What is to be yielded for it. -/
def packet (p : GPdu) (ts : ℚ) : GtpuPacket where
  ts := ts
  teid := p.teid.toNat
  qfi := lastQfi p.extensions
  inner := p.inner

end GPdu

/-- The link types with a header of their own length. -/
inductive LinkType
  | ethernet
  | linuxSll
  | linuxSll2
  deriving DecidableEq, Repr

def LinkType.number : LinkType → ℕ
  | .ethernet => 1
  | .linuxSll => 113
  | .linuxSll2 => 276

def LinkType.header : LinkType → ℕ
  | .ethernet => 14
  | .linuxSll => 16
  | .linuxSll2 => 20

/-- A packet behind a link header of `l2` octets: a G-PDU, or one that is no G-PDU over UDP over
IPv4. -/
inductive LinkPacket (l2 : ℕ)
  | gpdu (link : List UInt8) (hlink : link.length = l2) (p : GPdu)
  | other (bytes : List UInt8) (hother : ¬ Marked (bytes.drop l2))

namespace LinkPacket

variable {l2 : ℕ}

def bytes : LinkPacket l2 → List UInt8
  | .gpdu link _ p => link ++ p.encode
  | .other bytes _ => bytes

/-- What is to be yielded for it. -/
def packet? (ts : ℚ) : LinkPacket l2 → Option GtpuPacket
  | .gpdu _ _ p => some (p.packet ts)
  | .other _ _ => none

end LinkPacket

/-- A record: the timestamp, the length on the wire and a packet whose length fits its field. -/
structure PcapRecord (l2 : ℕ) where
  sec : UInt32
  frac : UInt32
  orig : UInt32
  packet : LinkPacket l2
  fits : packet.bytes.length < 256 ^ 4

namespace PcapRecord

variable {l2 : ℕ}

def encode (e : Endian) (r : PcapRecord l2) : List UInt8 :=
  e.encode 4 r.sec.toNat ++ e.encode 4 r.frac.toNat ++ e.encode 4 r.packet.bytes.length ++
    e.encode 4 r.orig.toNat ++ r.packet.bytes

/-- The record as it is cut out of the stream. -/
def captured (r : PcapRecord l2) : CaptureRecord where
  sec := r.sec.toNat
  frac := r.frac.toNat
  packet := r.packet.bytes

def packet? (nano : Bool) (r : PcapRecord l2) : Option GtpuPacket :=
  r.packet.packet? (timestamp nano r.sec.toNat r.frac.toNat)

end PcapRecord

/-- A capture: byte order, resolution, the sixteen octets of the file header that are not read, link
type and records. -/
structure CaptureFile where
  endian : Endian
  nano : Bool
  version : List UInt8
  linktype : LinkType
  records : List (PcapRecord linktype.header)
  version_length : version.length = 16

namespace CaptureFile

def magic (file : CaptureFile) : ℕ := if file.nano then 0xA1B23C4D else 0xA1B2C3D4

def header (file : CaptureFile) : List UInt8 :=
  file.endian.encode 4 file.magic ++ file.version ++ file.endian.encode 4 file.linktype.number

def encode (file : CaptureFile) : List UInt8 :=
  file.header ++ file.records.flatMap (PcapRecord.encode file.endian)

/-- What is to be yielded for it: one tuple for each G-PDU, in order. -/
def packets (file : CaptureFile) : List GtpuPacket :=
  file.records.filterMap (PcapRecord.packet? file.nano)

end CaptureFile

/-! ## The chain of extension headers -/

/-- The octet in front of the first extension header. -/
def firstType : List ExtensionHeader → UInt8
  | [] => 0
  | x :: _ => x.type

theorem encodeChain_head (xs : List ExtensionHeader) :
    ∃ tail, encodeChain xs = firstType xs :: tail := by
  cases xs with
  | nil => exact ⟨[], rfl⟩
  | cons x xs => exact ⟨x.units :: x.content ++ encodeChain xs, rfl⟩

theorem length_lt_encodeChain (xs : List ExtensionHeader) :
    xs.length < (encodeChain xs).length := by
  induction xs with
  | nil => exact Nat.one_pos
  | cons x xs ih =>
      simp only [encodeChain, List.length_cons, List.cons_append, List.length_append]
      omega

theorem lastQfi_cons (x : ExtensionHeader) (xs : List ExtensionHeader) (qfi : Option ℕ) :
    (lastQfi (x :: xs)).or qfi =
      (lastQfi xs).or (if x.type = 0x85 then some x.qfi else qfi) := by
  by_cases hx : x.type = 0x85
  · have hcontainer : x.container = true := decide_eq_true hx
    rw [if_pos hx, lastQfi, lastQfi, List.filter_cons_of_pos hcontainer, List.getLast?_cons]
    cases (xs.filter ExtensionHeader.container).getLast? <;> rfl
  · have hcontainer : ¬ x.container = true := by simpa [ExtensionHeader.container] using hx
    rw [if_neg hx, lastQfi, lastQfi, List.filter_cons_of_neg hcontainer]

theorem and_3F (b : UInt8) : (b &&& 0x3F).toNat = b.toNat % 64 := by
  rw [UInt8.toNat_and]
  exact Nat.and_two_pow_sub_one_eq_mod b.toNat 6

/-! What the loop reads of an extension header that stands between `before` and `nxt :: rest`. -/

section Front

variable (before rest : List UInt8) (x : ExtensionHeader) (nxt : UInt8)

theorem passed_length : (before ++ x.type :: x.units :: x.content).length =
    before.length + x.units.toNat * 4 := by
  have hcontent := x.length_eq
  simp only [List.length_append, List.length_cons]
  omega

theorem passed_units : ((before ++ x.type :: x.units :: x.content) ++ nxt :: rest)[
    before.length + 1]? = some x.units := by
  rw [List.append_assoc, List.getElem?_append_right (by omega)]
  simp

/-- The last octet of the header is the type of what follows. -/
theorem passed_next : ((before ++ x.type :: x.units :: x.content) ++ nxt :: rest)[
    before.length + 1 + x.units.toNat * 4 - 1]? = some nxt := by
  have hlength := passed_length before x
  rw [List.getElem?_append_right (by omega)]
  have hindex : before.length + 1 + x.units.toNat * 4 - 1 -
      (before ++ x.type :: x.units :: x.content).length = 0 := by omega
  rw [hindex]
  rfl

/-- The octet that holds the QFI, if the header is a PDU session container. -/
theorem passed_octet : ((before ++ x.type :: x.units :: x.content) ++ nxt :: rest)[
    before.length + 1 + 2]? = some (x.content.getD 1 0) := by
  have hpos := units_pos x.units_ne
  have hcontent := x.length_eq
  rw [List.append_assoc, List.getElem?_append_right (by omega)]
  have hindex : before.length + 1 + 2 - before.length = 3 := by omega
  rw [hindex]
  simp only [List.cons_append, List.getElem?_cons_succ]
  rw [List.getElem?_append_left (by omega), List.getD_eq_getElem?_getD,
    List.getElem?_eq_getElem (by omega)]
  rfl

theorem passed_qfi (qfi : Option ℕ) :
    qfiAfter ((before ++ x.type :: x.units :: x.content) ++ nxt :: rest) x.type
        (before.length + 1) qfi =
      if x.type = 0x85 then some x.qfi else qfi := by
  rw [qfiAfter, passed_octet, Option.map_some, and_3F]
  rfl

/-- One round passes the header. -/
theorem extensionLoop_passed (fuel : ℕ) (qfi : Option ℕ) :
    extensionLoop ((before ++ x.type :: x.units :: x.content) ++ nxt :: rest) (fuel + 1) x.type
        (before.length + 1) qfi =
      extensionLoop ((before ++ x.type :: x.units :: x.content) ++ nxt :: rest) fuel nxt
        ((before ++ x.type :: x.units :: x.content).length + 1)
        (if x.type = 0x85 then some x.qfi else qfi) := by
  have hoff : before.length + 1 + x.units.toNat * 4 =
      (before ++ x.type :: x.units :: x.content).length + 1 := by
    have := passed_length before x
    omega
  rw [extensionLoop_next x.type_ne (passed_units before rest x nxt) x.units_ne
    (passed_next before rest x nxt), passed_qfi, hoff]

end Front

/-- The loop passes the whole chain. -/
theorem extensionLoop_encodeChain (inner : List UInt8) :
    ∀ (xs : List ExtensionHeader) (before : List UInt8) (qfi : Option ℕ) (fuel : ℕ),
      xs.length < fuel →
      extensionLoop (before ++ encodeChain xs ++ inner) fuel (firstType xs) (before.length + 1)
          qfi =
        .ok (before.length + (encodeChain xs).length, (lastQfi xs).or qfi) := by
  intro xs
  induction xs with
  | nil =>
      intro before qfi fuel hfuel
      obtain ⟨fuel, rfl⟩ : ∃ k, fuel = k + 1 := ⟨fuel - 1, by omega⟩
      exact extensionLoop_done fuel _ qfi
  | cons x xs ih =>
      intro before qfi fuel hfuel
      obtain ⟨fuel, rfl⟩ : ∃ k, fuel = k + 1 := ⟨fuel - 1, by omega⟩
      obtain ⟨tail, htail⟩ := encodeChain_head xs
      -- the header is passed, and the chain behind it is left
      have hbehind := ih (before ++ x.type :: x.units :: x.content)
        (if x.type = 0x85 then some x.qfi else qfi) fuel (by simpa using hfuel)
      have hsplit : before ++ encodeChain (x :: xs) ++ inner =
          (before ++ x.type :: x.units :: x.content) ++ firstType xs :: (tail ++ inner) := by
        simp [encodeChain, htail]
      have hsame : before ++ x.type :: x.units :: x.content ++ encodeChain xs ++ inner =
          (before ++ x.type :: x.units :: x.content) ++ firstType xs :: (tail ++ inner) := by
        simp [htail]
      rw [hsame] at hbehind
      rw [hsplit, firstType, extensionLoop_passed, hbehind, lastQfi_cons]
      congr 2
      simp only [encodeChain, List.length_append, List.length_cons]
      omega

/-! ## One packet -/

namespace GPdu

variable (p : GPdu)

theorem header_length : p.header.length = 8 := by
  simp [header, p.length_length]

theorem gtp_split : ∃ tail, p.gtp = p.header ++ tail := by
  rw [gtp]
  split
  · exact ⟨_, rfl⟩
  · exact ⟨_, by rw [List.append_assoc, List.append_assoc]⟩

theorem gtp_flags : p.gtp.getD 0 0 = p.flags := by
  obtain ⟨tail, htail⟩ := p.gtp_split
  rw [htail]
  rfl

theorem gtp_type : p.gtp.getD 1 0 = 0xFF := by
  obtain ⟨tail, htail⟩ := p.gtp_split
  rw [htail]
  rfl

theorem gtp_length : 8 ≤ p.gtp.length := by
  obtain ⟨tail, htail⟩ := p.gtp_split
  rw [htail, List.length_append, p.header_length]
  omega

theorem gtp_teid : teidOf p.gtp = p.teid.toNat := by
  obtain ⟨tail, htail⟩ := p.gtp_split
  have hsplit : p.gtp = (p.flags :: 0xFF :: p.length) ++
      (Endian.big.encode 4 p.teid.toNat ++ tail) := by
    rw [htail, header, List.append_assoc]
  have hfront : (p.flags :: 0xFF :: p.length).length = 4 := by simp [p.length_length]
  rw [teidOf, hsplit, List.drop_left' hfront, List.take_left' (Endian.encode_length ..),
    Endian.decode_encode _ p.teid.toNat_lt]

/-- The octets in front of GTP-U. -/
def outer : List UInt8 := UInt8.ofNat (4 * 16 + p.ihl) :: p.front ++ 17 :: p.rest ++ p.udp

theorem outer_length : p.outer.length = p.ihl * 4 + 8 := by
  have := p.front_length
  have := p.rest_length
  have := p.udp_length
  simp only [outer, List.length_append, List.length_cons]
  omega

theorem encode_eq : p.encode = p.outer ++ p.gtp := rfl

section Outer

variable (g : List UInt8)

theorem first_toNat : ((p.outer ++ g).getD 0 0).toNat = 4 * 16 + p.ihl := by
  have hfirst : (p.outer ++ g).getD 0 0 = UInt8.ofNat (4 * 16 + p.ihl) := rfl
  have := p.ihl_le
  rw [hfirst, UInt8.toNat_ofNat', Nat.mod_eq_of_lt (by omega)]

theorem udpPayload_outer : udpPayload (p.outer ++ g) = g := by
  have := p.ihl_le
  have hihl : (4 * 16 + p.ihl) % 16 = p.ihl := by omega
  rw [udpPayload, p.first_toNat, hihl, List.drop_left' p.outer_length]

variable {g}

/-- Behind these headers everything that says it is a G-PDU is parsed. -/
theorem outer_parsed (hlength : 8 ≤ g.length) (htype : g.getD 1 0 = 0xFF) :
    Parsed (p.outer ++ g) := by
  have := p.ihl_ge
  have := p.ihl_le
  have hihl : (4 * 16 + p.ihl) % 16 = p.ihl := by omega
  have houter := p.outer_length
  refine ⟨?_, ?_, ?_, ?_, ?_⟩
  · rw [List.length_append]
    omega
  · rw [p.udpPayload_outer]
    exact hlength
  · rw [p.first_toNat]
    omega
  · have hfront : (UInt8.ofNat (4 * 16 + p.ihl) :: p.front).length = 9 := by
      simp [p.front_length]
    have hsplit : p.outer ++ g = (UInt8.ofNat (4 * 16 + p.ihl) :: p.front) ++
        (17 :: (p.rest ++ p.udp ++ g)) := by
      simp [outer]
    rw [hsplit, List.getD_append_right _ _ _ _ (by omega), hfront]
    rfl
  · rw [p.first_toNat, hihl, List.getD_append_right _ _ _ _ (by omega)]
    have hindex : p.ihl * 4 + 9 - p.outer.length = 1 := by omega
    rw [hindex, htype]

end Outer

theorem udpPayload_encode : udpPayload p.encode = p.gtp := p.udpPayload_outer p.gtp

theorem encode_parsed : Parsed p.encode := p.outer_parsed p.gtp_length p.gtp_type

/-- The decoder undoes the encoding of a G-PDU, whatever link header it follows. -/
theorem decode {l2 : ℕ} {link : List UInt8} (hlink : link.length = l2) (ts : ℚ) {fuel : ℕ}
    (hfuel : (link ++ p.encode).length < fuel) :
    decodePacket l2 ts fuel (link ++ p.encode) = .ok (some (p.packet ts)) := by
  have hip : (link ++ p.encode).drop l2 = p.encode := List.drop_left' hlink
  have hparsed : Parsed ((link ++ p.encode).drop l2) := by
    rw [hip]
    exact p.encode_parsed
  have hflags : Flagged p.gtp ↔ p.flags &&& 0x07 ≠ 0 := by rw [Flagged, p.gtp_flags]
  rw [decodePacket_parsed hparsed, hip, p.udpPayload_encode, p.gtp_teid]
  by_cases hflag : p.flags &&& 0x07 = 0
  · have hextensions : p.extensions = [] := by
      refine p.extensions_flag ?_
      calc p.flags &&& 0x04
          _ = p.flags &&& 0x07 &&& 0x04 := by rw [UInt8.and_assoc]; rfl
          _ = 0 := by rw [hflag, UInt8.zero_and]
    have hinner : p.gtp.drop 8 = p.inner := by
      rw [gtp, if_pos hflag, List.drop_left' p.header_length]
    rw [if_neg fun h => hflags.1 h hflag, hinner, packet, hextensions]
    rfl
  · have hbefore : (p.header ++ p.sequence).length = 11 := by
      rw [List.length_append, p.header_length, p.sequence_length]
    have hgtp : p.gtp = p.header ++ p.sequence ++ encodeChain p.extensions ++ p.inner := by
      rw [gtp, if_neg hflag]
    obtain ⟨tail, htail⟩ := encodeChain_head p.extensions
    have hnxt : p.gtp[11]? = some (firstType p.extensions) := by
      rw [hgtp, List.append_assoc, List.getElem?_append_right (by omega), hbefore, htail]
      rfl
    have hshort : p.extensions.length < fuel := by
      have hchain := length_lt_encodeChain p.extensions
      have hlength := congrArg List.length hgtp
      rw [p.encode_eq] at hfuel
      simp only [List.length_append] at hfuel hlength
      omega
    have hloop : extensionLoop p.gtp fuel (firstType p.extensions) 12 none =
        .ok (11 + (encodeChain p.extensions).length, lastQfi p.extensions) := by
      have hrun := extensionLoop_encodeChain p.inner p.extensions (p.header ++ p.sequence) none
        fuel hshort
      rw [hbefore, ← hgtp, Option.or_none] at hrun
      exact hrun
    have hinner : p.gtp.drop (11 + (encodeChain p.extensions).length) = p.inner := by
      rw [hgtp]
      exact List.drop_left' (by rw [List.length_append, hbefore])
    rw [if_pos (hflags.2 hflag), index_of_some hnxt, ok_bind, hloop, ok_bind]
    show Except.ok _ = _
    rw [hinner, packet]

end GPdu

/-- Whatever the packet, the source makes of it what it is. -/
theorem LinkPacket.decode {l2 : ℕ} (x : LinkPacket l2) (ts : ℚ) {fuel : ℕ}
    (hfuel : x.bytes.length < fuel) :
    decodePacket l2 ts fuel x.bytes = .ok (x.packet? ts) := by
  cases x with
  | gpdu link hlink p => exact p.decode hlink ts hfuel
  | other bytes hother => exact decodePacket_skipped (fun h => hother h.2.2) ts fuel

/-! ## The stream -/

section Framing

variable {l2 : ℕ}

/-- A record in front of others, whatever its packet. -/
theorem records_cons (e : Endian) {sec frac : ℕ} (hsec : sec < 256 ^ 4) (hfrac : frac < 256 ^ 4)
    (orig : ℕ) {packet : List UInt8} (hfits : packet.length < 256 ^ 4) (tail : List UInt8) :
    records e (e.encode 4 sec ++ e.encode 4 frac ++ e.encode 4 packet.length ++ e.encode 4 orig ++
      packet ++ tail) = ⟨sec, frac, packet⟩ :: records e tail := by
  have hlength : ∀ n : ℕ, (e.encode 4 n).length = 4 := e.encode_length 4
  obtain ⟨bs, hbs⟩ : ∃ bs, bs = e.encode 4 sec ++ (e.encode 4 frac ++
    (e.encode 4 packet.length ++ (e.encode 4 orig ++ (packet ++ tail)))) := ⟨_, rfl⟩
  have hlong : ¬ bs.length < 16 := by
    rw [hbs]
    simp only [List.length_append, hlength]
    omega
  have hfirst : bs.take 4 = e.encode 4 sec := by
    rw [hbs, List.take_left' (hlength _)]
  have hafterSec : bs.drop 4 = e.encode 4 frac ++ (e.encode 4 packet.length ++
      (e.encode 4 orig ++ (packet ++ tail))) := by
    rw [hbs, List.drop_left' (hlength _)]
  have hafterFrac : bs.drop 8 = e.encode 4 packet.length ++ (e.encode 4 orig ++
      (packet ++ tail)) := by
    rw [show (8 : ℕ) = 4 + 4 from rfl, ← List.drop_drop, hafterSec, List.drop_left' (hlength _)]
  have hafter : bs.drop 16 = packet ++ tail := by
    rw [show (16 : ℕ) = 8 + (4 + 4) from rfl, ← List.drop_drop, hafterFrac, ← List.drop_drop,
      List.drop_left' (hlength _), List.drop_left' (hlength _)]
  simp only [List.append_assoc]
  rw [← hbs, records_long e hlong, hfirst, hafterSec, hafterFrac, hafter,
    List.take_left' (hlength _), List.take_left' (hlength _), Endian.decode_encode e hsec,
    Endian.decode_encode e hfrac, Endian.decode_encode e hfits, List.take_left' rfl,
    List.drop_left' rfl]

/-- The first record of an encoded sequence. -/
theorem records_encode_cons (e : Endian) (r : PcapRecord l2) (tail : List UInt8) :
    records e (r.encode e ++ tail) = r.captured :: records e tail :=
  records_cons e r.sec.toNat_lt r.frac.toNat_lt r.orig.toNat r.fits tail

theorem records_encode (e : Endian) (rs : List (PcapRecord l2)) :
    records e (rs.flatMap (PcapRecord.encode e)) = rs.map PcapRecord.captured := by
  induction rs with
  | nil => exact records_short e (by simp)
  | cons r rs ih => rw [List.flatMap_cons, records_encode_cons, ih, List.map_cons]

end Framing

namespace CaptureFile

variable (file : CaptureFile)

theorem header_length : file.header.length = 24 := by
  simp [header, file.version_length]

/-- The magic number gives away byte order and resolution. -/
theorem fileHeader_header :
    fileHeader file.header = ⟨file.endian, file.nano, file.linktype.header⟩ := by
  have hmagic : file.header.take 4 = file.endian.encode 4 file.magic := by
    rw [header, List.append_assoc, List.take_left' (file.endian.encode_length 4 _)]
  have hlink : (file.header.drop 20).take 4 = file.endian.encode 4 file.linktype.number := by
    rw [header, List.drop_left' (by simp [file.version_length])]
    exact List.take_of_length_le (file.endian.encode_length 4 _).le
  have hendian : endianOf (leNat (file.endian.encode 4 file.magic)) = file.endian := by
    rw [magic]
    cases file.endian <;> cases file.nano <;> decide
  have hnano : nanoOf (leNat (file.endian.encode 4 file.magic)) = file.nano := by
    rw [magic]
    cases file.endian <;> cases file.nano <;> decide
  have hl2 : linkHeader file.linktype.number = file.linktype.header := by
    cases file.linktype <;> rfl
  have hfits : file.linktype.number < 256 ^ 4 := by
    cases file.linktype <;> decide
  rw [fileHeader, hmagic, hlink, hendian, hnano, Endian.decode_encode _ hfits, hl2]

theorem encode_header : file.encode.take 24 = file.header := List.take_left' file.header_length

theorem captured_encode : captured file.encode = file.records.map PcapRecord.captured := by
  have hlong : ¬ file.encode.length < 24 := by
    rw [encode, List.length_append, file.header_length]
    omega
  have hbody : file.encode.drop 24 = file.records.flatMap (PcapRecord.encode file.endian) :=
    List.drop_left' file.header_length
  rw [captured, if_neg hlong, file.encode_header, file.fileHeader_header, hbody, records_encode]

/-- Decoding undoes encoding: from every capture the generator yields one tuple for each G-PDU, in
order, with its timestamp, TEID, QFI and inner packet, yields nothing else, and returns. -/
theorem gtpuPackets_encode {fuel : ℕ} (hfuel : file.encode.length < fuel) :
    gtpuPackets fuel (.start file.encode) = .ok ⟨⟩ ⟨[], file.packets⟩ := by
  have hsettles : List.Forall₂
      (fun r o => (fileHeader (file.encode.take 24)).Settles r (.ok o)) (captured file.encode)
      (file.records.map (PcapRecord.packet? file.nano)) := by
    rw [file.captured_encode, file.encode_header, file.fileHeader_header]
    refine List.forall₂_map_left_iff.2 (List.forall₂_map_right_iff.2 (List.forall₂_same.2 ?_))
    exact fun r _ fuel hfuel => r.packet.decode _ hfuel
  rw [gtpuPackets_returns hsettles hfuel, packets, List.reduceOption, List.filterMap_map]
  rfl

end CaptureFile

/-! ## A small instance -/

namespace Small

/-- A PDU session container with the QFI 9. -/
def session : ExtensionHeader where
  type := 0x85
  units := 1
  content := [0, 0xC9]
  type_ne := by decide
  units_ne := by decide
  length_eq := rfl

def uplink : GPdu where
  ihl := 5
  front := List.replicate 8 0
  rest := List.replicate 10 0
  udp := List.replicate 8 0
  flags := 0x34
  length := [0, 10]
  teid := 7
  sequence := [0, 0, 0]
  extensions := [session]
  inner := [0x45, 0]
  ihl_ge := le_refl 5
  ihl_le := by decide
  front_length := rfl
  rest_length := rfl
  udp_length := rfl
  length_length := rfl
  sequence_length := rfl
  extensions_flag := by decide

/-- A G-PDU, and a packet that is none. -/
def file : CaptureFile where
  endian := .big
  nano := true
  version := List.replicate 16 0
  linktype := .ethernet
  records :=
    [{ sec := 1, frac := 500000000, orig := 0, packet := .gpdu (List.replicate 14 0) rfl uplink,
       fits := by decide },
     { sec := 2, frac := 0, orig := 0, packet := .other (List.replicate 40 0) (by decide),
       fits := by decide }]
  version_length := rfl

end Small

theorem CaptureFile.gtpuPackets_encode_small :
    gtpuPackets (Small.file.encode.length + 1) (.start Small.file.encode) =
      .ok ⟨⟩ ⟨[], [{ ts := 3 / 2, teid := 7, qfi := some 9, inner := [0x45, 0] }]⟩ := by
  have hpackets : Small.file.packets =
      [{ ts := 3 / 2, teid := 7, qfi := some 9, inner := [0x45, 0] }] := by decide +kernel
  rw [Small.file.gtpuPackets_encode (Nat.lt_add_one _), hpackets]

end LinkController
end LunaBridge
