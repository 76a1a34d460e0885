import LunaBridge.Gateway.TelemetryFiles
import LunaBridge.Gateway.TraceCapture

/-!
# PcapToTrace — a capture of marked packets as an arrival trace

`convert` goes through the packets of a capture and writes one record for each that has an IP layer;
times count from the first of them.  `convert_eq` says what it writes and what it counts.  A packet
gets the id and the class that the interceptor would have given it.  Its size counts what the link
layer has filled the frame up with as well, and its flow id is the same unless that padding is read
as ports (`packetFlow_raw_eq_iff`).
-/

namespace LunaBridge
namespace Gateway

open Foundation Foundation.Machine Foundation.Python Foundation.Text

/-- The IP layer of a packet: the packet itself, what the link layer has filled the frame up with
behind it, and the destination port of the layer above it if there is one. -/
structure IpLayer where
  packet : List UInt8
  padding : List UInt8
  dport : Option ℕ
  header : 20 ≤ packet.length

/-- `bytes(ip)`: scapy keeps the padding of the frame, and `len(ip)` counts it. -/
def IpLayer.raw (ip : IpLayer) : List UInt8 := ip.packet ++ ip.padding

/-- `ip.tos`. -/
def IpLayer.tos (ip : IpLayer) : ℕ := (ip.raw.getD 1 0).toNat

/-- A packet of a capture, as it is read. -/
structure CapturedPacket where
  time : ClockReading
  ip : Option IpLayer

/-- `a - b` of two floats. -/
def floatSub (a b : ℚ) : ℚ := nearestDouble (a - b)

/-- The variables of the loop, and the files that are written. -/
@[ext] structure Conversion where
  seq : ℕ := 0
  t0 : Option ClockReading := none
  perClass : Dict String ℕ := .empty
  perPortClass : Dict ℤ (Dict String ℕ) := .empty
  dir : RunDir

abbrev ConversionM := EStateM CaptureError Conversion

/-- `f` of what has been computed, or the exception. -/
def orRaise {α ε : Type} (wrap : ε → CaptureError) : Except ε α → ConversionM α
  | .ok a => pure a
  | .error e => throw (wrap e)

/-- `ip.dport if hasattr(ip, "dport") else -1`. -/
def IpLayer.port (ip : IpLayer) : ℤ :=
  match ip.dport with
  | some p => p
  | none => -1

/-- The body of the loop behind `IP not in pkt`. -/
def convertIp (time : ClockReading) (ip : IpLayer) : ConversionM PUnit := do
  let tc ← orRaise .raised (classifyPacket ((ip.tos >>> 2) &&& 0x3F : ℕ))
  let s ← get
  let t0 := s.t0.getD time
  let flowId ← orRaise .flowId (deriveFlowId ip.raw)
  let record := captureRecord (decimal (s.seq + 1)) flowId tc ip.raw.length
    (floatSub time.value t0.value)
  let perPortClass := s.perPortClass.setdefault ip.port .empty
  set ({ seq := s.seq + 1
         t0 := some t0
         perClass := s.perClass.increment tc.value
         -- the default has been stored, so `per_port_class[dport]` is there
         perPortClass := perPortClass.set ip.port
           ((perPortClass.getD ip.port .empty).increment tc.value)
         dir := s.dir.write (.bundle record) } : Conversion)

/-- The body of the loop. -/
def convertPacket (pkt : CapturedPacket) : ConversionM PUnit :=
  match pkt.ip with
  | none => pure ⟨⟩
  | some ip => convertIp pkt.time ip

/-- `convert`, with the files of the directory at the start. -/
def convert (dir : RunDir) (pkts : List CapturedPacket) :
    EStateM.Result CaptureError Conversion PUnit :=
  pkts.forM convertPacket { dir := dir }

/-! ## What is converted -/

/-- The packets with an IP layer, and their times. -/
def ipLayers (pkts : List CapturedPacket) : List (ClockReading × IpLayer) :=
  pkts.filterMap fun pkt => pkt.ip.map (pkt.time, ·)

/-- The class of a packet. -/
def IpLayer.trafficClass (ip : IpLayer) : TrafficClass :=
  (dscpToClass.lookup (((ip.tos >>> 2) &&& 0x3F : ℕ) : ℤ)).getD defaultClass

/-- The record of a packet, when `ps` are all packets and `i` are before it. -/
def traceRecord (ps : List (ClockReading × IpLayer)) (i : ℕ) (p : ClockReading × IpLayer) :
    BundleRecord :=
  let t0 := (ps.head?.map Prod.fst).getD p.1
  captureRecord (decimal (i + 1)) (packetFlow p.2.raw) p.2.trafficClass p.2.raw.length
    (floatSub p.1.value t0.value)

/-- The trace of some packets. -/
def traceOf (ps : List (ClockReading × IpLayer)) : List BundleRecord := ps.mapIdx (traceRecord ps)

/-- Which class a packet is counted under. -/
def classOf (p : ClockReading × IpLayer) : String := p.2.trafficClass.value

/-- What the loop has done after the packets `ps`. -/
def conversionOf (dir : RunDir) (ps : List (ClockReading × IpLayer)) : Conversion where
  seq := ps.length
  t0 := ps.head?.map Prod.fst
  perClass := .tally classOf ps
  perPortClass := .gather (fun p => p.2.port) .empty (fun d p => d.increment (classOf p)) ps
  dir := dir.writeAll ((traceOf ps).map .bundle)

theorem classifyPacket_tos (ip : IpLayer) :
    classifyPacket ((ip.tos >>> 2) &&& 0x3F : ℕ) = .ok ip.trafficClass := by
  have hlt : (ip.tos >>> 2) &&& 0x3F < 64 := by
    rw [upperSix]
    exact Nat.mod_lt _ (by decide)
  rw [classifyPacket, if_pos (by omega), IpLayer.trafficClass]

theorem head?_concat_map {α β : Type} (f : α → β) (as : List α) (a : α) :
    ((as ++ [a]).head?.map f) = some ((as.head?.map f).getD (f a)) := by
  cases as <;> rfl

theorem traceOf_concat (ps : List (ClockReading × IpLayer)) (p : ClockReading × IpLayer) :
    traceOf (ps ++ [p]) = traceOf ps ++ [traceRecord (ps ++ [p]) ps.length p] := by
  rw [traceOf, List.mapIdx_concat, traceOf]
  congr 1
  cases ps with
  | nil => rfl
  | cons q ps => rfl

/-- One more packet. -/
theorem convertIp_eq (dir : RunDir) (ps : List (ClockReading × IpLayer)) (time : ClockReading)
    (ip : IpLayer) :
    convertIp time ip (conversionOf dir ps) = .ok ⟨⟩ (conversionOf dir (ps ++ [(time, ip)])) := by
  rw [convertIp, classifyPacket_tos, orRaise, pure_bind, run_get_bind, deriveFlowId_eq_ok, orRaise,
    pure_bind, run_set]
  refine congrArg (EStateM.Result.ok PUnit.unit) (Conversion.ext ?_ ?_ ?_ ?_ ?_)
  · have hlength : (ps ++ [(time, ip)]).length = ps.length + 1 := List.length_append
    exact hlength.symm
  · exact (head?_concat_map Prod.fst ps (time, ip)).symm
  · exact (Dict.tally_concat classOf ps (time, ip)).symm
  · have hcounts := Dict.gather_concat (fun p : ClockReading × IpLayer => p.2.port)
      (.empty : Dict String ℕ) (fun d p => d.increment (classOf p)) ps (time, ip)
    rw [Dict.set_setdefault, Dict.getD, Dict.get?_setdefault_self, Option.getD_some]
    exact hcounts.symm
  · have htrace := traceOf_concat ps (time, ip)
    rw [conversionOf, conversionOf, htrace, List.map_append, RunDir.writeAll, RunDir.writeAll,
      List.foldl_append]
    have horigin := head?_concat_map Prod.fst ps (time, ip)
    simp only [traceRecord, horigin, Option.getD_some]
    rfl

/-- The packets without an IP layer are passed over. -/
theorem forM_convertPacket (dir : RunDir) (pkts : List CapturedPacket)
    (ps : List (ClockReading × IpLayer)) :
    pkts.forM convertPacket (conversionOf dir ps) =
      .ok ⟨⟩ (conversionOf dir (ps ++ ipLayers pkts)) := by
  induction pkts generalizing ps with
  | nil =>
      rw [ipLayers, List.filterMap_nil, List.append_nil]
      rfl
  | cons pkt pkts ih =>
      cases hip : pkt.ip with
      | none =>
          have hskip : convertPacket pkt (conversionOf dir ps) = .ok ⟨⟩ (conversionOf dir ps) := by
            rw [convertPacket, hip]
            rfl
          have hlayers : ipLayers (pkt :: pkts) = ipLayers pkts :=
            List.filterMap_cons_none (by rw [hip]; rfl)
          rw [hlayers, ← ih]
          exact bind_ok hskip
      | some ip =>
          have hstep : convertPacket pkt (conversionOf dir ps) =
              .ok ⟨⟩ (conversionOf dir (ps ++ [(pkt.time, ip)])) := by
            rw [convertPacket, hip]
            exact convertIp_eq dir ps pkt.time ip
          have hlayers : ipLayers (pkt :: pkts) = (pkt.time, ip) :: ipLayers pkts :=
            List.filterMap_cons_some (by rw [hip]; rfl)
          rw [hlayers, List.append_cons, ← ih]
          exact bind_ok hstep

theorem convert_eq (dir : RunDir) (pkts : List CapturedPacket) :
    convert dir pkts = .ok ⟨⟩ (conversionOf dir (ipLayers pkts)) :=
  forM_convertPacket dir pkts []

/-! ## What is written -/

theorem traceOf_storable (ps : List (ClockReading × IpLayer)) : ∀ r ∈ traceOf ps, r.Storable := by
  intro r hr
  obtain ⟨i, hi, rfl⟩ := List.mem_mapIdx.1 hr
  have hsub : ∀ a b : ClockReading, |a.value - b.value| < 2 ^ 1001 := fun a b =>
    calc |a.value - b.value|
      _ ≤ |a.value| + |b.value| := abs_sub _ _
      _ < 2 ^ 1000 + 2 ^ 1000 := add_lt_add a.bound b.bound
      _ = 2 ^ 1001 := by rw [← two_mul, ← pow_succ']
  have hpow : ∀ m n : ℕ, m < n → (2 : ℚ) ^ m < 2 ^ n := fun m n h =>
    pow_lt_pow_right₀ (by norm_num) h
  refine captureRecord_storable (isDouble_nearestDouble ?_) ?_ _ _ _ _
  · exact (hsub _ _).trans (hpow 1001 1023 (by norm_num))
  · exact (abs_nearestDouble_le (hsub _ _)).trans_lt (hpow 1001 1002 (by norm_num))

/-- The trace is read back as it was written; there is no file if there was nothing to write. -/
theorem readBundles_convert (ps : List (ClockReading × IpLayer)) :
    readBundles (conversionOf {} ps).dir =
      if ps = [] then .error .fileNotFound else .ok ((traceOf ps).map LoadedRecord.of) := by
  have hrecords : recordsOf ((traceOf ps).map .bundle) = traceOf ps := by
    rw [recordsOf, List.filterMap_map]
    exact List.filterMap_some
  rw [conversionOf, writeAll_eq, hrecords]
  split_ifs with hnil
  · rw [hnil]
    rfl
  · refine readBundles_fileOf (traceOf_storable ps) ?_ _ _
    rw [traceOf, ne_eq, List.mapIdx_eq_nil_iff]
    exact hnil

/-! ## The interceptor on the same packets -/

theorem IpLayer.headD_raw (ip : IpLayer) : ip.raw.headD 0 = ip.packet.headD 0 := by
  have hpos : 0 < ip.packet.length := by
    have hheader := ip.header
    omega
  rw [List.headD_eq_head?_getD, List.headD_eq_head?_getD, List.head?_eq_getElem?,
    List.head?_eq_getElem?, raw, List.getElem?_append_left hpos]

/-- What lies inside the packet is where it was. -/
theorem IpLayer.slice_raw (ip : IpLayer) {i j : ℕ} (hj : j ≤ ip.packet.length) :
    slice ip.raw i j = slice ip.packet i j := by
  rw [slice, slice, raw, List.take_append_of_le_length hj]

/-- Byte for byte the codepoint that the interceptor extracts, of packets that are not IPv6. -/
theorem trafficClass_eq_packetClass {ip : IpLayer} (h : (ip.packet.headD 0).toNat >>> 4 ≠ 6) :
    ip.trafficClass = packetClass ip.packet := by
  obtain ⟨packet, padding, dport, hheader⟩ := ip
  obtain ⟨first, second, rest, rfl⟩ :
      ∃ first second rest, packet = first :: second :: rest := by
    match packet, hheader with
    | first :: second :: rest, _ => exact ⟨first, second, rest, rfl⟩
  have hfirst : first.toNat >>> 4 ≠ 6 := h
  rw [IpLayer.trafficClass, packetClass, extractDscp, if_neg hfirst]
  rfl

/-- A TCP or UDP packet that ends before its ports, in a frame that goes on to where they would
be. -/
def IpLayer.PaddingReadAsPorts (ip : IpLayer) : Prop :=
  (ip.packet[9]? = some 6 ∨ ip.packet[9]? = some 17) ∧
    ip.packet.length < headerLength ip.packet + 4 ∧ headerLength ip.packet + 4 ≤ ip.raw.length

instance (ip : IpLayer) : Decidable ip.PaddingReadAsPorts := instDecidableAnd

theorem portPair_raw_eq_iff (ip : IpLayer) :
    portPair ip.raw = portPair ip.packet ↔ ¬ ip.PaddingReadAsPorts := by
  have hheader := ip.header
  have hproto : ip.raw[9]? = ip.packet[9]? := List.getElem?_append_left (by omega)
  have hlength : headerLength ip.raw = headerLength ip.packet := by
    rw [headerLength, headerLength, ip.headD_raw]
  have hle : ip.packet.length ≤ ip.raw.length := by
    rw [IpLayer.raw, List.length_append]
    exact Nat.le_add_right _ _
  rw [portPair, portPair, IpLayer.PaddingReadAsPorts, hproto, hlength]
  by_cases hports : ip.packet[9]? = some 6 ∨ ip.packet[9]? = some 17
  · by_cases hinside : headerLength ip.packet + 4 ≤ ip.packet.length
    · -- both read the ports of the packet
      refine iff_of_true ?_ fun h => by omega
      rw [if_pos ⟨hports, by omega⟩, if_pos ⟨hports, hinside⟩, ip.slice_raw (by omega),
        ip.slice_raw hinside]
    · rw [if_neg fun h : _ ∧ _ => hinside h.2]
      by_cases hread : headerLength ip.packet + 4 ≤ ip.raw.length
      · rw [if_pos ⟨hports, hread⟩]
        exact iff_of_false (Option.some_ne_none _) fun h => h ⟨hports, by omega, hread⟩
      · rw [if_neg fun h : _ ∧ _ => hread h.2]
        exact iff_of_true rfl fun h => hread h.2.2
  · rw [if_neg fun h : _ ∧ _ => hports h.1, if_neg fun h : _ ∧ _ => hports h.1]
    exact iff_of_true rfl fun h => hports h.1

/-- Padding changes a flow id only where it is read as ports. -/
theorem packetFlow_raw_eq_iff (ip : IpLayer) :
    packetFlow ip.raw = packetFlow ip.packet ↔ ¬ ip.PaddingReadAsPorts := by
  have hheader := ip.header
  have hraw : 20 ≤ ip.raw.length := by
    rw [IpLayer.raw, List.length_append]
    omega
  have hproto : ip.raw[9]? = ip.packet[9]? := List.getElem?_append_left (by omega)
  have hflow := deriveFlowId_names_flow.2 ip.raw ip.packet hraw hheader
  rw [deriveFlowId_eq_ok, deriveFlowId_eq_ok, Except.ok.injEq] at hflow
  rw [hflow, ← portPair_raw_eq_iff]
  constructor
  · rintro ⟨-, -, -, hports⟩
    exact hports
  · intro hports
    exact ⟨ip.slice_raw (by omega), ip.slice_raw (by omega), hproto, hports⟩

/-- A record that has been read, without what depends on the clock. -/
def LoadedRecord.timeless (r : LoadedRecord) : LoadedRecord :=
  { r with
    ingressTs := .null
    expirationTs := .null }

/-- The record with the size that the converter gives to the packet. -/
def IpLayer.resize (ip : IpLayer) (r : LoadedRecord) : LoadedRecord :=
  { r with sizeBytes := .int ip.raw.length }

/-- The two records of one packet. -/
theorem timeless_captureRecord_iff (bundleId : Text) (ip : IpLayer)
    (hversion : (ip.packet.headD 0).toNat >>> 4 ≠ 6) (t t' : ℚ) :
    (LoadedRecord.of (captureRecord bundleId (packetFlow ip.raw) ip.trafficClass ip.raw.length
          t)).timeless =
        ip.resize (LoadedRecord.of (captureRecord bundleId (packetFlow ip.packet)
          (packetClass ip.packet) ip.packet.length t')).timeless ↔
      ¬ ip.PaddingReadAsPorts := by
  rw [← packetFlow_raw_eq_iff, trafficClass_eq_packetClass hversion]
  constructor
  · intro h
    have hflow := congrArg LoadedRecord.flowId h
    exact String.ofList_injective (jsonStr_injective hflow)
  · intro h
    rw [h]
    rfl

/-- Packet by packet the two write the same, but for the times and for the padding. -/
theorem traceOf_agrees_iff {ps : List (ClockReading × IpLayer)} {arrivals : List Arrival}
    (h : (fetched arrivals).map Prod.snd = ps.map fun p => p.2.packet)
    (hversion : ∀ p ∈ ps, (p.2.packet.headD 0).toNat >>> 4 ≠ 6) :
    ((traceOf ps).map fun r => (LoadedRecord.of r).timeless) =
        List.zipWith (fun p r => p.2.resize r) ps
          ((writesOf 1 arrivals).map fun w => (LoadedRecord.of w.record).timeless) ↔
      ∀ p ∈ ps, ¬ p.2.PaddingReadAsPorts := by
  have hentry : ∀ (i : ℕ) (p : ClockReading × IpLayer), ps[i]? = some p →
      (((traceOf ps).map fun r => (LoadedRecord.of r).timeless)[i]? =
          (List.zipWith (fun p r => p.2.resize r) ps
            ((writesOf 1 arrivals).map fun w => (LoadedRecord.of w.record).timeless))[i]? ↔
        ¬ p.2.PaddingReadAsPorts) := by
    intro i p hp
    have hi : ((fetched arrivals).map Prod.snd)[i]? = (ps.map fun p => p.2.packet)[i]? := by rw [h]
    rw [List.getElem?_map, List.getElem?_map, hp, Option.map_some, Option.map_eq_some_iff] at hi
    obtain ⟨a, ha, hpacket⟩ := hi
    rw [traceOf, writesOf, List.getElem?_zipWith, List.getElem?_map, List.getElem?_map,
      List.getElem?_mapIdx, List.getElem?_mapIdx, hp, ha]
    simp only [Option.map_some, Option.some.injEq, traceRecord, Arrival.write, hpacket,
      Nat.add_comm 1 i]
    exact timeless_captureRecord_iff _ _ (hversion p (List.mem_of_getElem? hp)) _ _
  rw [List.ext_getElem?_iff]
  constructor
  · intro heq p hp
    obtain ⟨i, hi⟩ := List.mem_iff_getElem?.1 hp
    exact (hentry i p hi).1 (heq i)
  · intro hports i
    cases hp : ps[i]? with
    | none =>
        rw [traceOf, List.getElem?_zipWith, List.getElem?_map, List.getElem?_mapIdx, hp]
        rfl
    | some p => exact (hentry i p hp).2 (hports p (List.mem_of_getElem? hp))

theorem sizes_writesOf {ps : List (ClockReading × IpLayer)} {arrivals : List Arrival}
    (h : (fetched arrivals).map Prod.snd = ps.map fun p => p.2.packet) (seq : ℕ) :
    ((writesOf seq arrivals).map fun w => (LoadedRecord.of w.record).sizeBytes) =
      ps.map fun p => .int p.2.packet.length := by
  have hsizes : ((writesOf seq arrivals).map fun w => (LoadedRecord.of w.record).sizeBytes) =
      ((fetched arrivals).map Prod.snd).map fun payload => .int payload.length := by
    refine List.ext_getElem? fun i => ?_
    rw [writesOf, List.getElem?_map, List.getElem?_mapIdx, List.getElem?_map, List.getElem?_map,
      Option.map_map, Option.map_map]
    rfl
  rw [hsizes, h, List.map_map]
  rfl

/-- From the same packets, if none is IPv6, there is one and every record has been written, the
converter and the interceptor leave traces that are read back to records of the same number, in the
same order.  The sizes of the interceptor are those of the packets, the sizes of the converter count
the padding as well, and but for sizes and times the records agree exactly if no padding is read as
ports. -/
theorem converter_agrees_with_interceptor {pkts : List CapturedPacket} {arrivals : List Arrival}
    (hpackets : (fetched arrivals).map Prod.snd = (ipLayers pkts).map fun p => p.2.packet)
    (hversion : ∀ p ∈ ipLayers pkts, (p.2.packet.headD 0).toNat >>> 4 ≠ 6)
    (hpkts : ipLayers pkts ≠ []) (hwritten : ∀ a ∈ arrivals, a.failedWrite = none) :
    ∃ conversion capture loaded loaded', convert {} pkts = .ok ⟨⟩ conversion ∧
      runInterceptor arrivals {} = .ok ⟨⟩ capture ∧
      readBundles conversion.dir = .ok loaded ∧ readBundlesText capture.bundles = .ok loaded' ∧
      loaded.length = (ipLayers pkts).length ∧
      loaded'.map LoadedRecord.sizeBytes = (ipLayers pkts).map (fun p => .int p.2.packet.length) ∧
      (loaded.map LoadedRecord.timeless =
          List.zipWith (fun p r => p.2.resize r) (ipLayers pkts)
            (loaded'.map LoadedRecord.timeless) ↔
        ∀ p ∈ ipLayers pkts, ¬ p.2.PaddingReadAsPorts) := by
  have hread := readBundles_convert (ipLayers pkts)
  rw [if_neg hpkts] at hread
  have hread' := readBundlesText_writesOf 1 hwritten
  refine ⟨_, _, _, _, convert_eq {} pkts, runInterceptor_eq arrivals {}, hread, hread', ?_, ?_, ?_⟩
  · rw [List.length_map, traceOf, List.length_mapIdx]
  · rw [List.map_map]
    exact sizes_writesOf hpackets 1
  · rw [List.map_map, List.map_map]
    exact traceOf_agrees_iff hpackets hversion

namespace Small

/-- A clock that stands still. -/
def clock : ClockReading where
  value := 0
  isDouble := isDouble_zero
  bound := by norm_num

/-- The header of a packet that is marked for emergencies. -/
def header : List UInt8 :=
  [0x45, 0xB8, 0, 20, 0, 0, 0, 0, 64, 1, 0, 0, 10, 45, 0, 2, 192, 168, 1, 7]

/-- A datagram marked for bulk data, with its ports. -/
def datagram : List UInt8 :=
  [0x45, 0x28, 0, 28, 0, 0, 0, 0, 64, 17, 0, 0, 10, 45, 0, 3, 192, 168, 1, 7,
    0x13, 0x88, 0x17, 0x71, 0, 8, 0, 0]

/-- A packet without an IP layer, and two marked ones in frames of the smallest size. -/
def capturedPackets : List CapturedPacket :=
  [⟨clock, none⟩,
    ⟨clock, some ⟨header, List.replicate 26 0, none, by decide⟩⟩,
    ⟨clock, some ⟨datagram, List.replicate 18 0, some 6001, by decide⟩⟩]

end Small

/-- The padding changes two sizes and no port. -/
theorem converter_agrees_with_interceptor_small :
    ∃ conversion capture loaded loaded',
      convert {} Small.capturedPackets = .ok ⟨⟩ conversion ∧
      runInterceptor [{ payload := .ok Small.header, clock := Small.clock },
        { payload := .ok Small.datagram, clock := Small.clock }] {} = .ok ⟨⟩ capture ∧
      readBundles conversion.dir = .ok loaded ∧ readBundlesText capture.bundles = .ok loaded' ∧
      loaded.length = 2 ∧
      loaded'.map LoadedRecord.sizeBytes = [.int 20, .int 28] ∧
      loaded.map LoadedRecord.timeless = List.zipWith (fun p r => p.2.resize r)
        (ipLayers Small.capturedPackets) (loaded'.map LoadedRecord.timeless) := by
  obtain ⟨conversion, capture, loaded, loaded', hconvert, hrun, hread, hread', hlength, hsizes,
    hagree⟩ := @converter_agrees_with_interceptor Small.capturedPackets
      [{ payload := .ok Small.header, clock := Small.clock },
        { payload := .ok Small.datagram, clock := Small.clock }] rfl
      (by decide) (List.cons_ne_nil _ _) (by simp)
  exact ⟨conversion, capture, loaded, loaded', hconvert, hrun, hread, hread', hlength, hsizes,
    hagree.2 (by decide)⟩

end Gateway
end LunaBridge
