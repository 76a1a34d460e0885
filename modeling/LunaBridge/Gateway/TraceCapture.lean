import LunaBridge.Gateway.N6Interceptor
import LunaBridge.Gateway.PriorityClassifier
import LunaBridge.Gateway.TornWrites

/-!
# TraceCapture — packets on their way through the interceptor

`packetCallback` takes one packet from the queue: it reads the addresses and the DS field, hands the
packet to `onPacket`, which writes a record of it, and accepts the packet whatever has been raised
before.  `interceptor_run` says what a whole run leaves: every packet has been accepted, the records
are numbered from one, and the trace is read back unless a line of it is torn.
-/

namespace LunaBridge
namespace Gateway

open Foundation Foundation.Machine Foundation.Python Foundation.Text

/-! ## Clocks -/

/-- What a clock returns: a float that is nowhere near the largest one. -/
structure ClockReading where
  value : ℚ
  isDouble : IsDouble value
  bound : |value| < 2 ^ 1000

/-- `a + b` of two floats. -/
def floatAdd (a b : ℚ) : ℚ := nearestDouble (a + b)

/-- The pending record of a packet, with the class default as its lifetime. -/
def captureRecord (bundleId flowId : Text) (tc : TrafficClass) (sizeBytes : ℤ) (ingressTs : ℚ) :
    BundleRecord where
  bundleId := String.ofList bundleId
  flowId := String.ofList flowId
  trafficClass := tc
  sizeBytes := sizeBytes
  ingressTs := ingressTs
  expirationTs := some (floatAdd ingressTs (classSpecs tc).defaultTtlS)

theorem classSpecs_ttl_bounds (tc : TrafficClass) :
    0 < (classSpecs tc).defaultTtlS ∧ (classSpecs tc).defaultTtlS ≤ 57600 := by
  cases tc <;> norm_num [classSpecs]

theorem captureRecord_storable {ingressTs : ℚ} (hdouble : IsDouble ingressTs)
    (hbound : |ingressTs| < 2 ^ 1002) (bundleId flowId : Text) (tc : TrafficClass)
    (sizeBytes : ℤ) : (captureRecord bundleId flowId tc sizeBytes ingressTs).Storable := by
  have httl := classSpecs_ttl_bounds tc
  have hsum : |ingressTs + (classSpecs tc).defaultTtlS| < 2 ^ 1023 := by
    have hday : (57600 : ℚ) < 2 ^ 16 := by norm_num
    have hpow : (2 : ℚ) ^ 16 ≤ 2 ^ 1002 := pow_le_pow_right₀ (by norm_num) (by norm_num)
    calc |ingressTs + (classSpecs tc).defaultTtlS|
        _ ≤ |ingressTs| + |(classSpecs tc).defaultTtlS| := abs_add_le _ _
        _ < 2 ^ 1002 + 57600 := by
          rw [abs_of_pos httl.1]
          exact add_lt_add_of_lt_of_le hbound httl.2
        _ ≤ 2 ^ 1002 + 2 ^ 1002 := (add_le_add_iff_left _).2 (hday.le.trans hpow)
        _ = 2 ^ 1003 := by rw [← two_mul, ← pow_succ']
        _ < 2 ^ 1023 := pow_lt_pow_right₀ (by norm_num) (by norm_num)
  refine ⟨hdouble, ?_⟩
  simp only [captureRecord, List.forall_mem_cons]
  refine ⟨nofun, nofun, nofun, nofun, ?_, nofun⟩
  rintro _ ⟨⟩
  exact isDouble_nearestDouble hsum

/-! ## The interceptor -/

/-- A packet in the queue, and what its handling meets: the payload the queue returns, the clock,
and how many characters of the record reach the file if the write raises. -/
structure Arrival where
  payload : Except PyError (List UInt8)
  clock : ClockReading
  failedWrite : Option ℕ := none

/-- What can be raised on the way. -/
inductive CaptureError
  | raised (e : PyError)
  | flowId (e : FlowIdError)
  | osError

/-- The counters, the text of the trace (empty as long as there is no file), and the packets that
have been accepted. -/
structure Capture where
  packetCount : ℕ := 0
  nextSeq : ℕ := 1
  bundles : Text := []
  accepted : List Arrival := []

abbrev CaptureM := EStateM CaptureError Capture

/-- `try: x` with `except Exception`: what was written before the exception stays. -/
def swallow (x : CaptureM PUnit) : CaptureM PUnit := fun s =>
  match x s with
  | .ok _ s' => .ok ⟨⟩ s'
  | .error _ s' => .ok ⟨⟩ s'

/-- `f` of what has been computed, or the exception. -/
def lift {α ε : Type} (wrap : ε → CaptureError) : Except ε α → CaptureM α
  | .ok a => pure a
  | .error e => throw (wrap e)

/-- `write_bundle`: the line is appended, or a part of it and the write raises. -/
def writeBundle (record : BundleRecord) : Option ℕ → CaptureM PUnit
  | none => modify fun s => { s with bundles := s.bundles ++ jsonLine record.toDict }
  | some kept => do
      modify fun s => { s with bundles := s.bundles ++ (jsonLine record.toDict).take kept }
      throw .osError

/-- `next(bundle_seq)`. -/
def nextBundle : CaptureM ℕ := do
  let s ← get
  set { s with nextSeq := s.nextSeq + 1 }
  pure s.nextSeq

/-- `_on_packet`. -/
def onPacket (a : Arrival) (payload : List UInt8) (dscp : ℕ) : CaptureM PUnit := do
  let tc ← lift .raised (classifyPacket dscp)
  swallow do
    let seq ← nextBundle
    let flowId ← lift .flowId (deriveFlowId payload)
    writeBundle (captureRecord (decimal seq) flowId tc payload.length a.clock.value) a.failedWrite

/-- `_extract_ips`. -/
def extractIps (payload : List UInt8) : Except FlowIdError (Text × Text) :=
  if payload.length < 20 then
    .ok ("?.?.?.?".toList, "?.?.?.?".toList)
  else do
    let src ← inetNtoa (slice payload 12 16)
    let dst ← inetNtoa (slice payload 16 20)
    .ok (src, dst)

/-- The part of `_packet_callback` under its `try`. -/
def inspectPacket (a : Arrival) : CaptureM PUnit := do
  let payload ← lift .raised a.payload
  let _ ← lift .flowId (extractIps payload)
  modify fun s => { s with packetCount := s.packetCount + 1 }
  onPacket a payload (extractDscp payload)

/-- `_packet_callback`: the packet is accepted whatever has happened before. -/
def packetCallback (a : Arrival) : CaptureM PUnit := do
  swallow (inspectPacket a)
  modify fun s => { s with accepted := s.accepted ++ [a] }

/-- The packets of the queue, one after the other. -/
def runInterceptor (arrivals : List Arrival) : CaptureM PUnit := arrivals.forM packetCallback

/-! ## What one packet leaves -/

/-- The class of a packet. -/
def packetClass (payload : List UInt8) : TrafficClass :=
  (dscpToClass.lookup (extractDscp payload : ℤ)).getD defaultClass

/-- The flow id of a packet. -/
def packetFlow (payload : List UInt8) : Text :=
  match deriveFlowId payload with
  | .ok flowId => flowId
  | .error _ => []

theorem deriveFlowId_eq_ok (payload : List UInt8) :
    deriveFlowId payload = .ok (packetFlow payload) := by
  by_cases hlen : payload.length < 20
  · have hid : deriveFlowId payload = .ok "malformed".toList := by rw [deriveFlowId, if_pos hlen]
    rw [packetFlow, hid]
  · obtain ⟨_, _, _, -, -, -, hid⟩ := deriveFlowId_eq (not_lt.1 hlen)
    rw [packetFlow, hid]

theorem extractIps_eq_ok (payload : List UInt8) : ∃ ips, extractIps payload = .ok ips := by
  by_cases hlen : payload.length < 20
  · exact ⟨_, by rw [extractIps, if_pos hlen]⟩
  · obtain ⟨src, dst, _, hsrc, hdst, -⟩ := deriveFlowId_eq (not_lt.1 hlen)
    exact ⟨(src, dst), by rw [extractIps, if_neg hlen, hsrc, hdst]; rfl⟩

/-- The write of the record of a packet. -/
def Arrival.write (a : Arrival) (seq : ℕ) (payload : List UInt8) : BundleWrite :=
  let record := captureRecord (decimal seq) (packetFlow payload) (packetClass payload)
    payload.length a.clock.value
  { record := record
    kept := a.failedWrite.getD (jsonLine record.toDict).length }

/-- The packets whose payload the queue has returned. -/
def fetched (arrivals : List Arrival) : List (Arrival × List UInt8) :=
  arrivals.filterMap fun a => a.payload.toOption.map (a, ·)

/-- The writes of a run, the records numbered from `seq`. -/
def writesOf (seq : ℕ) (arrivals : List Arrival) : List BundleWrite :=
  (fetched arrivals).mapIdx fun i p => p.1.write (seq + i) p.2

theorem fetched_cons_error {a : Arrival} {e : PyError} (h : a.payload = .error e)
    (as : List Arrival) : fetched (a :: as) = fetched as :=
  List.filterMap_cons_none (by rw [h]; rfl)

theorem fetched_cons_ok {a : Arrival} {payload : List UInt8} (h : a.payload = .ok payload)
    (as : List Arrival) : fetched (a :: as) = (a, payload) :: fetched as :=
  List.filterMap_cons_some (by rw [h]; rfl)

theorem writesOf_cons_error {a : Arrival} {e : PyError} (h : a.payload = .error e) (seq : ℕ)
    (as : List Arrival) : writesOf seq (a :: as) = writesOf seq as := by
  rw [writesOf, fetched_cons_error h, writesOf]

theorem writesOf_cons_ok {a : Arrival} {payload : List UInt8} (h : a.payload = .ok payload)
    (seq : ℕ) (as : List Arrival) :
    writesOf seq (a :: as) = a.write seq payload :: writesOf (seq + 1) as := by
  rw [writesOf, fetched_cons_ok h, List.mapIdx_cons, writesOf]
  simp only [Nat.add_zero, Nat.add_assoc, Nat.add_comm 1]

theorem swallow_ok {x : CaptureM PUnit} {s s' : Capture} (h : x s = .ok ⟨⟩ s') :
    swallow x s = .ok ⟨⟩ s' := by
  rw [swallow, h]

theorem swallow_error {x : CaptureM PUnit} {s s' : Capture} {e : CaptureError}
    (h : x s = .error e s') : swallow x s = .ok ⟨⟩ s' := by
  rw [swallow, h]

/-- Whether or not the write raises, the packet has been numbered and its text is in the file. -/
theorem onPacket_eq (a : Arrival) (payload : List UInt8) (s : Capture) :
    onPacket a payload (extractDscp payload) s =
      .ok ⟨⟩ { s with nextSeq := s.nextSeq + 1
                      bundles := s.bundles ++ (a.write s.nextSeq payload).text } := by
  rw [onPacket, classifyPacket_extractDscp]
  have hflow := deriveFlowId_eq_ok payload
  cases hfailed : a.failedWrite with
  | none =>
      have htext : (a.write s.nextSeq payload).text = jsonLine (captureRecord (decimal s.nextSeq)
          (packetFlow payload) (packetClass payload) payload.length a.clock.value).toDict := by
        simp [BundleWrite.text, Arrival.write, hfailed]
      rw [htext]
      refine swallow_ok ?_
      rw [hflow]
      rfl
  | some kept =>
      have htext : (a.write s.nextSeq payload).text = (jsonLine (captureRecord (decimal s.nextSeq)
          (packetFlow payload) (packetClass payload) payload.length
          a.clock.value).toDict).take kept := by
        simp [BundleWrite.text, Arrival.write, hfailed]
      rw [htext]
      refine swallow_error (e := .osError) ?_
      rw [hflow]
      rfl

/-- A packet without a payload leaves nothing but its acceptance. -/
theorem packetCallback_error {a : Arrival} {e : PyError} (h : a.payload = .error e) (s : Capture) :
    packetCallback a s = .ok ⟨⟩ { s with accepted := s.accepted ++ [a] } := by
  have hinspect : inspectPacket a s = .error (.raised e) s := by
    rw [inspectPacket, h]
    rfl
  rw [packetCallback, bind_ok (swallow_error hinspect)]
  rfl

theorem packetCallback_ok {a : Arrival} {payload : List UInt8} (h : a.payload = .ok payload)
    (s : Capture) :
    packetCallback a s = .ok ⟨⟩
      { packetCount := s.packetCount + 1
        nextSeq := s.nextSeq + 1
        bundles := s.bundles ++ (a.write s.nextSeq payload).text
        accepted := s.accepted ++ [a] } := by
  obtain ⟨ips, hips⟩ := extractIps_eq_ok payload
  have hinspect : inspectPacket a s = .ok ⟨⟩
      { s with packetCount := s.packetCount + 1
               nextSeq := s.nextSeq + 1
               bundles := s.bundles ++ (a.write s.nextSeq payload).text } := by
    rw [inspectPacket, h, lift, pure_bind, hips, lift, pure_bind]
    exact onPacket_eq a payload { s with packetCount := s.packetCount + 1 }
  rw [packetCallback, bind_ok (swallow_ok hinspect)]
  rfl

/-! ## A whole run -/

/-- Every packet goes through the interceptor, and each one with a payload leaves its text. -/
theorem runInterceptor_eq (arrivals : List Arrival) (s : Capture) :
    runInterceptor arrivals s = .ok ⟨⟩
      { packetCount := s.packetCount + (fetched arrivals).length
        nextSeq := s.nextSeq + (fetched arrivals).length
        bundles := s.bundles ++ fileText (writesOf s.nextSeq arrivals)
        accepted := s.accepted ++ arrivals } := by
  induction arrivals generalizing s with
  | nil =>
      have hstate : s =
          { packetCount := s.packetCount + 0
            nextSeq := s.nextSeq + 0
            bundles := s.bundles ++ []
            accepted := s.accepted ++ [] } := by
        simp only [Nat.add_zero, List.append_nil]
      exact congrArg (EStateM.Result.ok PUnit.unit) hstate
  | cons a as ih =>
      cases hpayload : a.payload with
      | error e =>
          have hrun : runInterceptor (a :: as) s = runInterceptor as _ :=
            bind_ok (packetCallback_error hpayload s)
          rw [hrun, ih, fetched_cons_error hpayload, writesOf_cons_error hpayload,
            List.append_assoc, List.singleton_append]
      | ok payload =>
          have hrun : runInterceptor (a :: as) s = runInterceptor as _ :=
            bind_ok (packetCallback_ok hpayload s)
          have hcount : ∀ n : ℕ, n + 1 + (fetched as).length = n + ((fetched as).length + 1) :=
            fun n => by omega
          rw [hrun, ih, fetched_cons_ok hpayload, writesOf_cons_ok hpayload, List.append_assoc,
            List.append_assoc, List.singleton_append, List.length_cons, hcount, hcount, fileText,
            fileText, List.flatMap_cons]

theorem writesOf_storable (seq : ℕ) (arrivals : List Arrival) :
    ∀ w ∈ writesOf seq arrivals, w.record.Storable := by
  intro w hw
  obtain ⟨i, hi, rfl⟩ := List.mem_mapIdx.1 hw
  refine captureRecord_storable (ClockReading.isDouble _) ?_ _ _ _ _
  calc |ClockReading.value _|
    _ < 2 ^ 1000 := ClockReading.bound _
    _ ≤ 2 ^ 1002 := pow_le_pow_right₀ (by norm_num) (by norm_num)

theorem BundleWrite.size_write_lt (a : Arrival) (seq : ℕ) (payload : List UInt8)
    (h : a.failedWrite = none) : (a.write seq payload).size < (a.write seq payload).kept := by
  rw [BundleWrite.size, Arrival.write, h]
  simp [jsonLine]

/-- Whole lines do no harm. -/
theorem harmless_of_whole {ws : List BundleWrite} (h : ∀ w ∈ ws, w.size < w.kept) :
    Harmless ws := by
  induction ws with
  | nil => trivial
  | cons w ws ih =>
      obtain ⟨hw, hrest⟩ := List.forall_mem_cons.1 h
      exact Or.inl ⟨Or.inr hw, ih hrest⟩

theorem written_of_whole {ws : List BundleWrite} (h : ∀ w ∈ ws, w.size < w.kept) :
    written ws = ws.map BundleWrite.record := by
  rw [written, List.filter_eq_self.2 fun w hw => decide_eq_true (h w hw).le]

/-- Without failures all records are read back. -/
theorem readBundlesText_writesOf (seq : ℕ) {arrivals : List Arrival}
    (h : ∀ a ∈ arrivals, a.failedWrite = none) :
    readBundlesText (fileText (writesOf seq arrivals)) =
      .ok ((writesOf seq arrivals).map fun w => LoadedRecord.of w.record) := by
  have hwhole : ∀ w ∈ writesOf seq arrivals, w.size < w.kept := by
    intro w hw
    obtain ⟨i, hi, rfl⟩ := List.mem_mapIdx.1 hw
    obtain ⟨a, ha, hsome⟩ := List.mem_filterMap.1 (List.getElem_mem hi)
    obtain ⟨payload, -, hpair⟩ := Option.map_eq_some_iff.1 hsome
    rw [← hpair]
    exact BundleWrite.size_write_lt a _ payload (h a ha)
  have hread := readBundlesText_of_harmless (writesOf_storable seq arrivals)
    (harmless_of_whole hwhole)
  rwa [written_of_whole hwhole, List.map_map] at hread

/-- What the record of a packet says. -/
structure Describes (record : BundleRecord) (seq : ℕ) (a : Arrival) (payload : List UInt8) :
    Prop where
  bundleId : record.bundleId = String.ofList (decimal seq)
  flowId : deriveFlowId payload = .ok record.flowId.toList
  sizeBytes : record.sizeBytes = payload.length
  ingressTs : record.ingressTs = a.clock.value
  expirationTs : record.expirationTs =
    some (floatAdd record.ingressTs (classSpecs record.trafficClass).defaultTtlS)
  pending : record.terminalState = .pending
  /-- The mark of a class, with any ECN bits. -/
  marked : ∀ c ecn, ecn < 4 → Carries (dscpToTos (primaryDscp c) + ecn) payload →
    record.trafficClass = c

theorem write_describes (a : Arrival) (seq : ℕ) (payload : List UInt8) :
    Describes (a.write seq payload).record seq a payload where
  bundleId := rfl
  flowId := by
    rw [deriveFlowId_eq_ok]
    exact congrArg Except.ok (String.toList_ofList).symm
  sizeBytes := rfl
  ingressTs := rfl
  expirationTs := rfl
  pending := rfl
  marked := by
    intro c ecn hecn hcarries
    have hclass := classify_marked hecn hcarries
    rw [classifyPacket_extractDscp] at hclass
    exact Except.ok.inj hclass

/-- Whatever comes out of the queue, and whichever writes fail after however many characters: every
packet is accepted, in its turn, and the trace is what the writes of the packets with a payload have
left.  Their records are numbered from one without a gap and describe the packets.  The trace is
read back, to the records whose lines are complete, exactly if no write has left a part of a line,
and to all of them if no write has failed. -/
theorem interceptor_run (arrivals : List Arrival) :
    ∃ s, runInterceptor arrivals {} = .ok ⟨⟩ s ∧ s.accepted = arrivals ∧
      s.packetCount = (fetched arrivals).length ∧
      (writesOf 1 arrivals).length = (fetched arrivals).length ∧
      s.bundles = fileText (writesOf 1 arrivals) ∧
      (∀ i w, (writesOf 1 arrivals)[i]? = some w →
        ∃ a payload, (fetched arrivals)[i]? = some (a, payload) ∧
          Describes w.record (i + 1) a payload) ∧
      (Harmless (writesOf 1 arrivals) →
        readBundlesText s.bundles = .ok ((written (writesOf 1 arrivals)).map LoadedRecord.of)) ∧
      (¬ Harmless (writesOf 1 arrivals) → ∃ e, readBundlesText s.bundles = .error e) ∧
      ((∀ a ∈ arrivals, a.failedWrite = none) →
        readBundlesText s.bundles =
          .ok ((writesOf 1 arrivals).map fun w => LoadedRecord.of w.record)) := by
  have hstorable := writesOf_storable 1 arrivals
  refine ⟨_, runInterceptor_eq arrivals {}, List.nil_append _, Nat.zero_add _,
    List.length_mapIdx, List.nil_append _, ?_, ?_, ?_, ?_⟩
  · intro i w hw
    rw [writesOf, List.getElem?_mapIdx, Option.map_eq_some_iff] at hw
    obtain ⟨⟨a, payload⟩, hget, rfl⟩ := hw
    exact ⟨a, payload, hget, Nat.add_comm 1 i ▸ write_describes a (1 + i) payload⟩
  · exact readBundlesText_of_harmless hstorable
  · exact readBundlesText_of_not_harmless hstorable
  · exact readBundlesText_writesOf 1

end Gateway
end LunaBridge
