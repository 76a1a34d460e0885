import LunaBridge.Foundation.Json
import LunaBridge.Gateway.Metrics

/-!
# TelemetryWriter — the files of a run, and the records read back from them

* `toDict` of the three kinds of records, and `write`, which appends one line to one of the three
  files of a run;
* `readBundles` with `fromDict`, which does not look at the types of the fields it hands on: what
  it makes of a line is a `LoadedRecord`.

The file `config.json` is written and never read, and left out.
-/

namespace LunaBridge
namespace Gateway

open Foundation Foundation.Python Foundation.Text
open Foundation.Bytes (ok_bind)

/-! ## Records as dictionaries -/

def jsonStr (s : String) : Json := .str s.toList

/-- `Optional[float]`. -/
def jsonFloat : Option ℚ → Json
  | none => .null
  | some x => .float x

/-- `Optional[str]`. -/
def jsonOptStr : Option String → Json
  | none => .null
  | some s => jsonStr s

/-- The fields of a record under their names, in the order of the class. -/
def BundleRecord.items (r : BundleRecord) : List (Text × Json) :=
  [("bundle_id".toList, jsonStr r.bundleId),
    ("flow_id".toList, jsonStr r.flowId),
    ("traffic_class".toList, jsonStr r.trafficClass.value),
    ("size_bytes".toList, .int r.sizeBytes),
    ("ingress_ts".toList, .float r.ingressTs),
    ("created_ts".toList, jsonFloat r.createdTs),
    ("queue_admission_ts".toList, jsonFloat r.queueAdmissionTs),
    ("transmission_ts".toList, jsonFloat r.transmissionTs),
    ("delivery_ts".toList, jsonFloat r.deliveryTs),
    ("expiration_ts".toList, jsonFloat r.expirationTs),
    ("terminal_state".toList, jsonStr r.terminalState.value),
    ("contact_id".toList, jsonOptStr r.contactId)]

/-- `BundleRecord.to_dict`. -/
def BundleRecord.toDict (r : BundleRecord) : Json := .obj r.items

/-- Point-in-time scheduler and queue state; the dictionaries are keyed by class. -/
structure SchedulerSnapshot where
  ts : ℚ
  contactId : Option String := none
  queueDepthByClass : Dict String ℤ := .empty
  bytesQueuedByClass : Dict String ℤ := .empty
  bytesTransmittedByClass : Dict String ℤ := .empty
  contactWindowStart : Option ℚ := none
  contactWindowEnd : Option ℚ := none
  linkUp : Bool := false

/-- A dictionary of numbers. -/
def jsonCounts (d : Dict String ℤ) : Json := .obj (d.items.map fun e => (e.1.toList, .int e.2))

/-- `SchedulerSnapshot.to_dict`. -/
def SchedulerSnapshot.toDict (s : SchedulerSnapshot) : Json :=
  .obj
    [("ts".toList, .float s.ts),
      ("contact_id".toList, jsonOptStr s.contactId),
      ("queue_depth_by_class".toList, jsonCounts s.queueDepthByClass),
      ("bytes_queued_by_class".toList, jsonCounts s.bytesQueuedByClass),
      ("bytes_transmitted_by_class".toList, jsonCounts s.bytesTransmittedByClass),
      ("contact_window_start".toList, jsonFloat s.contactWindowStart),
      ("contact_window_end".toList, jsonFloat s.contactWindowEnd),
      ("link_up".toList, .bool s.linkUp)]

/-- The string an action is logged as. -/
def DecisionAction.value : DecisionAction → String
  | .transmit => "transmit"
  | .defer => "defer"
  | .drop => "drop"

/-- `SchedulingDecision.to_dict`. -/
def SchedulingDecision.toDict (d : SchedulingDecision) : Json :=
  .obj
    [("ts".toList, .float d.ts),
      ("bundle_id".toList, jsonStr d.bundleId),
      ("traffic_class".toList, jsonStr d.trafficClass),
      ("action".toList, jsonStr d.action.value),
      ("reason".toList, jsonStr d.reason),
      ("contact_id".toList, jsonOptStr d.contactId)]

/-! ## Writing -/

/-- The three files of a run; `none` is a file that does not exist. -/
structure RunDir where
  bundles : Option Text := none
  scheduler : Option Text := none
  decisions : Option Text := none
  deriving DecidableEq, Repr

/-- The line an object is written as. -/
def jsonLine (obj : Json) : Text := obj.dumps ++ ['\n']

/-- `_append`, for one file. -/
def appendLine (file : Option Text) (obj : Json) : Option Text :=
  some (file.getD [] ++ jsonLine obj)

/-- A call of `write_bundle`, `write_snapshot` or `write_decision`. -/
inductive TelemetryWrite
  | bundle (record : BundleRecord)
  | snapshot (snapshot : SchedulerSnapshot)
  | decision (decision : SchedulingDecision)

/-- What a call does to the files. -/
def RunDir.write (dir : RunDir) : TelemetryWrite → RunDir
  | .bundle record => { dir with bundles := appendLine dir.bundles record.toDict }
  | .snapshot snapshot => { dir with scheduler := appendLine dir.scheduler snapshot.toDict }
  | .decision decision => { dir with decisions := appendLine dir.decisions decision.toDict }

/-- Calls one after the other. -/
def RunDir.writeAll (dir : RunDir) (writes : List TelemetryWrite) : RunDir :=
  writes.foldl RunDir.write dir

/-! ## Reading -/

/-- What reading a file back can raise. -/
inductive ReadError
  | fileNotFound
  | keyError (key : String)
  | raised (e : PyError)
  deriving DecidableEq, Repr

/-- The newline of a file opened as text. -/
def universalNewlines : Text → Text
  | [] => []
  | '\r' :: '\n' :: s => '\n' :: universalNewlines s
  | '\r' :: s => '\n' :: universalNewlines s
  | c :: s => c :: universalNewlines s

/-- `for line in f`, without the newlines; the last line may be empty. -/
def fileLines (file : Text) : List Text := (universalNewlines file).splitOn '\n'

/-- `s.strip()`. -/
def strip (s : Text) : Text := (s.dropWhile isSpace).rdropWhile isSpace

/-- The lines of a file that are not blank. -/
def strippedLines (file : Text) : List Text :=
  ((fileLines file).map strip).filter fun line => decide (line ≠ [])

/-- What `cls(**d)` makes of a dictionary: the two members of enumerations have been looked up, the
other fields are taken as they are. -/
structure LoadedRecord where
  bundleId : Json
  flowId : Json
  trafficClass : TrafficClass
  sizeBytes : Json
  ingressTs : Json
  createdTs : Json
  queueAdmissionTs : Json
  transmissionTs : Json
  deliveryTs : Json
  expirationTs : Json
  terminalState : TerminalState
  contactId : Json

/-- The parameters of the constructor. -/
def bundleFields : List Text :=
  ["bundle_id", "flow_id", "traffic_class", "size_bytes", "ingress_ts", "created_ts",
    "queue_admission_ts", "transmission_ts", "delivery_ts", "expiration_ts", "terminal_state",
    "contact_id"].map String.toList

/-- `d[key]`. -/
def getItem (d : List (Text × Json)) (key : String) : Except ReadError Json :=
  match Dict.lookup key.toList d with
  | some v => .ok v
  | none => .error (.keyError key)

/-- `E(value)`: the member of an enumeration with this value. -/
def memberOf {E : Type} (members : List E) (value : E → String) (enumName : String) (v : Json) :
    Except ReadError E :=
  match members.find? fun m => match v with
    | .str s => decide ((value m).toList = s)
    | _ => false with
  | some m => .ok m
  | none => .error (.raised (.valueError ("not a valid " ++ enumName)))

/-- An argument without a default. -/
def required (d : List (Text × Json)) (key : String) : Except ReadError Json :=
  match Dict.lookup key.toList d with
  | some v => .ok v
  | none => .error (.raised .typeError)

/-- An argument with the default `None`. -/
def optional (d : List (Text × Json)) (key : String) : Json :=
  (Dict.lookup key.toList d).getD .null

/-- `BundleRecord.from_dict`. -/
def BundleRecord.fromDict : Json → Except ReadError LoadedRecord
  | .obj d => do
      let trafficClass ← getItem d "traffic_class"
      let trafficClass ← memberOf [TrafficClass.emergency, .telemetry, .scienceBulk, .media]
        TrafficClass.value "TrafficClass" trafficClass
      let terminalState ← getItem d "terminal_state"
      let terminalState ← memberOf
        [TerminalState.pending, .delivered, .ttlExpired, .queueOverflow, .neverScheduled]
        TerminalState.value "TerminalState" terminalState
      -- an unexpected keyword argument
      if d.any fun e => decide (e.1 ∉ bundleFields) then .error (.raised .typeError)
      else do
        let bundleId ← required d "bundle_id"
        let flowId ← required d "flow_id"
        let sizeBytes ← required d "size_bytes"
        let ingressTs ← required d "ingress_ts"
        .ok {
          bundleId, flowId, trafficClass, sizeBytes, ingressTs, terminalState
          createdTs := optional d "created_ts"
          queueAdmissionTs := optional d "queue_admission_ts"
          transmissionTs := optional d "transmission_ts"
          deliveryTs := optional d "delivery_ts"
          expirationTs := optional d "expiration_ts"
          contactId := optional d "contact_id" }
  | _ => .error (.raised .typeError)

/-- `BundleRecord.from_dict(json.loads(line))`. -/
def readLine (line : Text) : Except ReadError LoadedRecord :=
  match Json.loads line with
  | .ok v => BundleRecord.fromDict v
  | .error e => .error (.raised e)

/-- `read_bundles`, on the text of the file. -/
def readBundlesText (file : Text) : Except ReadError (List LoadedRecord) :=
  (strippedLines file).mapM readLine

/-- `read_bundles`. -/
def readBundles (dir : RunDir) : Except ReadError (List LoadedRecord) :=
  match dir.bundles with
  | none => .error .fileNotFound
  | some file => readBundlesText file

/-! ## Records and what is loaded -/

/-- A record as it comes back. -/
def LoadedRecord.of (r : BundleRecord) : LoadedRecord where
  bundleId := jsonStr r.bundleId
  flowId := jsonStr r.flowId
  trafficClass := r.trafficClass
  sizeBytes := .int r.sizeBytes
  ingressTs := .float r.ingressTs
  createdTs := jsonFloat r.createdTs
  queueAdmissionTs := jsonFloat r.queueAdmissionTs
  transmissionTs := jsonFloat r.transmissionTs
  deliveryTs := jsonFloat r.deliveryTs
  expirationTs := jsonFloat r.expirationTs
  terminalState := r.terminalState
  contactId := jsonOptStr r.contactId

theorem jsonStr_injective : Function.Injective jsonStr := by
  intro s t h
  exact String.toList_inj.1 (Json.str.inj h)

theorem jsonFloat_injective : Function.Injective jsonFloat := by
  rintro (_ | x) (_ | y) h
  · rfl
  · cases h
  · cases h
  · exact congrArg some (Json.float.inj h)

theorem jsonOptStr_injective : Function.Injective jsonOptStr := by
  rintro (_ | s) (_ | t) h
  · rfl
  · cases h
  · cases h
  · exact congrArg some (jsonStr_injective h)

/-- No two records come back as the same. -/
theorem LoadedRecord.of_injective : Function.Injective LoadedRecord.of := by
  intro r r' h
  rcases r with ⟨⟨_, _, _, _, _, _, _⟩, ⟨_, _, _, _, _⟩⟩
  rcases r' with ⟨⟨_, _, _, _, _, _, _⟩, ⟨_, _, _, _, _⟩⟩
  simp only [LoadedRecord.of, LoadedRecord.mk.injEq, jsonStr_injective.eq_iff,
    jsonFloat_injective.eq_iff, jsonOptStr_injective.eq_iff, Json.int.injEq,
    Json.float.injEq] at h
  simp only [BundleRecord.mk.injEq, Bundle.mk.injEq, Lifecycle.mk.injEq]
  tauto

/-- What a writer is handed: every time is a double. -/
structure BundleRecord.Storable (r : BundleRecord) : Prop where
  ingressTs : IsDouble r.ingressTs
  times : ∀ x ∈ [r.createdTs, r.queueAdmissionTs, r.transmissionTs, r.deliveryTs, r.expirationTs],
    ∀ t ∈ x, IsDouble t

theorem valid_jsonFloat {x : Option ℚ} (h : ∀ t ∈ x, IsDouble t) : (jsonFloat x).Valid := by
  cases x with
  | none => exact .null
  | some t => exact .float (h t rfl)

theorem valid_jsonOptStr (s : Option String) : (jsonOptStr s).Valid := by
  cases s with
  | none => exact .null
  | some s => exact .str _

theorem BundleRecord.map_fst_items (r : BundleRecord) : r.items.map Prod.fst = bundleFields := rfl

theorem nodup_bundleFields : bundleFields.Nodup := by decide +kernel

theorem BundleRecord.valid_toDict {r : BundleRecord} (h : r.Storable) : r.toDict.Valid := by
  refine .obj (r.map_fst_items ▸ nodup_bundleFields) ?_
  have htimes := h.times
  simp only [List.forall_mem_cons] at htimes
  obtain ⟨hcreated, hadmission, htransmission, hdelivery, hexpiration, -⟩ := htimes
  simp only [BundleRecord.items, List.forall_mem_cons]
  exact ⟨.str _, .str _, .str _, .int _, .float h.ingressTs, valid_jsonFloat hcreated,
    valid_jsonFloat hadmission, valid_jsonFloat htransmission, valid_jsonFloat hdelivery,
    valid_jsonFloat hexpiration, .str _, valid_jsonOptStr _, nofun⟩

/-- The fields hold no dictionaries. -/
theorem BundleRecord.sorted_toDict (r : BundleRecord) :
    r.toDict.sorted = .obj (StableSort.sortBy Prod.fst r.items) := by
  have hfloat : ∀ x, (jsonFloat x).sorted = jsonFloat x := by rintro (_ | x) <;> rfl
  have hstr : ∀ s, (jsonStr s).sorted = jsonStr s := fun _ => rfl
  have hoptStr : ∀ s, (jsonOptStr s).sorted = jsonOptStr s := by rintro (_ | s) <;> rfl
  have hitems : Json.sortedItems r.items = r.items := by
    simp only [BundleRecord.items, Json.sortedItems, hfloat, hstr, hoptStr, Json.sorted]
  rw [BundleRecord.toDict, Json.sorted, hitems]

/-- What is looked up in a dictionary does not depend on the order of its items. -/
theorem lookup_perm {d d' : List (Text × Json)} (hperm : d'.Perm d)
    (hnodup : (d.map Prod.fst).Nodup) {k : Text} {v : Json} (h : (k, v) ∈ d) :
    Dict.lookup k d' = some v := by
  refine (Dict.lookup_eq_some_iff ?_).2 (hperm.mem_iff.2 h)
  exact (hperm.map Prod.fst).nodup_iff.2 hnodup

/-- A dictionary is read back into the record it was made of. -/
theorem BundleRecord.fromDict_sorted (r : BundleRecord) :
    BundleRecord.fromDict r.toDict.sorted = .ok (LoadedRecord.of r) := by
  have hperm := StableSort.sortBy_perm Prod.fst r.items
  have hnodup : (r.items.map Prod.fst).Nodup := r.map_fst_items ▸ nodup_bundleFields
  have hlookup : ∀ {k : String} {v}, (k.toList, v) ∈ r.items →
      Dict.lookup k.toList (StableSort.sortBy Prod.fst r.items) = some v :=
    fun hmem => lookup_perm hperm hnodup hmem
  have hget : ∀ {k v}, (k.toList, v) ∈ r.items →
      getItem (StableSort.sortBy Prod.fst r.items) k = .ok v :=
    fun hmem => by rw [getItem, hlookup hmem]
  have hrequired : ∀ {k v}, (k.toList, v) ∈ r.items →
      required (StableSort.sortBy Prod.fst r.items) k = .ok v :=
    fun hmem => by rw [required, hlookup hmem]
  have hoptional : ∀ {k v}, (k.toList, v) ∈ r.items →
      optional (StableSort.sortBy Prod.fst r.items) k = v :=
    fun hmem => by rw [optional, hlookup hmem, Option.getD_some]
  have hfields : ((StableSort.sortBy Prod.fst r.items).any fun e =>
      decide (e.1 ∉ bundleFields)) = false := by
    rw [List.any_eq_false]
    intro e he
    have hmem := List.mem_map_of_mem (f := Prod.fst) (hperm.subset he)
    rw [r.map_fst_items] at hmem
    simpa using hmem
  have hclass : memberOf [TrafficClass.emergency, .telemetry, .scienceBulk, .media]
      TrafficClass.value "TrafficClass" (jsonStr r.trafficClass.value) = .ok r.trafficClass := by
    cases r.trafficClass <;> rfl
  have hstate : memberOf
      [TerminalState.pending, .delivered, .ttlExpired, .queueOverflow, .neverScheduled]
      TerminalState.value "TerminalState" (jsonStr r.terminalState.value) =
        .ok r.terminalState := by
    cases r.terminalState <;> rfl
  rw [r.sorted_toDict, BundleRecord.fromDict,
    hget (k := "traffic_class") (v := jsonStr r.trafficClass.value) (by simp [items]), ok_bind,
    hclass, ok_bind,
    hget (k := "terminal_state") (v := jsonStr r.terminalState.value) (by simp [items]), ok_bind,
    hstate, ok_bind, if_neg (by rw [hfields]; decide),
    hrequired (v := jsonStr r.bundleId) (by simp [items]), ok_bind,
    hrequired (v := jsonStr r.flowId) (by simp [items]), ok_bind,
    hrequired (v := .int r.sizeBytes) (by simp [items]), ok_bind,
    hrequired (v := .float r.ingressTs) (by simp [items]), ok_bind,
    hoptional (v := jsonFloat r.createdTs) (by simp [items]),
    hoptional (v := jsonFloat r.queueAdmissionTs) (by simp [items]),
    hoptional (v := jsonFloat r.transmissionTs) (by simp [items]),
    hoptional (v := jsonFloat r.deliveryTs) (by simp [items]),
    hoptional (v := jsonFloat r.expirationTs) (by simp [items]),
    hoptional (v := jsonOptStr r.contactId) (by simp [items])]
  rfl

end Gateway
end LunaBridge
