import LunaBridge.Foundation.Json
import LunaBridge.Foundation.Machine
import LunaBridge.Gateway.TelemetryWriter

/-!
# TelemetryFiles — what is read back from the files of a run

Records, snapshots and decisions may be written in any order and by any number of writers: each file
is read back as what was written to it (`files_read_back`).
-/

namespace LunaBridge
namespace Gateway

open Foundation Foundation.Python Foundation.Text
open Foundation.Bytes (ok_bind)
open Foundation.Machine (mapM_eq_ok)

/-! ## Lines -/

/-- Text without a line break of any kind. -/
def Unbroken (s : Text) : Prop := ∀ c ∈ s, c ≠ '\n' ∧ c ≠ '\r'

theorem universalNewlines_append {s : Text} (hs : Unbroken s) (t : Text) :
    universalNewlines (s ++ '\n' :: t) = s ++ '\n' :: universalNewlines t := by
  induction s with
  | nil => rfl
  | cons c s ih =>
      obtain ⟨⟨-, hreturn⟩, hrest⟩ := List.forall_mem_cons.1 hs
      rw [List.cons_append, universalNewlines, ih hrest, List.cons_append]
      · rintro s' rfl
        exact absurd rfl hreturn
      · exact hreturn

theorem universalNewlines_of_unbroken {s : Text} (hs : Unbroken s) : universalNewlines s = s := by
  induction s with
  | nil => rfl
  | cons c s ih =>
      obtain ⟨⟨-, hreturn⟩, hrest⟩ := List.forall_mem_cons.1 hs
      rw [universalNewlines, ih hrest]
      · rintro s' rfl
        exact absurd rfl hreturn
      · exact hreturn

/-- The first line, and the lines behind it. -/
theorem fileLines_append {s : Text} (hs : Unbroken s) (t : Text) :
    fileLines (s ++ '\n' :: t) = s :: fileLines t := by
  rw [fileLines, universalNewlines_append hs,
    List.splitOn_append_cons_self_of_not_mem fun hmem => (hs _ hmem).1 rfl]
  rfl

theorem fileLines_of_unbroken {s : Text} (hs : Unbroken s) : fileLines s = [s] := by
  rw [fileLines, universalNewlines_of_unbroken hs,
    List.splitOn_eq_singleton fun hmem => (hs _ hmem).1 rfl]

theorem unbroken_of_isPrintable {s : Text} (hs : ∀ c ∈ s, Json.isPrintable c = true) :
    Unbroken s := by
  intro c hc
  have hprint := hs c hc
  constructor <;> rintro rfl <;> cases hprint

/-- A text without blanks at its ends. -/
def Trimmed (s : Text) : Prop := s ≠ [] ∧ strip s = s

theorem strippedLines_append {s : Text} (hs : Unbroken s) (htrim : Trimmed s) (t : Text) :
    strippedLines (s ++ '\n' :: t) = s :: strippedLines t := by
  rw [strippedLines, fileLines_append hs, List.map_cons, htrim.2,
    List.filter_cons_of_pos (by simpa using htrim.1)]
  rfl

theorem strippedLines_of_unbroken {s : Text} (hs : Unbroken s) (htrim : Trimmed s) :
    strippedLines s = [s] := by
  rw [strippedLines, fileLines_of_unbroken hs, List.map_cons, htrim.2,
    List.filter_cons_of_pos (by simpa using htrim.1)]
  rfl

/-- The text of an object has no blanks at its ends. -/
theorem trimmed_obj (items : List (Text × Json)) : Trimmed (Json.obj items).print := by
  obtain ⟨s, hs⟩ := Json.print_obj items
  refine ⟨by rw [hs]; exact List.cons_ne_nil _ _, ?_⟩
  have hfront : ('{' :: (s ++ ['}'])).dropWhile isSpace = '{' :: (s ++ ['}']) := by
    rw [List.dropWhile_cons_of_neg (by decide)]
  rw [hs, strip, hfront, ← List.cons_append, List.rdropWhile_concat_neg _ _ _ (by decide)]

/-! ## Files of objects -/

/-- An object that can be written. -/
structure ValidObj (v : Json) : Prop where
  valid : v.Valid
  obj : ∃ items, v.sorted = .obj items

theorem ValidObj.line {v : Json} (h : ValidObj v) : Unbroken v.dumps ∧ Trimmed v.dumps := by
  obtain ⟨items, hitems⟩ := h.obj
  refine ⟨unbroken_of_isPrintable h.valid.sorted.isPrintable, ?_⟩
  rw [Json.dumps, hitems]
  exact trimmed_obj items

/-- What has been appended to a file, line by line. -/
def fileOf : List Json → Option Text
  | [] => none
  | v :: vs => some ((v :: vs).flatMap jsonLine)

theorem appendLine_fileOf (vs : List Json) (v : Json) :
    appendLine (fileOf vs) v = fileOf (vs ++ [v]) := by
  cases vs with
  | nil => simp [appendLine, fileOf]
  | cons w ws =>
      rw [appendLine, fileOf, List.cons_append, fileOf, ← List.cons_append, List.flatMap_append,
        Option.getD_some, List.flatMap_singleton]

theorem strippedLines_flatMap {vs : List Json} (h : ∀ v ∈ vs, ValidObj v) :
    strippedLines (vs.flatMap jsonLine) = vs.map Json.dumps := by
  induction vs with
  | nil => rfl
  | cons v vs ih =>
      obtain ⟨hv, hrest⟩ := List.forall_mem_cons.1 h
      rw [List.flatMap_cons, jsonLine, List.append_assoc, List.singleton_append,
        strippedLines_append hv.line.1 hv.line.2, ih hrest, List.map_cons]

/-! ## What the three files hold -/

/-- The records, snapshots and decisions among some calls, in their order. -/
def recordsOf (writes : List TelemetryWrite) : List BundleRecord :=
  writes.filterMap fun
    | .bundle r => some r
    | _ => none

def snapshotsOf (writes : List TelemetryWrite) : List SchedulerSnapshot :=
  writes.filterMap fun
    | .snapshot s => some s
    | _ => none

def decisionsOf (writes : List TelemetryWrite) : List SchedulingDecision :=
  writes.filterMap fun
    | .decision d => some d
    | _ => none

/-- Each file holds what was written to it, whatever was written to the others in between. -/
theorem writeAll_eq (writes : List TelemetryWrite) :
    RunDir.writeAll {} writes =
      { bundles := fileOf ((recordsOf writes).map BundleRecord.toDict)
        scheduler := fileOf ((snapshotsOf writes).map SchedulerSnapshot.toDict)
        decisions := fileOf ((decisionsOf writes).map SchedulingDecision.toDict) } := by
  induction writes using List.reverseRecOn with
  | nil => rfl
  | append_singleton ws w ih =>
      rw [RunDir.writeAll] at ih ⊢
      rw [List.foldl_append, ih, List.foldl_cons, List.foldl_nil]
      cases w <;>
        simp [RunDir.write, recordsOf, snapshotsOf, decisionsOf, appendLine_fileOf]

/-! ## Valid records -/

/-- What a writer is handed: every time is a double. -/
structure SchedulerSnapshot.Storable (s : SchedulerSnapshot) : Prop where
  ts : IsDouble s.ts
  windowStart : ∀ t ∈ s.contactWindowStart, IsDouble t
  windowEnd : ∀ t ∈ s.contactWindowEnd, IsDouble t

def TelemetryWrite.Storable : TelemetryWrite → Prop
  | .bundle r => r.Storable
  | .snapshot s => s.Storable
  | .decision d => IsDouble d.ts

theorem BundleRecord.Storable.validObj {r : BundleRecord} (h : r.Storable) : ValidObj r.toDict :=
  ⟨r.valid_toDict h, _, r.sorted_toDict⟩

theorem valid_jsonCounts (d : Dict String ℤ) : (jsonCounts d).Valid := by
  refine .obj ?_ ?_
  · have hinj : Function.Injective String.toList := fun _ _ => String.toList_inj.1
    have hkeys := d.nodup.map hinj
    rwa [List.map_map] at hkeys ⊢
  · exact List.forall_mem_map.2 fun e _ => .int e.2

theorem SchedulerSnapshot.Storable.validObj {s : SchedulerSnapshot} (h : s.Storable) :
    ValidObj s.toDict := by
  refine ⟨.obj ?_ ?_, _, rfl⟩
  · show (["ts", "contact_id", "queue_depth_by_class", "bytes_queued_by_class",
      "bytes_transmitted_by_class", "contact_window_start", "contact_window_end",
      "link_up"].map String.toList).Nodup
    decide +kernel
  · simp only [List.forall_mem_cons]
    exact ⟨.float h.ts, valid_jsonOptStr _, valid_jsonCounts _, valid_jsonCounts _,
      valid_jsonCounts _, valid_jsonFloat h.windowStart, valid_jsonFloat h.windowEnd, .bool _,
      nofun⟩

theorem SchedulingDecision.validObj {d : SchedulingDecision} (h : IsDouble d.ts) :
    ValidObj d.toDict := by
  refine ⟨.obj ?_ ?_, _, rfl⟩
  · show (["ts", "bundle_id", "traffic_class", "action", "reason", "contact_id"].map
      String.toList).Nodup
    decide +kernel
  · simp only [List.forall_mem_cons]
    exact ⟨.float h, .str _, .str _, .str _, .str _, valid_jsonOptStr _, nofun⟩

/-- A written record is read back. -/
theorem readLine_dumps {r : BundleRecord} (h : r.Storable) :
    readLine r.toDict.dumps = .ok (LoadedRecord.of r) := by
  rw [readLine, Json.loads_dumps (r.valid_toDict h)]
  exact r.fromDict_sorted

/-! ## Reading back -/

/-- A file of objects, line by line. -/
def loadFile (file : Option Text) : Except PyError (List Json) :=
  (strippedLines (file.getD [])).mapM Json.loads

/-- Every line is one object, and it is the object that was written. -/
theorem loadFile_fileOf {vs : List Json} (h : ∀ v ∈ vs, ValidObj v) :
    loadFile (fileOf vs) = .ok (vs.map Json.sorted) := by
  have hfile : (fileOf vs).getD [] = vs.flatMap jsonLine := by cases vs <;> rfl
  rw [loadFile, hfile, strippedLines_flatMap h, List.mapM_map]
  exact mapM_eq_ok fun v hv => Json.loads_dumps (h v hv).valid

theorem fileOf_eq_some {vs : List Json} (hne : vs ≠ []) :
    fileOf vs = some (vs.flatMap jsonLine) := by
  cases vs with
  | nil => exact absurd rfl hne
  | cons v vs => rfl

theorem readBundles_some (file : Text) (scheduler decisions : Option Text) :
    readBundles ⟨some file, scheduler, decisions⟩ = readBundlesText file := rfl

theorem readBundles_fileOf {rs : List BundleRecord} (h : ∀ r ∈ rs, r.Storable) (hne : rs ≠ [])
    (scheduler decisions : Option Text) :
    readBundles ⟨fileOf (rs.map BundleRecord.toDict), scheduler, decisions⟩ =
      .ok (rs.map LoadedRecord.of) := by
  have hvalid : ∀ v ∈ rs.map BundleRecord.toDict, ValidObj v :=
    List.forall_mem_map.2 fun r hr => (h r hr).validObj
  have hread : ∀ r ∈ rs, (readLine ∘ Json.dumps ∘ BundleRecord.toDict) r =
      .ok (LoadedRecord.of r) := by
    intro r hr
    rw [Function.comp_apply, Function.comp_apply]
    exact readLine_dumps (h r hr)
  rw [fileOf_eq_some (mt List.map_eq_nil_iff.1 hne), readBundles_some, readBundlesText,
    strippedLines_flatMap hvalid, List.map_map, List.mapM_map]
  exact mapM_eq_ok hread

/-- Whatever records, snapshots and decisions are written, in any order, each of the three files
holds one object a line and is read back as what was written to it; the records come back with every
field, and no two lists of records come back the same. -/
theorem files_read_back (writes : List TelemetryWrite) (h : ∀ w ∈ writes, w.Storable) :
    readBundles (RunDir.writeAll {} writes) =
        (if recordsOf writes = [] then .error .fileNotFound
        else .ok ((recordsOf writes).map LoadedRecord.of)) ∧
      Function.Injective (List.map LoadedRecord.of) ∧
      loadFile (RunDir.writeAll {} writes).scheduler =
        .ok ((snapshotsOf writes).map fun s => s.toDict.sorted) ∧
      loadFile (RunDir.writeAll {} writes).decisions =
        .ok ((decisionsOf writes).map fun d => d.toDict.sorted) := by
  have hrecords : ∀ r ∈ recordsOf writes, r.Storable := by
    intro r hr
    obtain ⟨w, hw, heq⟩ := List.mem_filterMap.1 hr
    cases w <;> cases heq
    exact h _ hw
  have hsnapshots : ∀ s ∈ snapshotsOf writes, s.Storable := by
    intro s hs
    obtain ⟨w, hw, heq⟩ := List.mem_filterMap.1 hs
    cases w <;> cases heq
    exact h _ hw
  have hdecisions : ∀ d ∈ decisionsOf writes, IsDouble d.ts := by
    intro d hd
    obtain ⟨w, hw, heq⟩ := List.mem_filterMap.1 hd
    cases w <;> cases heq
    exact h _ hw
  rw [writeAll_eq]
  refine ⟨?_, List.map_injective_iff.2 LoadedRecord.of_injective, ?_, ?_⟩
  · split_ifs with hnil
    · rw [hnil]
      rfl
    · exact readBundles_fileOf hrecords hnil _ _
  · rw [loadFile_fileOf (List.forall_mem_map.2 fun s hs => (hsnapshots s hs).validObj),
      List.map_map]
    rfl
  · rw [loadFile_fileOf (List.forall_mem_map.2 fun d hd =>
      SchedulingDecision.validObj (hdecisions d hd)), List.map_map]
    rfl

/-- A record that has been captured and given a lifetime. -/
def Small.captured : BundleRecord where
  bundleId := "1"
  flowId := "10.45.0.2-192.168.1.7-icmp"
  trafficClass := .telemetry
  sizeBytes := 84
  ingressTs := 0
  expirationTs := some 3600

theorem Small.captured_storable : Small.captured.Storable := by
  refine ⟨isDouble_zero, ?_⟩
  have hexpiration : IsDouble 3600 := by
    simpa using isDouble_intCast (n := 3600) (by norm_num)
  simp only [Small.captured, List.forall_mem_cons]
  refine ⟨nofun, nofun, nofun, nofun, ?_, nofun⟩
  rintro _ ⟨⟩
  exact hexpiration

/-- A snapshot and a decision between two records. -/
def Small.telemetryWrites : List TelemetryWrite :=
  [.bundle Small.captured, .snapshot { ts := 0, linkUp := true },
    .decision { ts := 0, bundleId := "1", trafficClass := "telemetry", action := .transmit,
                reason := "rank1", contactId := none },
    .bundle Small.captured]

theorem Small.telemetryWrites_storable : ∀ w ∈ Small.telemetryWrites, w.Storable := by
  intro w hw
  simp only [Small.telemetryWrites, List.mem_cons, List.not_mem_nil, or_false] at hw
  rcases hw with rfl | rfl | rfl | rfl
  · exact Small.captured_storable
  · exact SchedulerSnapshot.Storable.mk isDouble_zero nofun nofun
  · exact isDouble_zero
  · exact Small.captured_storable

theorem files_read_back_small :
    readBundles (RunDir.writeAll {} Small.telemetryWrites) =
      .ok [LoadedRecord.of Small.captured, LoadedRecord.of Small.captured] := by
  have hrecords : recordsOf Small.telemetryWrites = [Small.captured, Small.captured] := rfl
  rw [(files_read_back Small.telemetryWrites Small.telemetryWrites_storable).1, hrecords,
    if_neg (List.cons_ne_nil _ _), List.map_cons, List.map_cons, List.map_nil]

end Gateway
end LunaBridge
