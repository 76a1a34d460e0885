import LunaBridge.LinkController.QosMap

/-!
# QosFlows — which QoS flow a packet is classed by

A `SessionRow` is a session as the N2 capture has it: the TEID of the UPF and the QoS flows, each a
QFI with its 5QI.  The table keeps one 5QI of every session, that of the flow listed first, and the
workers look at the TEID only; so every packet of a session gets the class of that flow.
-/

namespace LunaBridge
namespace LinkController

open Foundation Foundation.Python Foundation.Text Gateway

/-! ## What tshark prints -/

/-- A session: the UPF's TEID and its QoS flows, as pairs of QFI and 5QI. -/
structure SessionRow where
  teid : UInt32
  flows : List (ℕ × ℕ)
  flows_ne : flows ≠ []
  qfis_nodup : (flows.map Prod.fst).Nodup

namespace SessionRow

variable (row : SessionRow)

/-- The 5QI of the flow listed first. -/
def firstFiveqi : ℕ := (row.flows.head row.flows_ne).2

/-- The four bytes of a TEID, in hexadecimal with colons between them. -/
def teidText : Text :=
  [':'].intercalate [hexByte (row.teid.toNat / 256 ^ 3 % 256),
    hexByte (row.teid.toNat / 256 ^ 2 % 256), hexByte (row.teid.toNat / 256 % 256),
    hexByte (row.teid.toNat % 256)]

def qfisText : Text := [','].intercalate (row.flows.map fun flow => decimal flow.1)

def fiveqisText : Text := [','].intercalate (row.flows.map fun flow => decimal flow.2)

/-- The fields of a session, on one line. -/
def line : Text := row.teidText ++ '|' :: (row.qfisText ++ '|' :: row.fiveqisText)

end SessionRow

/-- The output for a capture with these sessions. -/
def tsharkOutput (rows : List SessionRow) : Text := rows.flatMap fun row => row.line ++ ['\n']

/-! ## What is made of it -/

namespace SessionRow

variable (row : SessionRow)

theorem not_mem_teidText {c : Char} (hcolon : c ≠ ':') (hc : digitCode c = none) :
    c ∉ row.teidText := by
  refine not_mem_intercalate hcolon fun field hfield => ?_
  simp only [List.mem_cons, List.not_mem_nil, or_false] at hfield
  rcases hfield with rfl | rfl | rfl | rfl <;>
    exact not_mem_hexByte (Nat.mod_lt _ (by decide)) hc

theorem not_mem_qfisText {c : Char} (hcomma : c ≠ ',') (hc : c.isDigit = false) :
    c ∉ row.qfisText := by
  refine not_mem_intercalate hcomma fun field hfield => ?_
  obtain ⟨flow, -, rfl⟩ := List.mem_map.1 hfield
  exact not_mem_decimal hc

theorem not_mem_fiveqisText {c : Char} (hcomma : c ≠ ',') (hc : c.isDigit = false) :
    c ∉ row.fiveqisText := by
  refine not_mem_intercalate hcomma fun field hfield => ?_
  obtain ⟨flow, -, rfl⟩ := List.mem_map.1 hfield
  exact not_mem_decimal hc

/-- The digits of the TEID are its bytes, and they give the TEID back. -/
theorem parseInt_teidText :
    parseInt 16 (row.teidText.filter fun c => decide (c ≠ ':')) = .ok row.teid.toNat := by
  have hlt := row.teid.toNat_lt
  have hkeep : ∀ b, b < 256 → (hexByte b).filter (fun c => decide (c ≠ ':')) = hexByte b := by
    intro b hb
    refine List.filter_eq_self.2 fun c hc => decide_eq_true ?_
    rintro rfl
    exact not_mem_hexByte hb (by decide) hc
  have hdigits : row.teidText.filter (fun c => decide (c ≠ ':')) =
      hexByte (row.teid.toNat / 256 ^ 3 % 256) ++ (hexByte (row.teid.toNat / 256 ^ 2 % 256) ++
        (hexByte (row.teid.toNat / 256 % 256) ++ hexByte (row.teid.toNat % 256))) := by
    have hcolon : [':'].filter (fun c => decide (c ≠ ':')) = [] := by decide
    simp only [teidText, List.intercalate_cons_cons, List.intercalate_singleton,
      List.filter_append, hcolon, List.nil_append, hkeep _ (Nat.mod_lt _ (by decide : 0 < 256)),
      List.append_assoc]
  have hread : readDigits 16 0 (row.teidText.filter fun c => decide (c ≠ ':')) =
      some row.teid.toNat := by
    rw [hdigits]
    simp only [readDigits_append, readDigits_hexByte (Nat.mod_lt _ (by decide : 0 < 256)),
      Option.bind_some]
    congr 1
    omega
  have hne : row.teidText.filter (fun c => decide (c ≠ ':')) ≠ [] := by
    rw [hdigits]
    exact List.cons_ne_nil _ _
  rw [parseInt, if_neg hne, hread]

theorem parseRow_line : N2QosMap.parseRow row.line = .ok (row.teid.toNat, row.firstFiveqi) := by
  have hfields : row.line.splitOn '|' = [row.teidText, row.qfisText, row.fiveqisText] := by
    have hteid : '|' ∉ row.teidText := row.not_mem_teidText (by decide) (by decide)
    have hqfis : '|' ∉ row.qfisText := row.not_mem_qfisText (by decide) (by decide)
    have hfiveqis : '|' ∉ row.fiveqisText := row.not_mem_fiveqisText (by decide) (by decide)
    rw [line, List.splitOn_append_cons_self_of_not_mem hteid,
      List.splitOn_append_cons_self_of_not_mem hqfis, List.splitOn_eq_singleton hfiveqis]
  have hteids : row.teidText.splitOn ',' = [row.teidText] :=
    List.splitOn_eq_singleton (row.not_mem_teidText (by decide) (by decide))
  have hfiveqis : row.fiveqisText.splitOn ',' = row.flows.map fun flow => decimal flow.2 := by
    refine List.splitOn_intercalate ',' (fun field hfield => ?_) (by simpa using row.flows_ne)
    obtain ⟨flow, -, rfl⟩ := List.mem_map.1 hfield
    exact not_mem_decimal (by decide)
  have hfirst : (row.flows.map fun flow => decimal flow.2).headD [] = decimal row.firstFiveqi := by
    obtain ⟨flow, flows, hflows⟩ := List.exists_cons_of_ne_nil row.flows_ne
    simp [firstFiveqi, hflows]
  rw [N2QosMap.parseRow, hfields]
  simp only [hteids, hfiveqis, List.headD_cons, hfirst, row.parseInt_teidText, parseInt_decimal]
  rfl

theorem not_mem_line : '\n' ∉ row.line := by
  rw [line, List.mem_append, List.mem_cons, List.mem_append, List.mem_cons]
  rintro (h | h | h | h | h)
  · exact row.not_mem_teidText (by decide) (by decide) h
  · exact absurd h (by decide)
  · exact row.not_mem_qfisText (by decide) (by decide) h
  · exact absurd h (by decide)
  · exact row.not_mem_fiveqisText (by decide) (by decide) h

theorem isBlank_line : isBlank row.line = false := by
  refine List.all_eq_false.2 ⟨'|', ?_, by decide⟩
  rw [line]
  simp

end SessionRow

theorem splitOn_tsharkOutput (rows : List SessionRow) :
    (tsharkOutput rows).splitOn '\n' = rows.map SessionRow.line ++ [[]] := by
  induction rows with
  | nil => rfl
  | cons row rows ih =>
      have hcons : tsharkOutput (row :: rows) = row.line ++ '\n' :: tsharkOutput rows := by
        simp [tsharkOutput]
      rw [hcons, List.splitOn_append_cons_self_of_not_mem row.not_mem_line, ih, List.map_cons,
        List.cons_append]

/-- The entry of a session. -/
def SessionRow.entry (row : SessionRow) : ℕ × ℕ := (row.teid.toNat, row.firstFiveqi)

theorem rowLoop_lines (rows : List SessionRow) :
    ∀ qmap, N2QosMap.rowLoop (rows.map SessionRow.line ++ [[]]) qmap =
      .ok ((rows.map SessionRow.entry).foldl (fun d e => d.set e.1 e.2) qmap) := by
  induction rows with
  | nil => exact fun qmap => rfl
  | cons row rows ih =>
      intro qmap
      rw [List.map_cons, List.cons_append, N2QosMap.rowLoop, row.isBlank_line,
        if_neg Bool.false_ne_true, row.parseRow_line]
      exact ih _

/-- The table of a capture. -/
def qosMap (rows : List SessionRow) : Dict ℕ ℕ := Dict.ofList (rows.map SessionRow.entry)

section Table

variable {rows : List SessionRow} (hteids : (rows.map SessionRow.teid).Nodup)
include hteids

theorem entries_nodup : ((rows.map SessionRow.entry).map Prod.fst).Nodup := by
  rw [List.map_map]
  have hcomp : Prod.fst ∘ SessionRow.entry = UInt32.toNat ∘ SessionRow.teid := rfl
  rw [hcomp, ← List.map_map]
  exact hteids.map fun _ _ h => UInt32.toNat_inj.1 h

/-- A session is found by its TEID. -/
theorem get?_qosMap {row : SessionRow} (hrow : row ∈ rows) :
    (qosMap rows).get? row.teid.toNat = some row.firstFiveqi := by
  rw [Dict.get?_eq_some_iff, qosMap, Dict.items_ofList (entries_nodup hteids)]
  exact List.mem_map.2 ⟨row, hrow, rfl⟩

/-- The workers load the table that was made. -/
theorem loadQosMap_main :
    ∃ file, N2QosMap.main (tsharkOutput rows) = .ok file ∧
      loadQosMap file.items = .ok (qosMap rows) := by
  refine ⟨_, by rw [N2QosMap.main, splitOn_tsharkOutput, rowLoop_lines]; rfl, ?_⟩
  have hitems := Dict.items_ofList (entries_nodup hteids)
  have hkeys : (((qosMap rows).items.map fun e => (decimal e.1, e.2)).map Prod.fst).Nodup := by
    rw [List.map_map]
    have hcomp : Prod.fst ∘ (fun e : ℕ × ℕ => (decimal e.1, e.2)) = decimal ∘ Prod.fst := rfl
    rw [hcomp, ← List.map_map]
    exact (qosMap rows).nodup.map decimal_injective
  have hread : ∀ es : List (ℕ × ℕ), ((es.map fun e => (decimal e.1, e.2)).mapM fun e => do
      let teid ← parseInt 10 e.1
      pure (teid, e.2)) = .ok es := by
    intro es
    induction es with
    | nil => rfl
    | cons e es ih =>
        rw [List.map_cons, List.mapM_cons, ih, parseInt_decimal]
        rfl
  show loadQosMap ((qosMap rows).items.map fun e => (decimal e.1, e.2)) = _
  rw [loadQosMap, Dict.items_ofList hkeys, hread]
  show Except.ok (Dict.ofList (qosMap rows).items) = _
  rw [qosMap, hitems]

end Table

/-! ## Classing -/

/-- The worker has passed the packet on under the class, or has counted it unknown. -/
def HandledAs (cls? : Option TrafficClass) (p : GtpuPacket) (s s' : Intake) : Prop :=
  match cls? with
  | some cls => s'.unknown = s.unknown ∧ ∃ e : Encapsulated, s'.passed = s.passed ++ [e] ∧
      e.cls = cls ∧ e.teid = p.teid ∧ e.qfi = p.qfi ∧ e.inner = p.inner
  | none => s'.unknown = s.unknown + 1 ∧ s'.passed = s.passed

/-- A packet is handled in one way only. -/
theorem HandledAs.unique {cls? cls?' : Option TrafficClass} {p : GtpuPacket} {s s' : Intake}
    (h : HandledAs cls? p s s') (h' : HandledAs cls?' p s s') : cls? = cls?' := by
  cases cls? with
  | none =>
      cases cls?' with
      | none => rfl
      | some cls => exact absurd (h.1.symm.trans h'.1) (by omega)
  | some cls =>
      cases cls?' with
      | none => exact absurd (h.1.symm.trans h'.1) (by omega)
      | some cls' =>
          obtain ⟨-, e, he, hcls, -⟩ := h
          obtain ⟨-, e', he', hcls', -⟩ := h'
          have hsame : e = e' := by
            have := List.append_cancel_left (he.symm.trans he')
            exact (List.cons.inj this).1
          rw [← hcls, ← hcls', hsame]

theorem classify_handled {qmap : Dict ℕ ℕ} {p : GtpuPacket} {fiveqi : ℕ}
    (h : qmap.get? p.teid = some fiveqi) (s : Intake) (now : ℚ) :
    HandledAs (fiveqiClass fiveqi) p s (s.classify qmap now p) := by
  rw [Intake.classify, h]
  dsimp only
  cases fiveqiClass fiveqi with
  | none => exact ⟨rfl, rfl⟩
  | some cls => exact ⟨rfl, _, rfl, rfl, rfl, rfl, rfl⟩

/-- Before the end of the schedule the loop goes on behind what it has read. -/
theorem intakeLoop_append (qmap : Dict ℕ ℕ) {t0 t1 : ℚ} (rest : List (ℚ × GtpuPacket)) :
    ∀ (before : List (ℚ × GtpuPacket)) (s : Intake), (∀ x ∈ before, x.1 < t1) →
      intakeLoop qmap t0 t1 (before ++ rest) s =
        intakeLoop qmap t0 t1 rest (intakeLoop qmap t0 t1 before s) := by
  intro before
  induction before with
  | nil => exact fun s _ => rfl
  | cons x before ih =>
      intro s hbefore
      obtain ⟨now, p⟩ := x
      obtain ⟨hnow, hrest⟩ := List.forall_mem_cons.1 hbefore
      rw [List.cons_append, intakeLoop, intakeLoop, if_neg (not_le.2 hnow), if_neg (not_le.2 hnow)]
      split
      · exact ih s hrest
      · exact ih _ hrest

/-! ## A small capture -/

namespace Small

/-- A session with a flow of science data and one of emergencies. -/
def twoFlows : SessionRow where
  teid := 0x1A2B
  flows := [(1, 9), (2, 69)]
  flows_ne := by decide
  qfis_nodup := by decide

/-- A packet of the second flow. -/
def urgent : GtpuPacket := { ts := 5, teid := 0x1A2B, qfi := some 2, inner := [0x45] }

end Small

/-- For the table made of any capture: in every run of a worker over the packets, a packet is
handled by the class of its own QoS flow exactly if that is the class of the flow listed first for
its session. -/
theorem handled_by_own_flow_iff {rows : List SessionRow}
    (hteids : (rows.map SessionRow.teid).Nodup) :
    ∃ file qmap, N2QosMap.main (tsharkOutput rows) = .ok file ∧
      loadQosMap file.items = .ok qmap ∧
      ∀ row ∈ rows, ∀ qfi fiveqi, (qfi, fiveqi) ∈ row.flows →
      ∀ (t0 t1 : ℚ) (before after : List (ℚ × GtpuPacket)) (now : ℚ) (p : GtpuPacket),
        p.teid = row.teid.toNat → p.qfi = some qfi → (∀ x ∈ before, x.1 < t1) → t0 ≤ now →
        now < t1 →
        ∃ s s', s = intakeLoop qmap t0 t1 before .start ∧
          intakeLoop qmap t0 t1 (before ++ (now, p) :: after) .start =
            intakeLoop qmap t0 t1 after s' ∧
          (HandledAs (fiveqiClass fiveqi) p s s' ↔
            fiveqiClass row.firstFiveqi = fiveqiClass fiveqi) := by
  obtain ⟨file, hfile, hload⟩ := loadQosMap_main hteids
  refine ⟨file, qosMap rows, hfile, hload, ?_⟩
  intro row hrow qfi fiveqi _ t0 t1 before after now p hteid _ hbefore hstart hend
  have hfound : (qosMap rows).get? p.teid = some row.firstFiveqi := by
    rw [hteid]
    exact get?_qosMap hteids hrow
  refine ⟨_, (intakeLoop (qosMap rows) t0 t1 before .start).classify (qosMap rows) now p, rfl,
    ?_, ?_⟩
  · rw [intakeLoop_append (qosMap rows) _ before _ hbefore, intakeLoop, if_neg (not_le.2 hend),
      if_neg (not_lt.2 hstart)]
  · have hhandled := classify_handled hfound (intakeLoop (qosMap rows) t0 t1 before .start) now
    constructor
    · exact fun h => hhandled.unique h
    · intro hsame
      rwa [hsame] at hhandled

theorem handled_by_own_flow_iff_twoFlows :
    ∃ file qmap, N2QosMap.main (tsharkOutput [Small.twoFlows]) = .ok file ∧
      loadQosMap file.items = .ok qmap ∧
      ∀ row ∈ [Small.twoFlows], ∀ qfi fiveqi, (qfi, fiveqi) ∈ row.flows →
      ∀ (t0 t1 : ℚ) (before after : List (ℚ × GtpuPacket)) (now : ℚ) (p : GtpuPacket),
        p.teid = row.teid.toNat → p.qfi = some qfi → (∀ x ∈ before, x.1 < t1) → t0 ≤ now →
        now < t1 →
        ∃ s s', s = intakeLoop qmap t0 t1 before .start ∧
          intakeLoop qmap t0 t1 (before ++ (now, p) :: after) .start =
            intakeLoop qmap t0 t1 after s' ∧
          (HandledAs (fiveqiClass fiveqi) p s s' ↔
            fiveqiClass row.firstFiveqi = fiveqiClass fiveqi) :=
  handled_by_own_flow_iff (by decide)

/-- A packet of the emergency flow is passed on as science data. -/
theorem second_flow_not_handled :
    (2, 69) ∈ Small.twoFlows.flows ∧ Small.urgent.teid = Small.twoFlows.teid.toNat ∧
      Small.urgent.qfi = some 2 ∧ fiveqiClass 69 = some .emergency ∧
      ∃ file qmap, N2QosMap.main (tsharkOutput [Small.twoFlows]) = .ok file ∧
        loadQosMap file.items = .ok qmap ∧
        (intakeLoop qmap 0 10 [(1, Small.urgent)] .start).passed.map Encapsulated.cls =
          [.scienceBulk] ∧
        ¬ HandledAs (fiveqiClass 69) Small.urgent .start
          (intakeLoop qmap 0 10 [(1, Small.urgent)] .start) := by
  have hteids : ([Small.twoFlows].map SessionRow.teid).Nodup := by decide
  obtain ⟨file, hfile, hload⟩ := loadQosMap_main hteids
  have hfound : (qosMap [Small.twoFlows]).get? Small.urgent.teid = some 9 := by decide
  have hhandled := classify_handled hfound .start 1
  have hrun : intakeLoop (qosMap [Small.twoFlows]) 0 10 [(1, Small.urgent)] .start =
      Intake.start.classify (qosMap [Small.twoFlows]) 1 Small.urgent := by
    rw [intakeLoop, if_neg (by decide +kernel), if_neg (by decide +kernel), intakeLoop]
  refine ⟨by decide, by decide, rfl, rfl, file, _, hfile, hload, ?_, fun h => ?_⟩
  · rw [hrun, Intake.classify, hfound]
    rfl
  · rw [hrun] at h
    exact absurd (hhandled.unique h) (by decide)

end LinkController
end LunaBridge
