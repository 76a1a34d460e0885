import LunaBridge.Scheduling.Ledger
import LunaBridge.Scheduling.Fate
import LunaBridge.Scheduling.Representation

/-!
# AuditTrail — the decision log after a run

Call by call a run keeps the audit trail of every bundle, so at its end each bundle has one terminal
entry, its last, and that entry agrees with the record.  A deferral is traced back to the
`_drain_window` call that wrote it.
-/

namespace LunaBridge
namespace Gateway

open Foundation.AuditLog Foundation.Machine Foundation.Trace Foundation.Selection
open Foundation.StableSort

/-! ## One call -/

/-- The bundles a call may defer. -/
def Call.deferrable (s : SchedulerState) : Call → List Bundle
  | .drainWindow w => eligible w s.toBuffer
  | _ => []

/-- What the calls `cs` rely on when they are still to be made. -/
structure Standing (sch : Scheduler) (bundles : List Bundle) (records : Bundle → Lifecycle)
    (cs : List Call) (s : SchedulerState) : Prop where
  wellFormed : s.toBuffer.WellFormed sch (offeredBy cs)
  known : ∀ b ∈ s.active ++ offeredBy cs, b ∈ bundles
  tracked : Tracked (fun _ _ => True) bundles records (offeredBy cs) s.toBuffer

namespace Standing

variable {sch : Scheduler} {bundles : List Bundle} {records : Bundle → Lifecycle} {c : Call}
  {cs : List Call} {s : SchedulerState}

theorem known_active (h : Standing sch bundles records cs s) : ∀ b ∈ s.active, b ∈ bundles :=
  fun b hb => h.known b (List.mem_append_left _ hb)

/-- Queued bundles have been admitted. -/
theorem queued (h : Standing sch bundles records cs s) :
    ∀ b ∈ s.active, (s.records b).queueAdmissionTs ≠ none := by
  intro b hb
  rw [h.tracked.queued b hb]
  exact Option.some_ne_none _

/-- Bundles that leave the queue stand in nobody's way. -/
theorem remove {f : Lifecycle → Lifecycle} {vs : List Bundle} {s' : SchedulerState}
    (h : Standing sch bundles records cs s) (hvs : ∀ v ∈ vs, v ∈ s.active)
    (hbuffer : s'.toBuffer = s.toBuffer.remove f vs)
    (hwf : s'.toBuffer.WellFormed sch (offeredBy cs)) : Standing sch bundles records cs s' := by
  refine ⟨hwf, fun b hb => h.known b ?_, hbuffer ▸ h.tracked.remove h.wellFormed hvs ?_⟩
  · rw [hbuffer] at hb
    exact ((without_sublist s.active vs).append_right _).subset hb
  · exact fun _ _ => trivial

/-- Every call returns and leaves the rest of the calls standing. -/
theorem exec (h : Standing sch bundles records (c :: cs) s) :
    Returns (c.exec sch) s fun _ s' => Standing sch bundles records cs s' := by
  cases c with
  | tryAdmit b =>
      refine (tryAdmit_spec h.wellFormed).mono fun _ s' h' => ⟨h'.2, fun d hd => ?_, ?_⟩
      · rw [h'.1.buffer] at hd
        rcases List.mem_append.1 hd with hd | hd
        · rcases Buffer.mem_offer_active hd with hd | rfl
          · exact h.known_active d hd
          · exact h.known d (List.mem_append_right _ (List.mem_cons_self ..))
        · exact h.known d (List.mem_append_right _ (List.mem_cons_of_mem _ hd))
      · rw [h'.1.buffer]
        exact Tracked.offer h.tracked h.wellFormed trivial fun _ _ => trivial
  | expireInBlackout t =>
      refine (expireInBlackout_spec t h.wellFormed).mono fun _ s' h' => ?_
      have hstand : Standing sch bundles records cs s := ⟨h.wellFormed, h.known, h.tracked⟩
      exact hstand.remove (fun v hv => List.mem_of_mem_filter hv) h'.1.buffer h'.2
  | drainWindow w =>
      refine (drainWindow_spec h.wellFormed).mono fun _ s' h' => ?_
      rcases h' with ⟨sent, hservice, _, hbuffer, hwf⟩
      have hstand : Standing sch bundles records cs s := ⟨h.wellFormed, h.known, h.tracked⟩
      exact hstand.remove (fun b hb => List.mem_of_mem_filter (hservice.subset b hb)) hbuffer hwf

/-- The scope of a call. -/
def scope (h : Standing sch bundles records (c :: cs) s)
    (hids : (bundles.map Bundle.bundleId).Nodup) : AuditScope where
  bundles := bundles
  records := records
  deferrable := c.deferrable s
  distinct := hids
  mem_bundles := by
    intro b hb
    cases c with
    | drainWindow w => exact h.known_active b (List.mem_of_mem_filter hb)
    | tryAdmit c => cases hb
    | expireInBlackout t => cases hb

/-- Every call writes what it does to the log. -/
theorem exec_audited (h : Standing sch bundles records (c :: cs) s)
    (hids : (bundles.map Bundle.bundleId).Nodup) :
    Ensures (c.exec sch) s fun _ s' => Audited (h.scope hids) s s' := by
  cases c with
  | tryAdmit b =>
      have hb : b ∈ offeredBy (.tryAdmit b :: cs) := List.mem_cons_self ..
      refine tryAdmit_audited (h.scope hids) sch (h.known b (List.mem_append_right _ hb))
        (h.wellFormed.pending b (List.mem_append_right _ hb)) ?_ h.known_active h.queued _
      exact congrArg Lifecycle.queueAdmissionTs (h.tracked.awaited b hb)
  | expireInBlackout t => exact expireInBlackout_audited (h.scope hids) t h.known_active
  | drainWindow w => exact drainWindow_audited (h.scope hids) h.wellFormed rfl

end Standing

/-! ## A whole run -/

section Calls

variable {sch : Scheduler} {bundles : List Bundle} {records : Bundle → Lifecycle}
  {cs : List Call} {s s' : SchedulerState}

/-- `s'` is reached from `s` by making the calls `cs`. -/
def Makes (sch : Scheduler) : List Call → SchedulerState → SchedulerState → Prop :=
  Run fun c t t' => c.exec sch t = .ok ⟨⟩ t'

/-- Before the first call all bundles are awaited. -/
theorem Valid.standing (h : Valid bundles records) (sch : Scheduler) :
    Standing sch bundles records (sch.calls bundles) (SchedulerState.fresh records) := by
  have hidle := SchedulerState.fresh_idle records
  refine ⟨?_, ?_, ?_⟩
  · rw [offeredBy_schedulerCalls]
    exact h.wellFormed hidle sch _
  · rw [offeredBy_schedulerCalls, hidle.queue]
    exact fun b hb => (mem_sortBy _).1 hb
  · rw [offeredBy_schedulerCalls]
    exact .start hidle

theorem Standing.makes {rest : List Call} (h : Standing sch bundles records (cs ++ rest) s)
    (hmade : Makes sch cs s s') : Standing sch bundles records rest s' :=
  hmade.invariant (I := fun cs t => Standing sch bundles records (cs ++ rest) t)
    (fun _ _ _ t' hI hexec => hI.exec.ensures ⟨⟩ t' hexec) h

/-- All the calls return. -/
theorem Standing.exists_makes (h : Standing sch bundles records cs s) :
    ∃ s', Makes sch cs s s' := by
  have hloop := Returns.forM (f := Call.exec sch) (I := Standing sch bundles records)
    (fun _ _ _ hI => hI.exec) cs s h
  rcases hloop with ⟨_, s', hrun, _⟩
  exact ⟨s', forM_eq_ok_iff.1 hrun⟩

/-- Keys tell bundles apart. -/
theorem eq_of_bundleId_eq (hids : (bundles.map Bundle.bundleId).Nodup) :
    ∀ b ∈ bundles, ∀ c ∈ bundles, b.bundleId = c.bundleId → b = c :=
  fun _ hb _ hc => List.inj_on_of_nodup_map hids hb hc

theorem Audited.trail {A : AuditScope} (h : Audited A s s') {b : Bundle} (hb : b ∈ A.bundles)
    (htrail : Trail (auditSchema A.records) s.ledger b) :
    Trail (auditSchema A.records) s'.ledger b :=
  htrail.writes (eq_of_bundleId_eq A.distinct) A.mem_bundles hb h

/-- The calls keep the trail of every bundle. -/
theorem Makes.trail (hids : (bundles.map Bundle.bundleId).Nodup)
    (h : Standing sch bundles records cs s) (hmade : Makes sch cs s s') {b : Bundle}
    (hb : b ∈ bundles) (htrail : Trail (auditSchema records) s.ledger b) :
    Trail (auditSchema records) s'.ledger b := by
  have hend := hmade.invariant (I := fun cs t => Standing sch bundles records cs t ∧
    Trail (auditSchema records) t.ledger b) (fun _ _ _ t' hI hexec => ?_) ⟨h, htrail⟩
  · exact hend.2
  · have haudited := hI.1.exec_audited hids ⟨⟩ t' hexec
    exact ⟨hI.1.exec.ensures ⟨⟩ t' hexec, haudited.trail hb hI.2⟩

theorem Audited.decisions_grow {A : AuditScope} (h : Audited A s s') :
    s.decisions <+: s'.decisions := by
  rcases h.grow with ⟨new, hnew, _⟩
  exact ⟨new, hnew.symm⟩

/-- A run makes its calls, which leave nobody to be offered, and then sweeps up. -/
theorem Valid.run_makes (h : Valid bundles records) (sch : Scheduler) (now : ℚ) :
    ∃ s₁ s', Makes sch (sch.calls bundles) (SchedulerState.fresh records) s₁ ∧
      Standing sch bundles records [] s₁ ∧ finalSweep now sch.plan.lastEnd s₁ = .ok ⟨⟩ s' ∧
      run sch now bundles (SchedulerState.fresh records) = .ok ⟨⟩ s' := by
  have hstart := h.standing sch
  obtain ⟨s₁, hmade⟩ := hstart.exists_makes
  have hall : Standing sch bundles records (sch.calls bundles ++ [])
      (SchedulerState.fresh records) := by rwa [List.append_nil]
  have hstand : Standing sch bundles records [] s₁ := hall.makes hmade
  rcases finalSweep_spec now sch.plan.lastEnd hstand.wellFormed with ⟨_, s', hsweep, _⟩
  refine ⟨s₁, s', hmade, hstand, hsweep, ?_⟩
  rw [run_eq_calls]
  exact (bind_ok (checkExpirations_ok h.lifetimes _)).trans
    ((bind_ok (forM_eq_ok_iff.2 hmade)).trans hsweep)

/-- A deferral that some calls have written was written by a `_drain_window` call, and names a
bundle that was eligible when that call was made. -/
theorem Makes.deferral (hids : (bundles.map Bundle.bundleId).Nodup)
    (h : Standing sch bundles records cs s) (hmade : Makes sch cs s s')
    {front back : List SchedulingDecision} {e : SchedulingDecision}
    (hlog : s'.decisions = front ++ e :: back) (hold : s.decisions <+: front)
    (hdefer : e.action = .defer) :
    ∃ made w rest s₀ s₁, cs = made ++ .drainWindow w :: rest ∧ Makes sch made s s₀ ∧
      drainWindow sch w s₀ = .ok ⟨⟩ s₁ ∧ s₀.decisions <+: front ∧ front ++ [e] <+: s₁.decisions ∧
      ∃ b ∈ eligible w s₀.toBuffer, b.bundleId = e.bundleId := by
  obtain ⟨made, c, rest, s₀, s₁, hcs, hmade₀, hstand, hexec, hbefore, hafter⟩ :=
    hmade.exists_writer SchedulerState.decisions (I := Standing sch bundles records)
      (fun _ _ _ t' hI hexec => ⟨hI.exec.ensures ⟨⟩ t' hexec,
        (hI.exec_audited hids ⟨⟩ t' hexec).decisions_grow⟩) h hlog hold
  have haudited := hstand.exec_audited hids ⟨⟩ s₁ hexec
  -- only a bundle the call may defer is named, and only a window defers
  obtain ⟨b, hb, hkey⟩ := haudited.notable_of_note hbefore hafter fun hclosing => hclosing hdefer
  cases c with
  | drainWindow w => exact ⟨made, w, rest, s₀, s₁, hcs, hmade₀, hexec, hbefore, hafter, b, hb, hkey⟩
  | tryAdmit c => cases hb
  | expireInBlackout t => cases hb

end Calls

/-! ## The log and the records -/

/-- What a terminal entry says about the record it goes with; `initial` is the record before the
run. -/
structure Agrees (initial r : Lifecycle) (e : SchedulingDecision) : Prop where
  delivered : e.action = .transmit ∧ e.contactId = r.contactId ∧ r.transmissionTs = some e.ts ↔
    r.terminalState = .delivered
  sent : e.action = .transmit → r.terminalState = .delivered ∧ ∃ contactId,
    r.contactId = some contactId ∧ e.contactId = some contactId
  expired : e.action = .drop ∧ e.reason = "ttl_expired" ↔ r.terminalState = .ttlExpired
  overflowed : e.action = .drop ∧ (e.reason = "queue_overflow" ∨ e.reason = "evicted_by_priority") ↔
    r.terminalState = .queueOverflow
  evicted : initial.queueAdmissionTs = none →
    (e.action = .drop ∧ e.reason = "evicted_by_priority" ↔
      r.terminalState = .queueOverflow ∧ r.queueAdmissionTs ≠ none)
  unscheduled : e.action = .drop ∧ e.reason = "never_scheduled" ↔ r.terminalState = .neverScheduled

/-- An entry that explains a pending record's end agrees with it. -/
theorem Explains.agrees {initial r : Lifecycle} {b : Bundle} {e : SchedulingDecision}
    (h : Explains initial b r e) : Agrees initial r e := by
  cases h with
  | delivered w reason r =>
      constructor <;> simp [decision, Lifecycle.delivered]
  | expired ts r =>
      constructor <;> simp [decision, Lifecycle.expired]
  | @evicted ts r hqueued =>
      constructor <;> simp [decision, Lifecycle.overflowed, hqueued]
  | @overflowed ts r hnew =>
      constructor <;> simp [decision, Lifecycle.overflowed, hnew]
  | unscheduled ts r =>
      constructor <;> simp [decision, Lifecycle.unscheduled]

/-- The entries about `b`. -/
def entriesAbout (b : Bundle) (decisions : List SchedulingDecision) : List SchedulingDecision :=
  decisions.filter fun d => decide (d.bundleId = b.bundleId)

/-- A closed record has deferrals and then one terminal entry, which agrees with it. -/
theorem trail_of_terminal {records : Bundle → Lifecycle} {s : SchedulerState} {b : Bundle}
    (h : Trail (auditSchema records) s.ledger b)
    (hterminal : (s.records b).terminalState ≠ .pending) :
    ∃ deferrals e, entriesAbout b s.decisions = deferrals ++ [e] ∧
      (∀ d ∈ deferrals, d.action = .defer) ∧ e.action ≠ .defer ∧
      Agrees (records b) (s.records b) e := by
  cases h with
  | unsettled hopen => exact absurd hopen hterminal
  | @settled notes e _ hentries hnotes hclosing hexplains =>
      exact ⟨notes, e, hentries, fun d hd => not_not.1 (hnotes d hd), hclosing, hexplains.agrees⟩

/-- The deferral `e`, written to a log that was `front` by then: a `_drain_window` call of the run
wrote it, the bundle it names was eligible when the call was made, and the log knows of no
transmission of that bundle. -/
def DeferredDuly (sch : Scheduler) (bundles : List Bundle) (records : Bundle → Lifecycle)
    (front : List SchedulingDecision) (e : SchedulingDecision) : Prop :=
  ∃ made w rest s s₁, sch.calls bundles = made ++ .drainWindow w :: rest ∧
    made.forM (Call.exec sch) (SchedulerState.fresh records) = .ok ⟨⟩ s ∧
    drainWindow sch w s = .ok ⟨⟩ s₁ ∧ s.decisions <+: front ∧ front ++ [e] <+: s₁.decisions ∧
    ∃ b ∈ eligible w s.toBuffer, b.bundleId = e.bundleId ∧
      ∀ d ∈ entriesAbout b front, d.action = .defer

/-- The decision log is a faithful audit trail.  After a run each bundle has deferrals and then one
terminal entry, which agrees with its record, and every deferral was written while its bundle was
eligible and had not been sent. -/
theorem run_leaves_audit_trail (sch : Scheduler) (now : ℚ) {bundles : List Bundle}
    {records : Bundle → Lifecycle} (h : Valid bundles records) :
    ∃ s', run sch now bundles (SchedulerState.fresh records) = .ok ⟨⟩ s' ∧
      (∀ b ∈ bundles, ∃ deferrals e, entriesAbout b s'.decisions = deferrals ++ [e] ∧
        (∀ d ∈ deferrals, d.action = .defer) ∧ e.action ≠ .defer ∧
        Agrees (records b) (s'.records b) e) ∧
      ∀ front e back, s'.decisions = front ++ e :: back → e.action = .defer →
        DeferredDuly sch bundles records front e := by
  have hstart := h.standing sch
  obtain ⟨s₁, s', hmade, hstand, hsweep, hrun⟩ := h.run_makes sch now
  -- the sweep defers nobody
  let A : AuditScope := ⟨bundles, records, [], h.distinct, nofun⟩
  have hswept : Audited A s₁ s' := finalSweep_audited A now _ hstand.known_active ⟨⟩ s' hsweep
  have htrail : ∀ b ∈ bundles, Trail (auditSchema records) s'.ledger b := fun b hb =>
    hswept.trail hb (Makes.trail h.distinct hstart hmade hb (.unsettled (h.pending b hb) nofun))
  refine ⟨s', hrun, fun b hb => trail_of_terminal (htrail b hb) ?_,
    fun front e back hlog hdefer => ?_⟩
  · have hfates := (run_fates sch now h (SchedulerState.fresh_idle records)).ensures ⟨⟩ s' hrun
    intro hpending
    simpa [hpending] using (hfates b hb).terminal
  · have hlast : front ++ [e] <+: s'.decisions := ⟨back, by rw [hlog, List.append_assoc]; rfl⟩
    -- so a deferral in the final log was there before the sweep
    have hwritten : front ++ [e] <+: s₁.decisions := by
      refine (written_or_later hswept.decisions_grow hlast).resolve_right fun hbefore => ?_
      obtain ⟨b, hb, _⟩ := hswept.notable_of_note hbefore hlast fun hclosing => hclosing hdefer
      cases hb
    obtain ⟨back₁, hlog₁⟩ := hwritten
    rw [List.append_assoc] at hlog₁
    obtain ⟨made, w, rest, s, s₂, hcalls, hmade₀, hdrain, hbefore, hafter, b, hb, hid⟩ :=
      hmade.deferral h.distinct hstart hlog₁.symm (List.nil_prefix) hdefer
    have hknown : b ∈ bundles := by
      have hstand₀ := Standing.makes (hcalls ▸ hstart) hmade₀
      exact hstand₀.known_active b (List.mem_of_mem_filter hb)
    refine ⟨made, w, rest, s, s₂, hcalls, forM_eq_ok_iff.2 hmade₀, hdrain, hbefore, hafter, b, hb,
      hid, fun d hd => ?_⟩
    have hd' : d ∈ front ∧ d.bundleId = b.bundleId := by simpa [entriesAbout] using hd
    exact not_not.1 ((htrail b hknown).notes_before hlog hid.symm d hd'.1 hd'.2)

/-- A bundle of each outcome but overflow. -/
theorem run_leaves_audit_trail_small :
    ∃ s', run Small.scheduler 0 [Small.early, Small.doomed, Small.late]
        (SchedulerState.fresh fun _ => {}) = .ok ⟨⟩ s' ∧
      (∀ b ∈ [Small.early, Small.doomed, Small.late], ∃ deferrals e,
        entriesAbout b s'.decisions = deferrals ++ [e] ∧
        (∀ d ∈ deferrals, d.action = .defer) ∧ e.action ≠ .defer ∧
        Agrees {} (s'.records b) e) ∧
      ∀ front e back, s'.decisions = front ++ e :: back → e.action = .defer →
        DeferredDuly Small.scheduler [Small.early, Small.doomed, Small.late] (fun _ => {})
          front e :=
  run_leaves_audit_trail Small.scheduler 0 Small.valid

end Gateway
end LunaBridge
