import LunaBridge.Scheduling.LeftoverBytes

/-!
# Reuse — a second run on the same scheduler

The final sweep empties the list of queued bundles but leaves the byte counter as it is, and no
later run takes those bytes off it again.  After any number of runs a scheduler is therefore as good
as new exactly if none of their sweeps has found a bundle in the queue.
-/

namespace LunaBridge
namespace Gateway

open Foundation.Machine Foundation.Selection

/-! ## Decisions before the first drain -/

/-- Two states with the same buffer; the first has a longer history of decisions behind it. -/
def Echoes (earlier : List SchedulingDecision) (s t : SchedulerState) : Prop :=
  s.toBuffer = t.toBuffer ∧ s.decisions = earlier ++ t.decisions

theorem echoes_steady (earlier : List SchedulingDecision) : Steady 0 (Echoes earlier) where
  buffer := fun _ t hst => hst.1.trans t.toBuffer.shift_zero.symm
  write := fun g _ _ _ hst => ⟨congrArg g hst.1, hst.2⟩
  note := fun d s t hst => ⟨hst.1, by simp [hst.2]⟩

/-! ## The opening of a run -/

/-- Everything `run` does before its first drain; it returns the arrivals still to come. -/
def beforeFirstDrain (sch : Scheduler) (bundles : List Bundle) : SchedM (List Bundle) := do
  checkExpirations bundles
  match sch.plan.windows with
  | [] => admitArrivals sch bundles ⊤
  | w :: _ => do
      let stillFuture ← admitArrivals sch bundles (w.endTs : WithTop ℚ)
      expireInBlackout w.startTs
      pure stillFuture

/-- What `run` does from its first drain on. -/
def fromFirstDrain (sch : Scheduler) (now : ℚ) (stillFuture : List Bundle) : SchedM PUnit :=
  match sch.plan.windows with
  | [] => finalSweep now none
  | w :: ws => do
      drainWindow sch w
      let walked ← serveEach sch ws stillFuture (some w.endTs)
      afterLastWindow sch walked.1 walked.2
      finalSweep now walked.2

theorem run_eq_beforeFirstDrain (sch : Scheduler) (now : ℚ) (bundles : List Bundle) :
    run sch now bundles = (beforeFirstDrain sch bundles >>= fromFirstDrain sch now) := by
  rw [run, serveContacts, walkPlan_start]
  unfold beforeFirstDrain fromFirstDrain
  cases sch.plan.windows with
  | nil => simp [serveEach, afterLastWindow]
  | cons w ws => simp [serveEach]

theorem lockstep_beforeFirstDrain (earlier : List SchedulingDecision) (sch : Scheduler)
    (bundles : List Bundle) :
    Lockstep (Echoes earlier) (beforeFirstDrain sch bundles) (beforeFirstDrain sch bundles) := by
  have hsteady := echoes_steady earlier
  refine lockstep_bind (lockstep_checkExpirations bundles) fun _ => ?_
  split
  · exact lockstep_admitArrivals hsteady sch.makesUpFor_refl bundles _
  · refine lockstep_bind (lockstep_admitArrivals hsteady sch.makesUpFor_refl bundles _)
      fun still => ?_
    exact lockstep_bind (lockstep_expireInBlackout hsteady _) fun _ => lockstep_pure _

/-! ## After a run -/

/-- The scheduler in state `s` is as good as a new one: nothing is queued, nothing is counted, and
whatever the next list of bundles, it makes the decisions a new scheduler makes up to the first
drain. -/
def AsGoodAsNew (sch : Scheduler) (s : SchedulerState) : Prop :=
  s.active = [] ∧ s.activeBytes = 0 ∧ ∀ (records : Bundle → Lifecycle) (next : List Bundle),
    Matches (Echoes s.decisions) (beforeFirstDrain sch next { s with records := records })
      (beforeFirstDrain sch next (SchedulerState.fresh records))

theorem asGoodAsNew_iff_idle {sch : Scheduler} {s : SchedulerState} :
    AsGoodAsNew sch s ↔ s.Idle := by
  constructor
  · rintro ⟨hactive, hbytes, -⟩
    exact ⟨hactive, hbytes⟩
  · intro hs
    refine ⟨hs.active, hs.activeBytes, fun records next => ?_⟩
    refine lockstep_beforeFirstDrain s.decisions sch next _ _ ⟨?_, by simp [SchedulerState.fresh]⟩
    ext1
    · exact hs.active
    · exact hs.activeBytes
    · rfl

/-- One call of `run`: the reading of the clock, the bundles, and their records as the caller passes
them. -/
structure RunCall where
  now : ℚ
  bundles : List Bundle
  records : Bundle → Lifecycle
  valid : Valid bundles records

/-- The call, on a scheduler that may have been used before. -/
def RunCall.exec (sch : Scheduler) (call : RunCall) : SchedM PUnit := do
  modify fun s => { s with records := call.records }
  run sch call.now call.bundles

/-- Made in the state `s`, the call comes to its final sweep with an empty queue. -/
def RunCall.SweepsNothing (sch : Scheduler) (call : RunCall) (s : SchedulerState) : Prop :=
  ∃ swept, serveContacts sch call.bundles { s with records := call.records } =
    .ok sch.plan.lastEnd swept ∧ swept.active = []

/-- All bundles of the call have expired when the last window of the plan closes. -/
def RunCall.OutlivedByPlan (sch : Scheduler) (call : RunCall) : Prop :=
  ∃ t, sch.plan.lastEnd = some t ∧ ∀ b ∈ call.bundles, b.expiredBy t = true

section Calls

variable {sch : Scheduler} {s : SchedulerState} (call : RunCall)

/-- A call returns between two runs again; a counter of zero stays so exactly if the sweep finds
nothing. -/
theorem RunCall.exec_spec (hs : s.BetweenRuns sch) (hcount : 0 ≤ s.activeBytes) :
    Returns (call.exec sch) s fun _ s' => s'.BetweenRuns sch ∧ 0 ≤ s'.activeBytes ∧
      (s'.activeBytes = 0 ↔ s.activeBytes = 0 ∧ call.SweepsNothing sch s) := by
  have hs' : SchedulerState.BetweenRuns sch { s with records := call.records } :=
    ⟨hs.active, hs.capacity⟩
  obtain ⟨swept, s', hserve, hrun, hserved, hbetween, hbytes⟩ :=
    run_betweenRuns call.valid hs' call.now
  have hpos : ∀ b ∈ swept.active, 0 < b.sizeBytes := fun b hb =>
    call.valid.sizes b (hserved.known b hb)
  have hnonneg := totalBytes_nonneg fun b hb => hpos b hb
  refine ⟨⟨⟩, s', hrun, hbetween, hbytes ▸ add_nonneg hcount hnonneg, ?_⟩
  rw [hbytes]
  constructor
  · -- neither part of the sum is negative
    intro hzero
    have hcount' : s.activeBytes + totalBytes swept.active = 0 := hzero
    have hswept : totalBytes swept.active = 0 := by omega
    exact ⟨by omega, swept, hserve, (totalBytes_eq_zero_iff hpos).1 hswept⟩
  · rintro ⟨hzero, swept', hserve', hempty⟩
    rw [hserve] at hserve'
    cases hserve'
    have hcount' : s.activeBytes + totalBytes swept.active = 0 := by
      rw [hzero, hempty]
      rfl
    exact hcount'

/-- Who has expired by the end of the plan is not there any more when the sweep begins. -/
theorem RunCall.OutlivedByPlan.sweepsNothing {call : RunCall} (h : call.OutlivedByPlan sch)
    (hs : s.BetweenRuns sch) : call.SweepsNothing sch s := by
  obtain ⟨t, hlast, hexpired⟩ := h
  have hs' : SchedulerState.BetweenRuns sch { s with records := call.records } :=
    ⟨hs.active, hs.capacity⟩
  rcases serveContacts_betweenRuns call.valid hs' with ⟨_, swept, hserve, rfl, hserved⟩
  refine ⟨swept, hserve, List.eq_nil_iff_forall_not_mem.2 fun b hb => ?_⟩
  have halive := hserved.alive t hlast b hb
  rw [hexpired b (hserved.known b hb)] at halive
  cases halive

end Calls

/-- Calls one after the other: none of them takes off the counter what an earlier sweep has left
there. -/
theorem calls_spec (sch : Scheduler) : ∀ (calls : List RunCall) (s : SchedulerState),
    s.BetweenRuns sch → 0 ≤ s.activeBytes →
    Returns (calls.forM (RunCall.exec sch)) s fun _ s' => s'.BetweenRuns sch ∧
      0 ≤ s'.activeBytes ∧ (s'.activeBytes = 0 ↔ s.activeBytes = 0 ∧
        ∀ made call rest, calls = made ++ call :: rest →
          ∃ s₁, made.forM (RunCall.exec sch) s = .ok ⟨⟩ s₁ ∧ call.SweepsNothing sch s₁) := by
  intro calls
  induction calls with
  | nil =>
      intro s hs hcount
      refine Returns.pure ⟨hs, hcount, fun hzero => ⟨hzero, ?_⟩, And.left⟩
      intro made call rest hsplit
      simp at hsplit
  | cons c calls ih =>
      intro s hs hcount
      rcases c.exec_spec hs hcount with ⟨⟨⟩, s₁, hexec, hs₁, hcount₁, hzero₁⟩
      refine Returns.ok_bind hexec ((ih s₁ hs₁ hcount₁).mono fun _ s' h' => ?_)
      refine ⟨h'.1, h'.2.1, h'.2.2.trans ?_⟩
      rw [hzero₁]
      constructor
      · rintro ⟨⟨hzero, hfirst⟩, hlater⟩
        refine ⟨hzero, fun made call rest hsplit => ?_⟩
        rcases List.cons_eq_append_iff.1 hsplit with ⟨rfl, hhead⟩ | ⟨made', rfl, hsplit'⟩
        · -- the call is the first one
          obtain ⟨rfl, -⟩ := List.cons.inj hhead
          exact ⟨s, rfl, hfirst⟩
        · obtain ⟨s₂, hmade, hnone⟩ := hlater made' call rest hsplit'
          exact ⟨s₂, (bind_ok hexec).trans hmade, hnone⟩
      · rintro ⟨hzero, hall⟩
        obtain ⟨s₀, hmade₀, hfirst⟩ := hall [] c calls rfl
        cases hmade₀
        refine ⟨⟨hzero, hfirst⟩, fun made call rest hsplit => ?_⟩
        obtain ⟨s₂, hmade, hnone⟩ := hall (c :: made) call rest (by rw [hsplit]; rfl)
        exact ⟨s₂, (bind_ok hexec).symm.trans hmade, hnone⟩

/-- Successive runs of one scheduler, each with bundles of its own: they return, and the scheduler
is as good as new exactly if none of their final sweeps has found a bundle in the queue, for example
because all bundles have expired by the end of the plan.  So a run that starts between two others
leaves it as good as new exactly if it starts with the counter at zero and its own sweep finds
nothing. -/
theorem asGoodAsNew_iff_swept_nothing (sch : Scheduler) :
    (∀ (records : Bundle → Lifecycle) (calls : List RunCall),
      ∃ s', calls.forM (RunCall.exec sch) (SchedulerState.fresh records) = .ok ⟨⟩ s' ∧
        s'.active = [] ∧
        (AsGoodAsNew sch s' ↔ ∀ made call rest, calls = made ++ call :: rest →
          ∃ s, made.forM (RunCall.exec sch) (SchedulerState.fresh records) = .ok ⟨⟩ s ∧
            call.SweepsNothing sch s) ∧
        ((∀ call ∈ calls, call.OutlivedByPlan sch) → AsGoodAsNew sch s')) ∧
    ∀ (s : SchedulerState) (call : RunCall), s.BetweenRuns sch → 0 ≤ s.activeBytes →
      ∃ s', call.exec sch s = .ok ⟨⟩ s' ∧ s'.active = [] ∧
        (AsGoodAsNew sch s' ↔ s.activeBytes = 0 ∧ call.SweepsNothing sch s) := by
  have hidle : ∀ {s' : SchedulerState}, s'.BetweenRuns sch →
      (AsGoodAsNew sch s' ↔ s'.activeBytes = 0) := fun hs' =>
    asGoodAsNew_iff_idle.trans ⟨SchedulerState.Idle.activeBytes, fun hzero => ⟨hs'.active, hzero⟩⟩
  constructor
  · intro records calls
    have hfresh := (SchedulerState.fresh_idle records).betweenRuns sch
    rcases calls_spec sch calls (SchedulerState.fresh records) hfresh le_rfl with
      ⟨⟨⟩, s', hcalls, hbetween, -, hzero⟩
    have hiff := (hidle hbetween).trans (hzero.trans (and_iff_right rfl))
    refine ⟨s', hcalls, hbetween.active, hiff, fun houtlived => hiff.2 ?_⟩
    intro made call rest hsplit
    rcases calls_spec sch made (SchedulerState.fresh records) hfresh le_rfl with
      ⟨⟨⟩, s, hmade, hs, -, -⟩
    have hmem : call ∈ calls := by
      rw [hsplit]
      exact List.mem_append_right _ List.mem_cons_self
    exact ⟨s, hmade, (houtlived call hmem).sweepsNothing hs⟩
  · intro s call hs hcount
    rcases call.exec_spec hs hcount with ⟨⟨⟩, s', hexec, hbetween, -, hzero⟩
    exact ⟨s', hexec, hbetween.active, (hidle hbetween).trans hzero⟩

/-- A call with two bundles; one is sent and one expires. -/
def Small.cleanCall : RunCall where
  now := 0
  bundles := [Small.early, Small.doomed]
  records := fun _ => {}
  valid := Small.valid.sublist (by simp)

/-- Twice the same call leaves the scheduler as good as new; behind a run that has left 2000 bytes
on the counter it does not. -/
theorem asGoodAsNew_iff_swept_nothing_small :
    (∃ s', [Small.cleanCall, Small.cleanCall].forM (RunCall.exec Small.scheduler)
        (SchedulerState.fresh fun _ => {}) = .ok ⟨⟩ s' ∧ AsGoodAsNew Small.scheduler s') ∧
      ∃ s', Small.cleanCall.exec Small.scheduler
          { SchedulerState.fresh (fun _ => {}) with activeBytes := 2000 } = .ok ⟨⟩ s' ∧
        ¬ AsGoodAsNew Small.scheduler s' := by
  obtain ⟨s', hcalls, hactive, hiff, -⟩ := (asGoodAsNew_iff_swept_nothing Small.scheduler).1
    (fun _ => {}) [Small.cleanCall, Small.cleanCall]
  obtain ⟨t', hcall, -, hleft⟩ := (asGoodAsNew_iff_swept_nothing Small.scheduler).2
    { SchedulerState.fresh (fun _ => {}) with activeBytes := 2000 } Small.cleanCall
    ⟨rfl, by norm_num [Small.scheduler]⟩ (by norm_num)
  refine ⟨⟨s', hcalls, asGoodAsNew_iff_idle.2 ⟨hactive, ?_⟩⟩, t', hcall, fun hnew => ?_⟩
  · have hbytes : (finalState ([Small.cleanCall, Small.cleanCall].forM
        (RunCall.exec Small.scheduler) (SchedulerState.fresh fun _ => {}))).map
          (fun s => s.activeBytes) = some 0 := by
      decide +kernel
    obtain ⟨_, hcalls', hzero⟩ := finalState_map_eq_some hbytes
    rw [hcalls] at hcalls'
    cases hcalls'
    exact hzero
  · exact absurd (hleft.1 hnew).1 (by norm_num)

/-- A bundle that fills the buffer of `Small.scheduler`. -/
def Small.bulky (id : String) : Bundle := Small.bundle id .scienceBulk 2000 30 100

/-- A bundle that fills the buffer is left over by the first run.  The second run then drops one
that a new scheduler admits. -/
theorem leftover_bytes_fill_the_buffer :
    ∃ s', run Small.scheduler 0 [Small.bulky "first"] (SchedulerState.fresh fun _ => {}) =
        .ok ⟨⟩ s' ∧ s'.active = [] ∧ s'.activeBytes = 2000 ∧ ¬ AsGoodAsNew Small.scheduler s' ∧
      (recordAfter (Small.bulky "second") (run Small.scheduler 0 [Small.bulky "second"] s')).map
        Lifecycle.terminalState = some .queueOverflow ∧
      (recordAfter (Small.bulky "second") (run Small.scheduler 0 [Small.bulky "second"]
        (SchedulerState.fresh s'.records))).map Lifecycle.terminalState = some .neverScheduled := by
  have hrun : (finalState (run Small.scheduler 0 [Small.bulky "first"]
      (SchedulerState.fresh fun _ => {}))).map (fun s => (s.active, s.activeBytes,
        (recordAfter (Small.bulky "second") (run Small.scheduler 0 [Small.bulky "second"] s)).map
          Lifecycle.terminalState,
        (recordAfter (Small.bulky "second") (run Small.scheduler 0 [Small.bulky "second"]
          (SchedulerState.fresh s.records))).map Lifecycle.terminalState)) =
      some ([], 2000, some .queueOverflow, some .neverScheduled) := by
    decide +kernel
  obtain ⟨s', hrun', hfacts⟩ := finalState_map_eq_some hrun
  simp only [Prod.mk.injEq] at hfacts
  rcases hfacts with ⟨hactive, hbytes, hsecond, hfresh⟩
  refine ⟨s', hrun', hactive, hbytes, fun hnew => ?_, hsecond, hfresh⟩
  have hzero := hnew.2.1
  rw [hbytes] at hzero
  cases hzero

end Gateway
end LunaBridge
