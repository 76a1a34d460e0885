import LunaBridge.Scheduling.Run

/-!
# Representation — the active queue and its byte counter after every call

The events of a run, taken apart into the calls of `_try_admit`, `_expire_in_blackout` and
`_drain_window` it makes.  The representation invariant holds after each of them.
-/

namespace LunaBridge
namespace Gateway

open Foundation.Machine Foundation.StableSort

/-- The calls that change the active queue. -/
inductive Call
  | tryAdmit (b : Bundle)
  | expireInBlackout (cutoffTs : ℚ)
  | drainWindow (w : ContactWindow)

def Call.exec (sch : Scheduler) : Call → SchedM PUnit
  | .tryAdmit b => Gateway.tryAdmit sch b b.ingressTs
  | .expireInBlackout cutoffTs => Gateway.expireInBlackout cutoffTs
  | .drainWindow w => Gateway.drainWindow sch w

def Event.calls : Event → List Call
  | .arrival b => [.tryAdmit b]
  | .contact w => [.expireInBlackout w.startTs, .drainWindow w]

/-- The calls of a run, in order. -/
def Scheduler.calls (sch : Scheduler) (bundles : List Bundle) : List Call :=
  (timeline sch.plan.windows bundles).flatMap Event.calls ++
    (sch.plan.lastEnd.map Call.expireInBlackout).toList

/-- What `_active` and `_active_bytes` represent. -/
structure Represents (sch : Scheduler) (s : SchedulerState) : Prop where
  pending : ∀ b ∈ s.active, (s.records b).terminalState = .pending
  nodup : s.active.Nodup
  ordered : s.active.Pairwise fun a b => a.ingressTs ≤ b.ingressTs
  bytes : s.activeBytes = totalBytes s.active
  nonneg : 0 ≤ s.activeBytes
  capacity : (s.activeBytes : ℚ) ≤ sch.maxQueueBytes

theorem Buffer.WellFormed.represents {sch : Scheduler} {future : List Bundle} {s : SchedulerState}
    (h : s.toBuffer.WellFormed sch future) : Represents sch s :=
  ⟨fun _ hb => h.active_pending hb, h.active_nodup, h.active_ordered, h.bytes, h.bytes_nonneg,
    h.capacity⟩

/-! ## Calls and events -/

/-- The bundles offered by some calls. -/
def offeredBy (cs : List Call) : List Bundle :=
  cs.filterMap fun
    | .tryAdmit b => some b
    | _ => none

theorem offeredBy_append (cs ds : List Call) :
    offeredBy (cs ++ ds) = offeredBy cs ++ offeredBy ds :=
  List.filterMap_append

theorem offeredBy_calls (es : List Event) : offeredBy (es.flatMap Event.calls) = offered es := by
  induction es with
  | nil => rfl
  | cons e es ih =>
      rw [List.flatMap_cons, offeredBy_append, ih]
      cases e <;> rfl

/-- The last expiry pass offers nothing. -/
theorem offeredBy_schedulerCalls (sch : Scheduler) (bundles : List Bundle) :
    offeredBy (sch.calls bundles) = offered (timeline sch.plan.windows bundles) := by
  rw [Scheduler.calls, offeredBy_append, offeredBy_calls]
  cases sch.plan.lastEnd <;> simp [offeredBy]

/-- A run drains the windows of its plan. -/
theorem mem_windows_of_drainWindow {sch : Scheduler} {bundles : List Bundle} {w : ContactWindow}
    (h : Call.drainWindow w ∈ sch.calls bundles) : w ∈ sch.plan.windows := by
  rcases List.mem_append.1 h with hevent | hlast
  · obtain ⟨e, he, hw⟩ := List.mem_flatMap.1 hevent
    cases e with
    | arrival b => simp [Event.calls] at hw
    | contact v =>
        obtain rfl : w = v := by simpa [Event.calls] using hw
        exact mem_timeline_contact.1 he
  · cases hend : sch.plan.lastEnd <;> simp [hend] at hlast

variable (sch : Scheduler)

theorem forM_calls (es : List Event) :
    (es.flatMap Event.calls).forM (Call.exec sch) = es.forM (Event.handle sch) := by
  induction es with
  | nil => rfl
  | cons e es ih =>
      simp only [List.forM_eq_forM] at ih ⊢
      rw [List.flatMap_cons, List.forM_append, ih, List.forM_cons]
      congr 1
      cases e <;> simp [Event.calls, Call.exec, Event.handle]

/-- A run is its loud check, its calls and its final sweep. -/
theorem run_eq_calls (now : ℚ) (bundles : List Bundle) :
    run sch now bundles = (checkExpirations bundles >>= fun _ =>
      (sch.calls bundles).forM (Call.exec sch) >>= fun _ => finalSweep now sch.plan.lastEnd) := by
  have hlast : forM (sch.plan.lastEnd.map Call.expireInBlackout).toList (Call.exec sch) =
      lastExpiry sch.plan.lastEnd := by
    cases sch.plan.lastEnd <;> simp [lastExpiry, Call.exec]
  have hcalls := forM_calls sch (timeline sch.plan.windows bundles)
  simp only [List.forM_eq_forM] at hcalls
  simp only [run_eq, Scheduler.calls, List.forM_eq_forM, List.forM_append, hcalls, hlast,
    bind_assoc]

/-! ## The invariant -/

variable {sch}

/-- What one call does to the buffer. -/
inductive Call.Effect (sch : Scheduler) : Call → Buffer → Buffer → Prop
  | tryAdmit (b : Bundle) (β : Buffer) : Effect sch (.tryAdmit b) β (β.offer sch b)
  | expireInBlackout (t : ℚ) (β : Buffer) : Effect sch (.expireInBlackout t) β (β.expire t)
  | drainWindow {w : ContactWindow} {β : Buffer} {sent : List Bundle} {credit : Prop}
      (service : Service sch w (β.ready w) sent credit) :
      Effect sch (.drainWindow w) β (β.transmitted w sent)

theorem exec_effect {c : Call} {cs : List Call} {s : SchedulerState}
    (h : s.toBuffer.WellFormed sch (offeredBy (c :: cs))) :
    Returns (c.exec sch) s fun _ s' => c.Effect sch s.toBuffer s'.toBuffer := by
  cases c with
  | tryAdmit b =>
      refine (tryAdmit_spec h).mono fun _ s' h' => ?_
      rw [h'.1.buffer]
      exact .tryAdmit b _
  | expireInBlackout t =>
      refine (expireInBlackout_spec t h).mono fun _ s' h' => ?_
      rw [h'.1.buffer]
      exact .expireInBlackout t _
  | drainWindow w =>
      refine (drainWindow_spec h).mono fun _ s' h' => ?_
      rcases h' with ⟨sent, hservice, _, hbuffer, _⟩
      rw [hbuffer]
      exact .drainWindow hservice

/-- Every call raises nothing and keeps the buffer well-formed. -/
theorem exec_spec {c : Call} {cs : List Call} {s : SchedulerState}
    (h : s.toBuffer.WellFormed sch (offeredBy (c :: cs))) :
    Returns (c.exec sch) s fun _ s' => s'.toBuffer.WellFormed sch (offeredBy cs) := by
  cases c with
  | tryAdmit b => exact (tryAdmit_spec h).mono fun _ _ h' => h'.2
  | expireInBlackout t => exact (expireInBlackout_spec t h).mono fun _ _ h' => h'.2
  | drainWindow w =>
      refine (drainWindow_spec h).mono fun _ s' h' => ?_
      rcases h' with ⟨_, _, _, _, hwf⟩
      exact hwf

theorem forM_exec_spec (made rest : List Call) (s : SchedulerState)
    (h : s.toBuffer.WellFormed sch (offeredBy (made ++ rest))) :
    Returns (made.forM (Call.exec sch)) s fun _ s' => s'.toBuffer.WellFormed sch (offeredBy rest) :=
  Returns.forM (I := fun cs s => s.toBuffer.WellFormed sch (offeredBy (cs ++ rest)))
    (fun _ _ _ hwf => exec_spec hwf) made s h

/-- The queue and its counter are in order after every single call of a run.  A run without a
lifetime on every bundle makes no call. -/
theorem run_represents_after_every_call (sch : Scheduler) (now : ℚ) {bundles : List Bundle}
    {records : Bundle → Lifecycle} (hids : (bundles.map Bundle.bundleId).Nodup)
    (hsizes : ∀ b ∈ bundles, 0 < b.sizeBytes)
    (hpending : ∀ b ∈ bundles, (records b).terminalState = .pending) :
    ((∃ b ∈ bundles, b.expirationTs = none) → ∃ e,
      run sch now bundles (SchedulerState.fresh records) =
        .error e (SchedulerState.fresh records)) ∧
    ((∀ b ∈ bundles, b.expirationTs ≠ none) →
      run sch now bundles (SchedulerState.fresh records) =
        ((sch.calls bundles).forM (Call.exec sch) >>= fun _ => finalSweep now sch.plan.lastEnd)
          (SchedulerState.fresh records) ∧
      ∀ made rest, sch.calls bundles = made ++ rest →
        ∃ s, made.forM (Call.exec sch) (SchedulerState.fresh records) = .ok ⟨⟩ s ∧
          Represents sch s) := by
  refine ⟨fun hmissing => ?_, fun hlife => ⟨?_, fun made rest hsplit => ?_⟩⟩
  · obtain ⟨b, _, _, herr⟩ := run_missing_expiration hmissing now (SchedulerState.fresh records)
    exact ⟨_, herr⟩
  · rw [run_eq_calls]
    exact bind_ok (checkExpirations_ok hlife _)
  · have hvalid : Valid bundles records := ⟨hids, hsizes, hlife, hpending⟩
    have hstart := hvalid.wellFormed (SchedulerState.fresh_idle records) sch sch.plan.windows
    rw [← offeredBy_schedulerCalls, hsplit] at hstart
    rcases forM_exec_spec made rest _ hstart with ⟨_, s, hrun, hwf⟩
    exact ⟨s, hrun, hwf.represents⟩

theorem run_represents_after_every_call_small :
    run Small.scheduler 0 [Small.early, Small.doomed, Small.late]
        (SchedulerState.fresh fun _ => {}) =
      ((Small.scheduler.calls [Small.early, Small.doomed, Small.late]).forM
        (Call.exec Small.scheduler) >>= fun _ => finalSweep 0 Small.scheduler.plan.lastEnd)
        (SchedulerState.fresh fun _ => {}) ∧
    ∀ made rest, Small.scheduler.calls [Small.early, Small.doomed, Small.late] = made ++ rest →
      ∃ s, made.forM (Call.exec Small.scheduler) (SchedulerState.fresh fun _ => {}) = .ok ⟨⟩ s ∧
        Represents Small.scheduler s :=
  (run_represents_after_every_call Small.scheduler 0 Small.valid.distinct Small.valid.sizes
    Small.valid.pending).2 Small.valid.lifetimes

end Gateway
end LunaBridge
