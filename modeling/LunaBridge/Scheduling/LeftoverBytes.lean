import LunaBridge.Scheduling.Lockstep

/-!
# LeftoverBytes — a run that starts with bytes on the counter

No program of the scheduler reads the byte counter but admission, which compares it with the cap.
With `c` bytes on the counter a run therefore does what a run of a scheduler with a cap lower by `c`
does from zero (`lockstep_serveContacts`), and `c` bytes are on the counter to its end.
-/

namespace LunaBridge
namespace Gateway

open Foundation.Machine Foundation.StableSort

/-! ## States that differ by bytes on the counter -/

/-- `s` is `t` with `c` more bytes on the counter. -/
def OffBy (c : ℤ) (s t : SchedulerState) : Prop := s = { t with toBuffer := t.toBuffer.shift c }

theorem offBy_steady (c : ℤ) : Steady c (OffBy c) where
  buffer := by
    rintro _ t rfl
    rfl
  write := by
    rintro g hg _ t rfl
    exact congrArg (fun β => { t with toBuffer := β }) (hg t.toBuffer)
  note := by
    rintro d _ t rfl
    rfl

section Drains

variable {c : ℤ} {α : Type}

/-- Reading anything but the counter. -/
theorem lockstep_read {f : SchedulerState → SchedM α}
    (hread : ∀ t, f { t with toBuffer := t.toBuffer.shift c } = f t)
    (h : ∀ t, Lockstep (OffBy c) (f t) (f t)) :
    Lockstep (OffBy c) (get >>= f) (get >>= f) := by
  refine lockstep_get_bind ?_
  rintro _ t rfl
  rw [hread t]
  exact h t _ t rfl

/-- Writing anything but the counter. -/
theorem lockstep_write {g : SchedulerState → SchedulerState}
    (hwrite : ∀ t, g { t with toBuffer := t.toBuffer.shift c } =
      { g t with toBuffer := (g t).toBuffer.shift c }) :
    Lockstep (OffBy c) (modify g : SchedM PUnit) (modify g) := by
  refine lockstep_modify ?_
  rintro _ t rfl
  exact hwrite t

theorem lockstep_setDeficit (tc : TrafficClass) (value : ℚ) :
    Lockstep (OffBy c) (setDeficit tc value) (setDeficit tc value) :=
  lockstep_write fun _ => rfl

theorem lockstep_defer (w : ContactWindow) (b : Bundle) (reason : String) :
    Lockstep (OffBy c) (defer w b reason) (defer w b reason) :=
  lockstep_log (offBy_steady c) _ _ _ _ _

theorem lockstep_send (w : ContactWindow) (b : Bundle) (reason : String) :
    Lockstep (OffBy c) (transmit w b reason) (transmit w b reason) := by
  refine lockstep_read (fun _ => rfl) fun t => ?_
  refine lockstep_bind (lockstep_setRecord (offBy_steady c) b _) fun _ => ?_
  refine lockstep_bind (lockstep_mark (offBy_steady c) b _ _) fun _ => ?_
  refine lockstep_bind (lockstep_addActiveBytes (offBy_steady c) _) fun _ => ?_
  exact lockstep_log (offBy_steady c) _ _ _ _ _

theorem lockstep_sendLoop (w : ContactWindow) (reason : String) (stop : Bool) :
    ∀ (bs : List Bundle) (r : ℚ), Lockstep (OffBy c) (transmitLoop w reason stop bs r)
      (transmitLoop w reason stop bs r) := by
  intro bs
  induction bs with
  | nil => exact fun r => lockstep_pure r
  | cons b bs ih =>
      intro r
      unfold transmitLoop
      split
      · exact lockstep_bind (lockstep_send w b reason) fun _ => ih (r - b.bits)
      · refine lockstep_bind (lockstep_defer w b _) fun _ => ?_
        split
        · exact lockstep_pure r
        · exact ih r

theorem lockstep_headTurn (w : ContactWindow) (tc : TrafficClass) (rnd : ℕ) :
    ∀ (bs : List Bundle) (r : ℚ), Lockstep (OffBy c) (headTurn w tc rnd bs r)
      (headTurn w tc rnd bs r) := by
  intro bs
  induction bs with
  | nil => exact fun r => lockstep_pure _
  | cons b bs ih =>
      intro r
      refine lockstep_read (fun _ => rfl) fun t => ?_
      split
      · refine lockstep_bind (lockstep_setDeficit tc _) fun _ => ?_
        exact lockstep_bind (lockstep_send w b _) fun _ => ih (r - b.bits)
      · split
        · exact lockstep_bind (lockstep_defer w b _) fun _ => lockstep_pure _
        · exact lockstep_pure _

theorem lockstep_skipTurn (w : ContactWindow) (tc : TrafficClass) (rnd : ℕ) :
    ∀ (bs : List Bundle) (r : ℚ), Lockstep (OffBy c) (skipTurn w tc rnd bs r)
      (skipTurn w tc rnd bs r) := by
  intro bs
  induction bs with
  | nil => exact fun r => lockstep_pure _
  | cons b bs ih =>
      intro r
      refine lockstep_read (fun _ => rfl) fun t => ?_
      split
      · refine lockstep_bind (lockstep_setDeficit tc _) fun _ => ?_
        exact lockstep_bind (lockstep_send w b _) fun _ => ih (r - b.bits)
      · split
        · refine lockstep_bind (lockstep_defer w b _) fun _ => ?_
          exact lockstep_bind (ih r) fun _ => lockstep_pure _
        · exact lockstep_bind (ih r) fun _ => lockstep_pure _

theorem lockstep_classTurn (w : ContactWindow) (skip : Bool) (rnd : ℕ) (budget wTotal : ℚ)
    (tc : TrafficClass) (l : RoundLocals) : Lockstep (OffBy c)
      (classTurn w skip rnd budget wTotal tc l) (classTurn w skip rnd budget wTotal tc l) := by
  unfold classTurn
  split
  · exact lockstep_throw _
  · refine lockstep_read (fun _ => rfl) fun t => ?_
    refine lockstep_bind (lockstep_setDeficit tc _) fun _ => ?_
    have hend : ∀ turned : List Bundle × ℚ, Lockstep (OffBy c)
        (if turned.1 = [] then do
          setDeficit tc 0
          pure ⟨turned.2, Function.update l.byClass tc turned.1⟩
        else pure ⟨turned.2, Function.update l.byClass tc turned.1⟩ : SchedM RoundLocals)
        (if turned.1 = [] then do
          setDeficit tc 0
          pure ⟨turned.2, Function.update l.byClass tc turned.1⟩
        else pure ⟨turned.2, Function.update l.byClass tc turned.1⟩) := fun turned =>
      lockstep_ite (lockstep_bind (lockstep_setDeficit tc 0) fun _ => lockstep_pure _)
        (lockstep_pure _)
    cases skip with
    | true => exact lockstep_bind (lockstep_skipTurn w tc rnd _ _) hend
    | false => exact lockstep_bind (lockstep_headTurn w tc rnd _ _) hend

theorem lockstep_roundOver (w : ContactWindow) (skip : Bool) (rnd : ℕ) (budget wTotal : ℚ) :
    ∀ (tcs : List TrafficClass) (l : RoundLocals), Lockstep (OffBy c)
      (roundOver w skip rnd budget wTotal tcs l) (roundOver w skip rnd budget wTotal tcs l) := by
  intro tcs
  induction tcs with
  | nil => exact fun l => lockstep_pure l
  | cons tc tcs ih =>
      exact fun l =>
        lockstep_bind (lockstep_classTurn w skip rnd budget wTotal tc l) fun l' => ih l'

theorem lockstep_drrLoop (w : ContactWindow) (skip : Bool) (order : List TrafficClass) :
    ∀ (left rnd : ℕ) (l : RoundLocals), Lockstep (OffBy c) (drrLoop w skip order left rnd l)
      (drrLoop w skip order left rnd l) := by
  intro left
  induction left with
  | zero => exact fun _ l => lockstep_pure l
  | succ left ih =>
      intro rnd l
      unfold drrLoop
      split
      · split
        · exact lockstep_bind (lockstep_roundOver w skip rnd _ _ _ l) fun l' => ih (rnd + 1) l'
        · exact lockstep_pure l
      · exact lockstep_pure l

theorem lockstep_resetIdle (byClass : TrafficClass → List Bundle) : ∀ tcs : List TrafficClass,
    Lockstep (OffBy c) (resetIdle byClass tcs) (resetIdle byClass tcs) := by
  intro tcs
  induction tcs with
  | nil => exact lockstep_pure _
  | cons tc tcs ih =>
      unfold resetIdle
      split
      · exact lockstep_bind (lockstep_setDeficit tc 0) fun _ => ih
      · exact ih

theorem lockstep_drainWfq (bs : List Bundle) (w : ContactWindow) (skip : Bool) :
    Lockstep (OffBy c) (drainWfq bs w skip) (drainWfq bs w skip) := by
  refine lockstep_bind (lockstep_sendLoop w _ _ _ _) fun remainingBits => ?_
  refine lockstep_read (fun _ => rfl) fun t => ?_
  refine lockstep_bind (lockstep_resetIdle _ _) fun _ => ?_
  refine lockstep_bind (lockstep_drrLoop w skip _ _ _ _) fun _ => ?_
  exact lockstep_write fun _ => rfl

theorem lockstep_drainOrdered (bs : List Bundle) (w : ContactWindow) (reason : String)
    (stop : Bool) : Lockstep (OffBy c)
      (drainOrdered bs w reason stop >>= fun _ => pure PUnit.unit)
      (drainOrdered bs w reason stop >>= fun _ => pure PUnit.unit) :=
  lockstep_bind (lockstep_sendLoop w reason stop bs _) fun _ => lockstep_pure _

variable {sch sch' : Scheduler} (hsch : sch.MakesUpFor c sch')

include hsch

theorem lockstep_drainUtilityAware (bs : List Bundle) (w : ContactWindow) : Lockstep (OffBy c)
    (drainUtilityAware sch bs w) (drainUtilityAware sch' bs w) := by
  have hnext : nextWindowStart sch w = nextWindowStart sch' w := by
    rw [nextWindowStart, nextWindowStart, hsch.plan]
  unfold drainUtilityAware
  rw [hnext]
  split
  · exact lockstep_throw _
  · refine lockstep_ite ?_ ?_
    · exact lockstep_throw _
    · refine lockstep_bind (lockstep_sendLoop w _ _ _ _) fun remainingBits => ?_
      exact lockstep_bind (lockstep_sendLoop w _ _ _ _) fun _ => lockstep_pure _

theorem lockstep_drainByPolicy (bs : List Bundle) (w : ContactWindow) :
    Lockstep (OffBy c) (drainByPolicy sch bs w) (drainByPolicy sch' bs w) := by
  unfold drainByPolicy
  rw [hsch.policy]
  cases sch'.policy with
  | fifo =>
      simp only [drainFifo, hsch.fifoSkipOver]
      exact lockstep_drainOrdered _ w _ _
  | strictPriority => exact lockstep_drainOrdered _ w _ _
  | wfq => exact lockstep_drainWfq bs w false
  | wfqSkipOver => exact lockstep_drainWfq bs w true
  | deadlineAware =>
      refine lockstep_ite (lockstep_throw _) ?_
      exact lockstep_drainOrdered _ w _ _
  | utilityAware => exact lockstep_drainUtilityAware hsch bs w
  | utilityPure =>
      refine lockstep_ite (lockstep_throw _) ?_
      exact lockstep_drainOrdered _ w _ _

theorem lockstep_drainWindow (w : ContactWindow) :
    Lockstep (OffBy c) (drainWindow sch w) (drainWindow sch' w) := by
  refine lockstep_get_bind ?_
  rintro _ t rfl
  refine lockstep_bind (lockstep_drainByPolicy hsch (eligible w t.toBuffer) w) (fun _ => ?_) _ t rfl
  exact lockstep_write fun _ => rfl

/-! ## Runs -/

theorem lockstep_handle (e : Event) : Lockstep (OffBy c) (e.handle sch) (e.handle sch') := by
  cases e with
  | arrival b => exact lockstep_tryAdmit (offBy_steady c) hsch b _
  | contact w =>
      refine lockstep_bind (lockstep_expireInBlackout (offBy_steady c) _) fun _ => ?_
      exact lockstep_drainWindow hsch w

theorem lockstep_serveContacts (bundles : List Bundle) :
    Lockstep (OffBy c) (serveContacts sch bundles) (serveContacts sch' bundles) := by
  rw [serveContacts_eq, serveContacts_eq, hsch.plan]
  refine lockstep_bind (lockstep_forM (lockstep_handle hsch) _) fun _ => ?_
  refine lockstep_bind ?_ fun _ => lockstep_pure _
  cases sch'.plan.lastEnd with
  | none => exact lockstep_pure _
  | some t => exact lockstep_expireInBlackout (offBy_steady c) t

end Drains

/-! ## Between two runs -/

/-- The state of a scheduler that is not running: nothing is queued, and the counter holds what
earlier runs have left on it. -/
structure SchedulerState.BetweenRuns (sch : Scheduler) (s : SchedulerState) : Prop where
  active : s.active = []
  capacity : (s.activeBytes : ℚ) ≤ sch.maxQueueBytes

theorem SchedulerState.Idle.betweenRuns {s : SchedulerState} (hs : s.Idle) (sch : Scheduler) :
    s.BetweenRuns sch := by
  refine ⟨hs.active, ?_⟩
  rw [hs.activeBytes]
  exact_mod_cast sch.maxQueueBytes_pos.le

section Served

variable {sch : Scheduler} {bundles : List Bundle} {s : SchedulerState}

/-- Bytes on the counter that the cap covers are made up for by a smaller cap. -/
theorem exists_makesUpFor {c : ℤ} (hc : (c : ℚ) ≤ sch.maxQueueBytes) :
    ∃ sch' : Scheduler, sch.MakesUpFor c sch' := by
  -- a cap has to be positive, and half a byte is as good as none
  refine ⟨{ sch with
    maxQueueBytes := max (sch.maxQueueBytes - c) (1 / 2)
    maxQueueBytes_pos := lt_max_of_lt_right (by norm_num) }, rfl, rfl, rfl, rfl, ?_⟩
  intro queued size
  rw [Scheduler.Fits, Scheduler.Fits]
  push_cast
  constructor
  · intro hfits
    exact le_max_of_le_left (by linarith)
  · intro hfits
    rcases le_max_iff.1 hfits with hcap | hhalf
    · linarith
    · have hnone : queued + size ≤ 0 := by
        by_contra hpos
        have hone : ((1 : ℤ) : ℚ) ≤ ((queued + size : ℤ) : ℚ) := by
          exact_mod_cast not_le.1 hpos
        push_cast at hone
        linarith
      have hnone' : ((queued + size : ℤ) : ℚ) ≤ 0 := by exact_mod_cast hnone
      push_cast at hnone'
      linarith

/-- How a run over `bundles` that has started in `s` stands when its final sweep begins. -/
structure Served (sch : Scheduler) (bundles : List Bundle) (s swept : SchedulerState) : Prop where
  counted : swept.activeBytes = s.activeBytes + totalBytes swept.active
  capacity : (swept.activeBytes : ℚ) ≤ sch.maxQueueBytes
  serviceable : Serviceable swept.toBuffer swept.active
  known : ∀ b ∈ swept.active, b ∈ bundles
  alive : ∀ t, sch.plan.lastEnd = some t → ∀ b ∈ swept.active, b.expiredBy t = false

/-- From zero the counter is the bytes of the queue. -/
theorem Serves.served {β : Buffer} {swept : SchedulerState} (hvalid : Valid bundles s.records)
    (hs : s.Idle) (h : Serves sch bundles s β)
    (hbuffer : swept.toBuffer = β.lastExpire sch.plan.lastEnd) : Served sch bundles s swept := by
  have hwf : swept.toBuffer.WellFormed sch [] := hbuffer ▸ h.2.lastExpire _
  have hline := h.1.invariant (I := fun es β => OnTimeline sch bundles es β)
    (fun e es β β' hI he => hI.step he) (hvalid.onTimeline hs sch)
  have hactive : swept.active = (β.lastExpire sch.plan.lastEnd).active :=
    congrArg Buffer.active hbuffer
  refine ⟨?_, hwf.capacity, ⟨hwf.active_nodup, fun b hb => hwf.active_pending hb⟩, ?_, ?_⟩
  · rw [hs.activeBytes, zero_add]
    exact hwf.bytes
  · intro b hb
    rw [hactive] at hb
    cases hlast : sch.plan.lastEnd with
    | none =>
        rw [hlast] at hb
        exact hline.known_active hb
    | some t =>
        rw [hlast, Buffer.lastExpire, Buffer.expire_active] at hb
        exact hline.known_active (List.mem_of_mem_filter hb)
  · intro t hlast b hb
    rw [hactive, hlast, Buffer.lastExpire, Buffer.expire_active, List.mem_filter] at hb
    simpa using hb.2

/-- Up to the final sweep a run raises nothing, whatever is on the counter, and keeps it there. -/
theorem serveContacts_betweenRuns (hvalid : Valid bundles s.records) (hs : s.BetweenRuns sch) :
    Returns (serveContacts sch bundles) s fun last swept =>
      last = sch.plan.lastEnd ∧ Served sch bundles s swept := by
  obtain ⟨sch', hsch⟩ := exists_makesUpFor hs.capacity
  -- the same run from zero, under the smaller cap
  let t : SchedulerState := { s with activeBytes := 0 }
  have hidle : t.Idle := ⟨hs.active, rfl⟩
  have hst : OffBy s.activeBytes s t := by
    show s = { s with activeBytes := 0 + s.activeBytes }
    rw [zero_add]
  have hvalid' : Valid bundles t.records := hvalid
  rcases (serveContacts_spec hvalid' hidle : Returns (serveContacts sch' bundles) t _) with
    ⟨last, swept', hserve', rfl, β, hβ, hbuffer⟩
  have hserved' := hβ.served hvalid' hidle hbuffer
  obtain ⟨swept, hserve, rfl⟩ :=
    (lockstep_serveContacts hsch bundles s t hst).ok_right hserve'
  refine ⟨_, _, hserve, by rw [hsch.plan], ?_, ?_,
    ⟨hserved'.serviceable.nodup, hserved'.serviceable.pending⟩, hserved'.known, ?_⟩
  · have hcounted := hserved'.counted
    rw [hidle.activeBytes, zero_add] at hcounted
    show swept'.activeBytes + s.activeBytes = s.activeBytes + totalBytes swept'.active
    rw [hcounted, add_comm]
  · -- the queue fits beside the bytes that were on the counter
    have hfits : sch'.Fits swept'.activeBytes 0 := by
      rw [Scheduler.Fits, add_zero]
      exact hserved'.capacity
    have hcap := (hsch.fits _ _).2 hfits
    rw [Scheduler.Fits, add_zero] at hcap
    exact hcap
  · rw [hsch.plan]
    exact hserved'.alive

/-- What a run that starts between two runs returns with: an empty queue, and on the counter also
the bytes its sweep has disposed of. -/
theorem run_betweenRuns (hvalid : Valid bundles s.records) (hs : s.BetweenRuns sch) (now : ℚ) :
    ∃ swept s', serveContacts sch bundles s = .ok sch.plan.lastEnd swept ∧
      run sch now bundles s = .ok ⟨⟩ s' ∧ Served sch bundles s swept ∧ s'.BetweenRuns sch ∧
      s'.activeBytes = s.activeBytes + totalBytes swept.active := by
  rcases serveContacts_betweenRuns hvalid hs with ⟨_, swept, hserve, rfl, hserved⟩
  rcases finalSweep_of_serviceable now sch.plan.lastEnd hserved.serviceable with
    ⟨_, s', hsweep, hbecame⟩
  have hactive : s'.active = [] := (congrArg Buffer.active hbecame.buffer :)
  have hbytes : s'.activeBytes = swept.activeBytes :=
    (congrArg Buffer.activeBytes hbecame.buffer :)
  refine ⟨swept, s', hserve, ?_, hserved, ⟨hactive, ?_⟩, hbytes.trans hserved.counted⟩
  · rw [run, bind_ok (checkExpirations_ok hvalid.lifetimes s), bind_ok hserve, hsweep]
  · rw [hbytes]
    exact hserved.capacity

end Served

end Gateway
end LunaBridge
