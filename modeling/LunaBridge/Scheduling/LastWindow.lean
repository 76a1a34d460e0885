import LunaBridge.Scheduling.Lockstep
import LunaBridge.Scheduling.Tiers

/-!
# LastWindow — UTILITY_AWARE without a next window

After the last window there is nothing to wait for, so UTILITY_AWARE puts every bundle into its
first tier and sorts by weight.  Weights fall as ranks rise, and the queue is in ingress order, so
this is the order of STRICT_PRIORITY: the two drains differ in the reason they log.
-/

namespace LunaBridge
namespace Gateway

open Foundation.Machine Foundation.StableSort Foundation.GreedyFill

/-- The same scheduler under another policy. -/
def Scheduler.withPolicy (sch : Scheduler) (policy : SchedulingPolicy) : Scheduler :=
  { sch with policy := policy }

/-! ## The order -/

section Order

variable {sch : Scheduler} {pre : List ContactWindow} {w : ContactWindow} {bs : List Bundle}

/-- Weights and ranks order the classes alike, the other way round. -/
theorem utilityWeight_le_iff (a b : Bundle) :
    b.utilityWeight ≤ a.utilityWeight ↔ a.rank ≤ b.rank := by
  simp only [Bundle.utilityWeight, Bundle.rank]
  cases a.trafficClass <;> cases b.trafficClass <;> norm_num [classSpecs]

theorem sortByDesc_utilityWeight (h : bs.Pairwise fun a b => a.ingressTs ≤ b.ingressTs) :
    sortByDesc Bundle.utilityWeight bs = strictOrder bs := by
  refine sortByDesc_eq_sortBy (h.imp fun {a b} hab => ?_)
  rw [utilityWeight_le_iff, Prod.Lex.toLex_le_toLex, le_iff_lt_or_eq]
  -- of bundles of one rank the earlier one comes first in either order
  constructor
  · rintro (hlt | heq)
    · exact .inl hlt
    · exact .inr ⟨heq, hab⟩
  · rintro (hlt | ⟨heq, -⟩)
    · exact .inl hlt
    · exact .inr heq

theorem nextWindowStart_last (hplan : sch.plan.windows = pre ++ [w]) :
    nextWindowStart sch w = ⊤ := by
  rw [nextWindowStart, sch.plan.nextAfter_endTs hplan]
  rfl

theorem atRisk_top (b : Bundle) : atRisk ⊤ b = true :=
  decide_eq_true (WithTop.coe_lt_top _)

/-- In the last window there is one tier, in the order of STRICT_PRIORITY. -/
theorem drainUtilityAware_last (hplan : sch.plan.windows = pre ++ [w])
    (hlife : ∀ b ∈ bs, b.expirationTs ≠ none)
    (hingress : bs.Pairwise fun a b => a.ingressTs ≤ b.ingressTs) :
    drainUtilityAware sch bs w = (transmitLoop w "utility_at_risk" false (strictOrder bs)
      w.rawBitBudget >>= fun _ => pure ⟨⟩) := by
  have hset : ¬ bs.any (fun b => b.expirationTs.isNone) = true := by
    simpa [Option.isNone_iff_eq_none] using hlife
  have hrisky : bs.filter (atRisk ⊤) = bs := List.filter_eq_self.2 fun b _ => atRisk_top b
  have hsafe : bs.filter (fun b => !atRisk ⊤ b) = [] :=
    List.filter_eq_nil_iff.2 fun b _ => by simp [atRisk_top]
  rw [drainUtilityAware, if_neg hset, nextWindowStart_last hplan, hrisky, hsafe,
    ← sortByDesc_utilityWeight hingress]
  rfl

end Order

/-! ## The drains -/

/-- A decision without its reason. -/
def SchedulingDecision.unexplained (d : SchedulingDecision) : SchedulingDecision :=
  { d with reason := "" }

/-- Two states that differ at most in the reasons of their decisions. -/
structure SameUpToReasons (s t : SchedulerState) : Prop where
  buffer : s.toBuffer = t.toBuffer
  deficit : s.deficit = t.deficit
  rotationIndex : s.rotationIndex = t.rotationIndex
  decisions : s.decisions.map SchedulingDecision.unexplained =
    t.decisions.map SchedulingDecision.unexplained

theorem SameUpToReasons.refl (s : SchedulerState) : SameUpToReasons s s := ⟨rfl, rfl, rfl, rfl⟩

/-- Decisions that differ at most in their reasons may be logged. -/
theorem SameUpToReasons.note {s t : SchedulerState} {d e : SchedulingDecision}
    (h : SameUpToReasons s t)
    (hde : d.unexplained = e.unexplained) :
    SameUpToReasons { s with decisions := s.decisions ++ [d] }
      { t with decisions := t.decisions ++ [e] } :=
  ⟨h.buffer, h.deficit, h.rotationIndex, by simp [h.decisions, hde]⟩

theorem sameUpToReasons_steady : Steady 0 SameUpToReasons where
  buffer := fun _ t h => h.buffer.trans t.toBuffer.shift_zero.symm
  write := fun g _ _ _ h => ⟨congrArg g h.buffer, h.deficit, h.rotationIndex, h.decisions⟩
  note := fun _ _ _ h => h.note rfl

/-- The writes of a transmission do not depend on its reason. -/
theorem lockstep_transmit (w : ContactWindow) (b : Bundle) (reason reason' : String) :
    Lockstep SameUpToReasons (transmit w b reason) (transmit w b reason') := by
  refine lockstep_get_bind fun s t hst => ?_
  have hrecords : s.records = t.records := congrArg Buffer.records hst.buffer
  rw [hrecords]
  refine lockstep_bind (lockstep_setRecord sameUpToReasons_steady b _) (fun _ => ?_) s t hst
  refine lockstep_bind (lockstep_mark sameUpToReasons_steady b _ _) fun _ => ?_
  refine lockstep_bind (lockstep_addActiveBytes sameUpToReasons_steady _) fun _ => ?_
  exact fun _ _ h => .ok (h.note rfl)

/-- Loops over one list that log different reasons stay in step. -/
theorem lockstep_transmitLoop (w : ContactWindow) (reason reason' : String) (stop : Bool) :
    ∀ (bs : List Bundle) (r : ℚ),
      Lockstep SameUpToReasons (transmitLoop w reason stop bs r)
        (transmitLoop w reason' stop bs r) := by
  intro bs
  induction bs with
  | nil => exact fun r => lockstep_pure r
  | cons b bs ih =>
      intro r
      unfold transmitLoop
      split
      · exact lockstep_bind (lockstep_transmit w b reason reason') fun _ => ih (r - b.bits)
      · refine lockstep_bind (lockstep_log sameUpToReasons_steady _ _ _ _ _) fun _ => ?_
        split
        · exact lockstep_pure r
        · exact ih r

section Drains

variable {sch : Scheduler} {pre : List ContactWindow} {w : ContactWindow} {bs : List Bundle}

/-- In the last window the two drains write the same. -/
theorem lockstep_drains_last (hplan : sch.plan.windows = pre ++ [w])
    (hlife : ∀ b ∈ bs, b.expirationTs ≠ none)
    (hingress : bs.Pairwise fun a b => a.ingressTs ≤ b.ingressTs) :
    Lockstep SameUpToReasons (drainUtilityAware sch bs w) (drainStrictPriority bs w) := by
  rw [drainUtilityAware_last hplan hlife hingress]
  exact lockstep_bind (lockstep_transmitLoop w _ _ false _ _) fun _ => lockstep_pure _

/-- So they walk the same list. -/
theorem drainOrder_last (hplan : sch.plan.windows = pre ++ [w])
    (hingress : bs.Pairwise fun a b => a.ingressTs ≤ b.ingressTs) :
    (sch.withPolicy .utilityAware).drainOrder w bs =
      (sch.withPolicy .strictPriority).drainOrder w bs := by
  have hrisky : bs.filter (atRisk ⊤) = bs := List.filter_eq_self.2 fun b _ => atRisk_top b
  have hsafe : bs.filter (fun b => !atRisk ⊤ b) = [] :=
    List.filter_eq_nil_iff.2 fun b _ => by simp [atRisk_top]
  have hlast : (sch.withPolicy .utilityAware).plan.windows = pre ++ [w] := hplan
  show some (false, sortByDesc Bundle.utilityWeight _ ++ sortByDesc Bundle.utilityDensity _) =
    some (false, strictOrder bs)
  rw [nextWindowStart_last hlast, hrisky, hsafe, sortByDesc_utilityWeight hingress]
  exact congrArg (fun order => some (false, order)) (List.append_nil _)

end Drains

/-- The strict drain of what is eligible returns. -/
theorem drainStrictPriority_returns {sch : Scheduler} {future : List Bundle} {s : SchedulerState}
    (w : ContactWindow) (hwf : s.toBuffer.WellFormed sch future) :
    Returns (drainStrictPriority (eligible w s.toBuffer) w) s fun _ _ => True := by
  have hserv : Serviceable s.toBuffer (strictOrder (eligible w s.toBuffer)) :=
    Serviceable.perm ⟨hwf.active_nodup.filter _, fun b hb =>
      hwf.active_pending (List.mem_of_mem_filter hb)⟩ (sortBy_perm _ _)
  exact (transmitLoop_spec w "strict_priority" false _ w.rawBitBudget s hserv).bind
    fun _ _ _ => Returns.pure trivial

/-! ## Runs -/

section Runs

variable {sch : Scheduler} {bundles : List Bundle} {records : Bundle → Lifecycle}

theorem neededVictims_withPolicy (policy : SchedulingPolicy) (size queued : ℤ)
    (vs : List Bundle) :
    neededVictims (sch.withPolicy policy) size queued vs = neededVictims sch size queued vs := by
  induction vs generalizing queued with
  | nil => rfl
  | cons v vs ih =>
      rw [neededVictims, neededVictims, ih]
      rfl

/-- Policies other than FIFO admit alike. -/
theorem offer_withPolicy {policy policy' : SchedulingPolicy} (h : policy ≠ .fifo)
    (h' : policy' ≠ .fifo) (b : Bundle) (β : Buffer) :
    β.offer (sch.withPolicy policy) b = β.offer (sch.withPolicy policy') b := by
  have haware : (sch.withPolicy policy).admissionIsPriorityAware =
      (sch.withPolicy policy').admissionIsPriorityAware := by
    cases hflag : sch.priorityAwareAdmission <;>
      simp [Scheduler.admissionIsPriorityAware, Scheduler.withPolicy, hflag, h, h']
  have hadmission : (sch.withPolicy policy).admission β.active b =
      (sch.withPolicy policy').admission β.active b := by
    simp only [Scheduler.admission, haware, neededVictims_withPolicy]
    rfl
  rw [Buffer.offer, Buffer.offer, hadmission]

/-- The windows still to be drained are the last one of the plan. -/
def OnlyLast (sch : Scheduler) (cs : List Call) : Prop :=
  ∀ w, Call.drainWindow w ∈ cs → ∃ pre, sch.plan.windows = pre ++ [w]

/-- A call leaves one buffer behind, whichever of the two policies makes it. -/
theorem Call.Effect.same {c : Call} {β β₁ β₂ : Buffer}
    (h : c.Effect (sch.withPolicy .utilityAware) β β₁)
    (h' : c.Effect (sch.withPolicy .strictPriority) β β₂)
    (hingress : β.active.Pairwise fun a b => a.ingressTs ≤ b.ingressTs)
    (hlast : OnlyLast sch [c]) : β₁ = β₂ := by
  cases h with
  | tryAdmit b =>
      cases h'
      exact offer_withPolicy (by decide) (by decide) b β
  | expireInBlackout t =>
      cases h'
      rfl
  | @drainWindow w _ sent _ service =>
      cases h' with
      | @drainWindow _ _ sent' _ service' =>
          obtain ⟨pre, hplan⟩ := hlast w (List.mem_singleton_self _)
          have horder : (sch.withPolicy .strictPriority).drainOrder w (β.ready w) =
              some (false, strictOrder (β.ready w)) := rfl
          have hsame : sent = sent' := by
            rw [service'.ordered _ _ horder]
            exact service.ordered _ _ ((drainOrder_last hplan (hingress.filter _)).trans horder)
          rw [hsame]

/-- Up to the final sweep, runs that drain no window but the last have the same buffer under both
policies. -/
theorem same_buffer : ∀ (cs : List Call) (s t : SchedulerState), OnlyLast sch cs →
    s.toBuffer = t.toBuffer →
    Standing (sch.withPolicy .utilityAware) bundles records cs s →
    Standing (sch.withPolicy .strictPriority) bundles records cs t →
    ∃ s' t', cs.forM (Call.exec (sch.withPolicy .utilityAware)) s = .ok ⟨⟩ s' ∧
      cs.forM (Call.exec (sch.withPolicy .strictPriority)) t = .ok ⟨⟩ t' ∧
      Standing (sch.withPolicy .utilityAware) bundles records [] s' ∧
      Standing (sch.withPolicy .strictPriority) bundles records [] t' ∧
      s'.toBuffer = t'.toBuffer := by
  intro cs
  induction cs with
  | nil => exact fun s t _ hst hs ht => ⟨s, t, rfl, rfl, hs, ht, hst⟩
  | cons c cs ih =>
      intro s t hlast hst hs ht
      obtain ⟨⟨⟩, s₁, hexec, hs₁, heffect⟩ := hs.exec.and (exec_effect hs.wellFormed)
      obtain ⟨⟨⟩, t₁, hexec', ht₁, heffect'⟩ := ht.exec.and (exec_effect ht.wellFormed)
      have hst₁ : s₁.toBuffer = t₁.toBuffer := by
        rw [← hst] at heffect'
        refine heffect.same heffect' hs.wellFormed.active_ordered fun w hw => hlast w ?_
        rw [List.mem_singleton.1 hw]
        exact List.mem_cons_self ..
      obtain ⟨s', t', hrest, hrest', hend⟩ :=
        ih s₁ t₁ (fun w hw => hlast w (List.mem_cons_of_mem _ hw)) hst₁ hs₁ ht₁
      exact ⟨s', t', (bind_ok hexec).trans hrest, (bind_ok hexec').trans hrest', hend⟩

end Runs

/-- In the last window of a plan UTILITY_AWARE makes the transmissions of STRICT_PRIORITY in the
same order, whatever the run has been like up to then; where that window is the only one, all
bundles end alike under both policies. -/
theorem utilityAware_ends_as_strictPriority {sch : Scheduler} {bundles : List Bundle}
    {records : Bundle → Lifecycle} (hvalid : Valid bundles records) :
    (∀ (pre : List ContactWindow) (w : ContactWindow) (made rest : List Call),
      sch.plan.windows = pre ++ [w] → sch.calls bundles = made ++ .drainWindow w :: rest →
      ∃ s s₁ s₂, made.forM (Call.exec sch) (SchedulerState.fresh records) = .ok ⟨⟩ s ∧
        drainUtilityAware sch (eligible w s.toBuffer) w s = .ok ⟨⟩ s₁ ∧
        drainStrictPriority (eligible w s.toBuffer) w s = .ok ⟨⟩ s₂ ∧ SameUpToReasons s₁ s₂) ∧
    (∀ (w : ContactWindow) (now : ℚ), sch.plan.windows = [w] →
      ∃ s₁ s₂, run (sch.withPolicy .utilityAware) now bundles (SchedulerState.fresh records) =
          .ok ⟨⟩ s₁ ∧
        run (sch.withPolicy .strictPriority) now bundles (SchedulerState.fresh records) =
          .ok ⟨⟩ s₂ ∧
        ∀ b ∈ bundles, (s₁.records b).terminalState = (s₂.records b).terminalState ∧
          (s₁.records b).transmissionTs = (s₂.records b).transmissionTs ∧
          (s₁.records b).contactId = (s₂.records b).contactId) := by
  constructor
  · intro pre w made rest hplan hcalls
    have hstart := hvalid.standing sch
    rw [hcalls] at hstart
    obtain ⟨⟨⟩, s, hmade, hstand⟩ := hstart.made
    have hwf := hstand.wellFormed
    obtain ⟨⟨⟩, s₂, hstrict, -⟩ := drainStrictPriority_returns w hwf
    have hlife : ∀ b ∈ eligible w s.toBuffer, b.expirationTs ≠ none := fun b hb =>
      hwf.active_lifetime (List.mem_of_mem_filter hb)
    have hlock := lockstep_drains_last hplan hlife (hwf.active_ordered.filter _) s s (.refl s)
    obtain ⟨s₁, hutility, hsame⟩ := hlock.ok_right hstrict
    exact ⟨s, s₁, s₂, hmade, hutility, hstrict, hsame⟩
  · intro w now hplan
    have hlast : OnlyLast sch (sch.calls bundles) := by
      intro v hv
      have hmem := mem_windows_of_drainWindow hv
      rw [hplan, List.mem_singleton] at hmem
      exact ⟨[], by rw [hmem, hplan]; rfl⟩
    obtain ⟨t₁, t₂, hcalls₁, hcalls₂, hstand₁, hstand₂, hsame⟩ :=
      same_buffer _ _ _ hlast rfl (hvalid.standing (sch.withPolicy .utilityAware))
        (hvalid.standing (sch.withPolicy .strictPriority))
    obtain ⟨⟨⟩, s₁, hsweep₁, hswept₁⟩ := finalSweep_spec now sch.plan.lastEnd hstand₁.wellFormed
    obtain ⟨⟨⟩, s₂, hsweep₂, hswept₂⟩ := finalSweep_spec now sch.plan.lastEnd hstand₂.wellFormed
    have hrecords : s₁.records = s₂.records := by
      have hbuffer : s₁.toBuffer = s₂.toBuffer := by
        rw [hswept₁.buffer, hswept₂.buffer, hsame]
      exact congrArg Buffer.records hbuffer
    refine ⟨s₁, s₂, ?_, ?_, fun b _ => by rw [hrecords]; exact ⟨rfl, rfl, rfl⟩⟩
    · rw [run_eq_calls, bind_ok (checkExpirations_ok hvalid.lifetimes _)]
      exact (bind_ok hcalls₁).trans hsweep₁
    · rw [run_eq_calls, bind_ok (checkExpirations_ok hvalid.lifetimes _)]
      exact (bind_ok hcalls₂).trans hsweep₂

theorem utilityAware_ends_as_strictPriority_small :
    (∃ s s₁ s₂, [Call.tryAdmit Small.early, .tryAdmit Small.doomed, .expireInBlackout 10].forM
        (Call.exec Small.scheduler) (SchedulerState.fresh fun _ => {}) = .ok ⟨⟩ s ∧
      drainUtilityAware Small.scheduler (eligible Small.window s.toBuffer) Small.window s =
        .ok ⟨⟩ s₁ ∧
      drainStrictPriority (eligible Small.window s.toBuffer) Small.window s = .ok ⟨⟩ s₂ ∧
      SameUpToReasons s₁ s₂) ∧
    ∃ s₁ s₂, run (Small.scheduler.withPolicy .utilityAware) 0
        [Small.early, Small.doomed, Small.late] (SchedulerState.fresh fun _ => {}) = .ok ⟨⟩ s₁ ∧
      run (Small.scheduler.withPolicy .strictPriority) 0
        [Small.early, Small.doomed, Small.late] (SchedulerState.fresh fun _ => {}) = .ok ⟨⟩ s₂ ∧
      ∀ b ∈ [Small.early, Small.doomed, Small.late],
        (s₁.records b).terminalState = (s₂.records b).terminalState ∧
        (s₁.records b).transmissionTs = (s₂.records b).transmissionTs ∧
        (s₁.records b).contactId = (s₂.records b).contactId := by
  have hcalls : Small.scheduler.calls [Small.early, Small.doomed, Small.late] =
      [.tryAdmit Small.early, .tryAdmit Small.doomed, .expireInBlackout 10] ++
        .drainWindow Small.window :: [.tryAdmit Small.late, .expireInBlackout 20] := rfl
  have hplan : Small.scheduler.plan.windows = [] ++ [Small.window] := rfl
  obtain ⟨hdrain, hrun⟩ := utilityAware_ends_as_strictPriority Small.valid
  exact ⟨hdrain [] Small.window _ _ hplan hcalls, hrun Small.window 0 hplan⟩

end Gateway
end LunaBridge
