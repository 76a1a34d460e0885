import LunaBridge.Scheduling.Run

/-!
# Noninterference — what becomes of a bundle does not depend on the bundles below it

A run on all bundles is compared with a run on those up to some rank.  `Shadow` relates the two
buffers: the second holds exactly the bundles of the first up to that rank, with the same records.
Admission keeps the relation because only protected bundles stand in an arrival's way and victims
are taken from the lowest priority up; a drain keeps it if it serves the bundles up to that rank
first (`Preempts`).
-/

namespace LunaBridge
namespace Gateway

open Foundation.Machine Foundation.Selection Foundation.Trace Foundation.StableSort
open Foundation.GreedyFill

/-- Of rank `r` or of higher priority. -/
def Bundle.upTo (r : ℤ) (b : Bundle) : Bool := decide (b.rank ≤ r)

@[simp] theorem Bundle.upTo_eq_true {r : ℤ} {b : Bundle} : b.upTo r = true ↔ b.rank ≤ r :=
  decide_eq_true_iff

@[simp] theorem Bundle.upTo_eq_false {r : ℤ} {b : Bundle} : b.upTo r = false ↔ r < b.rank := by
  simp [Bundle.upTo]

/-! ## The shorter timeline -/

/-- Contacts, and the arrivals up to rank `r`. -/
def Event.upTo (r : ℤ) : Event → Bool
  | .arrival b => b.upTo r
  | .contact _ => true

theorem arrivalsOf_filter (r : ℤ) (bs : List Bundle) :
    (arrivalsOf bs).filter (Event.upTo r) = arrivalsOf (bs.filter (Bundle.upTo r)) := by
  rw [arrivalsOf, arrivalsOf, List.filter_map, ← filter_sortBy]
  rfl

/-- Leaving the lower-priority arrivals out of a timeline leaves the timeline of the others. -/
theorem timeline_filter (r : ℤ) (ws : List ContactWindow) (bs : List Bundle) :
    (timeline ws bs).filter (Event.upTo r) = timeline ws (bs.filter (Bundle.upTo r)) := by
  induction ws generalizing bs with
  | nil => exact arrivalsOf_filter r bs
  | cons w ws ih =>
      have hcontact : Event.upTo r (.contact w) = true := rfl
      simp only [timeline, List.filter_append, List.filter_cons_of_pos hcontact, arrivalsOf_filter,
        ih, List.filter_filter, Bool.and_comm]

/-! ## The shadow of a buffer -/

/-- `γ` is what is left of `β` when the bundles below rank `r` are left out. -/
structure Shadow (r : ℤ) (β γ : Buffer) : Prop where
  active : γ.active = β.active.filter (Bundle.upTo r)
  records : ∀ b : Bundle, b.rank ≤ r → γ.records b = β.records b

namespace Shadow

variable {r : ℤ} {β γ : Buffer} {b : Bundle}

/-- The same bundles leave both buffers, as far as the second one has them. -/
theorem remove {f : Lifecycle → Lifecycle} {vs vs' : List Bundle} (h : Shadow r β γ)
    (hvs : vs' = vs.filter (Bundle.upTo r)) : Shadow r (β.remove f vs) (γ.remove f vs') := by
  subst hvs
  refine ⟨?_, fun b hb => ?_⟩
  · show without γ.active _ = (without β.active vs).filter _
    rw [h.active, filter_without]
    exact without_filter_right (Bundle.upTo r) vs fun b hb => (List.mem_filter.1 hb).2
  · simp [Buffer.remove, Buffer.settle, overwrite, hb, h.records b hb]

/-- Bundles below the rank leave the first buffer only. -/
theorem remove_below {f : Lifecycle → Lifecycle} {vs : List Bundle} (h : Shadow r β γ)
    (hvs : ∀ v ∈ vs, r < v.rank) : Shadow r (β.remove f vs) γ := by
  have hnone : vs.filter (Bundle.upTo r) = [] := by
    refine List.filter_eq_nil_iff.2 fun v hv => ?_
    simpa using hvs v hv
  have := h.remove (f := f) hnone.symm
  rwa [Buffer.remove_nil] at this

theorem expire (t : ℚ) (h : Shadow r β γ) : Shadow r (β.expire t) (γ.expire t) := by
  refine h.remove ?_
  rw [h.active, List.filter_filter, List.filter_filter]
  simp only [Bool.and_comm]

theorem ready (w : ContactWindow) (h : Shadow r β γ) :
    γ.ready w = (β.ready w).filter (Bundle.upTo r) := by
  simp only [Buffer.ready, h.active, List.filter_filter, Bool.and_comm]

theorem accept (hb : b.rank ≤ r) (h : Shadow r β γ) : Shadow r (β.accept b) (γ.accept b) := by
  refine ⟨?_, fun c hc => ?_⟩
  · simp [Buffer.accept, h.active, hb]
  · simp [Buffer.accept, overwrite, h.records c hc]

theorem drop (b : Bundle) (h : Shadow r β γ) : Shadow r (β.drop b) (γ.drop b) := by
  refine ⟨h.active, fun c hc => ?_⟩
  simp [Buffer.drop, overwrite, h.records c hc]

/-- A bundle below the rank is offered to the first buffer only. -/
theorem offer_below {sch : Scheduler} (hb : r < b.rank) (hnd : β.active.Nodup)
    (h : Shadow r β γ) : Shadow r (β.offer sch b) γ := by
  -- whatever is noted about `b`, the records up to the rank stay as they are
  have hkeep : ∀ (f : Lifecycle → Lifecycle) (c : Bundle) (g : Bundle → Lifecycle), c.rank ≤ r →
      overwrite f [b] g c = g c := by
    intro f c g hc
    refine overwrite_of_notMem fun hmem => ?_
    rw [List.mem_singleton.1 hmem] at hc
    exact absurd hc (not_le.2 hb)
  unfold Buffer.offer
  cases hadm : sch.admission β.active b with
  | none =>
      refine ⟨h.active, fun c hc => ?_⟩
      exact (h.records c hc).trans (hkeep _ c _ hc).symm
  | some vs =>
      have hevict : Shadow r (β.evict vs) γ := h.remove_below fun v hv =>
        hb.trans ((admission_victims hnd hadm).2 v hv).2
      refine ⟨?_, fun c hc => ?_⟩
      · simp [Buffer.accept, hevict.active, hb]
      · exact (hevict.records c hc).trans (hkeep _ c _ hc).symm

end Shadow

/-! ## Admission is blind to lower priorities -/

section Admission

variable {sch : Scheduler} {active : List Bundle} {b : Bundle} {r : ℤ}

theorem protectedFrom_filter (hb : b.rank ≤ r) :
    protectedFrom (active.filter (Bundle.upTo r)) b = protectedFrom active b := by
  rw [protectedFrom, protectedFrom, List.filter_filter]
  refine List.filter_congr fun c _ => ?_
  by_cases hc : c.rank ≤ b.rank
  · simp [hc, hc.trans hb]
  · simp [hc]

/-- The candidates below rank `r` are the first to go. -/
theorem victimOrder_split (active : List Bundle) (hb : b.rank ≤ r) :
    victimOrder (candidates active b) =
      victimOrder (active.filter fun c => !c.upTo r) ++
        victimOrder (candidates (active.filter (Bundle.upTo r)) b) := by
  have hsplit := sortBy_eq_append (fun c : Bundle => toLex (-c.rank, -c.ingressTs))
    (fun c => !c.upTo r) (candidates active b) (by
      intro c _ d _ hc hd
      refine Prod.Lex.toLex_lt_toLex.2 (Or.inl ?_)
      simp at hc hd
      show -c.rank < -d.rank
      omega)
  rw [victimOrder, hsplit]
  congr 2
  · rw [candidates, List.filter_filter]
    refine List.filter_congr fun c _ => ?_
    by_cases hc : c.rank ≤ r
    · simp [Bundle.upTo, hc]
    · simp [Bundle.upTo, hc, hb.trans_lt (not_le.1 hc)]
  · simp only [candidates, List.filter_filter, Bool.not_not, Bool.and_comm]

/-- Leaving out the bundles below rank `r` changes the decision only in that they are no
victims. -/
theorem admission_filter (haware : sch.admissionIsPriorityAware = true)
    (hsizes : ∀ c ∈ active, 0 < c.sizeBytes) (hb : b.rank ≤ r) :
    sch.admission (active.filter (Bundle.upTo r)) b =
      (sch.admission active b).map (List.filter (Bundle.upTo r)) := by
  rw [admission_of_aware haware hsizes,
    admission_of_aware haware fun c hc => hsizes c (List.mem_of_mem_filter hc),
    protectedFrom_filter hb]
  split
  · -- once the bundles below the rank have gone, the two queues hold the same bytes
    have hbelow : totalBytes active -
        totalBytes (victimOrder (active.filter fun c => !c.upTo r)) =
        totalBytes (active.filter (Bundle.upTo r)) := by
      have hperm := totalBytes_perm (sortBy_perm (fun c : Bundle => toLex (-c.rank, -c.ingressTs))
        (active.filter fun c => !c.upTo r))
      have hadd := totalBytes_filter_add (Bundle.upTo r) active
      rw [victimOrder, hperm]
      omega
    have hfront : ∀ c ∈ victimOrder (active.filter fun c => !c.upTo r),
        c ∈ active ∧ r < c.rank := by
      intro c hc
      simpa [victimOrder] using hc
    have hneeded := congrArg (neededVictims sch b.sizeBytes (totalBytes active))
      (victimOrder_split active hb)
    rw [neededVictims_append fun c hc => hsizes c (hfront c hc).1, hbelow] at hneeded
    rw [hneeded, Option.map_some, List.filter_append]
    -- the victims in front are below the rank, those behind are not
    have hnone : (neededVictims sch b.sizeBytes (totalBytes active)
        (victimOrder (active.filter fun c => !c.upTo r))).filter (Bundle.upTo r) = [] := by
      refine List.filter_eq_nil_iff.2 fun c hc => ?_
      simpa using (hfront c ((neededVictims_isPrefix sch _ _ _).subset hc)).2
    have hall : ∀ c ∈ neededVictims sch b.sizeBytes (totalBytes (active.filter (Bundle.upTo r)))
        (victimOrder (candidates (active.filter (Bundle.upTo r)) b)), c.upTo r = true := by
      intro c hc
      have hmem := (neededVictims_isPrefix sch _ _ _).subset hc
      simp only [victimOrder, candidates, mem_sortBy, List.mem_filter] at hmem
      exact hmem.1.2
    rw [hnone, List.nil_append, List.filter_eq_self.2 hall]
  · rfl

theorem Shadow.offer {sch' : Scheduler} {β γ : Buffer}
    (hadm : sch'.admission = sch.admission) (haware : sch.admissionIsPriorityAware = true)
    (hsizes : ∀ c ∈ β.active, 0 < c.sizeBytes) (hb : b.rank ≤ r) (h : Shadow r β γ) :
    Shadow r (β.offer sch b) (γ.offer sch' b) := by
  have hfilter := admission_filter haware hsizes hb
  rw [← h.active] at hfilter
  unfold Buffer.offer
  rw [hadm, hfilter]
  cases sch.admission β.active b with
  | none => exact h.drop b
  | some vs => exact (h.remove rfl).accept hb

end Admission

/-! ## Drains that preempt -/

/-- The bundles up to rank `r` are served in strict priority order, as if there were no others. -/
def Preempts (sch : Scheduler) (r : ℤ) : Prop :=
  ∀ (w : ContactWindow) (bs sent : List Bundle) (credit : Prop), Service sch w bs sent credit →
    sent.filter (Bundle.upTo r) =
      greedyFill Bundle.bits false w.rawBitBudget (strictOrder (bs.filter (Bundle.upTo r)))

theorem strictOrder_split (r : ℤ) (bs : List Bundle) :
    strictOrder bs = strictOrder (bs.filter (Bundle.upTo r)) ++
      strictOrder (bs.filter fun b => !b.upTo r) := by
  refine sortBy_eq_append _ (Bundle.upTo r) bs fun a _ b _ ha hb => ?_
  refine Prod.Lex.toLex_lt_toLex.2 (Or.inl ?_)
  simp at ha hb
  exact ha.trans_lt hb

/-- Strict priority preempts at every rank. -/
theorem preempts_strictPriority {sch : Scheduler} (h : sch.policy = .strictPriority) (r : ℤ) :
    Preempts sch r := by
  intro w bs sent credit service
  have horder : sch.drainOrder w bs = some (false, strictOrder bs) := by
    simp [Scheduler.drainOrder, h]
  rw [service.ordered _ _ horder, strictOrder_split r bs]
  refine filter_greedyFill_append _ _ (fun b hb => ?_) fun b hb => ?_
  · simp only [strictOrder, mem_sortBy, List.mem_filter] at hb
    exact hb.2
  · simp only [strictOrder, mem_sortBy, List.mem_filter] at hb
    simpa using hb.2

theorem Bundle.upTo_zero (b : Bundle) : b.upTo 0 = decide (b.trafficClass = .emergency) :=
  decide_eq_decide.2 (classSpecs_rank_le_zero_iff b.trafficClass)

/-- The policies that drain EMERGENCY first. -/
def Preempting (policy : SchedulingPolicy) : Prop :=
  policy = .wfq ∨ policy = .wfqSkipOver ∨ policy = .strictPriority

/-- A preempting policy preempts at the rank of EMERGENCY. -/
theorem preempts_emergency {sch : Scheduler} (h : Preempting sch.policy) : Preempts sch 0 := by
  have hwfq : (∀ w bs, sch.drainOrder w bs = none) → Preempts sch 0 := by
    intro hnone w bs sent credit service
    have hserved := service.preempt (hnone w bs)
    simp only [← Bundle.upTo_zero] at hserved
    rw [hserved, classQueue]
    simp only [← Bundle.upTo_zero]
    congr 1
    -- all of them have the same rank
    have hrank : ∀ b ∈ bs.filter (Bundle.upTo 0), b.rank = 0 := by
      intro b hb
      have hb' := (List.mem_filter.1 hb).2
      rw [Bundle.upTo_zero, decide_eq_true_eq] at hb'
      simp [Bundle.rank, classSpecs, hb']
    refine sortBy_congr fun a ha b hb => ?_
    simp [Prod.Lex.toLex_le_toLex, hrank a ha, hrank b hb]
  rcases h with h | h | h
  · exact hwfq fun w bs => by simp [Scheduler.drainOrder, h]
  · exact hwfq fun w bs => by simp [Scheduler.drainOrder, h]
  · exact preempts_strictPriority h 0

/-! ## Two runs -/

/-- The two schedulers may differ in their policies, as long as both serve the bundles up to rank
`r` first. -/
structure Alike (sch sch' : Scheduler) (r : ℤ) : Prop where
  plan : sch'.plan = sch.plan
  cap : sch'.maxQueueBytes = sch.maxQueueBytes
  aware : sch.admissionIsPriorityAware = true
  aware' : sch'.admissionIsPriorityAware = true
  preempts : Preempts sch r
  preempts' : Preempts sch' r

section Runs

variable {sch sch' : Scheduler} {r : ℤ} {credit credit' : Prop} {e : Event} {β β' γ γ' : Buffer}

/-- An event that both runs see. -/
theorem Shadow.step (halike : Alike sch sch' r) {future : List Bundle}
    (hwf : β.WellFormed sch future) (he : e.upTo r = true) (h : Shadow r β γ)
    (hstep : Step sch credit e β β') (hstep' : Step sch' credit' e γ γ') : Shadow r β' γ' := by
  cases hstep with
  | arrival b =>
      cases hstep'
      have hadm := admission_congr halike.cap (halike.aware'.trans halike.aware.symm)
      exact h.offer hadm halike.aware (fun c hc => hwf.active_size_pos hc)
        (Bundle.upTo_eq_true.1 he)
  | @contact w _ sent service =>
      cases hstep' with
      | contact service' =>
          have hexp := h.expire w.startTs
          have hready := hexp.ready w
          refine hexp.remove ?_
          -- the second run has nothing but bundles up to rank `r` to send
          have hall : ∀ b ∈ (γ.expire w.startTs).ready w, b.upTo r = true := fun b hb =>
            (List.mem_filter.1 (hready ▸ hb)).2
          have hserved' := halike.preempts' w _ _ _ service'
          rw [List.filter_eq_self.2 fun b hb => hall b (service'.subset b hb),
            List.filter_eq_self.2 hall, hready] at hserved'
          exact hserved'.trans (halike.preempts w _ _ _ service).symm

/-- An event that only the first run sees. -/
theorem Shadow.skip {future : List Bundle} (hwf : β.WellFormed sch future)
    (he : e.upTo r = false) (h : Shadow r β γ) (hstep : Step sch credit e β β') :
    Shadow r β' γ := by
  cases hstep with
  | arrival b => exact h.offer_below (Bundle.upTo_eq_false.1 he) hwf.active_nodup
  | contact => cases he

/-- At the end of the plan the bundles up to rank `r` stand where they would stand alone. -/
theorem Shadow.serves (halike : Alike sch sch' r) {bundles : List Bundle} {s t : SchedulerState}
    (h : Valid bundles s.records) (hs : s.Idle) (ht : t.Idle)
    (hrec : ∀ b : Bundle, b.rank ≤ r → t.records b = s.records b)
    (hβ : Serves sch bundles s β) (hγ : Serves sch' (bundles.filter (Bundle.upTo r)) t γ) :
    Shadow r β γ := by
  have hrun' := hγ.1
  rw [halike.plan, ← timeline_filter] at hrun'
  have hstart : Shadow r s.toBuffer t.toBuffer := ⟨by rw [ht.active, hs.active]; rfl, hrec⟩
  -- the shorter run skips the arrivals below the rank
  have hend := Run.relate
    (R := fun es β γ => β.WellFormed sch (offered es) ∧ Shadow r β γ)
    (fun e es _ _ _ _ he hR hstep hstep' =>
      ⟨hstep.wellFormed hR.1, hR.2.step halike hR.1 he hstep hstep'⟩)
    (fun e es _ _ _ he hR hstep => ⟨hstep.wellFormed hR.1, hR.2.skip hR.1 he hstep⟩)
    hβ.1 hrun' ⟨h.wellFormed hs sch _, hstart⟩
  exact hend.2

theorem Shadow.lastExpire (lastEnd : Option ℚ) (h : Shadow r β γ) :
    Shadow r (β.lastExpire lastEnd) (γ.lastExpire lastEnd) := by
  cases lastEnd with
  | none => exact h
  | some t => exact h.expire t

theorem Shadow.sweep (h : Shadow r β γ) : Shadow r β.sweep γ.sweep := by
  refine ⟨rfl, fun b hb => ?_⟩
  simp [Buffer.sweep, overwrite, h.active, h.records b hb, hb]

/-- Run without the bundles below rank `r`, the others end with the same records. -/
theorem run_shadow (halike : Alike sch sch' r) {bundles : List Bundle} {s t : SchedulerState}
    (h : Valid bundles s.records) (hs : s.Idle) (ht : t.Idle)
    (hrec : ∀ b : Bundle, b.rank ≤ r → t.records b = s.records b) (now now' : ℚ) :
    ∃ s' t', run sch now bundles s = .ok ⟨⟩ s' ∧
      run sch' now' (bundles.filter (Bundle.upTo r)) t = .ok ⟨⟩ t' ∧
      ∀ b : Bundle, b.rank ≤ r → s'.records b = t'.records b := by
  have h' : Valid (bundles.filter (Bundle.upTo r)) t.records := by
    refine ⟨h.distinct.sublist (List.filter_sublist.map _),
      fun b hb => h.sizes b (List.mem_of_mem_filter hb),
      fun b hb => h.lifetimes b (List.mem_of_mem_filter hb), fun b hb => ?_⟩
    rcases List.mem_filter.1 hb with ⟨hmem, hup⟩
    rw [hrec b (Bundle.upTo_eq_true.1 hup)]
    exact h.pending b hmem
  rcases (run_spec h hs now : Returns (run sch now bundles) s _) with
    ⟨_, s', hrun, β, hβ, hbuffer⟩
  rcases (run_spec h' ht now' : Returns (run sch' now' _) t _) with
    ⟨_, t', hrun', γ, hγ, hbuffer'⟩
  have hshadow := ((Shadow.serves halike h hs ht hrec hβ hγ).lastExpire sch.plan.lastEnd).sweep
  refine ⟨s', t', hrun, hrun', fun b hb => ?_⟩
  rw [halike.plan] at hbuffer'
  rw [hbuffer, hbuffer']
  exact (hshadow.records b hb).symm

end Runs

/-! ## The two theorems -/

/-- Under STRICT_PRIORITY with priority-aware admission, the bundles up to any rank end as if they
had been the only ones. -/
theorem strict_priority_noninterference {sch : Scheduler} (hpolicy : sch.policy = .strictPriority)
    (haware : sch.admissionIsPriorityAware = true) (r : ℤ) (now now' : ℚ) {bundles : List Bundle}
    {records : Bundle → Lifecycle} (h : Valid bundles records) :
    ∃ s' t', run sch now bundles (SchedulerState.fresh records) = .ok ⟨⟩ s' ∧
      run sch now' (bundles.filter fun b => decide (b.rank ≤ r)) (SchedulerState.fresh records) =
        .ok ⟨⟩ t' ∧
      ∀ b ∈ bundles, b.rank ≤ r → s'.records b = t'.records b := by
  have hpre := preempts_strictPriority hpolicy r
  obtain ⟨s', t', hrun, hrun', hsame⟩ := run_shadow ⟨rfl, rfl, haware, haware, hpre, hpre⟩ h
    (SchedulerState.fresh_idle records) (SchedulerState.fresh_idle records)
    (fun _ _ => rfl) now now'
  exact ⟨s', t', hrun, hrun', fun b _ => hsame b⟩

/-- The EMERGENCY bundle with and without the two TELEMETRY bundles. -/
theorem strict_priority_noninterference_small :
    ∃ s' t', run Small.scheduler 0 [Small.early, Small.doomed, Small.late]
        (SchedulerState.fresh fun _ => {}) = .ok ⟨⟩ s' ∧
      run Small.scheduler 1 ([Small.early, Small.doomed, Small.late].filter
        fun b => decide (b.rank ≤ 0)) (SchedulerState.fresh fun _ => {}) = .ok ⟨⟩ t' ∧
      ∀ b ∈ [Small.early, Small.doomed, Small.late], b.rank ≤ 0 → s'.records b = t'.records b :=
  strict_priority_noninterference rfl (by decide) 0 0 1 Small.valid

/-- EMERGENCY bundles fare alike under the preempting policies, whatever the deficits and the
rotation are at the start and whatever the other classes send. -/
theorem preempting_policies_agree_on_emergency {sch₁ sch₂ : Scheduler}
    (hplan : sch₁.plan = sch₂.plan) (hcap : sch₁.maxQueueBytes = sch₂.maxQueueBytes)
    (hpolicy₁ : Preempting sch₁.policy) (hpolicy₂ : Preempting sch₂.policy)
    (haware₁ : sch₁.admissionIsPriorityAware = true)
    (haware₂ : sch₂.admissionIsPriorityAware = true) {bundles₁ bundles₂ : List Bundle}
    {s₁ s₂ : SchedulerState} (h₁ : Valid bundles₁ s₁.records) (h₂ : Valid bundles₂ s₂.records)
    (hemergency : bundles₁.filter (fun b => decide (b.trafficClass = .emergency)) =
      bundles₂.filter fun b => decide (b.trafficClass = .emergency))
    (hrecords : s₁.records = s₂.records) (hs₁ : s₁.Idle) (hs₂ : s₂.Idle) (now₁ now₂ : ℚ) :
    ∃ s₁' s₂', run sch₁ now₁ bundles₁ s₁ = .ok ⟨⟩ s₁' ∧ run sch₂ now₂ bundles₂ s₂ = .ok ⟨⟩ s₂' ∧
      ∀ b ∈ bundles₁, b.trafficClass = .emergency → s₁'.records b = s₂'.records b := by
  have hpre₁ := preempts_emergency hpolicy₁
  have hpre₂ := preempts_emergency hpolicy₂
  -- both runs are compared with the second scheduler's run on the EMERGENCY bundles
  obtain ⟨s₁', t', hrun₁, ht', hsame₁⟩ := run_shadow (t := s₂)
    ⟨hplan.symm, hcap.symm, haware₁, haware₂, hpre₁, hpre₂⟩ h₁ hs₁ hs₂
    (fun b _ => by rw [hrecords]) now₁ 0
  obtain ⟨s₂', t'', hrun₂, ht'', hsame₂⟩ := run_shadow (t := s₂)
    ⟨rfl, rfl, haware₂, haware₂, hpre₂, hpre₂⟩ h₂ hs₂ hs₂ (fun _ _ => rfl) now₂ 0
  have hup : (fun b : Bundle => decide (b.trafficClass = .emergency)) = Bundle.upTo 0 :=
    funext fun b => b.upTo_zero.symm
  have hsub : bundles₁.filter (Bundle.upTo 0) = bundles₂.filter (Bundle.upTo 0) := by
    rwa [hup] at hemergency
  rw [hsub, ht''] at ht'
  cases ht'
  refine ⟨s₁', s₂', hrun₁, hrun₂, fun b _ hb => ?_⟩
  have hrank : b.rank ≤ 0 := (classSpecs_rank_le_zero_iff b.trafficClass).2 hb
  calc s₁'.records b
      _ = t'.records b := hsame₁ b hrank
      _ = s₂'.records b := (hsame₂ b hrank).symm

theorem Small.late_sublist : [Small.late].Sublist [Small.early, Small.doomed, Small.late] :=
  List.sublist_append_right [Small.early, Small.doomed] [Small.late]

/-- A scheduler in the middle of its rotation, with deficits left from earlier windows. -/
def Small.midRotation : SchedulerState :=
  { SchedulerState.fresh fun _ => {} with deficit := fun _ => 800, rotationIndex := 2 }

/-- WFQ in the middle of its rotation against STRICT_PRIORITY from the start. -/
theorem preempting_policies_agree_on_emergency_small :
    ∃ s₁' s₂', run { Small.scheduler with policy := .wfq } 0
        [Small.early, Small.doomed, Small.late] Small.midRotation = .ok ⟨⟩ s₁' ∧
      run Small.scheduler 1 [Small.late] (SchedulerState.fresh fun _ => {}) = .ok ⟨⟩ s₂' ∧
      ∀ b ∈ [Small.early, Small.doomed, Small.late], b.trafficClass = .emergency →
        s₁'.records b = s₂'.records b := by
  apply preempting_policies_agree_on_emergency
  · rfl
  · rfl
  · exact .inl rfl
  · exact .inr (.inr rfl)
  · rfl
  · rfl
  · exact Small.valid
  · exact Small.valid.sublist Small.late_sublist
  · rfl
  · rfl
  · exact ⟨rfl, rfl⟩
  · exact ⟨rfl, rfl⟩

end Gateway
end LunaBridge
