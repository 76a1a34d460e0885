import LunaBridge.Scheduling.Edf
import LunaBridge.Scheduling.Noninterference

/-!
# EmergencyFirst — draining EMERGENCY first delivers as much of it as any scheduler could

Two policies that would send in the same order wherever the run opens a window end with the same
buffer.  On bundles of one class whose deadlines follow their arrivals, strict priority and earliest
deadline first are two such policies.  A preempting policy serves EMERGENCY as strict priority would
serve it alone, and so inherits the optimality of earliest deadline first.
-/

namespace LunaBridge
namespace Gateway

open Foundation.Machine Foundation.Selection Foundation.Trace Foundation.StableSort
open Foundation.GreedyFill Foundation.SlotAssignment

/-! ## Policies that order alike -/

/-- Wherever a run over `bundles` opens a window, the two policies send in the same order. -/
def OrderAlike (sch sch' : Scheduler) (bundles : List Bundle) : Prop :=
  ∀ (w : ContactWindow) (es : List Event) (β : Buffer),
    OnTimeline sch bundles (.contact w :: es) β →
      ∃ stop order, sch.drainOrder w ((β.expire w.startTs).ready w) = some (stop, order) ∧
        sch'.drainOrder w ((β.expire w.startTs).ready w) = some (stop, order)

section OrderAlike

variable {sch sch' : Scheduler} {bundles : List Bundle}

/-- From the same buffer the same event leads both schedulers to the same buffer. -/
theorem OrderAlike.step (h : OrderAlike sch sch' bundles)
    (hcap : sch'.maxQueueBytes = sch.maxQueueBytes)
    (haware : sch'.admissionIsPriorityAware = sch.admissionIsPriorityAware) {credit credit' : Prop}
    {e : Event} {es : List Event} {β β' γ' : Buffer} (hon : OnTimeline sch bundles (e :: es) β)
    (hstep : Step sch credit e β β') (hstep' : Step sch' credit' e β γ') : γ' = β' := by
  cases hstep with
  | arrival b =>
      cases hstep'
      rw [Buffer.offer, Buffer.offer, admission_congr hcap haware]
  | @contact w _ sent service =>
      cases hstep' with
      | @contact _ _ sent' service' =>
          obtain ⟨stop, order, horder, horder'⟩ := h w es β hon
          have hsent : sent' = sent := by
            calc sent'
                _ = greedyFill Bundle.bits stop w.rawBitBudget order :=
                  service'.ordered stop order horder'
                _ = sent := (service.ordered stop order horder).symm
          rw [hsent]

/-- Two schedulers that differ only in policies which order alike end with the same buffer. -/
theorem OrderAlike.run_eq (h : OrderAlike sch sch' bundles) (hplan : sch'.plan = sch.plan)
    (hcap : sch'.maxQueueBytes = sch.maxQueueBytes)
    (haware : sch'.admissionIsPriorityAware = sch.admissionIsPriorityAware)
    {s : SchedulerState} (hvalid : Valid bundles s.records) (hs : s.Idle) (now now' : ℚ) :
    ∃ s' t', run sch now bundles s = .ok ⟨⟩ s' ∧ run sch' now' bundles s = .ok ⟨⟩ t' ∧
      t'.toBuffer = s'.toBuffer := by
  rcases (run_spec hvalid hs now : Returns (run sch now bundles) s _) with
    ⟨_, s', hrun, β, hβ, hbuffer⟩
  rcases (run_spec hvalid hs now' : Returns (run sch' now' bundles) s _) with
    ⟨_, t', hrun', γ, hγ, hbuffer'⟩
  have htimeline := hγ.1
  rw [hplan, ← List.filter_true (timeline sch.plan.windows bundles)] at htimeline
  -- the two runs see the same events, and so the same buffers
  have hend := Run.relate (R := fun es β γ => OnTimeline sch bundles es β ∧ γ = β)
    (fun e es β β' γ γ' _ hR hstep hstep' => by
      rcases hR with ⟨hon, rfl⟩
      exact ⟨hon.step hstep, h.step hcap haware hon hstep hstep'⟩)
    (fun _ _ _ _ _ hskip => by cases hskip)
    hβ.1 htimeline ⟨hvalid.onTimeline hs sch, rfl⟩
  refine ⟨s', t', hrun, hrun', ?_⟩
  rw [hbuffer, hbuffer', hplan, hend.2]

end OrderAlike

/-! ## Deadlines that follow the arrivals -/

/-- Bundles of one size whose deadlines follow their arrivals. -/
structure Regular (bundles : List Bundle) : Prop where
  sizes : ∀ a ∈ bundles, ∀ b ∈ bundles, a.sizeBytes = b.sizeBytes
  deadlines : ∀ a ∈ bundles, ∀ b ∈ bundles, a.ingressTs ≤ b.ingressTs → a.deadline ≤ b.deadline

/-- On bundles of one rank, strict priority orders by arrival, and so by deadline. -/
theorem orderAlike_of_regular {sch : Scheduler} (hpolicy : sch.policy = .strictPriority)
    {bundles : List Bundle} {r : ℤ} (hrank : ∀ b ∈ bundles, b.rank = r) (h : Regular bundles) :
    OrderAlike sch { sch with policy := .deadlineAware } bundles := by
  intro w es β hon
  have hready : ∀ b ∈ (β.expire w.startTs).ready w, b ∈ bundles := fun b hb =>
    hon.known_active (of_mem_ready_expire hon.wellFormed hb).1
  -- what is ready stands in the order of its arrival
  have hsorted : ((β.expire w.startTs).ready w).Pairwise fun a b => a.ingressTs ≤ b.ingressTs :=
    (hon.wellFormed.expire w.startTs).active_ordered.sublist List.filter_sublist
  refine ⟨false, strictOrder ((β.expire w.startTs).ready w), ?_, ?_⟩
  · simp [Scheduler.drainOrder, hpolicy]
  · have hsame : strictOrder ((β.expire w.startTs).ready w) =
        sortBy Bundle.deadline ((β.expire w.startTs).ready w) := by
      refine insertionSort_congr (hsorted.imp_of_mem fun {a b} ha hb hab => ?_)
      have hkey : toLex (a.rank, a.ingressTs) ≤ toLex (b.rank, b.ingressTs) := by
        rw [hrank a (hready a ha), hrank b (hready b hb)]
        exact Prod.Lex.toLex_le_toLex.2 (Or.inr ⟨rfl, hab⟩)
      exact iff_of_true hkey (h.deadlines a (hready a ha) b (hready b hb) hab)
    simp [Scheduler.drainOrder, hsame]

/-! ## The most EMERGENCY bundles -/

/-- The EMERGENCY bundles of a list. -/
def emergencies (bundles : List Bundle) : List Bundle := bundles.filter (Bundle.upTo 0)

theorem mem_emergencies {bundles : List Bundle} {b : Bundle} :
    b ∈ emergencies bundles ↔ b ∈ bundles ∧ b.trafficClass = .emergency := by
  rw [emergencies, List.mem_filter, Bundle.upTo_zero, decide_eq_true_eq]

theorem emergencies_sublist (bundles : List Bundle) : (emergencies bundles).Sublist bundles :=
  List.filter_sublist

theorem rank_of_mem_emergencies {bundles : List Bundle} {b : Bundle}
    (hb : b ∈ emergencies bundles) : b.rank = 0 := by
  simp [Bundle.rank, classSpecs, (mem_emergencies.1 hb).2]

/-- What a feasible assignment places of some of the bundles, a feasible assignment places of
them alone. -/
theorem FeasibleAssignment.restrict {plan : ContactPlan} {bs bundles : List Bundle}
    {A : Bundle → Option ContactWindow} (hA : FeasibleAssignment plan bundles A)
    (hsizes : ∀ b ∈ bundles, 0 < b.sizeBytes) (hsub : bs.Sublist bundles) :
    ∃ A', FeasibleAssignment plan bs A' ∧ placed bs.toFinset A' = placed bs.toFinset A := by
  refine ⟨fun b => if b ∈ bs then A b else none, ⟨fun b w hb => ?_, fun w hw => ?_⟩, ?_⟩
  · by_cases hmem : b ∈ bs
    · rw [if_pos hmem] at hb
      exact ⟨hmem, (hA.usable b w hb).2⟩
    · rw [if_neg hmem] at hb
      cases hb
  · have hshare : (bs.filter fun b => decide ((if b ∈ bs then A b else none) = some w)) =
        bs.filter fun b => decide (A b = some w) :=
      List.filter_congr fun b hb => by rw [if_pos hb]
    calc load Bundle.bits (bs.filter fun b => decide ((if b ∈ bs then A b else none) = some w))
        _ = load Bundle.bits (bs.filter fun b => decide (A b = some w)) := by rw [hshare]
        _ ≤ load Bundle.bits (bundles.filter fun b => decide (A b = some w)) :=
          load_le_of_subperm (hsub.filter _).subperm fun b hb =>
            Bundle.bits_nonneg (hsizes b (List.mem_of_mem_filter hb))
        _ ≤ w.rawBitBudget := hA.inBudget w hw
  · refine Finset.filter_congr fun b hb => ?_
    simp only [if_pos (List.mem_toFinset.1 hb)]

/-- A scheduler delivers no more of some of the bundles than can be placed of them alone. -/
theorem run_places (sch : Scheduler) (now : ℚ) {bs bundles : List Bundle} {s : SchedulerState}
    (h : Valid bundles s.records) (hs : s.Idle) (hsub : bs.Sublist bundles) :
    Returns (run sch now bundles) s fun _ s' => ∃ A, FeasibleAssignment sch.plan bs A ∧
      placed bs.toFinset A = delivered bs s'.records := by
  refine (run_assigns sch now h hs).mono ?_
  rintro _ s' ⟨A, hA, -, hplaced⟩
  obtain ⟨A', hA', hsame⟩ := hA.restrict h.sizes hsub
  refine ⟨A', hA', hsame.trans ?_⟩
  ext b
  have hmem := Finset.ext_iff.1 hplaced b
  rw [placed, Finset.mem_filter, List.mem_toFinset, mem_delivered] at hmem ⊢
  refine and_congr_right fun hb => ?_
  have hb' := hsub.subset hb
  simpa [hb'] using hmem

section Emergency

variable {sch : Scheduler} {bundles : List Bundle} {records : Bundle → Lifecycle}

/-- With a cap that covers the bundles no bundle overflows. -/
theorem run_no_overflow {s : SchedulerState} (now : ℚ)
    (hcap : ((totalBytes bundles : ℤ) : ℚ) ≤ sch.maxQueueBytes) (h : Valid bundles s.records)
    (hs : s.Idle) :
    Returns (run sch now bundles) s fun _ s' =>
      ∀ b ∈ bundles, (s'.records b).terminalState ≠ .queueOverflow := by
  have hkeep : ∀ {vs : List Bundle} {f : Lifecycle → Lifecycle} {g : Bundle → Lifecycle},
      (∀ r, (f r).terminalState = .queueOverflow → r.terminalState = .queueOverflow) →
      (∀ b ∈ bundles, (g b).terminalState ≠ .queueOverflow) →
      ∀ b ∈ bundles, (overwrite f vs g b).terminalState ≠ .queueOverflow := by
    intro vs f g hf hg b hb hover
    by_cases hmem : b ∈ vs
    · rw [overwrite_of_mem hmem] at hover
      exact hg b hb (hf _ hover)
    · rw [overwrite_of_notMem hmem] at hover
      exact hg b hb hover
  refine (run_induction (I := fun _ β => ∀ b ∈ bundles,
      (β.records b).terminalState ≠ .queueOverflow) (fun e es β β' hon hI he => ?_) h hs
    (fun b hb => ?_) now).mono ?_
  · cases he with
    | arrival b =>
        rw [Buffer.offer_eq_accept h hcap hon.wellFormed hon.known]
        exact hkeep (fun r hr => hr) hI
    | contact service =>
        exact hkeep (fun r hr => by cases hr) (hkeep (fun r hr => by cases hr) hI)
  · show (s.records b).terminalState ≠ _
    rw [h.pending b hb]
    exact TerminalState.noConfusion
  · rintro _ s' ⟨β, -, hend, hbuffer⟩
    rw [hbuffer]
    refine hkeep (fun r hr => by cases hr) ?_
    cases sch.plan.lastEnd with
    | none => exact hend
    | some t => exact hkeep (fun r hr => by cases hr) hend

/-- On regular bundles of one rank no scheduler delivers more than strict priority. -/
theorem strict_reaches {r : ℤ} (hpolicy : sch.policy = .strictPriority) (now : ℚ)
    (hrank : ∀ b ∈ bundles, b.rank = r) (hregular : Regular bundles)
    (hcap : ((totalBytes bundles : ℤ) : ℚ) ≤ sch.maxQueueBytes) (h : Valid bundles records) :
    Returns (run sch now bundles) (SchedulerState.fresh records) fun _ s' =>
      ∀ A, FeasibleAssignment sch.plan bundles A →
        (placed bundles.toFinset A).card ≤ (delivered bundles s'.records).card := by
  cases hbundles : bundles with
  | nil =>
      rw [hbundles] at h
      refine (run_spec h (SchedulerState.fresh_idle records) now).mono fun _ s' _ A _ => ?_
      simp [placed]
  | cons b bs =>
      -- earliest deadline first sends in the same order
      let edf : Scheduler := { sch with
        policy := .deadlineAware
        priorityAwareAdmission := some sch.admissionIsPriorityAware }
      have halike : OrderAlike sch edf bundles := orderAlike_of_regular hpolicy hrank hregular
      obtain ⟨s', t', hrun, hrun', hbuffer⟩ :=
        halike.run_eq rfl rfl rfl h (SchedulerState.fresh_idle records) now now
      have hb : b ∈ bundles := by simp [hbundles]
      have hreaches : Returns (run edf now bundles) (SchedulerState.fresh records) _ :=
        edf_reaches rfl now (h.sizes b hb) (fun c hc => hregular.sizes c hc b hb) hcap h
          (SchedulerState.fresh_idle records)
      rcases hreaches with ⟨_, t'', hrun'', hmost⟩
      rw [hrun'] at hrun''
      cases hrun''
      rw [← hbundles]
      refine ⟨⟨⟩, s', hrun, fun A hA => ?_⟩
      rw [← hbuffer]
      exact hmost A hA

end Emergency

/-- A scheduler that drains EMERGENCY first, and whose cap covers the EMERGENCY bundles, loses none
of them to overflow.  If they have one size and deadlines that follow their arrivals, it delivers as
many of them as any scheduler for the same plan, whatever that one's policy and cap are and whatever
else is waiting. -/
theorem emergency_first_delivers_most {sch : Scheduler} (hpolicy : Preempting sch.policy)
    (haware : sch.admissionIsPriorityAware = true) (now : ℚ) {bundles : List Bundle}
    {records : Bundle → Lifecycle} (h : Valid bundles records)
    (hcap : ((totalBytes (emergencies bundles) : ℤ) : ℚ) ≤ sch.maxQueueBytes) :
    ∃ s', run sch now bundles (SchedulerState.fresh records) = .ok ⟨⟩ s' ∧
      (∀ b ∈ emergencies bundles, (s'.records b).terminalState ≠ .queueOverflow) ∧
      (Regular (emergencies bundles) → ∀ (other : Scheduler) (now' : ℚ), other.plan = sch.plan →
        ∃ t', run other now' bundles (SchedulerState.fresh records) = .ok ⟨⟩ t' ∧
          (delivered (emergencies bundles) t'.records).card ≤
            (delivered (emergencies bundles) s'.records).card) := by
  have hidle := SchedulerState.fresh_idle records
  have hvalid := h.sublist (emergencies_sublist bundles)
  -- the scheduler is compared with strict priority on the EMERGENCY bundles alone
  let strict : Scheduler := { sch with
    policy := .strictPriority
    priorityAwareAdmission := some true }
  have halike : Alike sch strict 0 :=
    ⟨rfl, rfl, haware, rfl, preempts_emergency hpolicy, preempts_strictPriority rfl 0⟩
  obtain ⟨s', t₁, hrun, hrun₁, hsame⟩ := run_shadow halike h hidle hidle (fun _ _ => rfl) now now
  have hrecords : ∀ b ∈ emergencies bundles, s'.records b = t₁.records b := fun b hb =>
    hsame b (rank_of_mem_emergencies hb).le
  refine ⟨s', hrun, fun b hb => ?_, fun hregular other now' hplan => ?_⟩
  · rcases (run_no_overflow now hcap hvalid hidle :
      Returns (run strict now (emergencies bundles)) _ _) with ⟨_, t₂, hrun₂, hnever⟩
    rw [emergencies, hrun₁] at hrun₂
    cases hrun₂
    rw [hrecords b hb]
    exact hnever b hb
  · rcases (strict_reaches rfl now (fun b hb => rank_of_mem_emergencies hb) hregular hcap hvalid :
      Returns (run strict now (emergencies bundles)) _ _) with ⟨_, t₂, hrun₂, hmost⟩
    rw [emergencies, hrun₁] at hrun₂
    cases hrun₂
    rcases (run_places other now' h hidle (emergencies_sublist bundles) :
      Returns (run other now' bundles) _ _) with ⟨_, t', hrun', A, hA, hplaced⟩
    refine ⟨t', hrun', ?_⟩
    have hdelivered : delivered (emergencies bundles) s'.records =
        delivered (emergencies bundles) t₁.records :=
      Finset.filter_congr fun b hb => by rw [hrecords b (List.mem_toFinset.1 hb)]
    rw [← hplaced, hdelivered]
    exact hmost A (hplan ▸ hA)

end Gateway
end LunaBridge
