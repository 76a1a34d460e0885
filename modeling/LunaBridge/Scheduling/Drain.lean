import LunaBridge.Scheduling.RoundRobin

/-!
# Drain — what the seven policies have in common and where they differ

`Drained` describes the service of one window: which of the eligible bundles went out, within
which budget, and for every policy in which order.  `drainByPolicy_spec` covers the seven drains,
`drainWindow_spec` the window as a whole.
-/

namespace LunaBridge
namespace Gateway

open Foundation.Machine Foundation.Selection Foundation.GreedyFill Foundation.StableSort

/-- How a policy walks the eligible bundles: whether it stops at the first one that does not fit,
and in which order it tries them.  The two WFQ policies do not walk one list. -/
def Scheduler.drainOrder (sch : Scheduler) (w : ContactWindow) (bs : List Bundle) :
    Option (Bool × List Bundle) :=
  match sch.policy with
  | .fifo => some (!sch.fifoSkipOver, sortBy Bundle.ingressTs bs)
  | .strictPriority => some (false, strictOrder bs)
  | .wfq => none
  | .wfqSkipOver => none
  | .deadlineAware => some (false, sortBy Bundle.deadline bs)
  | .utilityAware => some (false,
      sortByDesc Bundle.utilityWeight (bs.filter (atRisk (nextWindowStart sch w))) ++
        sortByDesc Bundle.utilityDensity (bs.filter fun b => !atRisk (nextWindowStart sch w) b))
  | .utilityPure => some (false, sortByDesc Bundle.utilityDensity bs)

/-- The two tiers of UTILITY_AWARE are all of the eligible bundles. -/
theorem utilityTiers_perm (sch : Scheduler) (w : ContactWindow) (bs : List Bundle) :
    (sortByDesc Bundle.utilityWeight (bs.filter (atRisk (nextWindowStart sch w))) ++
      sortByDesc Bundle.utilityDensity
        (bs.filter fun b => !atRisk (nextWindowStart sch w) b)).Perm bs :=
  ((sortByDesc_perm _ _).append (sortByDesc_perm _ _)).trans (List.filter_append_perm _ bs)

theorem Scheduler.drainOrder_perm {sch : Scheduler} {w : ContactWindow} {bs order : List Bundle}
    {stop : Bool} (h : sch.drainOrder w bs = some (stop, order)) : order.Perm bs := by
  unfold Scheduler.drainOrder at h
  split at h <;> cases h
  · exact sortBy_perm _ _
  · exact sortBy_perm _ _
  · exact sortBy_perm _ _
  · exact utilityTiers_perm sch w bs
  · exact sortByDesc_perm _ _

/-- The bundles `sent` are an admissible service of window `w` to the bundles `bs`.  The round robin
is sure to exhaust an ample budget only when no class starts in debt, which is what `credit`
stands for. -/
structure Service (sch : Scheduler) (w : ContactWindow) (bs sent : List Bundle) (credit : Prop) :
    Prop where
  nodup : sent.Nodup
  subset : ∀ b ∈ sent, b ∈ bs
  inBudget : load Bundle.bits sent ≤ w.rawBitBudget
  complete : credit → load Bundle.bits bs ≤ w.rawBitBudget → ∀ b ∈ bs, b ∈ sent
  ordered : ∀ stop order, sch.drainOrder w bs = some (stop, order) →
    sent = greedyFill Bundle.bits stop w.rawBitBudget order
  preempt : sch.drainOrder w bs = none →
    sent.filter (fun b => decide (b.trafficClass = .emergency)) =
      greedyFill Bundle.bits false w.rawBitBudget (classQueue bs .emergency)

theorem bits_uniform {bs : List Bundle} {size : ℤ} (h : ∀ b ∈ bs, b.sizeBytes = size) :
    ∀ b ∈ bs, b.bits = (size : ℚ) * 8 :=
  fun b hb => by rw [Bundle.bits, h b hb]

/-- With bundles of one size, what is sent precedes what is left behind in the policy's order. -/
theorem Service.uniform_before {sch : Scheduler} {w : ContactWindow} {bs sent order : List Bundle}
    {credit : Prop} {size : ℤ} {stop : Bool} {R : Bundle → Bundle → Prop}
    (service : Service sch w bs sent credit) (huniform : ∀ b ∈ bs, b.sizeBytes = size)
    (horder : sch.drainOrder w bs = some (stop, order)) (hsorted : order.Pairwise R)
    {g b : Bundle} (hg : g ∈ sent) (hb : b ∈ bs) (hout : b ∉ sent) : R g b := by
  have hperm := Scheduler.drainOrder_perm horder
  -- what is sent is a prefix of the order
  obtain ⟨rest, hrest⟩ := greedyFill_uniform_isPrefix stop w.rawBitBudget
    (bits_uniform fun c hc => huniform c (hperm.subset hc))
  rw [← service.ordered _ _ horder] at hrest
  have hb' : b ∈ sent ++ rest := hrest ▸ hperm.symm.subset hb
  rw [← hrest] at hsorted
  exact (List.pairwise_append.1 hsorted).2.2 g hg b ((List.mem_append.1 hb').resolve_left hout)

/-- A drain has served window `w`: the bundles `sent` have gone out. -/
structure Drained (sch : Scheduler) (w : ContactWindow) (bs : List Bundle) (s : SchedulerState)
    (sent : List Bundle) (s' : SchedulerState) : Prop where
  service : Service sch w bs sent s.InCredit
  buffer : s'.toBuffer = s.toBuffer.settle (Lifecycle.delivered w) sent
  credit : s.InCredit → s'.InCredit

section Walks

variable {sch : Scheduler} {w : ContactWindow} {bs order : List Bundle} {stop : Bool}
  {s s' : SchedulerState}

/-- A greedy walk over the policy's order serves the window. -/
theorem Drained.of_walk (hbs : Serviceable s.toBuffer bs) (hsizes : ∀ b ∈ bs, 0 < b.sizeBytes)
    (horder : sch.drainOrder w bs = some (stop, order))
    (h : Became s (s.toBuffer.settle (Lifecycle.delivered w)
      (greedyFill Bundle.bits stop w.rawBitBudget order)) s') :
    Drained sch w bs s (greedyFill Bundle.bits stop w.rawBitBudget order) s' := by
  have hperm := Scheduler.drainOrder_perm horder
  have hsub := greedyFill_sublist Bundle.bits stop w.rawBitBudget order
  refine ⟨⟨(hperm.nodup_iff.2 hbs.nodup).sublist hsub, fun b hb => hperm.subset (hsub.subset hb),
    load_greedyFill_le _ stop w.rawBitBudget_pos.le order, ?_, ?_, ?_⟩, h.buffer,
    fun hs u => by simpa [h.deficit] using hs u⟩
  · -- an ample budget is spent on the whole list
    intro _ hample b hb
    rw [← load_perm hperm] at hample
    rw [greedyFill_eq_self stop (fun c hc => Bundle.bits_nonneg (hsizes c (hperm.subset hc)))
      hample]
    exact hperm.symm.subset hb
  · intro stop' order' h'
    rw [horder] at h'
    cases h'
    rfl
  · intro hnone
    rw [horder] at hnone
    cases hnone

theorem drainOrdered_spec (hbs : Serviceable s.toBuffer bs) (hsizes : ∀ b ∈ bs, 0 < b.sizeBytes)
    (horder : sch.drainOrder w bs = some (stop, order)) (reason : String) :
    Returns (drainOrdered order w reason stop) s fun _ s' => ∃ sent, Drained sch w bs s sent s' :=
  (transmitLoop_spec w reason stop order w.rawBitBudget s
    (hbs.perm (Scheduler.drainOrder_perm horder))).mono fun _ _ h' =>
      ⟨_, .of_walk hbs hsizes horder h'.2⟩

/-- The two tiers of UTILITY_AWARE are one walk over both lists. -/
theorem drainUtilityAware_spec (hpolicy : sch.policy = .utilityAware)
    (hbs : Serviceable s.toBuffer bs) (hsizes : ∀ b ∈ bs, 0 < b.sizeBytes)
    (hlife : ∀ b ∈ bs, b.expirationTs ≠ none) :
    Returns (drainUtilityAware sch bs w) s fun _ s' => ∃ sent, Drained sch w bs s sent s' := by
  -- neither exception is raised: every bundle has a lifetime and a size
  have hlife' : ¬ bs.any (fun b => b.expirationTs.isNone) = true := by
    simpa using hlife
  have hnonzero : ¬ (bs.filter fun b => !atRisk (nextWindowStart sch w) b).any
      (fun b => decide (b.sizeBytes = 0)) = true := by
    intro h
    rcases List.any_eq_true.1 h with ⟨b, hb, hzero⟩
    have := hsizes b (List.mem_of_mem_filter hb)
    simp at hzero
    omega
  unfold drainUtilityAware
  rw [if_neg hlife']
  simp only [if_neg hnonzero]
  have horder : sch.drainOrder w bs = some (false,
      sortByDesc Bundle.utilityWeight (bs.filter (atRisk (nextWindowStart sch w))) ++
        sortByDesc Bundle.utilityDensity
          (bs.filter fun b => !atRisk (nextWindowStart sch w) b)) := by
    simp [Scheduler.drainOrder, hpolicy]
  have hserv := hbs.perm (Scheduler.drainOrder_perm horder)
  -- what the first tier sends is not in the second
  have hsep : ∀ u ∈ greedyFill Bundle.bits false w.rawBitBudget
      (sortByDesc Bundle.utilityWeight (bs.filter (atRisk (nextWindowStart sch w)))),
      u ∉ sortByDesc Bundle.utilityDensity
        (bs.filter fun b => !atRisk (nextWindowStart sch w) b) := fun u hu hu' =>
    (List.nodup_append.1 hserv.nodup).2.2 u ((greedyFill_sublist _ _ _ _).subset hu) u hu' rfl
  refine (transmitLoop_spec w _ false _ _ s
    (hserv.sublist (List.sublist_append_left _ _))).bind fun left s₁ h₁ => ?_
  rcases h₁ with ⟨rfl, h₁⟩
  have hserv₁ : Serviceable s₁.toBuffer (sortByDesc Bundle.utilityDensity
      (bs.filter fun b => !atRisk (nextWindowStart sch w) b)) := by
    rw [h₁.buffer]
    exact (hserv.sublist (List.sublist_append_right _ _)).settle hsep
  refine (transmitLoop_spec w _ false _ _ s₁ hserv₁).bind fun _ s' h' => ?_
  refine Returns.pure ⟨_, .of_walk hbs hsizes horder ((h₁.trans h'.2).cast ?_)⟩
  rw [h₁.buffer, Buffer.settle_settle, greedyFill_append]
  exact fun u hu hu' => hsep u hu ((greedyFill_sublist _ _ _ _).subset hu')

end Walks

/-! ## Weighted fair queueing -/

section Wfq

variable {sch : Scheduler} {w : ContactWindow} {bs : List Bundle} {s : SchedulerState}

theorem rotation_perm (rotationIndex : ℕ) : (rotation rotationIndex).Perm wfqClasses := by
  refine List.perm_append_comm.trans ?_
  rw [List.take_append_drop]

theorem mem_rotation {rotationIndex : ℕ} {tc : TrafficClass} :
    tc ∈ rotation rotationIndex ↔ tc ≠ .emergency := by
  rw [(rotation_perm rotationIndex).mem_iff]
  cases tc <;> simp [wfqClasses]

theorem rotation_nodup (rotationIndex : ℕ) : (rotation rotationIndex).Nodup :=
  (rotation_perm rotationIndex).nodup_iff.2 (by decide)

theorem mem_classQueue {tc : TrafficClass} {b : Bundle} :
    b ∈ classQueue bs tc ↔ b ∈ bs ∧ b.trafficClass = tc := by
  simp [classQueue]

/-- EMERGENCY and the queues the rotation visits are all of the eligible bundles. -/
theorem classQueue_perm (hbs : bs.Nodup) (rotationIndex : ℕ) :
    (classQueue bs .emergency ++ (rotation rotationIndex).flatMap (classQueue bs)).Perm bs := by
  have hqueues : ((rotation rotationIndex).flatMap (classQueue bs)).Perm
      (bs.filter fun b => !decide (b.trafficClass = .emergency)) := by
    refine (List.Perm.flatMap_left _ fun tc _ => sortBy_perm _ _).trans ?_
    refine (flatMap_filter_perm (rotation_nodup rotationIndex) hbs Bundle.trafficClass).trans ?_
    refine List.Perm.of_eq (List.filter_congr fun b _ => ?_)
    rw [← decide_not, decide_eq_decide, mem_rotation]
  exact ((sortBy_perm _ _).append hqueues).trans (List.filter_append_perm _ bs)

theorem resetIdle_spec (byClass : TrafficClass → List Bundle) :
    ∀ (tcs : List TrafficClass) (s : SchedulerState),
      Returns (resetIdle byClass tcs) s fun _ s' =>
        s'.toBuffer = s.toBuffer ∧ (s.InCredit → s'.InCredit) := by
  intro tcs
  induction tcs with
  | nil => exact fun s => Returns.pure ⟨rfl, id⟩
  | cons tc tcs ih =>
      intro s
      unfold resetIdle
      split
      · refine (setDeficit_spec tc 0 s).bind fun _ s₁ h₁ => (ih s₁).mono fun _ s' h' => ?_
        subst h₁
        exact ⟨h'.1, fun hs => h'.2 (hs.update tc le_rfl)⟩
      · exact ih s

/-- The EMERGENCY bundles a WFQ window sends ahead of its round robin. -/
def preempted (w : ContactWindow) (bs : List Bundle) : List Bundle :=
  greedyFill Bundle.bits false w.rawBitBudget (classQueue bs .emergency)

theorem mem_preempted {b : Bundle} (h : b ∈ preempted w bs) :
    b ∈ bs ∧ b.trafficClass = .emergency :=
  mem_classQueue.1 ((greedyFill_sublist _ _ _ _).subset h)

/-- The locals the round robin starts with: the other queues, and the bits EMERGENCY left. -/
def roundStart (w : ContactWindow) (bs : List Bundle) : RoundLocals where
  remainingBits := w.rawBitBudget - load Bundle.bits (preempted w bs)
  byClass := classQueue bs

/-- No preempted bundle is queued for the round robin. -/
theorem preempted_notMem_queued {rotationIndex : ℕ} {b : Bundle} (h : b ∈ preempted w bs) :
    b ∉ (roundStart w bs).queued (rotation rotationIndex) := by
  intro hb
  rcases List.mem_flatMap.1 hb with ⟨tc, htc, hb'⟩
  apply mem_rotation.1 htc
  rw [← (mem_classQueue.1 hb').2, (mem_preempted h).2]

/-- A budget that covers the eligible bundles covers EMERGENCY, and what is left covers the rest. -/
theorem preempted_of_ample (hbs : bs.Nodup) (hsizes : ∀ b ∈ bs, 0 < b.sizeBytes)
    (rotationIndex : ℕ) (hample : load Bundle.bits bs ≤ w.rawBitBudget) :
    preempted w bs = classQueue bs .emergency ∧
      load Bundle.bits ((roundStart w bs).queued (rotation rotationIndex)) ≤
        (roundStart w bs).remainingBits := by
  have hperm := classQueue_perm hbs rotationIndex
  have hbits : ∀ {qs : List Bundle}, (∀ b ∈ qs, b ∈ bs) → ∀ b ∈ qs, 0 ≤ b.bits :=
    fun hqs b hb => Bundle.bits_nonneg (hsizes b (hqs b hb))
  rw [← load_perm hperm, load_append] at hample
  have hrest : 0 ≤ load Bundle.bits ((rotation rotationIndex).flatMap (classQueue bs)) :=
    load_nonneg (hbits fun b hb => hperm.subset (List.mem_append_right _ hb))
  have hfill : preempted w bs = classQueue bs .emergency :=
    greedyFill_eq_self false (hbits fun b hb => (mem_classQueue.1 hb).1) (by linarith)
  refine ⟨hfill, ?_⟩
  simp only [roundStart, RoundLocals.queued, hfill]
  linarith

/-- The round robin serves no EMERGENCY. -/
theorem filter_emergency {rotationIndex : ℕ} {sent : List Bundle}
    (hsub : ∀ b ∈ sent, b ∈ (roundStart w bs).queued (rotation rotationIndex)) :
    (preempted w bs ++ sent).filter (fun b => decide (b.trafficClass = .emergency)) =
      preempted w bs := by
  have hother : ∀ b ∈ sent, b.trafficClass ≠ .emergency := by
    intro b hb
    rcases List.mem_flatMap.1 (hsub b hb) with ⟨tc, htc, hb'⟩
    rw [(mem_classQueue.1 hb').2]
    exact mem_rotation.1 htc
  rw [List.filter_append, List.filter_eq_self.2 fun b hb => decide_eq_true (mem_preempted hb).2,
    List.filter_eq_nil_iff.2 fun b hb => by simpa using hother b hb, List.append_nil]

theorem ready_roundStart (hbs : Serviceable s.toBuffer bs) (hsizes : ∀ b ∈ bs, 0 < b.sizeBytes)
    (rotationIndex : ℕ) {s₁ : SchedulerState}
    (h₁ : s₁.toBuffer = s.toBuffer.settle (Lifecycle.delivered w) (preempted w bs)) :
    Ready (rotation rotationIndex) (roundStart w bs) s₁ := by
  have hperm := classQueue_perm hbs.nodup rotationIndex
  refine ⟨?_, fun b hb => hsizes b (hperm.subset (List.mem_append_right _ hb)),
    sub_nonneg.2 (load_greedyFill_le _ false w.rawBitBudget_pos.le _)⟩
  rw [h₁]
  exact ((hbs.perm hperm).sublist (List.sublist_append_right _ _)).settle
    fun v hv => preempted_notMem_queued hv

/-- EMERGENCY first, then what the round robin sent, serve the window. -/
theorem Drained.of_rounds (horder : sch.drainOrder w bs = none) (hbs : Serviceable s.toBuffer bs)
    (hsizes : ∀ b ∈ bs, 0 < b.sizeBytes) {rotationIndex : ℕ} {s₁ s₂ s' : SchedulerState}
    {sent : List Bundle} {l' : RoundLocals}
    (h₁ : s₁.toBuffer = s.toBuffer.settle (Lifecycle.delivered w) (preempted w bs))
    (hdef₁ : s.InCredit → s₁.InCredit)
    (hprog : Progress w (rotation rotationIndex) (roundStart w bs) s₁ sent l' s₂)
    (hdone : s₁.InCredit → load Bundle.bits
      ((roundStart w bs).queued (rotation rotationIndex)) ≤ (roundStart w bs).remainingBits →
      l'.queued (rotation rotationIndex) = [])
    (hbuffer : s'.toBuffer = s₂.toBuffer) (hdef : s'.deficit = s₂.deficit) :
    Drained sch w bs s (preempted w bs ++ sent) s' := by
  have hperm := classQueue_perm hbs.nodup rotationIndex
  have hready := ready_roundStart hbs hsizes rotationIndex h₁
  have hsub : ∀ b ∈ sent, b ∈ (roundStart w bs).queued (rotation rotationIndex) := fun b hb =>
    hprog.perm.symm.subset (List.mem_append_left _ hb)
  have hsep : ∀ b ∈ preempted w bs, b ∉ sent := fun b hb hb' =>
    preempted_notMem_queued hb (hsub b hb')
  refine ⟨⟨?_, ?_, ?_, ?_, ?_, ?_⟩, ?_, ?_⟩
  · refine List.nodup_append.2 ⟨?_, ?_, ?_⟩
    · exact ((hbs.perm hperm).sublist (List.sublist_append_left _ _)).nodup.sublist
        (greedyFill_sublist _ _ _ _)
    · exact (List.nodup_append.1 (hprog.perm.nodup_iff.1 hready.serviceable.nodup)).1
    · rintro b hb c hc rfl
      exact hsep b hb hc
  · intro b hb
    rcases List.mem_append.1 hb with hb | hb
    · exact (mem_preempted hb).1
    · exact hperm.subset (List.mem_append_right _ (hsub b hb))
  · -- the rounds stay within what EMERGENCY has left
    have hleft := hprog.left ▸ hprog.inBudget
    have hstart : (roundStart w bs).remainingBits =
      w.rawBitBudget - load Bundle.bits (preempted w bs) := rfl
    rw [load_append]
    linarith
  · -- without debts the rounds empty the queues
    intro hs hample b hb
    rcases preempted_of_ample hbs.nodup hsizes rotationIndex hample with ⟨hfill, hrest⟩
    have hqueued := hprog.perm
    rw [hdone (hdef₁ hs) hrest, List.append_nil] at hqueued
    rw [hfill]
    exact (hperm.symm.trans (hqueued.append_left _)).subset hb
  · intro stop order hsome
    rw [horder] at hsome
    cases hsome
  · intro _
    exact filter_emergency hsub
  · rw [hbuffer, hprog.buffer, h₁]
    exact Buffer.settle_settle _ hsep
  · intro hs u
    rw [hdef]
    exact hprog.credit (hdef₁ hs) u

theorem drainWfq_spec (horder : sch.drainOrder w bs = none) (hbs : Serviceable s.toBuffer bs)
    (hsizes : ∀ b ∈ bs, 0 < b.sizeBytes) (skip : Bool) :
    Returns (drainWfq bs w skip) s fun _ s' => ∃ sent, Drained sch w bs s sent s' := by
  have hemerg : Serviceable s.toBuffer (classQueue bs .emergency) :=
    (hbs.perm (classQueue_perm hbs.nodup 0)).sublist (List.sublist_append_left _ _)
  refine (transmitLoop_spec w _ false _ _ s hemerg).bind fun left s₁ h₁ => ?_
  rcases h₁ with ⟨rfl, h₁⟩
  refine Returns.get_bind ((resetIdle_spec _ _ s₁).bind fun _ s₂ h₂ => ?_)
  have hbuffer : s₂.toBuffer = s.toBuffer.settle (Lifecycle.delivered w) (preempted w bs) :=
    h₂.1.trans h₁.buffer
  have hready := ready_roundStart hbs hsizes s₁.rotationIndex hbuffer
  refine (drrLoop_spec skip (rotation_nodup _) maxRounds 0 _ s₂ hready).bind fun l' s₃ h₃ => ?_
  rcases h₃ with ⟨⟨sent, hprog⟩, hdone⟩
  -- the defensive bound leaves a round for each of the three classes
  have hrounds : (backlogged (rotation s₁.rotationIndex) (classQueue bs)).length ≤ maxRounds := by
    refine (List.length_filter_le _ _).trans ?_
    rw [(rotation_perm _).length_eq]
    decide
  refine Returns.modify ⟨preempted w bs ++ sent, .of_rounds horder hbs hsizes hbuffer
    (fun hs => h₂.2 fun u => by simpa [h₁.deficit] using hs u) hprog
    (fun hs hample => hdone hs hample hrounds) rfl rfl⟩

end Wfq

/-! ## Dispatch -/

section Dispatch

variable {sch : Scheduler} {w : ContactWindow} {s : SchedulerState}

/-- Each of the seven drains serves the window. -/
theorem drainByPolicy_spec {bs : List Bundle} (hbs : Serviceable s.toBuffer bs)
    (hsizes : ∀ b ∈ bs, 0 < b.sizeBytes) (hlife : ∀ b ∈ bs, b.expirationTs ≠ none) :
    Returns (drainByPolicy sch bs w) s fun _ s' => ∃ sent, Drained sch w bs s sent s' := by
  unfold drainByPolicy
  split <;> rename_i hpolicy
  · -- FIFO
    exact (drainOrdered_spec hbs hsizes (by simp [Scheduler.drainOrder, hpolicy]) _).bind
      fun _ _ h => Returns.pure h
  · -- STRICT_PRIORITY
    exact (drainOrdered_spec hbs hsizes (by simp [Scheduler.drainOrder, hpolicy]) _).bind
      fun _ _ h => Returns.pure h
  · -- WFQ and WFQ_SKIP_OVER
    exact drainWfq_spec (by simp [Scheduler.drainOrder, hpolicy]) hbs hsizes false
  · exact drainWfq_spec (by simp [Scheduler.drainOrder, hpolicy]) hbs hsizes true
  · -- DEADLINE_AWARE: with a lifetime on every bundle the sort raises nothing
    have hlife' : ¬ (1 < bs.length ∧ bs.any (fun b => b.expirationTs.isNone) = true) := by
      simpa using fun _ => hlife
    unfold drainEdf
    rw [if_neg hlife']
    exact (drainOrdered_spec hbs hsizes (by simp [Scheduler.drainOrder, hpolicy]) _).bind
      fun _ _ h => Returns.pure h
  · -- UTILITY_AWARE
    exact drainUtilityAware_spec hpolicy hbs hsizes hlife
  · -- UTILITY_PURE: no density divides by zero
    have hnonzero : ¬ bs.any (fun b => decide (b.sizeBytes = 0)) = true := by
      simpa using fun b hb => (hsizes b hb).ne'
    unfold drainUtilityPure
    rw [if_neg hnonzero]
    exact (drainOrdered_spec hbs hsizes (by simp [Scheduler.drainOrder, hpolicy]) _).bind
      fun _ _ h => Returns.pure h

variable {future : List Bundle}

/-- The queued bundles that arrive before `w` closes. -/
def Buffer.ready (w : ContactWindow) (β : Buffer) : List Bundle :=
  β.active.filter fun b => decide (b.ingressTs < w.endTs)

@[simp] theorem Buffer.mem_ready {β : Buffer} {b : Bundle} :
    b ∈ β.ready w ↔ b ∈ β.active ∧ b.ingressTs < w.endTs := by
  simp [Buffer.ready]

theorem eligible_eq_ready (h : s.toBuffer.WellFormed sch future) :
    eligible w s.toBuffer = s.toBuffer.ready w := by
  apply List.filter_congr
  intro b hb
  simp [h.active_pending hb]

/-- Dropping what is no longer pending from the list drops exactly what has been sent. -/
theorem filter_pending_settle (h : s.toBuffer.WellFormed sch future) (sent : List Bundle) :
    (s.active.filter fun b => decide
      (((s.toBuffer.settle (Lifecycle.delivered w) sent).records b).terminalState = .pending)) =
      without s.active sent := by
  apply List.filter_congr
  intro b hb
  rw [decide_eq_decide]
  by_cases hsent : b ∈ sent
  · simp [Buffer.settle, overwrite, hsent, Lifecycle.delivered]
  · simp [Buffer.settle, overwrite, hsent, h.active_pending hb]

/-- A window sends some of the bundles that are ready, and they leave the queue. -/
theorem drainWindow_spec (h : s.toBuffer.WellFormed sch future) :
    Returns (drainWindow sch w) s fun _ s' => ∃ sent,
      Service sch w (s.toBuffer.ready w) sent s.InCredit ∧ (s.InCredit → s'.InCredit) ∧
      s'.toBuffer = s.toBuffer.transmitted w sent ∧ s'.toBuffer.WellFormed sch future := by
  have hmem : ∀ b ∈ s.toBuffer.ready w, b ∈ s.active := fun b hb => List.mem_of_mem_filter hb
  have hbs : Serviceable s.toBuffer (s.toBuffer.ready w) :=
    ⟨h.active_nodup.filter _, fun b hb => h.active_pending (hmem b hb)⟩
  refine Returns.get_bind ?_
  rw [eligible_eq_ready h]
  refine (drainByPolicy_spec hbs (fun b hb => h.active_size_pos (hmem b hb))
    fun b hb => h.active_lifetime (hmem b hb)).bind fun _ s₁ h₁ => ?_
  rcases h₁ with ⟨sent, hdrain⟩
  have hbuffer : (⟨s₁.active.filter fun b => decide ((s₁.records b).terminalState = .pending),
      s₁.activeBytes, s₁.records⟩ : Buffer) = s.toBuffer.transmitted w sent := by
    rw [hdrain.buffer]
    ext1
    · exact filter_pending_settle h sent
    · rfl
    · rfl
  refine Returns.modify ⟨sent, hdrain.service, hdrain.credit, hbuffer, ?_⟩
  have hwf := h.transmitted w hdrain.service.nodup fun b hb => hmem b (hdrain.service.subset b hb)
  rw [← hbuffer] at hwf
  exact hwf

end Dispatch

end Gateway
end LunaBridge
