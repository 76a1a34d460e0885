import LunaBridge.Scheduling.AuditTrail
import Mathlib.Data.List.Induction
import Mathlib.Data.List.MinMax

/-!
# Deficits — how much credit the round robin carries over

A turn ends at a head that exceeds the deficit of its class, or at one that exceeds the bits left of
the window.  In the first case the deficit is smaller than that head; in the second the class keeps
what it has and is credited again in the next round.  As long as no turn is cut short in this way
the deficits stay within the largest bundle of their class (`deficits_stay_bounded`).
-/

namespace LunaBridge
namespace Gateway

open Foundation.Machine Foundation.StableSort Foundation.Trace

/-! ## Turns that are cut short -/

/-- The turn of a queue ends at a head that the deficit covers and the bits left do not. -/
def cutShort : List Bundle → ℚ → ℚ → Bool
  | [], _, _ => false
  | head :: queue, deficit, remainingBits =>
      if head.bits ≤ deficit ∧ head.bits ≤ remainingBits then
        cutShort queue (deficit - head.bits) (remainingBits - head.bits)
      else
        decide (head.bits ≤ deficit)

/-- No turn of the classes still to come in a round is cut short. -/
def roundUncut (w : ContactWindow) (rnd : ℕ) (budgetThisRound wTotal : ℚ) :
    List TrafficClass → RoundLocals → SchedulerState → Bool
  | [], _, _ => true
  | tc :: tcs, l, s =>
      !cutShort (l.byClass tc) (s.deficit tc + quantum budgetThisRound wTotal tc)
          l.remainingBits &&
        (Foundation.Machine.outcome
          (classTurn w false rnd budgetThisRound wTotal tc l s)).all fun p =>
            roundUncut w rnd budgetThisRound wTotal tcs p.1 p.2

/-- No turn of the rounds still to come in a window is cut short. -/
def loopUncut (w : ContactWindow) (order : List TrafficClass) :
    ℕ → ℕ → RoundLocals → SchedulerState → Bool
  | 0, _, _, _ => true
  | left + 1, rnd, l, s =>
      if 0 < l.remainingBits ∧ someHeadFits l (backlogged order l.byClass) = true then
        let wTotal := ((backlogged order l.byClass).map fun tc => (classSpecs tc).queueBudget).sum
        roundUncut w rnd l.remainingBits wTotal (backlogged order l.byClass) l s &&
          (Foundation.Machine.outcome (roundOver w false rnd l.remainingBits wTotal
            (backlogged order l.byClass) l s)).all fun p =>
              loopUncut w order left (rnd + 1) p.1 p.2
      else
        true

/-- No turn of the window that is about to be drained is cut short. -/
def windowUncut (w : ContactWindow) (s : SchedulerState) : Bool :=
  let bs := eligible w s.toBuffer
  (Foundation.Machine.outcome
    (transmitLoop w "rank0" false (classQueue bs .emergency) w.rawBitBudget s)).all fun p =>
      (Foundation.Machine.outcome
        (resetIdle (classQueue bs) (rotation p.2.rotationIndex) p.2)).all fun p' =>
          loopUncut w (rotation p.2.rotationIndex) maxRounds 0
            { remainingBits := p.1, byClass := classQueue bs } p'.2

/-! ## One turn -/

/-- No queued bundle and no deficit exceeds the bound of its class. -/
structure Covers (bound : TrafficClass → ℚ) (l : RoundLocals) (s : SchedulerState) : Prop where
  queues : ∀ tc, ∀ b ∈ l.byClass tc, b.bits ≤ bound tc
  deficits : ∀ tc, s.deficit tc ≤ bound tc

section Turns

variable {w : ContactWindow} {tc : TrafficClass} {order : List TrafficClass}
  {bound : TrafficClass → ℚ} {l : RoundLocals} {s : SchedulerState}

/-- Unless it is cut short, a turn ends at a head that exceeds the deficit. -/
theorem headTurn_short (w : ContactWindow) (tc : TrafficClass) (rnd : ℕ) :
    ∀ (queue : List Bundle) (r : ℚ) (s : SchedulerState), Serviceable s.toBuffer queue →
      Returns (headTurn w tc rnd queue r) s fun out s' => out.1 <:+ queue ∧
        (cutShort queue (s.deficit tc) r = false → ∀ b ∈ out.1.head?, s'.deficit tc < b.bits) := by
  intro queue
  induction queue with
  | nil => exact fun r s _ => Returns.pure ⟨List.suffix_refl _, nofun⟩
  | cons head queue ih =>
      intro r s hbs
      refine Returns.get_bind ?_
      by_cases hfit : head.bits ≤ s.deficit tc ∧ head.bits ≤ r
      · rw [if_pos hfit]
        -- sent and charged: the rest of the turn runs on the smaller deficit
        refine charge_and_send w tc (hbs.pending head (by simp)) fun s₁ h₁ => ?_
        have hself : s₁.deficit tc = s.deficit tc - head.bits := by
          rw [h₁.deficit]
          exact Function.update_self _ _ _
        refine (ih (r - head.bits) s₁ (h₁.buffer ▸ hbs.tail)).mono fun out s' h' => ?_
        rw [cutShort, if_pos hfit, ← hself]
        exact ⟨h'.1.trans (List.suffix_cons _ _), h'.2⟩
      · rw [if_neg hfit]
        -- the turn ends here, whether or not that is logged
        have hstop : ∀ s₁, Became s s.toBuffer s₁ →
            cutShort (head :: queue) (s.deficit tc) r = false →
              ∀ b ∈ (head :: queue).head?, s₁.deficit tc < b.bits := by
          rintro s₁ h₁ huncut b ⟨⟩
          rw [cutShort, if_neg hfit, decide_eq_false_iff_not, not_le] at huncut
          rwa [h₁.deficit]
        split
        · exact (defer_spec w head _ s).bind fun _ s₁ h₁ =>
            Returns.pure ⟨List.suffix_refl _, hstop s₁ h₁⟩
        · exact Returns.pure ⟨List.suffix_refl _, hstop s (Became.refl s)⟩

theorem classTurn_covers {rnd : ℕ} {budget wTotal : ℚ} (hbound : ∀ tc, 0 ≤ bound tc)
    (hw : 0 < wTotal) (htc : tc ∈ order) (hready : Ready order l s) (h : Covers bound l s)
    (huncut : cutShort (l.byClass tc) (s.deficit tc + quantum budget wTotal tc)
      l.remainingBits = false) :
    Returns (classTurn w false rnd budget wTotal tc l) s (Covers bound) := by
  unfold classTurn
  rw [if_neg hw.ne']
  refine Returns.get_bind ((setDeficit_spec tc _ s).bind fun _ s₀ h₀ => ?_)
  subst h₀
  have hserv := hready.serviceable.sublist (l.sublist_queued htc)
  have hsizes : ∀ b ∈ l.byClass tc, 0 < b.sizeBytes := fun b hb =>
    hready.sizes b ((l.sublist_queued htc).subset hb)
  have hcredited : cutShort (l.byClass tc) (Function.update s.deficit tc
      (s.deficit tc + quantum budget wTotal tc) tc) l.remainingBits = false := by
    rwa [Function.update_self]
  refine Returns.bind ((headTurn_short w tc rnd _ _ _ ?_).and
    (headTurn_spec w tc rnd _ _ _ ?_ hsizes)) fun out s₁ h₁ => ?_
  · exact hserv
  · exact hserv
  obtain ⟨queue, left⟩ := out
  obtain ⟨⟨hsuffix, hshort⟩, sent, hturned⟩ := h₁
  -- what is left of the queue was in it, and the other classes are as they were
  have hqueues : ∀ u, ∀ b ∈ Function.update l.byClass tc queue u, b.bits ≤ bound u := by
    intro u b hb
    by_cases hu : u = tc
    · subst hu
      rw [Function.update_self] at hb
      exact h.queues u b (hsuffix.subset hb)
    · rw [Function.update_of_ne hu] at hb
      exact h.queues u b hb
  have hothers : ∀ u, u ≠ tc → s₁.deficit u ≤ bound u := by
    intro u hu
    rw [hturned.deficit_other u hu]
    show Function.update s.deficit tc _ u ≤ bound u
    rw [Function.update_of_ne hu]
    exact h.deficits u
  show Returns (if queue = [] then _ else _) s₁ (Covers bound)
  split
  · -- emptied: the deficit is cleared
    refine (setDeficit_spec tc 0 s₁).bind fun _ s' h' => Returns.pure ⟨hqueues, fun u => ?_⟩
    subst h'
    by_cases hu : u = tc
    · subst hu
      show Function.update s₁.deficit u 0 u ≤ bound u
      rw [Function.update_self]
      exact hbound u
    · show Function.update s₁.deficit tc 0 u ≤ bound u
      rw [Function.update_of_ne hu]
      exact hothers u hu
  · next hne =>
      -- the deficit is smaller than the head that is left
      refine Returns.pure ⟨hqueues, fun u => ?_⟩
      by_cases hu : u = tc
      · subst hu
        obtain ⟨b, rest, hqueue⟩ := List.exists_cons_of_ne_nil hne
        have hb : b ∈ queue := hqueue ▸ List.mem_cons_self ..
        have hlt := hshort hcredited b (by rw [hqueue]; rfl)
        exact hlt.le.trans (h.queues u b (hsuffix.subset hb))
      · exact hothers u hu

/-! ## Rounds and windows -/

theorem roundOver_covers {rnd : ℕ} {budget wTotal : ℚ} (hbound : ∀ tc, 0 ≤ bound tc)
    (horder : order.Nodup) (hbudget : 0 ≤ budget) (hw : 0 < wTotal) :
    ∀ (tcs : List TrafficClass), (∀ tc ∈ tcs, tc ∈ order) →
      ∀ (l : RoundLocals) (s : SchedulerState), Ready order l s → Covers bound l s →
        roundUncut w rnd budget wTotal tcs l s = true →
          Returns (roundOver w false rnd budget wTotal tcs l) s (Covers bound) := by
  intro tcs
  induction tcs with
  | nil => exact fun _ l s _ h _ => Returns.pure h
  | cons tc tcs ih =>
      intro hsub l s hready h huncut
      rw [roundUncut, Bool.and_eq_true, Bool.not_eq_true'] at huncut
      obtain ⟨l₁, s₁, hturn, hcovers, hvisited⟩ :=
        (classTurn_covers hbound hw (hsub tc (by simp)) hready h huncut.1).and
          (classTurn_spec false rnd horder hbudget hw (hsub tc (by simp)) hready)
      obtain ⟨sent, hprog⟩ := hvisited.progress
      rw [hturn] at huncut
      exact Returns.ok_bind hturn (ih (fun u hu => hsub u (List.mem_cons_of_mem _ hu)) l₁ s₁
        (hprog.ready hready) hcovers huncut.2)

theorem drrLoop_covers (hbound : ∀ tc, 0 ≤ bound tc) (horder : order.Nodup) :
    ∀ (left rnd : ℕ) (l : RoundLocals) (s : SchedulerState), Ready order l s →
      Covers bound l s → loopUncut w order left rnd l s = true →
        Returns (drrLoop w false order left rnd l) s (Covers bound) := by
  intro left
  induction left with
  | zero => exact fun _ l s _ h _ => Returns.pure h
  | succ left ih =>
      intro rnd l s hready h huncut
      unfold drrLoop
      by_cases hpos : 0 < l.remainingBits
      · rw [if_pos hpos]
        by_cases hfit : someHeadFits l (backlogged order l.byClass) = true
        · rw [if_pos hfit]
          rw [loopUncut, if_pos ⟨hpos, hfit⟩] at huncut
          obtain ⟨hround, hrest⟩ := (Bool.and_eq_true _ _).mp huncut
          have hw := queueBudget_sum_pos (backlogged_ne_nil hfit)
          have hsub : ∀ tc ∈ backlogged order l.byClass, tc ∈ order := fun tc htc =>
            (mem_backlogged.1 htc).1
          obtain ⟨l₁, s₁, hover, hcovers, hvisited⟩ :=
            (roundOver_covers hbound horder hpos.le hw _ hsub l s hready h hround).and
              (roundOver_spec false rnd horder hpos.le hw _ (horder.filter _) hsub l s hready)
          obtain ⟨sent, hprog⟩ := hvisited.progress
          rw [hover] at hrest
          exact Returns.ok_bind hover (ih (rnd + 1) l₁ s₁ (hprog.ready hready) hcovers hrest)
        · rw [if_neg hfit]
          exact Returns.pure h
      · rw [if_neg hpos]
        exact Returns.pure h

/-- An idle class starts the window with nothing, the others as they were. -/
theorem resetIdle_le (hbound : ∀ tc, 0 ≤ bound tc) (byClass : TrafficClass → List Bundle) :
    ∀ (tcs : List TrafficClass) (s : SchedulerState), (∀ tc, s.deficit tc ≤ bound tc) →
      Returns (resetIdle byClass tcs) s fun _ s' => ∀ tc, s'.deficit tc ≤ bound tc := by
  intro tcs
  induction tcs with
  | nil => exact fun s h => Returns.pure h
  | cons tc tcs ih =>
      intro s h
      unfold resetIdle
      split
      · refine (setDeficit_spec tc 0 s).bind fun _ s₁ h₁ => ih s₁ fun u => ?_
        subst h₁
        by_cases hu : u = tc
        · subst hu
          show Function.update s.deficit u 0 u ≤ bound u
          rw [Function.update_self]
          exact hbound u
        · show Function.update s.deficit tc 0 u ≤ bound u
          rw [Function.update_of_ne hu]
          exact h u
      · exact ih s h

/-- A window none of whose turns is cut short leaves the deficits within their bounds. -/
theorem drainWindow_covers {sch : Scheduler} {future : List Bundle} (hpolicy : sch.policy = .wfq)
    (hwf : s.toBuffer.WellFormed sch future) (hbound : ∀ tc, 0 ≤ bound tc)
    (hactive : ∀ b ∈ s.active, b.bits ≤ bound b.trafficClass)
    (h : ∀ tc, s.deficit tc ≤ bound tc) (huncut : windowUncut w s = true) :
    Returns (drainWindow sch w) s fun _ s' => ∀ tc, s'.deficit tc ≤ bound tc := by
  have hmem : ∀ b ∈ s.toBuffer.ready w, b ∈ s.active := fun b hb => List.mem_of_mem_filter hb
  have hbs : Serviceable s.toBuffer (s.toBuffer.ready w) :=
    ⟨hwf.active_nodup.filter _, fun b hb => hwf.active_pending (hmem b hb)⟩
  have hsizes : ∀ b ∈ s.toBuffer.ready w, 0 < b.sizeBytes := fun b hb =>
    hwf.active_size_pos (hmem b hb)
  have hemerg : Serviceable s.toBuffer (classQueue (s.toBuffer.ready w) .emergency) :=
    (hbs.perm (classQueue_perm hbs.nodup 0)).sublist (List.sublist_append_left _ _)
  have hqueues : ∀ tc, ∀ b ∈ classQueue (s.toBuffer.ready w) tc, b.bits ≤ bound tc := by
    intro tc b hb
    obtain ⟨hfirst, hclass⟩ := mem_classQueue.1 hb
    exact hclass ▸ hactive b (hmem b hfirst)
  rw [windowUncut, eligible_eq_ready hwf] at huncut
  refine Returns.get_bind ?_
  rw [eligible_eq_ready hwf, drainByPolicy, hpolicy]
  obtain ⟨_, s₁, hfirst, rfl, h₁⟩ := transmitLoop_spec w "rank0" false _ w.rawBitBudget s hemerg
  obtain ⟨_, s₂, hreset, hle, h₂⟩ := (resetIdle_le hbound (classQueue (s.toBuffer.ready w))
    (rotation s₁.rotationIndex) s₁ (h₁.deficit ▸ h)).and (resetIdle_spec _ _ s₁)
  rw [hfirst] at huncut
  replace huncut : (Foundation.Machine.outcome (resetIdle (classQueue (s.toBuffer.ready w))
      (rotation s₁.rotationIndex) s₁)).all (fun p' =>
        loopUncut w (rotation s₁.rotationIndex) maxRounds 0
          (roundStart w (s.toBuffer.ready w)) p'.2) = true := huncut
  rw [hreset] at huncut
  have hready := ready_roundStart hbs hsizes s₁.rotationIndex (h₂.1.trans h₁.buffer)
  obtain ⟨l', s₃, hloop, hcovers⟩ := drrLoop_covers hbound (rotation_nodup _) maxRounds 0
    (roundStart w (s.toBuffer.ready w)) s₂ hready ⟨hqueues, hle⟩ huncut
  refine Returns.bind (P := fun _ s' => ∀ tc, s'.deficit tc ≤ bound tc) ?_
    fun _ s₄ h₄ => Returns.modify h₄
  refine Returns.ok_bind hfirst (Returns.get_bind (Returns.ok_bind hreset ?_))
  exact Returns.ok_bind hloop (Returns.modify hcovers.deficits)

end Turns

/-! ## Runs -/

/-- The bits of the largest bundle of a class. -/
def largestBits (bundles : List Bundle) (tc : TrafficClass) : ℚ :=
  ((bundles.filter fun b => decide (b.trafficClass = tc)).map Bundle.bits).foldr max 0

theorem bits_le_largestBits {bundles : List Bundle} {b : Bundle} (hb : b ∈ bundles) :
    b.bits ≤ largestBits bundles b.trafficClass := by
  have hmem : b.bits ∈
      (bundles.filter fun a => decide (a.trafficClass = b.trafficClass)).map Bundle.bits :=
    List.mem_map_of_mem (List.mem_filter.2 ⟨hb, by simp⟩)
  exact List.le_max_of_le' 0 hmem le_rfl

theorem largestBits_nonneg (bundles : List Bundle) (tc : TrafficClass) :
    0 ≤ largestBits bundles tc := by
  rw [largestBits]
  induction (bundles.filter fun b => decide (b.trafficClass = tc)).map Bundle.bits with
  | nil => exact le_rfl
  | cons x xs ih => exact ih.trans (le_max_right _ _)

/-- Between nothing and the largest bundle of its class. -/
def SchedulerState.Banded (bundles : List Bundle) (s : SchedulerState) : Prop :=
  ∀ tc, 0 ≤ s.deficit tc ∧ s.deficit tc ≤ largestBits bundles tc

section Runs

variable {sch : Scheduler} {bundles : List Bundle} {records : Bundle → Lifecycle} {c : Call}
  {cs : List Call} {s : SchedulerState}

/-- Every call keeps the deficits within their bounds, a window if no turn of it is cut short. -/
theorem Standing.exec_banded (h : Standing sch bundles records (c :: cs) s)
    (hpolicy : sch.policy = .wfq) (hbanded : s.Banded bundles)
    (huncut : ∀ w, c = .drainWindow w → windowUncut w s = true) :
    Returns (c.exec sch) s fun _ s' => s'.Banded bundles := by
  cases c with
  | tryAdmit b =>
      refine (tryAdmit_spec h.wellFormed).mono fun _ s' h' => ?_
      rw [SchedulerState.Banded, h'.1.deficit]
      exact hbanded
  | expireInBlackout t =>
      refine (expireInBlackout_spec t h.wellFormed).mono fun _ s' h' => ?_
      rw [SchedulerState.Banded, h'.1.deficit]
      exact hbanded
  | drainWindow w =>
      have hactive : ∀ b ∈ s.active, b.bits ≤ largestBits bundles b.trafficClass :=
        fun b hb => bits_le_largestBits (h.known_active b hb)
      refine ((drainWindow_covers hpolicy h.wellFormed (largestBits_nonneg bundles) hactive
        (fun tc => (hbanded tc).2) (huncut w rfl)).and (drainWindow_spec h.wellFormed)).mono ?_
      rintro _ s' ⟨hle, sent, -, hcredit, -⟩
      exact fun tc => ⟨hcredit (fun u => (hbanded u).1) tc, hle tc⟩

/-- The calls made so far leave the deficits within their bounds if no turn was cut short. -/
theorem Valid.made_banded (h : Valid bundles records) (hpolicy : sch.policy = .wfq)
    (huncut : ∀ made w rest s, sch.calls bundles = made ++ .drainWindow w :: rest →
      made.forM (Call.exec sch) (SchedulerState.fresh records) = .ok ⟨⟩ s →
        windowUncut w s = true) :
    ∀ made rest, sch.calls bundles = made ++ rest → ∃ s,
      made.forM (Call.exec sch) (SchedulerState.fresh records) = .ok ⟨⟩ s ∧
        Standing sch bundles records rest s ∧ s.Banded bundles := by
  intro made
  induction made using List.reverseRecOn with
  | nil =>
      intro rest hsplit
      -- a new scheduler starts without credit
      refine ⟨_, rfl, ?_, fun tc => ⟨le_rfl, largestBits_nonneg bundles tc⟩⟩
      rw [List.nil_append] at hsplit
      exact hsplit ▸ h.standing sch
  | append_singleton made c ih =>
      intro rest hsplit
      rw [List.append_assoc, List.singleton_append] at hsplit
      obtain ⟨s, hmade, hstand, hbanded⟩ := ih _ hsplit
      have hcall := hstand.exec_banded hpolicy hbanded fun w hw =>
        huncut made w rest s (hw ▸ hsplit) hmade
      obtain ⟨_, s', hexec, hrest, hbanded'⟩ := hstand.exec.and hcall
      refine ⟨s', forM_eq_ok_iff.2 ((forM_eq_ok_iff.1 hmade).append ?_), hrest, hbanded'⟩
      exact .cons hexec (.nil s')

end Runs

/-- In a run under WFQ no turn of which is cut short, after every window no class is in debt or has
more credit than the largest of its bundles takes. -/
theorem deficits_stay_bounded {sch : Scheduler} (hpolicy : sch.policy = .wfq)
    {bundles : List Bundle} {records : Bundle → Lifecycle} (h : Valid bundles records)
    (huncut : ∀ made w rest s, sch.calls bundles = made ++ .drainWindow w :: rest →
      made.forM (Call.exec sch) (SchedulerState.fresh records) = .ok ⟨⟩ s →
        windowUncut w s = true)
    {made rest : List Call} {w : ContactWindow}
    (hsplit : sch.calls bundles = made ++ .drainWindow w :: rest) :
    ∃ s s', made.forM (Call.exec sch) (SchedulerState.fresh records) = .ok ⟨⟩ s ∧
      drainWindow sch w s = .ok ⟨⟩ s' ∧
      ∀ tc ∈ wfqClasses, 0 ≤ s'.deficit tc ∧ s'.deficit tc ≤ largestBits bundles tc := by
  obtain ⟨s, hmade, hstand, hbanded⟩ := h.made_banded hpolicy huncut made _ hsplit
  have hcall := hstand.exec_banded hpolicy hbanded fun v hv => by
    cases hv
    exact huncut made w rest s hsplit hmade
  obtain ⟨_, s', hdrain, hbanded'⟩ := hcall
  exact ⟨s, s', hmade, hdrain, fun tc _ => hbanded' tc⟩

def Small.fairScheduler : Scheduler := { Small.scheduler with policy := .wfq }

theorem Small.calls_fair :
    Small.fairScheduler.calls [Small.early, Small.doomed, Small.late] =
      [.tryAdmit Small.early, .tryAdmit Small.doomed, .expireInBlackout 10] ++
        .drainWindow Small.window :: [.tryAdmit Small.late, .expireInBlackout 20] := by
  rfl

/-- The only window of the run cuts nobody short. -/
theorem Small.uncut (made : List Call) (w : ContactWindow) (rest : List Call) (s : SchedulerState)
    (hsplit : Small.fairScheduler.calls [Small.early, Small.doomed, Small.late] =
      made ++ .drainWindow w :: rest)
    (hmade : made.forM (Call.exec Small.fairScheduler) (SchedulerState.fresh fun _ => {}) =
      .ok ⟨⟩ s) : windowUncut w s = true := by
  rw [Small.calls_fair] at hsplit
  -- the window is drained by the fourth call
  obtain ⟨rfl, rfl⟩ : made = [.tryAdmit Small.early, .tryAdmit Small.doomed,
      .expireInBlackout 10] ∧ w = Small.window := by
    rcases List.append_eq_append_iff.1 hsplit with ⟨later, hlater, hrest⟩ | ⟨back, hback, hrest⟩
    · cases later with
      | nil => simp_all
      | cons c later =>
          have hmem : Call.drainWindow w ∈ [.tryAdmit Small.late, .expireInBlackout 20] := by
            rw [(List.cons.inj hrest).2]
            simp
          simp at hmem
    · cases back with
      | nil => simp_all
      | cons c back =>
          have hmem : c ∈ [.tryAdmit Small.early, .tryAdmit Small.doomed,
              .expireInBlackout 10] := by
            rw [hback]
            simp
          rw [← (List.cons.inj hrest).1] at hmem
          simp at hmem
  have hrun : (Foundation.Machine.outcome ([Call.tryAdmit Small.early, .tryAdmit Small.doomed,
      .expireInBlackout 10].forM (Call.exec Small.fairScheduler)
      (SchedulerState.fresh fun _ => {}))).map (fun p => windowUncut Small.window p.2) =
        some true := by
    decide +kernel
  rw [hmade] at hrun
  exact Option.some.inj hrun

theorem deficits_stay_bounded_small :
    ∃ s s', [Call.tryAdmit Small.early, .tryAdmit Small.doomed, .expireInBlackout 10].forM
        (Call.exec Small.fairScheduler) (SchedulerState.fresh fun _ => {}) = .ok ⟨⟩ s ∧
      drainWindow Small.fairScheduler Small.window s = .ok ⟨⟩ s' ∧
      ∀ tc ∈ wfqClasses, 0 ≤ s'.deficit tc ∧
        s'.deficit tc ≤ largestBits [Small.early, Small.doomed, Small.late] tc :=
  deficits_stay_bounded rfl Small.valid Small.uncut Small.calls_fair

/-- Waits for its share to add up. -/
def Small.survey : Bundle := Small.bundle "survey" .scienceBulk 600 0 100

/-- Smaller, so that the first of the two is covered by one share. -/
def Small.reel : Bundle := Small.bundle "reel" .media 490 1 100

def Small.sequel : Bundle := Small.bundle "sequel" .media 490 2 100

theorem Small.valid_contended : Valid [Small.survey, Small.reel, Small.sequel] (fun _ => {}) where
  distinct := by decide +kernel
  sizes := by decide +kernel
  lifetimes := by decide +kernel
  pending := fun _ _ => rfl

theorem Small.calls_contended :
    Small.fairScheduler.calls [Small.survey, Small.reel, Small.sequel] =
      [.tryAdmit Small.survey, .tryAdmit Small.reel, .tryAdmit Small.sequel,
        .expireInBlackout 10] ++ .drainWindow Small.window :: [.expireInBlackout 20] := by
  rfl

/-- The survey is covered from the second round on, but what is left of the window is not enough for
it, and it is credited in the third round again. -/
theorem survey_hoards_credit :
    Valid [Small.survey, Small.reel, Small.sequel] (fun _ => {}) ∧
    ∃ made rest s s', Small.fairScheduler.calls [Small.survey, Small.reel, Small.sequel] =
        made ++ .drainWindow Small.window :: rest ∧
      made.forM (Call.exec Small.fairScheduler) (SchedulerState.fresh fun _ => {}) = .ok ⟨⟩ s ∧
      drainWindow Small.fairScheduler Small.window s = .ok ⟨⟩ s' ∧
      s'.deficit .scienceBulk = 8080 ∧
      largestBits [Small.survey, Small.reel, Small.sequel] .scienceBulk = 4800 := by
  have hrun : (Foundation.Machine.outcome ([Call.tryAdmit Small.survey, .tryAdmit Small.reel,
        .tryAdmit Small.sequel, .expireInBlackout 10].forM (Call.exec Small.fairScheduler)
        (SchedulerState.fresh fun _ => {}))).map (fun p =>
      (Foundation.Machine.outcome (drainWindow Small.fairScheduler Small.window p.2)).map
        fun p' => p'.2.deficit .scienceBulk) = some (some 8080) := by
    decide +kernel
  obtain ⟨_, s, hmade, hdrained⟩ := eq_ok_of_outcome hrun
  obtain ⟨_, s', hdrain, hdeficit⟩ := eq_ok_of_outcome hdrained
  exact ⟨Small.valid_contended, _, _, s, s', Small.calls_contended, hmade, hdrain, hdeficit,
    by decide +kernel⟩

end Gateway
end LunaBridge
