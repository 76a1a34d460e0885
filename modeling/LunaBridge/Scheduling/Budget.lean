import LunaBridge.Scheduling.Run

/-!
# Budget — what a window's bits are spent on

No drain spends more bits than its window has.  The drains that walk one ordered list and pass
over what does not fit leave nothing behind that would still have fitted: neither into what is
left in the end, nor into what was left when its turn came.
-/

namespace LunaBridge
namespace Gateway

open Foundation.Machine Foundation.Selection Foundation.GreedyFill

/-- The bundles of a list that have been delivered. -/
def Buffer.deliveredOf (β : Buffer) (bs : List Bundle) : List Bundle :=
  bs.filter fun b => decide ((β.records b).terminalState = .delivered)

/-- Of bundles that were waiting, those sent are those delivered. -/
theorem Serviceable.mem_deliveredOf {β : Buffer} {w : ContactWindow} {bs sent as : List Bundle}
    (hbs : Serviceable β bs) (has : ∀ a ∈ as, a ∈ bs) {a : Bundle} :
    a ∈ (β.settle (Lifecycle.delivered w) sent).deliveredOf as ↔ a ∈ as ∧ a ∈ sent := by
  rw [Buffer.deliveredOf, List.mem_filter, decide_eq_true_iff]
  refine and_congr_right fun ha => ?_
  by_cases hsent : a ∈ sent
  · simp [Buffer.settle, overwrite, hsent, Lifecycle.delivered]
  · simp [Buffer.settle, overwrite, hsent, hbs.pending a (has a ha)]

/-- The policies that walk one ordered list to its end. -/
def Scheduler.SkipsOver (sch : Scheduler) : Prop :=
  sch.policy ≠ .wfq ∧ sch.policy ≠ .wfqSkipOver ∧ (sch.policy = .fifo → sch.fifoSkipOver = true)

theorem Scheduler.SkipsOver.exists_order {sch : Scheduler} (h : sch.SkipsOver)
    (w : ContactWindow) (bs : List Bundle) :
    ∃ order, sch.drainOrder w bs = some (false, order) := by
  obtain ⟨hwfq, hskip, hfifo⟩ := h
  unfold Scheduler.drainOrder
  cases hpolicy : sch.policy with
  | fifo => exact ⟨_, by rw [hfifo hpolicy]; rfl⟩
  | wfq => exact absurd hpolicy hwfq
  | wfqSkipOver => exact absurd hpolicy hskip
  | _ => exact ⟨_, rfl⟩

section Drained

variable {sch : Scheduler} {w : ContactWindow} {bs sent : List Bundle} {s s' : SchedulerState}

/-- Of bundles that were waiting when a drain began, those delivered are those it sent. -/
theorem Drained.mem_deliveredOf (h : Drained sch w bs s sent s') (hbs : Serviceable s.toBuffer bs)
    {as : List Bundle} (has : ∀ a ∈ as, a ∈ bs) {a : Bundle} :
    a ∈ s'.toBuffer.deliveredOf as ↔ a ∈ as ∧ a ∈ sent := by
  rw [h.buffer]
  exact hbs.mem_deliveredOf has

theorem Drained.deliveredOf_perm (h : Drained sch w bs s sent s')
    (hbs : Serviceable s.toBuffer bs) : (s'.toBuffer.deliveredOf bs).Perm sent := by
  refine (List.perm_ext_iff_of_nodup (hbs.nodup.filter _) h.service.nodup).2 fun b => ?_
  refine (h.mem_deliveredOf hbs fun _ hb => hb).trans ?_
  exact ⟨fun hb => hb.2, fun hb => ⟨h.service.subset b hb, hb⟩⟩

/-- Of the front of the order, what has been delivered is what a walk over the front alone would
have sent. -/
theorem Drained.deliveredOf_front (h : Drained sch w bs s sent s')
    (hbs : Serviceable s.toBuffer bs) {front back : List Bundle}
    (horder : sch.drainOrder w bs = some (false, front ++ back)) :
    (s'.toBuffer.deliveredOf front).Perm
      (greedyFill Bundle.bits false w.rawBitBudget front) := by
  have hperm := Scheduler.drainOrder_perm horder
  have hnodup := List.nodup_append.1 (hperm.nodup_iff.2 hbs.nodup)
  have hsub := greedyFill_sublist Bundle.bits false w.rawBitBudget front
  refine (List.perm_ext_iff_of_nodup (hnodup.1.filter _) (hnodup.1.sublist hsub)).2 fun b => ?_
  refine (h.mem_deliveredOf hbs fun a ha => hperm.subset (List.mem_append_left _ ha)).trans ?_
  rw [h.service.ordered _ _ horder, greedyFill_append]
  constructor
  · rintro ⟨hfront, hsent⟩
    refine (List.mem_append.1 hsent).resolve_right fun hback => ?_
    -- what the walk takes behind the front is not in the front
    exact hnodup.2.2 b hfront b ((greedyFill_sublist _ _ _ _).subset hback) rfl
  · exact fun hfill => ⟨hsub.subset hfill, List.mem_append_left _ hfill⟩

end Drained

/-- A drain keeps within the bits of its window; and where it passes over what does not fit, every
bundle left behind needs more bits than are left, and more than the bundles sent ahead of it in
the policy's order had left. -/
theorem drains_fit_and_fill {sch : Scheduler} {w : ContactWindow} {bs : List Bundle}
    {s : SchedulerState} (hbs : Serviceable s.toBuffer bs) (hsizes : ∀ b ∈ bs, 0 < b.sizeBytes)
    (hlife : ∀ b ∈ bs, b.expirationTs ≠ none) :
    Returns (drainByPolicy sch bs w) s fun _ s' =>
      load Bundle.bits (s'.toBuffer.deliveredOf bs) ≤ w.rawBitBudget ∧
      (sch.SkipsOver → ∃ order, sch.drainOrder w bs = some (false, order) ∧ order.Perm bs ∧
        ∀ front b back, order = front ++ b :: back → b ∉ s'.toBuffer.deliveredOf bs →
          w.rawBitBudget - load Bundle.bits (s'.toBuffer.deliveredOf bs) < b.bits ∧
          w.rawBitBudget - load Bundle.bits (s'.toBuffer.deliveredOf front) < b.bits) := by
  refine (drainByPolicy_spec hbs hsizes hlife).mono fun _ s' h => ?_
  obtain ⟨sent, hdrain⟩ := h
  have hsent := hdrain.deliveredOf_perm hbs
  refine ⟨(load_perm hsent).trans_le hdrain.service.inBudget, fun hskips => ?_⟩
  obtain ⟨order, horder⟩ := hskips.exists_order w bs
  have hperm := Scheduler.drainOrder_perm horder
  refine ⟨order, horder, hperm, fun front b back hsplit hout => ?_⟩
  subst hsplit
  -- when its turn came, the bits that were left did not do
  have hturn : w.rawBitBudget - load Bundle.bits (s'.toBuffer.deliveredOf front) < b.bits := by
    rw [load_perm (hdrain.deliveredOf_front hbs horder)]
    have hpassed : b ∉ greedyFill Bundle.bits false w.rawBitBudget (front ++ b :: back) := by
      rw [← hdrain.service.ordered _ _ horder, ← hsent.mem_iff]
      exact hout
    exact lt_of_notMem_greedyFill hpassed
  -- and since then they have not become more
  have hfewer : load Bundle.bits (s'.toBuffer.deliveredOf front) ≤
      load Bundle.bits (s'.toBuffer.deliveredOf bs) := by
    refine load_le_of_subperm ?_ fun a ha =>
      Bundle.bits_nonneg (hsizes a (List.mem_of_mem_filter ha))
    have hsub : (s'.toBuffer.deliveredOf front).Sublist
        (s'.toBuffer.deliveredOf (front ++ b :: back)) :=
      (List.sublist_append_left _ _).filter _
    exact hsub.subperm.trans (hperm.filter _).subperm
  exact ⟨by linarith, hturn⟩

theorem drains_fit_and_fill_small :
    Returns (drainByPolicy Small.scheduler [Small.early, Small.doomed] Small.window)
      (SchedulerState.fresh fun _ => {}) fun _ s' =>
      load Bundle.bits (s'.toBuffer.deliveredOf [Small.early, Small.doomed]) ≤
        Small.window.rawBitBudget ∧
      (Small.scheduler.SkipsOver → ∃ order,
        Small.scheduler.drainOrder Small.window [Small.early, Small.doomed] =
          some (false, order) ∧ order.Perm [Small.early, Small.doomed] ∧
        ∀ front b back, order = front ++ b :: back →
          b ∉ s'.toBuffer.deliveredOf [Small.early, Small.doomed] →
          Small.window.rawBitBudget -
            load Bundle.bits (s'.toBuffer.deliveredOf [Small.early, Small.doomed]) < b.bits ∧
          Small.window.rawBitBudget -
            load Bundle.bits (s'.toBuffer.deliveredOf front) < b.bits) :=
  drains_fit_and_fill ⟨by decide +kernel, fun _ _ => rfl⟩ (by decide +kernel) (by decide +kernel)

end Gateway
end LunaBridge
