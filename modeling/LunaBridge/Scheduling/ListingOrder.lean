import LunaBridge.Scheduling.Run

/-!
# ListingOrder — the order in which bundles are listed does not matter

The policies sort the queue by keys with many ties, so what they send depends on the order of the
queue.  That order is a function of the ingress instants: bundles reach the scheduler along the
timeline, and with distinct ingress instants two listings of the same bundles have one timeline.
-/

namespace LunaBridge
namespace Gateway

open Foundation.Machine Foundation.StableSort

/-! ## One timeline -/

/-- No two of the bundles arrive at the same instant. -/
def DistinctIngress (bs : List Bundle) : Prop := (bs.map Bundle.ingressTs).Nodup

namespace DistinctIngress

variable {bs bs' : List Bundle}

theorem of_sublist (h : DistinctIngress bs) (hsub : bs'.Sublist bs) : DistinctIngress bs' :=
  List.Nodup.sublist (hsub.map _) h

theorem arrivalsOf_eq (h : DistinctIngress bs) (hperm : bs.Perm bs') :
    arrivalsOf bs = arrivalsOf bs' := by
  have hinj : ∀ a ∈ bs, ∀ b ∈ bs, a.ingressTs = b.ingressTs → a = b := fun a ha b hb heq =>
    List.inj_on_of_nodup_map h ha hb heq
  rw [arrivalsOf, arrivalsOf, sortBy_eq_of_perm hperm hinj]

theorem timeline_eq (ws : List ContactWindow) (h : DistinctIngress bs) (hperm : bs.Perm bs') :
    timeline ws bs = timeline ws bs' := by
  induction ws generalizing bs bs' with
  | nil => exact h.arrivalsOf_eq hperm
  | cons w ws ih =>
      have harrived := (h.of_sublist List.filter_sublist).arrivalsOf_eq
        (hperm.filter fun b => decide (b.ingressTs ≤ w.endTs))
      have hlater := ih (h.of_sublist List.filter_sublist)
        (hperm.filter fun b => decide (w.endTs < b.ingressTs))
      rw [timeline, timeline, harrived, hlater]

end DistinctIngress

/-! ## One run -/

/-- The sweep stamps nothing with the clock it reads. -/
theorem finalSweep_clock (now now' : ℚ) (lastEndTs : Option ℚ) :
    finalSweep now lastEndTs = finalSweep now' lastEndTs := by
  have hone : sweepOne now lastEndTs = sweepOne now' lastEndTs := by
    funext b
    simp only [sweepOne, mark, Lifecycle.mark, reduceCtorEq, false_and, if_false]
  rw [finalSweep, finalSweep, hone]

/-- Two listings of valid bundles with distinct ingress instants lead to the same state, whatever
the clock shows during either run. -/
theorem run_ignores_listing_order (sch : Scheduler) {bundles bundles' : List Bundle}
    {records : Bundle → Lifecycle} (hvalid : Valid bundles records)
    (hdistinct : DistinctIngress bundles) (hperm : bundles.Perm bundles') (now now' : ℚ) :
    ∃ s', run sch now bundles (SchedulerState.fresh records) = .ok ⟨⟩ s' ∧
      run sch now' bundles' (SchedulerState.fresh records) = .ok ⟨⟩ s' := by
  have hreturns : Returns (run sch now bundles) (SchedulerState.fresh records) fun _ _ => True :=
    (run_spec hvalid (SchedulerState.fresh_idle records) now).mono fun _ _ _ => trivial
  obtain ⟨_, s', hrun, -⟩ := hreturns
  have hcheck := checkExpirations_ok hvalid.lifetimes (SchedulerState.fresh records)
  have hcheck' := checkExpirations_ok (fun b hb => hvalid.lifetimes b (hperm.mem_iff.2 hb))
    (SchedulerState.fresh records)
  refine ⟨s', hrun, ?_⟩
  calc run sch now' bundles' (SchedulerState.fresh records)
      _ = ((timeline sch.plan.windows bundles').forM (Event.handle sch) >>= fun _ =>
            lastExpiry sch.plan.lastEnd >>= fun _ => finalSweep now' sch.plan.lastEnd)
              (SchedulerState.fresh records) := by rw [run_eq, bind_ok hcheck']
      _ = ((timeline sch.plan.windows bundles).forM (Event.handle sch) >>= fun _ =>
            lastExpiry sch.plan.lastEnd >>= fun _ => finalSweep now sch.plan.lastEnd)
              (SchedulerState.fresh records) := by
          rw [hdistinct.timeline_eq _ hperm, finalSweep_clock now' now]
      _ = run sch now bundles (SchedulerState.fresh records) := by rw [run_eq, bind_ok hcheck]
      _ = .ok ⟨⟩ s' := hrun

theorem run_ignores_listing_order_small :
    ∃ s', run Small.scheduler 0 [Small.early, Small.late] (SchedulerState.fresh fun _ => {}) =
        .ok ⟨⟩ s' ∧
      run Small.scheduler 1 [Small.late, Small.early] (SchedulerState.fresh fun _ => {}) =
        .ok ⟨⟩ s' :=
  run_ignores_listing_order Small.scheduler
    (Small.valid.sublist ((List.sublist_cons_self _ _).cons_cons _)) (by
    rw [DistinctIngress]
    decide +kernel) (List.Perm.swap _ _ _) 0 1

end Gateway
end LunaBridge
