import LunaBridge.Scheduling.Assignment
import Mathlib.Algebra.Order.Floor.Semiring
import Mathlib.Data.Rat.Floor

/-!
# Edf — earliest deadline first is optimal for bundles of one size

With bundles of one size a window has a number of seats, and what DEADLINE_AWARE sends is an urgent
choice for them.  So by the exchange step no contact loses a delivery: what any feasible
assignment places stays within reach of the run to its end.
-/

namespace LunaBridge
namespace Gateway

open Foundation.Machine Foundation.Selection Foundation.Trace Foundation.StableSort
open Foundation.GreedyFill Foundation.SlotAssignment

/-! ## Seats -/

/-- The number of bundles of `size` bytes a window carries. -/
def seats (size : ℤ) (w : ContactWindow) : ℕ := ⌊w.rawBitBudget / ((size : ℚ) * 8)⌋₊

section Seats

variable {size : ℤ} {bs : List Bundle}

theorem load_uniform (h : ∀ b ∈ bs, b.sizeBytes = size) :
    load Bundle.bits bs = bs.length * ((size : ℚ) * 8) := by
  rw [load, List.map_congr_left (bits_uniform h), List.map_const', List.sum_replicate,
    nsmul_eq_mul]

theorem le_seats_iff (hsize : 0 < size) (n : ℕ) (w : ContactWindow) :
    n ≤ seats size w ↔ (n : ℚ) * ((size : ℚ) * 8) ≤ w.rawBitBudget := by
  have hpos : (0 : ℚ) < (size : ℚ) * 8 := by
    have : (0 : ℚ) < size := by exact_mod_cast hsize
    linarith
  rw [seats, Nat.le_floor_iff (div_nonneg w.rawBitBudget_pos.le hpos.le), le_div_iff₀ hpos]

/-- For bundles of one size a bit budget is a number of seats. -/
theorem FeasibleAssignment.feasible {plan : ContactPlan} {bundles : List Bundle}
    {A : Bundle → Option ContactWindow} (hsize : 0 < size)
    (huniform : ∀ b ∈ bundles, b.sizeBytes = size) (hA : FeasibleAssignment plan bundles A) :
    Feasible Usable (seats size) bundles.toFinset plan.windows A := by
  refine ⟨fun b w hb => ?_, fun w hw => ?_⟩
  · rcases hA.usable b w hb with ⟨hmem, hw, huse⟩
    exact ⟨List.mem_toFinset.2 hmem, hw, huse⟩
  · have hload := hA.inBudget w hw
    rw [load_uniform fun b hb => huniform b (List.mem_of_mem_filter hb), ← le_seats_iff hsize]
      at hload
    have hcard : (bundles.toFinset.filter fun b => A b = some w) =
        (bundles.filter fun b => decide (A b = some w)).toFinset := by
      ext b
      simp
    rw [hcard]
    exact (List.toFinset_card_le _).trans hload

end Seats

/-! ## What EDF sends is urgent -/

/-- The bundles that are queued or still to come. -/
def waiting (β : Buffer) (es : List Event) : Finset Bundle := (β.active ++ offered es).toFinset

theorem mem_waiting {β : Buffer} {es : List Event} {b : Bundle} :
    b ∈ waiting β es ↔ b ∈ β.active ∨ b ∈ offered es := by
  simp [waiting]

section Contact

variable {sch : Scheduler} {bundles sent : List Bundle} {size : ℤ} {es : List Event} {β : Buffer}
  {w : ContactWindow} {credit : Prop}

/-- A bundle left behind has a full window and no earlier deadline than those that were sent. -/
theorem edf_left_behind (hpolicy : sch.policy = .deadlineAware) (hsize : 0 < size)
    {ready : List Bundle} (huniform : ∀ b ∈ ready, b.sizeBytes = size)
    (service : Service sch w ready sent credit) {b : Bundle} (hb : b ∈ ready) (hout : b ∉ sent) :
    seats size w ≤ sent.length ∧ ∀ g ∈ sent, g.deadline ≤ b.deadline := by
  have horder : sch.drainOrder w ready = some (false, sortBy Bundle.deadline ready) := by
    simp [Scheduler.drainOrder, hpolicy]
  have hsent := service.ordered _ _ horder
  have hbits : ∀ c ∈ sortBy Bundle.deadline ready, c.bits = (size : ℚ) * 8 := fun c hc =>
    bits_uniform huniform c ((mem_sortBy _).1 hc)
  constructor
  · -- one more bundle would not have fitted
    have hfull := greedyFill_uniform_full false hbits ((mem_sortBy _).2 hb) (hsent ▸ hout)
    rw [← hsent] at hfull
    have hmore : ¬ sent.length + 1 ≤ seats size w := by
      rw [le_seats_iff hsize, not_le]
      push_cast
      linarith
    omega
  · exact fun g hg => service.uniform_before huniform horder (sortBy_pairwise _ _) hg hb hout

/-- EDF makes an urgent choice among the bundles that are alive or still to come. -/
theorem edf_urgent (hpolicy : sch.policy = .deadlineAware) (hsize : 0 < size)
    (huniform : ∀ b ∈ bundles, b.sizeBytes = size)
    (hon : OnTimeline sch bundles (.contact w :: es) β)
    (service : Service sch w ((β.expire w.startTs).ready w) sent credit) :
    UrgentChoice Usable (seats size) (waiting (β.expire w.startTs) es) w (contacts es)
      sent.toFinset := by
  have hready := fun b (hb : b ∈ (β.expire w.startTs).ready w) =>
    of_mem_ready_expire hon.wellFormed hb
  have hreadyUniform : ∀ b ∈ (β.expire w.startTs).ready w, b.sizeBytes = size := fun b hb =>
    huniform b (hon.known_active (hready b hb).1)
  refine ⟨fun g hg => ?_, fun g hg => ?_, ?_, fun b hb hout huse => ?_⟩
  · have hg' := service.subset g (List.mem_toFinset.1 hg)
    exact mem_waiting.2 (Or.inl (List.mem_of_mem_filter hg'))
  · exact (hready g (service.subset g (List.mem_toFinset.1 hg))).2
  · have hload := service.inBudget
    rw [load_uniform fun b hb => hreadyUniform b (service.subset b hb), ← le_seats_iff hsize]
      at hload
    exact (List.toFinset_card_le sent).trans hload
  · rw [List.mem_toFinset] at hout
    -- who arrives only after the window has closed cannot use it
    have hact : b ∈ (β.expire w.startTs).active := (mem_waiting.1 hb).resolve_right fun hoff =>
      lt_asymm (hon.endTs_lt_ingressTs hoff) huse.1
    have hb' : b ∈ (β.expire w.startTs).ready w := Buffer.mem_ready.2 ⟨hact, huse.1⟩
    rcases edf_left_behind hpolicy hsize hreadyUniform service hb' hout with ⟨hfull, hfirst⟩
    refine ⟨by rwa [List.toFinset_card_of_nodup service.nodup], fun g hg v hv hgv => ⟨?_, ?_⟩⟩
    · calc b.ingressTs
          _ < w.endTs := huse.1
          _ ≤ v.startTs := hon.endTs_le_startTs hv
          _ < v.endTs := v.start_lt_end
    · exact hgv.2.trans_le (hfirst g (List.mem_toFinset.1 hg))

end Contact

/-! ## No contact loses a delivery -/

section Runs

variable {sch : Scheduler} {bundles : List Bundle} {size : ℤ} {n : ℕ} {es : List Event}
  {β : Buffer}

/-- With `es` still to come, `n` deliveries in all are within reach. -/
def WithinReach (bundles : List Bundle) (size : ℤ) (n : ℕ) (es : List Event) (β : Buffer) : Prop :=
  ∃ A, Feasible Usable (seats size) (waiting β es) (contacts es) A ∧
    n ≤ (delivered bundles β.records).card + (placed (waiting β es) A).card

/-- An arrival that is admitted is as good as one still to come. -/
theorem WithinReach.arrival {b : Bundle} (hwf : β.WellFormed sch (offered (.arrival b :: es)))
    (hoffer : β.offer sch b = β.accept b) (h : WithinReach bundles size n (.arrival b :: es) β) :
    WithinReach bundles size n es (β.offer sch b) := by
  have hwaiting : waiting (β.offer sch b) es = waiting β (.arrival b :: es) := by
    rw [hoffer]
    simp [waiting, Buffer.accept]
  rw [WithinReach, hwaiting, delivered_offer hwf]
  exact h

/-- The dead could not be placed any more. -/
theorem feasible_expire {w : ContactWindow} {A : Bundle → Option ContactWindow}
    (hon : OnTimeline sch bundles (.contact w :: es) β)
    (hA : Feasible Usable (seats size) (waiting β es) (w :: contacts es) A) :
    Feasible Usable (seats size) (waiting (β.expire w.startTs) es) (w :: contacts es) A ∧
      placed (waiting (β.expire w.startTs) es) A = placed (waiting β es) A := by
  refine hA.restrict (fun b hb => ?_) fun b v hbv => ?_
  · rcases mem_waiting.1 hb with hact | hoff
    · exact mem_waiting.2 (Or.inl (mem_without.1 hact).1)
    · exact mem_waiting.2 (Or.inr hoff)
  · rcases hA.supported b v hbv with ⟨hb, hv, huse⟩
    rcases mem_waiting.1 hb with hact | hoff
    · refine mem_waiting.2 (Or.inl (mem_without.2 ⟨hact, fun hdead => ?_⟩))
      have hdeadline := (Bundle.expiredBy_iff (hon.wellFormed.active_lifetime hact) w.startTs).1
        (List.mem_filter.1 hdead).2
      -- no window still to come opens before `w`
      exact absurd huse.2 (not_lt.2 (hdeadline.trans (hon.startTs_le hv)))
    · exact mem_waiting.2 (Or.inr hoff)

/-- A contact loses nothing: the dead could not be placed any more, and the exchange step makes up
for the rest. -/
theorem WithinReach.contact {w : ContactWindow} {sent : List Bundle} {credit : Prop}
    (hpolicy : sch.policy = .deadlineAware) (hsize : 0 < size)
    (huniform : ∀ b ∈ bundles, b.sizeBytes = size)
    (hon : OnTimeline sch bundles (.contact w :: es) β)
    (h : WithinReach bundles size n (.contact w :: es) β)
    (service : Service sch w ((β.expire w.startTs).ready w) sent credit) :
    WithinReach bundles size n es ((β.expire w.startTs).transmitted w sent) := by
  obtain ⟨A, hA, hn⟩ := h
  have hwf := hon.wellFormed
  obtain ⟨hA₁, hplaced⟩ := feasible_expire hon hA
  have hurgent := edf_urgent hpolicy hsize huniform hon service
  obtain ⟨A', hA', hle⟩ := exchange hon.window_notMem hurgent hA₁
  have hact : ∀ b ∈ sent, b ∈ β.active := fun b hb =>
    (of_mem_ready_expire hwf (service.subset b hb)).1
  -- what is left to place is what is queued after the contact or still to come
  have hrest : waiting (β.expire w.startTs) es \ sent.toFinset =
      waiting ((β.expire w.startTs).transmitted w sent) es := by
    ext b
    have hoff : b ∈ offered es → b ∉ sent := fun hoff hb =>
      hwf.future_notMem_active hoff (hact b hb)
    simp only [Finset.mem_sdiff, mem_waiting, List.mem_toFinset, Buffer.transmitted, Buffer.remove,
      mem_without]
    tauto
  rw [hrest] at hA' hle
  rw [hplaced] at hle
  refine ⟨A', hA', ?_⟩
  have hsent : ∀ b ∈ sent, b ∈ bundles := fun b hb => hon.known_active (hact b hb)
  -- nothing is delivered twice
  have hdisj : Disjoint (delivered bundles β.records) sent.toFinset := by
    refine Finset.disjoint_left.2 fun b hb hb' => ?_
    have hpend := hwf.active_pending (hact b (List.mem_toFinset.1 hb'))
    rw [(mem_delivered.1 hb).2] at hpend
    cases hpend
  rw [delivered_transmitted w hsent, delivered_expire w.startTs hwf,
    Finset.card_union_of_disjoint hdisj]
  calc n
      _ ≤ (delivered bundles β.records).card + (placed (waiting β es) A).card := hn
      _ ≤ _ := by
        rw [Nat.add_assoc]
        exact Nat.add_le_add_left hle _

end Runs

/-! ## Optimality -/

/-- Under DEADLINE_AWARE a run delivers as many bundles as any feasible assignment places. -/
theorem edf_reaches {sch : Scheduler} (hpolicy : sch.policy = .deadlineAware) (now : ℚ)
    {bundles : List Bundle} {size : ℤ} {s : SchedulerState} (hsize : 0 < size)
    (huniform : ∀ b ∈ bundles, b.sizeBytes = size)
    (hcap : ((totalBytes bundles : ℤ) : ℚ) ≤ sch.maxQueueBytes) (h : Valid bundles s.records)
    (hs : s.Idle) :
    Returns (run sch now bundles) s fun _ s' => ∀ A, FeasibleAssignment sch.plan bundles A →
      (placed bundles.toFinset A).card ≤ (delivered bundles s'.records).card := by
  have hwaiting : waiting s.toBuffer (timeline sch.plan.windows bundles) = bundles.toFinset := by
    ext b
    simp [waiting, hs.queue]
  have hstart : ∀ A, FeasibleAssignment sch.plan bundles A → WithinReach bundles size
      (placed bundles.toFinset A).card (timeline sch.plan.windows bundles) s.toBuffer := by
    intro A hA
    refine ⟨A, ?_, ?_⟩
    · rw [hwaiting, contacts_timeline]
      exact hA.feasible hsize huniform
    · rw [hwaiting]
      exact Nat.le_add_left _ _
  refine (run_induction (I := fun es β => ∀ A, FeasibleAssignment sch.plan bundles A →
      WithinReach bundles size (placed bundles.toFinset A).card es β)
    (fun e es β β' hon hI he A hA => by
      cases he with
      | arrival b =>
          have hoffer := Buffer.offer_eq_accept h hcap hon.wellFormed hon.known
          exact (hI A hA).arrival hon.wellFormed hoffer
      | contact service => exact (hI A hA).contact hpolicy hsize huniform hon service)
    h hs hstart now).mono ?_
  rintro _ s' ⟨β, hwf, hend, hbuffer⟩ A hA
  obtain ⟨A', hA', hn⟩ := hend A hA
  -- no window is left, so nothing is left to place
  have hnone : placed (waiting β []) A' = ∅ := by
    refine Finset.filter_eq_empty_iff.2 fun b _ hb => ?_
    obtain ⟨w, hw⟩ := Option.isSome_iff_exists.1 hb
    exact List.not_mem_nil (hA'.supported b w hw).2.1
  rw [hnone, Finset.card_empty, Nat.add_zero] at hn
  rwa [hbuffer, delivered_finish _ hwf]

/-- For bundles of one size, and with a cap that covers them, DEADLINE_AWARE delivers at least as
many bundles as every feasible assignment places, and at least as many as every other scheduler for
the same plan. -/
theorem edf_delivers_most {sch : Scheduler} (hpolicy : sch.policy = .deadlineAware) (now : ℚ)
    {bundles : List Bundle} {records : Bundle → Lifecycle} {size : ℤ} (hsize : 0 < size)
    (huniform : ∀ b ∈ bundles, b.sizeBytes = size)
    (hcap : ((totalBytes bundles : ℤ) : ℚ) ≤ sch.maxQueueBytes) (h : Valid bundles records) :
    ∃ s', run sch now bundles (SchedulerState.fresh records) = .ok ⟨⟩ s' ∧
      (∀ A, FeasibleAssignment sch.plan bundles A →
        (placed bundles.toFinset A).card ≤ (delivered bundles s'.records).card) ∧
      ∀ (other : Scheduler) (now' : ℚ), other.plan = sch.plan →
        ∃ t', run other now' bundles (SchedulerState.fresh records) = .ok ⟨⟩ t' ∧
          (delivered bundles t'.records).card ≤ (delivered bundles s'.records).card := by
  rcases edf_reaches hpolicy now hsize huniform hcap h (SchedulerState.fresh_idle records) with
    ⟨_, s', hrun, hmost⟩
  refine ⟨s', hrun, hmost, fun other now' hplan => ?_⟩
  rcases run_assigns other now' h (SchedulerState.fresh_idle records) with
    ⟨_, t', hrun', A, hA, _, hplaced⟩
  refine ⟨t', hrun', ?_⟩
  rw [← hplaced]
  exact hmost A (hplan ▸ hA)

/-- Three bundles of 100 bytes and one window. -/
theorem edf_delivers_most_small :
    ∃ s', run { Small.scheduler with policy := .deadlineAware } 0
        [Small.early, Small.doomed, Small.late] (SchedulerState.fresh fun _ => {}) = .ok ⟨⟩ s' ∧
      (∀ A, FeasibleAssignment Small.plan [Small.early, Small.doomed, Small.late] A →
        (placed [Small.early, Small.doomed, Small.late].toFinset A).card ≤
          (delivered [Small.early, Small.doomed, Small.late] s'.records).card) ∧
      ∀ (other : Scheduler) (now' : ℚ), other.plan = Small.plan →
        ∃ t', run other now' [Small.early, Small.doomed, Small.late]
            (SchedulerState.fresh fun _ => {}) = .ok ⟨⟩ t' ∧
          (delivered [Small.early, Small.doomed, Small.late] t'.records).card ≤
            (delivered [Small.early, Small.doomed, Small.late] s'.records).card :=
  edf_delivers_most rfl 0 (by decide : (0 : ℤ) < 100) (by decide +kernel) (by decide +kernel)
    Small.valid

end Gateway
end LunaBridge
