import LunaBridge.Foundation.SlotAssignment
import LunaBridge.Scheduling.Tracking

/-!
# Assignment — runs as assignments of bundles to windows

A feasible assignment gives each bundle at most one window in which it is there and alive, and no
window more than it can carry.  Every run delivers the bundles of a feasible assignment, whatever
its policy.
-/

namespace LunaBridge
namespace Gateway

open Foundation.Machine Foundation.Selection Foundation.Trace Foundation.StableSort
open Foundation.GreedyFill Foundation.SlotAssignment

/-- The bundle can use the window: it arrives before the end and outlives the start. -/
def Usable (b : Bundle) (w : ContactWindow) : Prop :=
  b.ingressTs < w.endTs ∧ w.startTs < b.deadline

/-- `A` gives bundles of the list usable windows of the plan, within every bit budget. -/
structure FeasibleAssignment (plan : ContactPlan) (bundles : List Bundle)
    (A : Bundle → Option ContactWindow) : Prop where
  usable : ∀ b w, A b = some w → b ∈ bundles ∧ w ∈ plan.windows ∧ Usable b w
  inBudget : ∀ w ∈ plan.windows,
    load Bundle.bits (bundles.filter fun b => decide (A b = some w)) ≤ w.rawBitBudget

/-! ## The delivered bundles -/

/-- The bundles whose records say DELIVERED. -/
def delivered (bundles : List Bundle) (records : Bundle → Lifecycle) : Finset Bundle :=
  bundles.toFinset.filter fun b => (records b).terminalState = .delivered

section Delivered

variable {bundles vs : List Bundle} {records : Bundle → Lifecycle} {f : Lifecycle → Lifecycle}

theorem mem_delivered {b : Bundle} :
    b ∈ delivered bundles records ↔
      b ∈ bundles ∧ (records b).terminalState = .delivered := by
  simp [delivered]

/-- Settling pending bundles otherwise than by delivery delivers nothing. -/
theorem delivered_overwrite (hpend : ∀ v ∈ vs, (records v).terminalState = .pending)
    (hf : ∀ r, (f r).terminalState ≠ .delivered) :
    delivered bundles (overwrite f vs records) = delivered bundles records := by
  refine Finset.filter_congr fun b _ => ?_
  by_cases hb : b ∈ vs
  · simp [overwrite, hb, hpend b hb, hf]
  · simp [overwrite, hb]

/-- Noting an admission delivers nothing. -/
theorem delivered_admitted (ts : ℚ) :
    delivered bundles (overwrite (Lifecycle.admitted ts) vs records) =
      delivered bundles records := by
  refine Finset.filter_congr fun b _ => ?_
  by_cases hb : b ∈ vs <;> simp [overwrite, hb, Lifecycle.admitted]

theorem delivered_transmitted (w : ContactWindow) {β : Buffer} {sent : List Bundle}
    (hsent : ∀ b ∈ sent, b ∈ bundles) :
    delivered bundles (β.transmitted w sent).records =
      delivered bundles β.records ∪ sent.toFinset := by
  ext b
  rw [Finset.mem_union, mem_delivered, mem_delivered, List.mem_toFinset]
  by_cases hb : b ∈ sent
  · simp [Buffer.transmitted, Buffer.remove, Buffer.settle, overwrite, hb, hsent b hb,
      Lifecycle.delivered]
  · simp [Buffer.transmitted, Buffer.remove, Buffer.settle, overwrite, hb]

variable {sch : Scheduler} {future : List Bundle} {β : Buffer}

theorem delivered_expire (t : ℚ) (hwf : β.WellFormed sch future) :
    delivered bundles (β.expire t).records = delivered bundles β.records :=
  delivered_overwrite (fun _ hv => hwf.active_pending (List.mem_of_mem_filter hv))
    (by simp [Lifecycle.expired])

theorem delivered_offer {b : Bundle} (hwf : β.WellFormed sch (b :: future)) :
    delivered bundles (β.offer sch b).records = delivered bundles β.records := by
  unfold Buffer.offer
  cases hadm : sch.admission β.active b with
  | none =>
      refine delivered_overwrite (fun v hv => ?_) (by simp [Lifecycle.overflowed])
      rw [List.mem_singleton.1 hv]
      exact hwf.pending b (by simp)
  | some vs =>
      refine (delivered_admitted b.ingressTs).trans ?_
      refine delivered_overwrite (fun v hv => ?_) (by simp [Lifecycle.overflowed])
      exact hwf.active_pending ((admission_victims hwf.active_nodup hadm).2 v hv).1

/-- Nothing is delivered after the plan has run out. -/
theorem delivered_finish (lastEnd : Option ℚ) (hwf : β.WellFormed sch []) :
    delivered bundles (β.lastExpire lastEnd).sweep.records = delivered bundles β.records := by
  calc delivered bundles (β.lastExpire lastEnd).sweep.records
      _ = delivered bundles (β.lastExpire lastEnd).records :=
        delivered_overwrite (fun v hv => (hwf.lastExpire lastEnd).active_pending hv)
          (by simp [Lifecycle.unscheduled])
      _ = delivered bundles β.records := by
        cases lastEnd with
        | none => rfl
        | some t => exact delivered_expire t hwf

end Delivered

/-! ## Every run is a feasible assignment -/

section Runs

variable {sch : Scheduler} {bundles : List Bundle} {es : List Event} {β : Buffer}

/-- The deliveries so far follow `A`, which leaves the contacts to come free. -/
structure Follows (sch : Scheduler) (bundles : List Bundle) (A : Bundle → Option ContactWindow)
    (es : List Event) (β : Buffer) : Prop where
  feasible : FeasibleAssignment sch.plan bundles A
  free : ∀ b w, A b = some w → w ∉ contacts es
  buffered : ∀ w, ((totalBytes (bundles.filter fun b => decide (A b = some w)) : ℤ) : ℚ) ≤
    sch.maxQueueBytes
  agrees : placed bundles.toFinset A = delivered bundles β.records

/-- The assignment `A` with the bundles `sent` placed in `w`. -/
def placeIn (w : ContactWindow) (sent : List Bundle) (A : Bundle → Option ContactWindow) :
    Bundle → Option ContactWindow :=
  fun b => if b ∈ sent then some w else A b

section Placed

variable {A : Bundle → Option ContactWindow} {v w : ContactWindow} {sent : List Bundle} {b : Bundle}

theorem placeIn_of_mem (hb : b ∈ sent) : placeIn w sent A b = some w := if_pos hb

theorem placeIn_of_notMem (hb : b ∉ sent) : placeIn w sent A b = A b := if_neg hb

/-- Only what has just been sent uses a window that was free. -/
theorem sent_of_placed (hfree : ∀ b, A b ≠ some w)
    (hb : b ∈ bundles.filter fun b => decide (placeIn w sent A b = some w)) : b ∈ sent := by
  by_contra hnot
  simp [placeIn_of_notMem hnot, hfree b] at hb

/-- What uses another window was placed there before. -/
theorem placed_before (hvw : v ≠ w)
    (hb : b ∈ bundles.filter fun b => decide (placeIn w sent A b = some v)) :
    b ∈ bundles.filter fun b => decide (A b = some v) := by
  rcases List.mem_filter.1 hb with ⟨hmem, hbv⟩
  have hnot : b ∉ sent := by
    intro hb'
    simp [placeIn_of_mem hb', Ne.symm hvw] at hbv
  simpa [placeIn_of_notMem hnot, hmem] using hbv

end Placed

/-- A contact adds its deliveries to the assignment. -/
theorem Follows.contact {A : Bundle → Option ContactWindow} {w : ContactWindow}
    {sent : List Bundle} {credit : Prop} (hsizes : ∀ b ∈ bundles, 0 < b.sizeBytes)
    (hnd : bundles.Nodup) (hon : OnTimeline sch bundles (.contact w :: es) β)
    (h : Follows sch bundles A (.contact w :: es) β)
    (service : Service sch w ((β.expire w.startTs).ready w) sent credit) :
    Follows sch bundles (placeIn w sent A) es ((β.expire w.startTs).transmitted w sent) := by
  have hwf := hon.wellFormed
  have hfree : ∀ b, A b ≠ some w := fun b hb => h.free b w hb (by simp)
  have hready := fun b (hb : b ∈ sent) => of_mem_ready_expire hwf (service.subset b hb)
  have hsent : ∀ b ∈ sent, b ∈ bundles := fun b hb => hon.known_active (hready b hb).1
  refine ⟨⟨?_, fun v hv => ?_⟩, ?_, fun v => ?_, ?_⟩
  · -- a bundle placed now is ready in `w`, one placed before stays where it was
    intro b v hbv
    by_cases hb : b ∈ sent
    · rw [placeIn_of_mem hb] at hbv
      cases hbv
      exact ⟨hsent b hb, hon.window_mem, (hready b hb).2⟩
    · rw [placeIn_of_notMem hb] at hbv
      exact h.feasible.usable b v hbv
  · by_cases hvw : v = w
    · subst hvw
      -- only what was sent now is placed in `w`
      calc load Bundle.bits (bundles.filter _)
          _ ≤ load Bundle.bits sent :=
            load_le_of_subperm
              (List.subperm_of_subset (hnd.filter _) fun _ hb => sent_of_placed hfree hb)
              fun b hb => Bundle.bits_nonneg (hsizes b (hsent b hb))
          _ ≤ v.rawBitBudget := service.inBudget
    · calc load Bundle.bits (bundles.filter _)
          _ ≤ load Bundle.bits (bundles.filter fun b => decide (A b = some v)) :=
            load_le_of_subperm
              (List.subperm_of_subset (hnd.filter _) fun _ hb => placed_before hvw hb)
              fun b hb => Bundle.bits_nonneg (hsizes b (List.mem_of_mem_filter hb))
          _ ≤ v.rawBitBudget := h.feasible.inBudget v hv
  · -- `w` will not open again
    intro b v hbv
    by_cases hb : b ∈ sent
    · rw [placeIn_of_mem hb] at hbv
      cases hbv
      exact hon.window_notMem
    · rw [placeIn_of_notMem hb] at hbv
      exact fun hv => h.free b v hbv (List.mem_cons_of_mem _ hv)
  · by_cases hvw : v = w
    · -- what was sent came out of the buffer
      subst hvw
      have hle := totalBytes_le_of_subset (hnd.filter _) hwf.active_nodup
        (fun b hb => (hready b (sent_of_placed hfree hb)).1) fun b hb => hwf.active_size_pos hb
      rw [← hwf.bytes] at hle
      exact le_trans (by exact_mod_cast hle) hwf.capacity
    · have hold : ∀ b ∈ bundles.filter (fun b => decide (placeIn w sent A b = some v)),
          b ∈ bundles.filter fun b => decide (A b = some v) := fun _ hb => placed_before hvw hb
      have hle := totalBytes_le_of_subset (hnd.filter _) (hnd.filter _) hold
        fun b hb => hsizes b (List.mem_of_mem_filter hb)
      exact le_trans (by exact_mod_cast hle) (h.buffered v)
  · rw [delivered_transmitted w hsent, delivered_expire w.startTs hwf, ← h.agrees]
    ext b
    by_cases hb : b ∈ sent
    · simp [placed, placeIn_of_mem hb, hb, hsent b hb]
    · simp [placed, placeIn_of_notMem hb, hb]

/-- Arrivals leave the assignment as it is. -/
theorem Follows.step {A : Bundle → Option ContactWindow} {credit : Prop} {e : Event} {β' : Buffer}
    (hsizes : ∀ b ∈ bundles, 0 < b.sizeBytes) (hnd : bundles.Nodup)
    (hon : OnTimeline sch bundles (e :: es) β) (h : Follows sch bundles A (e :: es) β)
    (hstep : Step sch credit e β β') : ∃ A', Follows sch bundles A' es β' := by
  cases hstep with
  | arrival b =>
      exact ⟨A, h.feasible, h.free, h.buffered,
        h.agrees.trans (delivered_offer hon.wellFormed).symm⟩
  | contact service => exact ⟨_, h.contact hsizes hnd hon service⟩

/-- What a run delivers is what some feasible assignment places, and each window's share of it fits
the buffer. -/
theorem run_assigns (sch : Scheduler) (now : ℚ) {s : SchedulerState}
    (h : Valid bundles s.records) (hs : s.Idle) :
    Returns (run sch now bundles) s fun _ s' => ∃ A, FeasibleAssignment sch.plan bundles A ∧
      (∀ w, ((totalBytes (bundles.filter fun b => decide (A b = some w)) : ℤ) : ℚ) ≤
        sch.maxQueueBytes) ∧
      placed bundles.toFinset A = delivered bundles s'.records := by
  have hstart : Follows sch bundles (fun _ => none) (timeline sch.plan.windows bundles)
      s.toBuffer := by
    refine ⟨⟨by simp, fun w _ => ?_⟩, by simp, fun w => ?_, ?_⟩
    · simpa using w.rawBitBudget_pos.le
    · simpa using sch.maxQueueBytes_pos.le
    · -- nothing has been placed, and nothing delivered
      ext b
      rw [mem_delivered]
      refine ⟨fun hb => by simp [placed] at hb, fun ⟨hb, hdel⟩ => ?_⟩
      rw [h.pending b hb] at hdel
      cases hdel
  refine (run_induction (I := fun es β => ∃ A, Follows sch bundles A es β)
    (fun _ _ _ _ hon hI he => hI.elim fun _ hA => hA.step h.sizes h.nodup hon he)
    h hs ⟨_, hstart⟩ now).mono ?_
  rintro _ s' ⟨β, hwf, ⟨A, hA⟩, hbuffer⟩
  refine ⟨A, hA.feasible, hA.buffered, ?_⟩
  rw [hbuffer, delivered_finish _ hwf]
  exact hA.agrees

end Runs

end Gateway
end LunaBridge
