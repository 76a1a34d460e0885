import LunaBridge.Foundation.LargerBudget
import LunaBridge.Scheduling.SafetyBuffer

/-!
# DropTail — what class-blind admission lets through

A scheduler whose admission is not priority-aware drops whatever arrives and does not fit.  So its
queue is a greedy walk over the arrivals with the cap as budget, and a contact that has room for
everything delivers that walk.
-/

namespace LunaBridge
namespace Gateway

open Foundation.Machine Foundation.Selection Foundation.GreedyFill Foundation.StableSort

/-- What a bundle takes up in the buffer. -/
def Bundle.bytes (b : Bundle) : ℚ := b.sizeBytes

theorem load_bytes (bs : List Bundle) : load Bundle.bytes bs = (totalBytes bs : ℤ) := by
  induction bs with
  | nil => simp
  | cons b bs ih =>
      rw [load_cons, ih, totalBytes_cons, Bundle.bytes]
      push_cast
      rfl

section Blind

variable {sch : Scheduler} {w : ContactWindow} {bundles done future : List Bundle}
  {records : Bundle → Lifecycle} {β : Buffer} {b : Bundle}

/-- The queue of a class-blind scheduler once the bundles `done` have been offered. -/
def dropTail (sch : Scheduler) (done : List Bundle) : List Bundle :=
  greedyFill Bundle.bytes false sch.maxQueueBytes done

theorem dropTail_concat (sch : Scheduler) (done : List Bundle) (b : Bundle) :
    dropTail sch (done ++ [b]) =
      if sch.Fits (totalBytes (dropTail sch done)) b.sizeBytes then dropTail sch done ++ [b]
      else dropTail sch done := by
  have hfits : b.bytes ≤ sch.maxQueueBytes - load Bundle.bytes (dropTail sch done) ↔
      sch.Fits (totalBytes (dropTail sch done)) b.sizeBytes := by
    rw [Scheduler.Fits, load_bytes, Bundle.bytes, le_sub_iff_add_le, add_comm, Int.cast_add]
  rw [dropTail, greedyFill_append]
  show dropTail sch done ++ greedyFill Bundle.bytes false
    (sch.maxQueueBytes - load Bundle.bytes (dropTail sch done)) [b] = _
  by_cases hroom : sch.Fits (totalBytes (dropTail sch done)) b.sizeBytes
  · rw [greedyFill, if_pos (hfits.2 hroom), if_pos hroom]
    rfl
  · rw [greedyFill, if_neg fun h => hroom (hfits.1 h), if_neg hroom]
    exact List.append_nil _

/-- An arrival joins the queue if it fits; nobody is evicted for it. -/
theorem offer_blind (hblind : sch.admissionIsPriorityAware = false)
    (hqueue : β.active = dropTail sch done) :
    (β.offer sch b).active = dropTail sch (done ++ [b]) := by
  rw [dropTail_concat, ← hqueue]
  unfold Buffer.offer Scheduler.admission
  by_cases hroom : sch.Fits (totalBytes β.active) b.sizeBytes
  · rw [if_pos hroom, if_pos hroom]
    simp only [Buffer.evict, Buffer.remove_nil]
    rfl
  · rw [if_neg hroom, if_neg hroom, if_neg (by simp [hblind])]
    rfl

/-- A class-blind run whose bundles await one contact: they come in one after the other, and the
contact delivers the queue. -/
inductive Filling (sch : Scheduler) (w : ContactWindow) (bundles : List Bundle) :
    List Event → Buffer → Prop
  | arriving {es : List Event} {done rest : List Bundle} {β : Buffer}
      (ahead : es = rest.map Event.arrival ++ [.contact w])
      (arrivals : sortBy Bundle.ingressTs bundles = done ++ rest)
      (queue : β.active = dropTail sch done) (unsent : delivered bundles β.records = ∅) :
      Filling sch w bundles es β
  | served {β : Buffer}
      (all : delivered bundles β.records =
        (dropTail sch (sortBy Bundle.ingressTs bundles)).toFinset) :
      Filling sch w bundles [] β

/-- The contact delivers the queue. -/
theorem served_of_contact {sent : List Bundle} {credit : Prop}
    (h : AwaitsOneContact sch.plan w bundles) (hsizes : ∀ b ∈ bundles, 0 < b.sizeBytes)
    (hcredit : credit) (hwf : β.WellFormed sch future) (hknown : ∀ b ∈ β.active, b ∈ bundles)
    (hunsent : delivered bundles β.records = ∅)
    (service : Service sch w ((β.expire w.startTs).ready w) sent credit) :
    delivered bundles ((β.expire w.startTs).transmitted w sent).records = β.active.toFinset := by
  -- everybody in the queue is alive and ready
  have hready : ∀ b, b ∈ (β.expire w.startTs).ready w ↔ b ∈ β.active := by
    intro b
    refine ⟨fun hb => (of_mem_ready_expire hwf hb).1, fun hb => ?_⟩
    refine Buffer.mem_ready.2 ⟨?_, (h.arrived b (hknown b hb)).trans_lt w.start_lt_end⟩
    rw [Buffer.expire_active, List.mem_filter]
    have hlife := Bundle.expiredBy_iff (hwf.active_lifetime hb) w.startTs
    refine ⟨hb, ?_⟩
    rw [Bool.not_eq_true', Bool.eq_false_iff]
    exact fun hexp => absurd (h.alive b (hknown b hb)) (not_lt.2 (hlife.1 hexp))
  have hwf' := hwf.expire w.startTs
  have hroom : load Bundle.bits ((β.expire w.startTs).ready w) ≤ w.rawBitBudget := by
    refine le_trans ?_ h.inBudget
    refine load_le_of_subperm (List.subperm_of_subset (hwf'.active_nodup.filter _) ?_)
      fun b hb => Bundle.bits_nonneg (hsizes b hb)
    exact fun b hb => hknown b ((hready b).1 hb)
  -- so the contact sends exactly the queue
  have hsent : ∀ b, b ∈ sent ↔ b ∈ β.active := fun b =>
    ⟨fun hb => (hready b).1 (service.subset b hb),
      fun hb => service.complete hcredit hroom b ((hready b).2 hb)⟩
  rw [delivered_transmitted w fun b hb => hknown b ((hsent b).1 hb),
    delivered_expire w.startTs hwf, hunsent, Finset.empty_union]
  ext b
  rw [List.mem_toFinset, List.mem_toFinset, hsent]

theorem Filling.step {credit : Prop} {e : Event} {es : List Event} {β' : Buffer}
    (hblind : sch.admissionIsPriorityAware = false) (h : AwaitsOneContact sch.plan w bundles)
    (hsizes : ∀ b ∈ bundles, 0 < b.sizeBytes) (hcredit : credit)
    (hon : OnTimeline sch bundles (e :: es) β) (hfill : Filling sch w bundles (e :: es) β)
    (hstep : Step sch credit e β β') : Filling sch w bundles es β' := by
  cases hfill with
  | @arriving _ done rest _ ahead arrivals queue unsent =>
      cases rest with
      | nil =>
          -- all arrivals are in
          cases ahead
          rw [List.append_nil] at arrivals
          cases hstep with
          | contact service =>
              refine .served ?_
              rw [arrivals, ← queue]
              exact served_of_contact h hsizes hcredit hon.wellFormed (fun b => hon.known_active)
                unsent service
      | cons b rest =>
          cases ahead
          cases hstep with
          | arrival =>
              refine .arriving rfl ?_ (offer_blind hblind queue) ?_
              · rw [arrivals, List.append_assoc]
                rfl
              · rw [delivered_offer hon.wellFormed, unsent]

/-- What class-blind admission lets through is what one contact delivers. -/
theorem AwaitsOneContact.delivers_blind_iff (h : AwaitsOneContact sch.plan w bundles)
    (hblind : sch.admissionIsPriorityAware = false) (hvalid : Valid bundles records) (now : ℚ) :
    Returns (run sch now bundles) (SchedulerState.fresh records) fun _ s' => ∀ b ∈ bundles,
      ((s'.records b).terminalState = .delivered ↔
        b ∈ dropTail sch (sortBy Bundle.ingressTs bundles)) := by
  have hidle := SchedulerState.fresh_idle records
  have hstart : Filling sch w bundles (timeline sch.plan.windows bundles)
      (SchedulerState.fresh records).toBuffer := by
    -- everybody arrives before the only contact
    have hin : bundles.filter (fun b => decide (b.ingressTs ≤ w.endTs)) = bundles :=
      List.filter_eq_self.2 fun b hb =>
        decide_eq_true ((h.arrived b hb).trans w.start_lt_end.le)
    have hout : bundles.filter (fun b => decide (w.endTs < b.ingressTs)) = [] :=
      List.filter_eq_nil_iff.2 fun b hb hlate =>
        absurd ((h.arrived b hb).trans w.start_lt_end.le) (not_le.2 (of_decide_eq_true hlate))
    refine .arriving ?_ (List.nil_append _).symm rfl ?_
    · rw [h.windows, timeline, hin, hout]
      rfl
    · refine Finset.filter_eq_empty_iff.2 fun b hb hdel => ?_
      have hpend := hvalid.pending b (List.mem_toFinset.1 hb)
      rw [show (SchedulerState.fresh records).records b = records b from rfl, hpend] at hdel
      cases hdel
  refine (run_induction (I := Filling sch w bundles) (fun _ _ _ _ hon hI hstep =>
    hI.step hblind h hvalid.sizes (SchedulerState.fresh_inCredit records) hon hstep)
    hvalid hidle hstart now).mono ?_
  rintro _ s' ⟨β, hwf, hfill, hbuffer⟩ b hb
  have hall : delivered bundles β.records =
      (dropTail sch (sortBy Bundle.ingressTs bundles)).toFinset := by
    cases hfill with
    | @arriving _ _ rest _ ahead => cases rest <;> cases ahead
    | served all => exact all
  have hfinal : delivered bundles s'.records =
      (dropTail sch (sortBy Bundle.ingressTs bundles)).toFinset := by
    rw [hbuffer, delivered_finish _ hwf, hall]
  rw [← List.mem_toFinset, ← hfinal, mem_delivered]
  exact ⟨fun hdel => ⟨hb, hdel⟩, fun hdel => hdel.2⟩

end Blind

end Gateway
end LunaBridge
