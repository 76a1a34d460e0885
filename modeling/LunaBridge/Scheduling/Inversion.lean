import LunaBridge.Scheduling.Assignment

/-!
# Inversion — no priority inversion for bundles of one size

Priority-aware admission gives up the lowest rank first and STRICT_PRIORITY sends the highest rank
first.  With bundles of one size that have all arrived when the first window opens and outlive the
last one, the two compose: whatever is lost ranks no higher than what is queued, and whatever is
sent ranks no lower than what is left behind.
-/

namespace LunaBridge
namespace Gateway

open Foundation.Machine Foundation.Selection Foundation.Trace Foundation.StableSort

/-! ## One size -/

section Uniform

variable {sch : Scheduler} {active : List Bundle} {b : Bundle} {size : ℤ}

/-- With bundles of one size at most one victim has to go, and it is of the lowest rank. -/
theorem admission_uniform (haware : sch.admissionIsPriorityAware = true) (hsize : 0 < size)
    (hactive : ∀ c ∈ active, c.sizeBytes = size) (hb : b.sizeBytes = size)
    (hcap : ((totalBytes active : ℤ) : ℚ) ≤ sch.maxQueueBytes) :
    (sch.Fits (totalBytes active) size ∧ sch.admission active b = some []) ∨
    (¬ sch.Fits (totalBytes active) size ∧ (∀ c ∈ active, c.rank ≤ b.rank) ∧
      sch.admission active b = none) ∨
    ∃ v ∈ active, ¬ sch.Fits (totalBytes active) size ∧ b.rank < v.rank ∧
      (∀ c ∈ active, c.rank ≤ v.rank) ∧ sch.admission active b = some [v] := by
  by_cases hfit : sch.Fits (totalBytes active) size
  · exact Or.inl ⟨hfit, by simp [Scheduler.admission, hb, hfit]⟩
  have hcand := totalBytes_candidates active b
  have hperm : (victimOrder (candidates active b)).Perm (candidates active b) := sortBy_perm _ _
  have hsorted : (victimOrder (candidates active b)).Pairwise fun u v =>
      toLex (-u.rank, -u.ingressTs) ≤ toLex (-v.rank, -v.ingressTs) := sortBy_pairwise _ _
  -- who is no candidate ranks no lower than the arrival
  have hother : ∀ c ∈ active, c ∉ victimOrder (candidates active b) → c.rank ≤ b.rank := by
    intro c hc hnot
    by_contra hlt
    exact hnot (hperm.symm.subset (List.mem_filter.2 ⟨hc, by simpa using hlt⟩))
  cases hvs : victimOrder (candidates active b) with
  | nil =>
      rw [hvs] at hperm hother
      have hnone : candidates active b = [] := hperm.symm.eq_nil
      rw [hnone, totalBytes_nil, sub_zero] at hcand
      refine Or.inr (Or.inl ⟨hfit, fun c hc => hother c hc (by simp), ?_⟩)
      simp [Scheduler.admission, hb, hfit, ← hcand]
  | cons v vs =>
      rw [hvs] at hperm hother hsorted
      have hv : v ∈ active ∧ b.rank < v.rank := by
        simpa [candidates] using hperm.subset (List.mem_cons_self ..)
      have hvsize : v.sizeBytes = size := hactive v hv.1
      have hworst : ∀ c ∈ active, c.rank ≤ v.rank := by
        intro c hc
        by_cases hmem : c ∈ v :: vs
        · rcases List.mem_cons.1 hmem with rfl | hmem
          · exact le_refl _
          · have hle := Prod.Lex.monotone_fst _ _ ((List.pairwise_cons.1 hsorted).1 c hmem)
            exact neg_le_neg_iff.1 hle
        · exact (hother c hc hmem).trans hv.2.le
      -- one bundle less makes room for one of the same size
      have hone : sch.Fits (totalBytes active - size) size := by
        rw [Scheduler.Fits, sub_add_cancel]
        exact hcap
      have hprot : sch.Fits (totalBytes (protectedFrom active b)) size := by
        refine hone.mono ?_
        rw [← hcand, ← totalBytes_perm hperm, totalBytes_cons, hvsize]
        have hrest : 0 ≤ totalBytes vs := totalBytes_nonneg fun c hc => by
          have hc' := hperm.subset (List.mem_cons_of_mem v hc)
          rw [hactive c (List.mem_of_mem_filter hc')]
          exact hsize
        omega
      have haway : neededVictims sch size (totalBytes active) (v :: vs) = [v] := by
        rw [neededVictims, if_neg hfit, hvsize, neededVictims_of_fits hone]
      refine Or.inr (Or.inr ⟨v, hv.1, hfit, hv.2, hworst, ?_⟩)
      simp [Scheduler.admission, hb, hfit, haware, hprot, hvs, haway]

end Uniform

/-! ## The invariant -/

/-- Delivered or lost to a full buffer. -/
def Settled (_ : Bundle) (r : Lifecycle) : Prop :=
  r.terminalState = .delivered ∨ r.terminalState = .queueOverflow

/-- With `es` still to come, rank decides who is queued, who is lost and who has been sent.  A loss
means that the buffer is full and stays full while there are arrivals to come. -/
structure RankDecides (sch : Scheduler) (bundles : List Bundle) (size : ℤ)
    (records : Bundle → Lifecycle) (es : List Event) (β : Buffer) : Prop where
  tracked : Tracked Settled bundles records (offered es) β
  lost : ∀ l ∈ bundles, (β.records l).terminalState = .queueOverflow →
    ∀ c ∈ β.active, c.rank ≤ l.rank
  full : ∀ l ∈ bundles, (β.records l).terminalState = .queueOverflow → offered es ≠ [] →
    ¬ sch.Fits (totalBytes β.active) size
  sent : ∀ b ∈ delivered bundles β.records, ∀ c ∈ bundles, c.rank < b.rank →
    c ∈ delivered bundles β.records

/-- All bundles have arrived when a window opens, and none has expired. -/
structure Present (sch : Scheduler) (bundles : List Bundle) : Prop where
  arrived : ∀ w ∈ sch.plan.windows, ∀ b ∈ bundles, b.ingressTs ≤ w.startTs
  alive : ∀ w ∈ sch.plan.windows, ∀ b ∈ bundles, w.startTs < b.deadline

/-- It is enough to look at the first window and the last one. -/
theorem Present.of_ends {sch : Scheduler} {bundles : List Bundle}
    (hfirst : ∀ w ∈ sch.plan.windows.head?, ∀ b ∈ bundles, b.ingressTs ≤ w.startTs)
    (hlast : ∀ t ∈ sch.plan.lastEnd, ∀ b ∈ bundles, t < b.deadline) : Present sch bundles := by
  constructor
  · intro w hw b hb
    have hordered := sch.plan.pairwise_startTs
    cases hws : sch.plan.windows with
    | nil =>
        rw [hws] at hw
        cases hw
    | cons v ws =>
        rw [hws] at hw hordered
        have hv := hfirst v (by simp [hws]) b hb
        rcases List.mem_cons.1 hw with rfl | hw'
        · exact hv
        · exact hv.trans ((List.pairwise_cons.1 hordered).1 w hw').le
  · intro w hw b hb
    obtain ⟨t, ht, hle⟩ := ContactPlan.exists_lastEnd hw
    calc w.startTs
        _ < w.endTs := w.start_lt_end
        _ ≤ t := hle
        _ < b.deadline := hlast t ht b hb

section Steps

variable {sch : Scheduler} {bundles : List Bundle} {size : ℤ} {records : Bundle → Lifecycle}
  {es : List Event} {β : Buffer}

/-- The expiry pass of a window finds nobody dead. -/
theorem Present.expire_eq {w : ContactWindow} (h : Present sch bundles)
    (hon : OnTimeline sch bundles (.contact w :: es) β) : β.expire w.startTs = β := by
  have hnone : β.active.filter (fun b => b.expiredBy w.startTs) = [] := by
    refine List.filter_eq_nil_iff.2 fun c hc hdead => ?_
    have hlife := hon.wellFormed.active_lifetime hc
    have halive := h.alive w hon.window_mem c (hon.known_active hc)
    exact absurd halive (not_lt.2 ((Bundle.expiredBy_iff hlife w.startTs).1 hdead))
  rw [Buffer.expire, hnone, Buffer.remove_nil]

/-- When a window opens nobody is still to come. -/
theorem Present.offered_eq_nil {w : ContactWindow} (h : Present sch bundles)
    (hon : OnTimeline sch bundles (.contact w :: es) β) : offered es = [] := by
  refine List.eq_nil_iff_forall_not_mem.2 fun c hc => ?_
  have hlate := hon.endTs_lt_ingressTs hc
  have hearly := h.arrived w hon.window_mem c (hon.known c (List.mem_append_right _ hc))
  exact absurd (hearly.trans w.start_lt_end.le) (not_le.2 hlate)

/-- Among bundles of one size, an arrival takes exactly the room its victim gives up. -/
theorem totalBytes_displace {v b : Bundle} (hnd : β.active.Nodup) (hv : v ∈ β.active)
    (hsize : b.sizeBytes = v.sizeBytes) :
    totalBytes ((β.evict [v]).accept b).active = totalBytes β.active := by
  have hone := totalBytes_without hnd (List.nodup_singleton v)
    fun u hu => List.mem_singleton.1 hu ▸ hv
  show totalBytes (without β.active [v] ++ [b]) = _
  simp only [totalBytes_append, totalBytes_cons, totalBytes_nil, add_zero] at hone ⊢
  omega

/-- Noting an admission settles nothing. -/
theorem accept_terminalState (b l : Bundle) (β : Buffer) :
    ((β.accept b).records l).terminalState = (β.records l).terminalState := by
  simp only [Buffer.accept, overwrite]
  split <;> rfl

/-- An arrival displaces the lowest rank, or is of the lowest rank and is dropped. -/
theorem RankDecides.arrival {b : Bundle} (haware : sch.admissionIsPriorityAware = true)
    (hsize : 0 < size) (huniform : ∀ c ∈ bundles, c.sizeBytes = size)
    (hon : OnTimeline sch bundles (.arrival b :: es) β)
    (h : RankDecides sch bundles size records (.arrival b :: es) β) :
    RankDecides sch bundles size records es (β.offer sch b) := by
  have hwf := hon.wellFormed
  have hb : b ∈ bundles := hon.known b (by simp)
  have hcap : ((totalBytes β.active : ℤ) : ℚ) ≤ sch.maxQueueBytes := hwf.bytes ▸ hwf.capacity
  have hsent : ∀ c ∈ delivered bundles (β.offer sch b).records, ∀ d ∈ bundles, d.rank < c.rank →
      d ∈ delivered bundles (β.offer sch b).records := by
    rw [delivered_offer hwf]
    exact h.sent
  rcases admission_uniform (b := b) haware hsize
    (fun c hc => huniform c (hon.known_active hc)) (huniform b hb) hcap with
    ⟨hfit, hadm⟩ | ⟨hfull, hrank, hadm⟩ | ⟨v, hv, hfull, hbv, hrank, hadm⟩
  · -- there is room, so nothing has been lost so far
    have hoffer : β.offer sch b = β.accept b := by simp [Buffer.offer, hadm, Buffer.evict]
    rw [hoffer] at hsent ⊢
    have hnone : ∀ l ∈ bundles, ((β.accept b).records l).terminalState ≠ .queueOverflow := by
      intro l hl hlost
      rw [accept_terminalState] at hlost
      exact h.full l hl hlost (by simp) hfit
    exact ⟨h.tracked.accept hwf, fun l hl hlost => absurd hlost (hnone l hl),
      fun l hl hlost => absurd hlost (hnone l hl), hsent⟩
  · -- the arrival joins the lost
    have hoffer : β.offer sch b = β.drop b := by simp [Buffer.offer, hadm]
    rw [hoffer] at hsent ⊢
    refine ⟨h.tracked.drop hwf (Or.inr rfl), fun l hl hlost => ?_, fun _ _ _ _ => hfull, hsent⟩
    by_cases hlb : l = b
    · exact hlb ▸ hrank
    · have hrec : (β.drop b).records l = β.records l := overwrite_of_notMem (by simpa using hlb)
      exact h.lost l hl (hrec ▸ hlost)
  · -- the victim joins the lost; the arrival takes its place
    have hoffer : β.offer sch b = (β.evict [v]).accept b := by simp [Buffer.offer, hadm]
    rw [hoffer] at hsent ⊢
    have hvact : ∀ u ∈ [v], u ∈ β.active := fun u hu => List.mem_singleton.1 hu ▸ hv
    have hwf' := hwf.evict (List.nodup_singleton v) hvact
    have hranks : ∀ c ∈ ((β.evict [v]).accept b).active, c.rank ≤ v.rank := by
      intro c hc
      rcases List.mem_append.1 hc with hc | hc
      · exact hrank c (mem_without.1 hc).1
      · exact List.mem_singleton.1 hc ▸ hbv.le
    refine ⟨?_, fun l hl hlost => ?_, fun _ _ _ _ => ?_, hsent⟩
    · exact (h.tracked.remove hwf hvact fun u _ => Or.inr rfl).accept hwf'
    · by_cases hlv : l = v
      · exact hlv ▸ hranks
      · -- who was lost before ranks no higher than the victim did
        have hrec : (β.evict [v]).records l = β.records l :=
          overwrite_of_notMem (by simpa using hlv)
        rw [accept_terminalState, hrec] at hlost
        exact fun c hc => (hranks c hc).trans (h.lost l hl hlost v hv)
    · -- the queue is as full as before
      have hsame : b.sizeBytes = v.sizeBytes :=
        (huniform b hb).trans (huniform v (hon.known_active hv)).symm
      rw [totalBytes_displace hwf.active_nodup hv hsame]
      exact hfull

/-- A contact sends from the highest rank down. -/
theorem RankDecides.contact {w : ContactWindow} {sent : List Bundle} {credit : Prop}
    (hpolicy : sch.policy = .strictPriority) (huniform : ∀ c ∈ bundles, c.sizeBytes = size)
    (hpresent : Present sch bundles) (hon : OnTimeline sch bundles (.contact w :: es) β)
    (h : RankDecides sch bundles size records (.contact w :: es) β)
    (service : Service sch w ((β.expire w.startTs).ready w) sent credit) :
    RankDecides sch bundles size records es ((β.expire w.startTs).transmitted w sent) := by
  have hw := hon.window_mem
  -- nobody is dead and nobody is still to come
  have hdone : offered es = [] := hpresent.offered_eq_nil hon
  rw [hpresent.expire_eq hon] at service ⊢
  have hready : ∀ c ∈ β.active, c ∈ β.ready w := fun c hc => Buffer.mem_ready.2
    ⟨hc, lt_of_le_of_lt (hpresent.arrived w hw c (hon.known_active hc)) w.start_lt_end⟩
  have hsent : ∀ c ∈ sent, c ∈ β.active := fun c hc => List.mem_of_mem_filter (service.subset c hc)
  have hknown : ∀ c ∈ sent, c ∈ bundles := fun c hc => hon.known_active (hsent c hc)
  have horder : sch.drainOrder w (β.ready w) = some (false, strictOrder (β.ready w)) := by
    simp [Scheduler.drainOrder, hpolicy]
  have hsorted : (strictOrder (β.ready w)).Pairwise fun c d => c.rank ≤ d.rank :=
    (sortBy_pairwise (fun c : Bundle => toLex (c.rank, c.ingressTs)) _).imp fun {c d} hle =>
      Prod.Lex.monotone_fst (toLex (c.rank, c.ingressTs)) (toLex (d.rank, d.ingressTs)) hle
  have hbefore : ∀ g ∈ sent, ∀ c ∈ β.active, c ∉ sent → g.rank ≤ c.rank := fun g hg c hc hout =>
    service.uniform_before (fun d hd => huniform d (hon.known_active (List.mem_of_mem_filter hd)))
      horder hsorted hg (hready c hc) hout
  have hlost : ∀ l, ((β.transmitted w sent).records l).terminalState = .queueOverflow →
      (β.records l).terminalState = .queueOverflow := by
    intro l hl
    by_cases hmem : l ∈ sent
    · have hrec : (β.transmitted w sent).records l = (β.records l).delivered w :=
        overwrite_of_mem hmem
      rw [hrec] at hl
      cases hl
    · have hrec : (β.transmitted w sent).records l = β.records l := overwrite_of_notMem hmem
      rwa [hrec] at hl
  refine ⟨h.tracked.remove hon.wellFormed hsent fun _ _ => Or.inl rfl, fun l hl hl' c hc => ?_,
    fun l hl hl' hne => absurd hdone hne, ?_⟩
  · exact h.lost l hl (hlost l hl') c (mem_without.1 hc).1
  · rw [delivered_transmitted w hknown]
    intro b hb c hc hlt
    rw [Finset.mem_union, List.mem_toFinset] at hb ⊢
    rcases hb with hb | hb
    · exact Or.inl (h.sent b hb c hc hlt)
    · -- `c` outranks a bundle that is sent now, so it has gone, goes now, or was lost
      by_cases hact : c ∈ β.active
      · refine Or.inr (by_contra fun hout => ?_)
        exact absurd hlt (not_lt.2 (hbefore b hb c hact hout))
      · rcases h.tracked.settled c hc (by simp [hdone]) hact with hgone | hgone
        · exact Or.inl (mem_delivered.2 ⟨hc, hgone⟩)
        · exact absurd hlt (not_lt.2 (h.lost c hc hgone b (hsent b hb)))

end Steps

/-! ## End to end -/

/-- The share of the bundles of a class whose records say DELIVERED. -/
def deliveryRatio (bundles : List Bundle) (records : Bundle → Lifecycle) (tc : TrafficClass) : ℚ :=
  ((delivered bundles records).filter fun b => b.trafficClass = tc).card /
    (bundles.toFinset.filter fun b => b.trafficClass = tc).card

section Ratio

variable {bundles : List Bundle} {records : Bundle → Lifecycle} {tc tc' : TrafficClass}

theorem deliveryRatio_le_one : deliveryRatio bundles records tc ≤ 1 := by
  refine div_le_one_of_le₀ ?_ (Nat.cast_nonneg _)
  exact_mod_cast Finset.card_le_card (Finset.filter_subset_filter _ (Finset.filter_subset _ _))

/-- If delivering a bundle means having delivered all that outrank it, a class with bundles is
served no worse than the classes it outranks. -/
theorem deliveryRatio_antitone
    (h : ∀ b ∈ delivered bundles records, ∀ c ∈ bundles, c.rank < b.rank →
      c ∈ delivered bundles records)
    (hclass : ∃ b ∈ bundles, b.trafficClass = tc) (hrank : (classSpecs tc).rank <
      (classSpecs tc').rank) :
    deliveryRatio bundles records tc' ≤ deliveryRatio bundles records tc := by
  by_cases hnone : (delivered bundles records).filter (fun b => b.trafficClass = tc') = ∅
  · -- nothing of the lower class is delivered
    rw [deliveryRatio, hnone, Finset.card_empty, Nat.cast_zero, zero_div]
    exact div_nonneg (Nat.cast_nonneg _) (Nat.cast_nonneg _)
  · obtain ⟨b, hb⟩ := Finset.nonempty_iff_ne_empty.2 hnone
    rcases Finset.mem_filter.1 hb with ⟨hbdel, rfl⟩
    have hall : (delivered bundles records).filter (fun b => b.trafficClass = tc) =
        bundles.toFinset.filter fun b => b.trafficClass = tc := by
      refine Finset.Subset.antisymm
        (Finset.filter_subset_filter _ (Finset.filter_subset _ _)) fun c hc => ?_
      rcases Finset.mem_filter.1 hc with ⟨hmem, rfl⟩
      exact Finset.mem_filter.2 ⟨h b hbdel c (List.mem_toFinset.1 hmem) hrank, rfl⟩
    have hone : deliveryRatio bundles records tc = 1 := by
      rw [deliveryRatio, hall]
      refine div_self (Nat.cast_ne_zero.2 (Finset.card_ne_zero.2 ?_))
      obtain ⟨c, hc, hctc⟩ := hclass
      exact ⟨c, Finset.mem_filter.2 ⟨List.mem_toFinset.2 hc, hctc⟩⟩
    rw [hone]
    exact deliveryRatio_le_one

end Ratio

/-- Under STRICT_PRIORITY with priority-aware admission, bundles of one size that are all there
when the first window opens and outlive the last one are delivered in the order of their ranks:
none is delivered while one that outranks it is not. -/
theorem no_priority_inversion {sch : Scheduler} (hpolicy : sch.policy = .strictPriority)
    (haware : sch.admissionIsPriorityAware = true) {bundles : List Bundle}
    {records : Bundle → Lifecycle} (hvalid : Valid bundles records) {size : ℤ} (hsize : 0 < size)
    (huniform : ∀ b ∈ bundles, b.sizeBytes = size)
    (hfirst : ∀ w ∈ sch.plan.windows.head?, ∀ b ∈ bundles, b.ingressTs ≤ w.startTs)
    (hlast : ∀ t ∈ sch.plan.lastEnd, ∀ b ∈ bundles, t < b.deadline) (now : ℚ) :
    ∃ s', run sch now bundles (SchedulerState.fresh records) = .ok ⟨⟩ s' ∧
      (∀ b ∈ bundles, ∀ c ∈ bundles, (s'.records b).terminalState = .delivered →
        c.rank < b.rank → (s'.records c).terminalState = .delivered) ∧
      ∀ tc tc', (∃ b ∈ bundles, b.trafficClass = tc) →
        (classSpecs tc).rank < (classSpecs tc').rank →
        deliveryRatio bundles s'.records tc' ≤ deliveryRatio bundles s'.records tc := by
  have hpresent := Present.of_ends hfirst hlast
  have hpending : ∀ l ∈ bundles, (records l).terminalState = .pending := hvalid.pending
  have hstart : RankDecides sch bundles size records (timeline sch.plan.windows bundles)
      (SchedulerState.fresh records).toBuffer := by
    have hnone : ∀ c, c ∉ delivered bundles (SchedulerState.fresh records).records := by
      intro c hc
      rcases mem_delivered.1 hc with ⟨hmem, hdel⟩
      exact absurd ((hpending c hmem).symm.trans hdel) (by decide)
    exact ⟨Tracked.start (SchedulerState.fresh_idle records), fun _ _ _ => nofun,
      fun l hl hlost => absurd ((hpending l hl).symm.trans hlost) (by decide),
      fun c hc => absurd hc (hnone c)⟩
  obtain ⟨_, s', hrun, β, hwf, hend, hbuffer⟩ := run_induction
    (I := RankDecides sch bundles size records) (fun e es β β' hon hI he => by
      cases he with
      | arrival b => exact hI.arrival haware hsize huniform hon
      | contact service => exact hI.contact hpolicy huniform hpresent hon service)
    hvalid (SchedulerState.fresh_idle records) hstart now
  have hsent : ∀ b ∈ delivered bundles s'.records, ∀ c ∈ bundles, c.rank < b.rank →
      c ∈ delivered bundles s'.records := by
    have hrecords : delivered bundles s'.records = delivered bundles β.records := by
      rw [hbuffer]
      exact delivered_finish _ hwf
    rw [hrecords]
    exact hend.sent
  refine ⟨s', hrun, fun b hb c hc hdel hlt => ?_, fun tc tc' => deliveryRatio_antitone hsent⟩
  exact (mem_delivered.1 (hsent b (mem_delivered.2 ⟨hb, hdel⟩) c hc hlt)).2

/-- Three bundles of which the buffer holds two and the window carries one. -/
def Small.rivals : List Bundle :=
  [Small.bundle "first" .media 800 0 100, Small.bundle "second" .telemetry 800 1 100,
    Small.bundle "third" .emergency 800 2 100]

theorem no_priority_inversion_small :
    ∃ s', run Small.scheduler 0 Small.rivals (SchedulerState.fresh fun _ => {}) = .ok ⟨⟩ s' ∧
      (∀ b ∈ Small.rivals, ∀ c ∈ Small.rivals, (s'.records b).terminalState = .delivered →
        c.rank < b.rank → (s'.records c).terminalState = .delivered) ∧
      ∀ tc tc', (∃ b ∈ Small.rivals, b.trafficClass = tc) →
        (classSpecs tc).rank < (classSpecs tc').rank →
        deliveryRatio Small.rivals s'.records tc' ≤ deliveryRatio Small.rivals s'.records tc :=
  no_priority_inversion (show Small.scheduler.policy = .strictPriority from rfl) (by decide)
    ⟨by decide +kernel, by decide +kernel, by decide +kernel, fun _ _ => rfl⟩
    (show (0 : ℤ) < 800 by decide) (by decide +kernel) (by decide +kernel) (by decide +kernel) 0

end Gateway
end LunaBridge
