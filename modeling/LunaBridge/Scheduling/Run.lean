import LunaBridge.Foundation.Trace
import LunaBridge.Scheduling.Timeline

/-!
# Run — the scheduler refines a transition system on buffers

`Step` is the abstract scheduler: an arrival is offered, a contact first expires and then sends some
admissible service.  `run_spec` is the refinement: a run on valid bundles raises nothing, and what
it does to the buffer is a run of `Step` along the timeline, the last expiry pass and the final
sweep.  Everything that is said about the outcome of runs is proved about `Step`.
-/

namespace LunaBridge
namespace Gateway

open Foundation.Machine Foundation.Selection Foundation.Trace Foundation.StableSort
open Foundation.Python

/-- What `run` may be called with: distinct pending bundles with positive sizes and a lifetime. -/
structure Valid (bundles : List Bundle) (records : Bundle → Lifecycle) : Prop where
  distinct : (bundles.map Bundle.bundleId).Nodup
  sizes : ∀ b ∈ bundles, 0 < b.sizeBytes
  lifetimes : ∀ b ∈ bundles, b.expirationTs ≠ none
  pending : ∀ b ∈ bundles, (records b).terminalState = .pending

theorem Valid.nodup {bundles : List Bundle} {records : Bundle → Lifecycle}
    (h : Valid bundles records) : bundles.Nodup :=
  h.distinct.of_map

theorem Valid.sublist {bs bundles : List Bundle} {records : Bundle → Lifecycle}
    (h : Valid bundles records) (hsub : bs.Sublist bundles) : Valid bs records :=
  ⟨h.distinct.sublist (hsub.map _), fun b hb => h.sizes b (hsub.subset hb),
    fun b hb => h.lifetimes b (hsub.subset hb), fun b hb => h.pending b (hsub.subset hb)⟩

/-! ## A small instance -/

namespace Small

/-- A window of ten seconds that carries 1000 bytes. -/
def window : ContactWindow where
  contactId := "c0"
  startTs := 10
  endTs := 20
  linkRateBps := 800
  start_lt_end := by norm_num
  rate_pos := by norm_num

def plan : ContactPlan where
  windows := [window]
  disjoint := List.pairwise_singleton _ _

def scheduler : Scheduler where
  plan := plan
  maxQueueBytes := 2000
  maxQueueBytes_pos := by norm_num

/-- A bundle of `size` bytes. -/
def bundle (id : String) (trafficClass : TrafficClass) (size : ℤ) (ingressTs ttl : ℚ) : Bundle :=
  Bundle.setTtl { bundleId := id
                  flowId := id
                  trafficClass := trafficClass
                  sizeBytes := size
                  ingressTs := ingressTs } (some ttl)

/-- Waits for the window and is sent. -/
def early : Bundle := bundle "early" .telemetry 100 0 100

/-- Expires before the window opens. -/
def doomed : Bundle := bundle "doomed" .telemetry 100 0 5

/-- Arrives after the window. -/
def late : Bundle := bundle "late" .emergency 100 30 100

theorem valid : Valid [early, doomed, late] (fun _ => {}) where
  distinct := by decide +kernel
  sizes := by decide +kernel
  lifetimes := by decide +kernel
  pending := fun _ _ => rfl

end Small

/-! ## The abstract scheduler -/

/-- One event of the abstract scheduler; `credit` says that no class starts in debt. -/
inductive Step (sch : Scheduler) (credit : Prop) : Event → Buffer → Buffer → Prop
  | arrival (b : Bundle) (β : Buffer) : Step sch credit (.arrival b) β (β.offer sch b)
  | contact {w : ContactWindow} {β : Buffer} {sent : List Bundle}
      (service : Service sch w ((β.expire w.startTs).ready w) sent credit) :
      Step sch credit (.contact w) β ((β.expire w.startTs).transmitted w sent)

variable {sch : Scheduler} {credit : Prop}

/-- Every step keeps the buffer well-formed, relative to the bundles still to be offered. -/
theorem Step.wellFormed {e : Event} {es : List Event} {β β' : Buffer}
    (h : β.WellFormed sch (offered (e :: es))) (hstep : Step sch credit e β β') :
    β'.WellFormed sch (offered es) := by
  cases hstep with
  | arrival b => exact h.offer
  | @contact w _ sent service =>
      exact (h.expire w.startTs).transmitted w service.nodup fun b hb =>
        List.mem_of_mem_filter (service.subset b hb)

/-- Offering a bundle queues nobody else. -/
theorem Buffer.mem_offer_active {β : Buffer} {b c : Bundle} (hc : c ∈ (β.offer sch b).active) :
    c ∈ β.active ∨ c = b := by
  unfold Buffer.offer at hc
  cases hadm : sch.admission β.active b with
  | none =>
      rw [hadm] at hc
      exact Or.inl hc
  | some vs =>
      rw [hadm] at hc
      rcases List.mem_append.1 hc with hc | hc
      · exact Or.inl (mem_without.1 hc).1
      · exact Or.inr (List.mem_singleton.1 hc)

/-- No step brings in a bundle that was neither queued nor still to be offered. -/
theorem Step.subset {e : Event} {es : List Event} {β β' : Buffer}
    (hstep : Step sch credit e β β') :
    ∀ c ∈ β'.active ++ offered es, c ∈ β.active ++ offered (e :: es) := by
  intro c hc
  cases hstep with
  | arrival b =>
      rcases List.mem_append.1 hc with hc | hc
      · rcases Buffer.mem_offer_active hc with hc | rfl
        · exact List.mem_append_left _ hc
        · exact List.mem_append_right _ (by simp)
      · exact List.mem_append_right _ (List.mem_cons_of_mem _ hc)
  | contact service =>
      rcases List.mem_append.1 hc with hc | hc
      · exact List.mem_append_left _ (mem_without.1 (mem_without.1 hc).1).1
      · exact List.mem_append_right _ hc

/-- With a cap that covers all bundles every arrival is admitted, and nobody is evicted. -/
theorem Buffer.offer_eq_accept {bundles future : List Bundle} {records : Bundle → Lifecycle}
    {β : Buffer} {b : Bundle} (h : Valid bundles records)
    (hcap : ((totalBytes bundles : ℤ) : ℚ) ≤ sch.maxQueueBytes)
    (hwf : β.WellFormed sch (b :: future)) (hknown : ∀ c ∈ β.active ++ b :: future, c ∈ bundles) :
    β.offer sch b = β.accept b := by
  -- the queue with the arrival is some of the bundles, each once
  have hsub : (β.active ++ [b]).Sublist (β.active ++ b :: future) :=
    (List.singleton_sublist.2 (by simp)).append_left _
  have hle := totalBytes_le_of_subset (hwf.nodup.sublist hsub) h.nodup
    (fun c hc => hknown c (hsub.subset hc)) h.sizes
  have hfit : sch.Fits (totalBytes β.active) b.sizeBytes := by
    rw [totalBytes_append, totalBytes_cons, totalBytes_nil, add_zero] at hle
    exact le_trans (by exact_mod_cast hle) hcap
  simp [Buffer.offer, Scheduler.admission, hfit, Buffer.evict]

/-- Where a run over `bundles` stands with `es` still to come.  A window that has been served
closed before the arrivals still to come. -/
structure OnTimeline (sch : Scheduler) (bundles : List Bundle) (es : List Event) (β : Buffer) :
    Prop where
  wellFormed : β.WellFormed sch (offered es)
  known : ∀ b ∈ β.active ++ offered es, b ∈ bundles
  ordered : es.Pairwise Event.Before
  ahead : (contacts es).Sublist sch.plan.windows
  passed : ∀ w ∈ sch.plan.windows, w ∉ contacts es → ∀ b ∈ offered es, w.endTs < b.ingressTs

namespace OnTimeline

variable {bundles : List Bundle} {es : List Event} {β : Buffer} {w : ContactWindow}

theorem known_active (h : OnTimeline sch bundles es β) {b : Bundle} (hb : b ∈ β.active) :
    b ∈ bundles :=
  h.known b (List.mem_append_left _ hb)

/-- The window that opens next is one of the plan. -/
theorem window_mem (h : OnTimeline sch bundles (.contact w :: es) β) : w ∈ sch.plan.windows :=
  h.ahead.subset (by simp)

/-- It will not open again. -/
theorem window_notMem (h : OnTimeline sch bundles (.contact w :: es) β) : w ∉ contacts es :=
  (List.nodup_cons.1 (sch.plan.windows_nodup.sublist h.ahead)).1

/-- Who has not been offered when it opens arrives after it has closed. -/
theorem endTs_lt_ingressTs (h : OnTimeline sch bundles (.contact w :: es) β) {b : Bundle}
    (hb : b ∈ offered es) : w.endTs < b.ingressTs :=
  (List.pairwise_cons.1 h.ordered).1 _ (mem_offered.1 hb)

/-- The later windows open after it has closed. -/
theorem endTs_le_startTs (h : OnTimeline sch bundles (.contact w :: es) β) {v : ContactWindow}
    (hv : v ∈ contacts es) : w.endTs ≤ v.startTs :=
  (List.pairwise_cons.1 h.ordered).1 _ (mem_contacts.1 hv)

/-- No window still to come opens before it does. -/
theorem startTs_le (h : OnTimeline sch bundles (.contact w :: es) β) {v : ContactWindow}
    (hv : v ∈ w :: contacts es) : w.startTs ≤ v.startTs := by
  rcases List.mem_cons.1 hv with rfl | hv'
  · exact le_rfl
  · calc w.startTs
        _ ≤ w.endTs := w.start_lt_end.le
        _ ≤ v.startTs := h.endTs_le_startTs hv'

theorem step {e : Event} {β' : Buffer} (h : OnTimeline sch bundles (e :: es) β)
    (hstep : Step sch credit e β β') : OnTimeline sch bundles es β' := by
  refine ⟨hstep.wellFormed h.wellFormed, fun b hb => h.known b (hstep.subset b hb),
    h.ordered.of_cons, ?_, fun v hv hnot b hb => ?_⟩
  · cases e with
    | arrival b => exact h.ahead
    | contact w => exact (List.sublist_cons_self _ _).trans h.ahead
  · cases e with
    | arrival c => exact h.passed v hv hnot b (List.mem_cons_of_mem _ hb)
    | contact w =>
        by_cases hvw : v = w
        · exact hvw ▸ h.endTs_lt_ingressTs hb
        · exact h.passed v hv (by simp [hvw, hnot]) b hb

end OnTimeline

/-! ## Refinement -/

/-- Handling an event is a step of the abstract scheduler. -/
theorem handle_spec {e : Event} {es : List Event} {s : SchedulerState}
    (h : s.toBuffer.WellFormed sch (offered (e :: es))) :
    Returns (e.handle sch) s fun _ s' => Step sch s.InCredit e s.toBuffer s'.toBuffer ∧
      (s.InCredit → s'.InCredit) := by
  cases e with
  | arrival b =>
      refine (tryAdmit_spec h).mono fun _ s' h' => ⟨?_, fun hs u => ?_⟩
      · rw [h'.1.buffer]
        exact .arrival b _
      · rw [h'.1.deficit]
        exact hs u
  | contact w =>
      refine (expireInBlackout_spec w.startTs h).bind fun _ s₁ h₁ => ?_
      rcases h₁ with ⟨h₁, hwf⟩
      have hcredit : s₁.InCredit = s.InCredit := by
        simp only [SchedulerState.InCredit, h₁.deficit]
      refine (drainWindow_spec hwf).mono fun _ s' h' => ?_
      rcases h' with ⟨sent, hservice, hcredit', hbuffer, _⟩
      rw [hcredit] at hservice hcredit'
      rw [h₁.buffer] at hservice hbuffer
      refine ⟨?_, hcredit'⟩
      rw [hbuffer]
      exact .contact hservice

/-- Less credit allows more services. -/
theorem Step.weaken {credit' : Prop} (himp : credit → credit') {e : Event} {β β' : Buffer}
    (h : Step sch credit' e β β') : Step sch credit e β β' := by
  cases h with
  | arrival b => exact .arrival b _
  | contact h =>
      exact .contact ⟨h.nodup, h.subset, h.inBudget, fun hc => h.complete (himp hc), h.ordered,
        h.preempt⟩

/-- Handling events is a run of the abstract scheduler. -/
theorem forM_handle_spec :
    ∀ (es : List Event) (s : SchedulerState), s.toBuffer.WellFormed sch (offered es) →
      (credit → s.InCredit) →
      Returns (es.forM (Event.handle sch)) s fun _ s' =>
        Run (Step sch credit) es s.toBuffer s'.toBuffer ∧ s'.toBuffer.WellFormed sch [] ∧
        (credit → s'.InCredit) := by
  intro es
  induction es with
  | nil => exact fun s h hs => Returns.pure ⟨.nil _, h, hs⟩
  | cons e es ih =>
      intro s h hs
      refine (handle_spec h).bind fun _ s₁ h₁ => ?_
      have hstep : Step sch credit e s.toBuffer s₁.toBuffer := h₁.1.weaken hs
      refine (ih s₁ (hstep.wellFormed h) fun hc => h₁.2 (hs hc)).mono fun _ s' h' => ?_
      exact ⟨.cons hstep h'.1, h'.2⟩

/-! ## The end of a run -/

/-- The last expiry pass, if the plan has windows. -/
def Buffer.lastExpire : Option ℚ → Buffer → Buffer
  | some lastEndTs, β => β.expire lastEndTs
  | none, β => β

theorem Buffer.WellFormed.lastExpire {β : Buffer} (lastEndTs : Option ℚ)
    (h : β.WellFormed sch []) : (β.lastExpire lastEndTs).WellFormed sch [] := by
  cases lastEndTs with
  | none => exact h
  | some t => exact h.expire t

theorem lastExpiry_spec (lastEndTs : Option ℚ) {s : SchedulerState}
    (h : s.toBuffer.WellFormed sch []) :
    Returns (lastExpiry lastEndTs) s fun _ s' =>
      Became s (s.toBuffer.lastExpire lastEndTs) s' := by
  cases lastEndTs with
  | none => exact Returns.pure (Became.refl s)
  | some t => exact (expireInBlackout_spec t h).mono fun _ _ h' => h'.1

theorem sweepLoop_spec (now : ℚ) (lastEndTs : Option ℚ) :
    ∀ (bs : List Bundle) (s : SchedulerState), Serviceable s.toBuffer bs →
      Returns (bs.forM (sweepOne now lastEndTs)) s fun _ s' =>
        Became s ⟨s.active, s.activeBytes, overwrite Lifecycle.unscheduled bs s.records⟩ s' := by
  intro bs
  induction bs with
  | nil => exact fun s _ => Returns.pure ((Became.refl s).cast (by simp))
  | cons b bs ih =>
      intro s hbs
      have hb := hbs.pending b (by simp)
      have hmark : Lifecycle.mark b (s.records b) .neverScheduled now =
          .ok (Lifecycle.unscheduled (s.records b)) := by
        simp [Lifecycle.mark_pending hb, Lifecycle.unscheduled]
      have hone : Returns (sweepOne now lastEndTs b) s fun _ s' =>
          Became s ⟨s.active, s.activeBytes, overwrite Lifecycle.unscheduled [b] s.records⟩ s' := by
        refine Returns.get_bind ?_
        rw [if_pos hb]
        exact (mark_spec hmark).bind fun _ s₁ h₁ => (log_spec _ _ _ _ _ s₁).mono fun _ _ h' =>
          (h₁.trans h').cast h₁.buffer
      refine hone.bind fun _ s₁ h₁ => ?_
      have hbs₁ : Serviceable s₁.toBuffer bs := by
        refine ⟨(List.nodup_cons.1 hbs.nodup).2, fun c hc => ?_⟩
        have hcb : c ∉ [b] := fun hmem => hbs.head_notMem (List.mem_singleton.1 hmem ▸ hc)
        rw [h₁.buffer]
        show (overwrite _ [b] s.records c).terminalState = .pending
        rw [overwrite_of_notMem hcb]
        exact hbs.pending c (List.mem_cons_of_mem _ hc)
      refine (ih s₁ hbs₁).mono fun _ s' h' => (h₁.trans h').cast ?_
      rw [h₁.buffer]
      ext1
      · rfl
      · rfl
      · refine overwrite_overwrite _ s.records fun u hu hmem => ?_
        exact hbs.head_notMem (List.mem_singleton.1 hu ▸ hmem)

/-- The sweep needs no more of the buffer than pending bundles, each once. -/
theorem finalSweep_of_serviceable (now : ℚ) (lastEndTs : Option ℚ) {s : SchedulerState}
    (h : Serviceable s.toBuffer s.active) :
    Returns (finalSweep now lastEndTs) s fun _ s' => Became s s.toBuffer.sweep s' := by
  refine Returns.get_bind ((sweepLoop_spec now lastEndTs _ s h).bind fun _ s₁ h₁ => ?_)
  refine Returns.modify ⟨?_, h₁.deficit, h₁.rotationIndex⟩
  ext1
  · rfl
  · exact (congrArg Buffer.activeBytes h₁.buffer :)
  · exact (congrArg Buffer.records h₁.buffer :)

theorem finalSweep_spec (now : ℚ) (lastEndTs : Option ℚ) {s : SchedulerState}
    (h : s.toBuffer.WellFormed sch []) :
    Returns (finalSweep now lastEndTs) s fun _ s' => Became s s.toBuffer.sweep s' :=
  finalSweep_of_serviceable now lastEndTs ⟨h.active_nodup, fun _ hb => h.active_pending hb⟩

/-! ## The loud check -/

theorem checkExpirations_ok {bs : List Bundle} (h : ∀ b ∈ bs, b.expirationTs ≠ none)
    (s : SchedulerState) : checkExpirations bs s = .ok ⟨⟩ s := by
  induction bs with
  | nil => rfl
  | cons b bs ih =>
      have hb := h b (by simp)
      have hrest := ih fun c hc => h c (List.mem_cons_of_mem _ hc)
      simp only [checkExpirations, List.forM_eq_forM, List.forM_cons, hb, if_false] at hrest ⊢
      exact hrest

/-- The first bundle without a lifetime raises, and nothing has changed. -/
theorem checkExpirations_error {bs : List Bundle} (h : ∃ b ∈ bs, b.expirationTs = none)
    (s : SchedulerState) : ∃ b ∈ bs, b.expirationTs = none ∧
      checkExpirations bs s = .error (missingExpiration b) s := by
  induction bs with
  | nil => simp at h
  | cons b bs ih =>
      by_cases hb : b.expirationTs = none
      · refine ⟨b, by simp, hb, ?_⟩
        simp only [checkExpirations, List.forM_eq_forM, List.forM_cons, hb, if_true]
        rfl
      · obtain ⟨c, hc, hnone⟩ := h
        have hc' : c ∈ bs := by
          rcases List.mem_cons.1 hc with rfl | hc'
          · exact absurd hnone hb
          · exact hc'
        obtain ⟨d, hd, hdnone, herr⟩ := ih ⟨c, hc', hnone⟩
        refine ⟨d, List.mem_cons_of_mem _ hd, hdnone, ?_⟩
        simp only [checkExpirations, List.forM_eq_forM, List.forM_cons, hb, if_false] at herr ⊢
        exact herr

/-! ## The refinement theorem -/

/-- The state of a scheduler whose buffer is empty; deficits, rotation and log are arbitrary. -/
structure SchedulerState.Idle (s : SchedulerState) : Prop where
  active : s.active = []
  activeBytes : s.activeBytes = 0

theorem SchedulerState.fresh_idle (records : Bundle → Lifecycle) :
    (SchedulerState.fresh records).Idle := ⟨rfl, rfl⟩

theorem SchedulerState.fresh_inCredit (records : Bundle → Lifecycle) :
    (SchedulerState.fresh records).InCredit := fun _ => le_refl (0 : ℚ)

/-- Before the first event all bundles are still to come, in ingress order. -/
theorem SchedulerState.Idle.queue {s : SchedulerState} (hs : s.Idle) (ws : List ContactWindow)
    (bundles : List Bundle) :
    s.active ++ offered (timeline ws bundles) = sortBy Bundle.ingressTs bundles := by
  rw [hs.active, List.nil_append, offered_timeline]

/-- An idle scheduler given valid bundles starts with a well-formed buffer. -/
theorem Valid.wellFormed {bundles : List Bundle} {s : SchedulerState}
    (h : Valid bundles s.records) (hs : s.Idle) (sch : Scheduler) (ws : List ContactWindow) :
    s.toBuffer.WellFormed sch (offered (timeline ws bundles)) := by
  have hqueue := hs.queue ws bundles
  have hmem : ∀ b ∈ s.active ++ offered (timeline ws bundles), b ∈ bundles := fun b hb =>
    (mem_sortBy _).1 (hqueue ▸ hb)
  refine ⟨fun b hb => h.pending b (hmem b hb), ?_, ?_, fun b hb => h.sizes b (hmem b hb),
    fun b hb => h.lifetimes b (hmem b hb), ?_, ?_⟩
  · exact hqueue ▸ (sortBy_perm _ _).nodup_iff.2 h.nodup
  · exact hqueue ▸ sortBy_pairwise _ _
  · rw [hs.activeBytes, hs.active]
    rfl
  · rw [hs.activeBytes]
    exact_mod_cast sch.maxQueueBytes_pos.le

theorem Valid.onTimeline {bundles : List Bundle} {s : SchedulerState}
    (h : Valid bundles s.records) (hs : s.Idle) (sch : Scheduler) :
    OnTimeline sch bundles (timeline sch.plan.windows bundles) s.toBuffer := by
  refine ⟨h.wellFormed hs sch _, fun b hb => ?_, timeline_pairwise sch.plan.disjoint bundles, ?_,
    fun w hw hnot => ?_⟩
  · exact (mem_sortBy _).1 (hs.queue sch.plan.windows bundles ▸ hb)
  · rw [contacts_timeline]
  · rw [contacts_timeline] at hnot
    exact absurd hw hnot

/-- The buffer when the plan has run out, before the last expiry pass. -/
def Serves (sch : Scheduler) (bundles : List Bundle) (s : SchedulerState) (β : Buffer) : Prop :=
  Run (Step sch s.InCredit) (timeline sch.plan.windows bundles) s.toBuffer β ∧
    β.WellFormed sch []

theorem serveContacts_spec {bundles : List Bundle} {s : SchedulerState}
    (h : Valid bundles s.records) (hs : s.Idle) :
    Returns (serveContacts sch bundles) s fun last s' => last = sch.plan.lastEnd ∧
      ∃ β, Serves sch bundles s β ∧ s'.toBuffer = β.lastExpire sch.plan.lastEnd := by
  rw [serveContacts_eq]
  refine (forM_handle_spec _ s (h.wellFormed hs sch _) id).bind fun _ s₁ h₁ => ?_
  refine (lastExpiry_spec _ h₁.2.1).bind fun _ s₂ h₂ => Returns.pure ⟨rfl, ?_⟩
  exact ⟨s₁.toBuffer, ⟨h₁.1, h₁.2.1⟩, h₂.buffer⟩

/-- A run raises nothing; it serves the timeline, expires once more and sweeps up. -/
theorem run_spec {bundles : List Bundle} {s : SchedulerState} (h : Valid bundles s.records)
    (hs : s.Idle) (now : ℚ) :
    Returns (run sch now bundles) s fun _ s' => ∃ β, Serves sch bundles s β ∧
      s'.toBuffer = (β.lastExpire sch.plan.lastEnd).sweep := by
  refine Returns.ok_bind (checkExpirations_ok h.lifetimes s) ?_
  refine (serveContacts_spec h hs).bind fun last s₂ h₂ => ?_
  rcases h₂ with ⟨rfl, β, hβ, hbuffer⟩
  have hwf : s₂.toBuffer.WellFormed sch [] := hbuffer ▸ hβ.2.lastExpire _
  exact (finalSweep_spec now _ hwf).mono fun _ s' h' => ⟨β, hβ, hbuffer ▸ h'.buffer⟩

/-- The reading of the clock leaves no trace in the buffer. -/
theorem run_buffer {bundles : List Bundle} {s : SchedulerState} (h : Valid bundles s.records)
    (hs : s.Idle) (sch : Scheduler) :
    ∃ β, ∀ now, Returns (run sch now bundles) s fun _ s' => s'.toBuffer = β := by
  have hserves : Returns (serveContacts sch bundles) s fun last s' => last = sch.plan.lastEnd ∧
      ∃ β, Serves sch bundles s β ∧ s'.toBuffer = β.lastExpire sch.plan.lastEnd :=
    serveContacts_spec h hs
  obtain ⟨last, s₁, hserve, rfl, β, hβ, hbuffer⟩ := hserves
  have hwf : s₁.toBuffer.WellFormed sch [] := hbuffer ▸ hβ.2.lastExpire _
  refine ⟨s₁.toBuffer.sweep, fun now => ?_⟩
  refine Returns.ok_bind (checkExpirations_ok h.lifetimes s) (Returns.ok_bind hserve ?_)
  exact (finalSweep_spec now _ hwf).mono fun _ s' h' => h'.buffer

/-- To follow a run: what holds at the start and is kept by every event holds of the buffer that
the last expiry pass and the sweep are left with. -/
theorem run_induction {bundles : List Bundle} {s : SchedulerState} {I : List Event → Buffer → Prop}
    (hstep : ∀ e es β β', OnTimeline sch bundles (e :: es) β → I (e :: es) β →
      Step sch s.InCredit e β β' → I es β')
    (h : Valid bundles s.records) (hs : s.Idle)
    (hI : I (timeline sch.plan.windows bundles) s.toBuffer) (now : ℚ) :
    Returns (run sch now bundles) s fun _ s' => ∃ β, β.WellFormed sch [] ∧ I [] β ∧
      s'.toBuffer = (β.lastExpire sch.plan.lastEnd).sweep := by
  refine (run_spec h hs now).mono fun _ s' h' => ?_
  rcases h' with ⟨β, ⟨hrun, hwf⟩, hbuffer⟩
  have hend := hrun.invariant (I := fun es β => OnTimeline sch bundles es β ∧ I es β)
    (fun e es β β' hI he => ⟨hI.1.step he, hstep e es β β' hI.1 hI.2 he⟩) ⟨h.onTimeline hs sch, hI⟩
  exact ⟨β, hwf, hend.2, hbuffer⟩

/-- Without a lifetime on every bundle, `run` raises before anything has changed. -/
theorem run_missing_expiration {bundles : List Bundle} (h : ∃ b ∈ bundles, b.expirationTs = none)
    (now : ℚ) (s : SchedulerState) : ∃ b ∈ bundles, b.expirationTs = none ∧
      run sch now bundles s = .error (missingExpiration b) s := by
  obtain ⟨b, hb, hnone, herr⟩ := checkExpirations_error h s
  exact ⟨b, hb, hnone, bind_error herr⟩

/-- The state a run returned in. -/
def finalState : EStateM.Result PyError SchedulerState PUnit → Option SchedulerState
  | .ok _ s => some s
  | .error _ _ => none

/-- The record of `b` after a run that has returned. -/
def recordAfter (b : Bundle) (result : EStateM.Result PyError SchedulerState PUnit) :
    Option Lifecycle :=
  (finalState result).map fun s => s.records b

theorem finalState_map_eq_some {α : Type} {f : SchedulerState → α} {a : α}
    {result : EStateM.Result PyError SchedulerState PUnit}
    (h : (finalState result).map f = some a) : ∃ s', result = .ok ⟨⟩ s' ∧ f s' = a := by
  cases result with
  | ok u s => exact ⟨s, rfl, Option.some.inj h⟩
  | error e s => cases h

end Gateway
end LunaBridge
