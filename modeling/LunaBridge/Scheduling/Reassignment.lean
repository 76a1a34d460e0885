import LunaBridge.Scheduling.Run

/-!
# Reassignment — runs over the same bundles with other classes

FIFO and DEADLINE_AWARE drain by instants only, so two runs that differ in the classes of the
bundles stay alike (`Reassigned`) as long as admission does not look at the classes.  FIFO never
does.  DEADLINE_AWARE does whenever an arrival that the buffer could hold finds too little room, and
then there are two assignments with different outcomes (`class_blind_iff`).
-/

namespace LunaBridge
namespace Gateway

open Foundation.Machine Foundation.Selection Foundation.Trace Foundation.StableSort
open Foundation.GreedyFill

/-! ## Other classes -/

/-- `b` with the class that `κ` gives to its id. -/
def Bundle.reassign (κ : String → TrafficClass) (b : Bundle) : Bundle :=
  { b with trafficClass := κ b.bundleId }

def Event.reassign (κ : String → TrafficClass) : Event → Event
  | .arrival b => .arrival (b.reassign κ)
  | .contact w => .contact w

/-- The bundle ended in the same way, at the same time and over the same contact. -/
def Lifecycle.SameOutcome (r r' : Lifecycle) : Prop :=
  r.terminalState = r'.terminalState ∧ r.transmissionTs = r'.transmissionTs ∧
    r.contactId = r'.contactId

/-- Whatever classes the bundles of a run are given, each of them ends as it does with its own. -/
def ClassBlind (sch : Scheduler) (bundles : List Bundle) (records : Bundle → Lifecycle) : Prop :=
  ∀ (κ : String → TrafficClass) (records' : Bundle → Lifecycle) (now now' : ℚ),
    (∀ b ∈ bundles, records' (b.reassign κ) = records b) →
      ∃ s s', run sch now bundles (SchedulerState.fresh records) = .ok ⟨⟩ s ∧
        run sch now' (bundles.map (Bundle.reassign κ)) (SchedulerState.fresh records') =
          .ok ⟨⟩ s' ∧
        ∀ b ∈ bundles, (s.records b).SameOutcome (s'.records (b.reassign κ))

/-- Every arrival among some events that the empty buffer would hold finds room. -/
def AlwaysRoom (sch : Scheduler) (es : List Event) (s : SchedulerState) : Prop :=
  ∀ made b rest s', es = made ++ .arrival b :: rest →
    made.forM (Event.handle sch) s = .ok ⟨⟩ s' →
      sch.Fits 0 b.sizeBytes → sch.Fits s'.activeBytes b.sizeBytes

/-- Drains by instants only. -/
def DrainsBlind (sch : Scheduler) : Prop :=
  sch.policy = .fifo ∨ sch.policy = .deadlineAware

section Timeline

variable {κ : String → TrafficClass}

theorem arrivalsOf_reassign (κ : String → TrafficClass) (bs : List Bundle) :
    arrivalsOf (bs.map (Bundle.reassign κ)) = (arrivalsOf bs).map (Event.reassign κ) := by
  have hsort : sortBy Bundle.ingressTs (bs.map (Bundle.reassign κ)) =
      (sortBy Bundle.ingressTs bs).map (Bundle.reassign κ) := sortBy_map (fun _ => rfl) bs
  rw [arrivalsOf, arrivalsOf, hsort, List.map_map, List.map_map]
  rfl

/-- The same events, with other classes. -/
theorem timeline_reassign (κ : String → TrafficClass) (ws : List ContactWindow)
    (bs : List Bundle) :
    timeline ws (bs.map (Bundle.reassign κ)) = (timeline ws bs).map (Event.reassign κ) := by
  induction ws generalizing bs with
  | nil => exact arrivalsOf_reassign κ bs
  | cons w ws ih =>
      rw [timeline, timeline, List.map_append, List.map_cons, ← ih, ← arrivalsOf_reassign,
        List.filter_map, List.filter_map]
      rfl

theorem totalBytes_reassign (κ : String → TrafficClass) (bs : List Bundle) :
    totalBytes (bs.map (Bundle.reassign κ)) = totalBytes bs := by
  rw [totalBytes, totalBytes, List.map_map]
  rfl

end Timeline

/-! ## Two buffers -/

/-- `γ` is `β` with other classes. -/
structure Reassigned (κ : String → TrafficClass) (bundles : List Bundle) (β γ : Buffer) :
    Prop where
  active : γ.active = β.active.map (Bundle.reassign κ)
  records : ∀ b ∈ bundles, γ.records (b.reassign κ) = β.records b

section Buffers

variable {sch : Scheduler} {κ : String → TrafficClass} {bundles vs : List Bundle} {β γ : Buffer}
  {b : Bundle}

/-- Ids tell bundles apart, whatever their classes. -/
theorem reassign_inj (hids : (bundles.map Bundle.bundleId).Nodup) {a b : Bundle}
    (ha : a ∈ bundles) (hb : b ∈ bundles) (h : a.reassign κ = b.reassign κ) : a = b := by
  have hid : (a.reassign κ).bundleId = (b.reassign κ).bundleId := by rw [h]
  exact List.inj_on_of_nodup_map hids ha hb hid

theorem mem_map_reassign (hids : (bundles.map Bundle.bundleId).Nodup) (hb : b ∈ bundles)
    (hvs : ∀ v ∈ vs, v ∈ bundles) : b.reassign κ ∈ vs.map (Bundle.reassign κ) ↔ b ∈ vs := by
  constructor
  · intro hmem
    obtain ⟨v, hv, heq⟩ := List.mem_map.1 hmem
    exact reassign_inj hids (hvs v hv) hb heq ▸ hv
  · exact List.mem_map_of_mem

namespace Reassigned

theorem settled (hids : (bundles.map Bundle.bundleId).Nodup) (h : Reassigned κ bundles β γ)
    (f : Lifecycle → Lifecycle) (hvs : ∀ v ∈ vs, v ∈ bundles) :
    ∀ b ∈ bundles, overwrite f (vs.map (Bundle.reassign κ)) γ.records (b.reassign κ) =
      overwrite f vs β.records b := by
  intro b hb
  have hmem := mem_map_reassign (κ := κ) hids hb hvs
  by_cases hv : b ∈ vs
  · rw [overwrite_of_mem hv, overwrite_of_mem (hmem.2 hv), h.records b hb]
  · rw [overwrite_of_notMem hv, overwrite_of_notMem fun hv' => hv (hmem.1 hv'), h.records b hb]

/-- The same bundles leave both buffers. -/
theorem remove (hids : (bundles.map Bundle.bundleId).Nodup) (h : Reassigned κ bundles β γ)
    (hactive : ∀ b ∈ β.active, b ∈ bundles) (f : Lifecycle → Lifecycle)
    (hvs : ∀ v ∈ vs, v ∈ bundles) :
    Reassigned κ bundles (β.remove f vs) (γ.remove f (vs.map (Bundle.reassign κ))) := by
  refine ⟨?_, h.settled hids f hvs⟩
  show without γ.active _ = (without β.active vs).map _
  rw [h.active]
  exact without_map fun x hx v hv => reassign_inj hids (hactive x hx) (hvs v hv)

theorem expire (hids : (bundles.map Bundle.bundleId).Nodup) (h : Reassigned κ bundles β γ)
    (hactive : ∀ b ∈ β.active, b ∈ bundles) (t : ℚ) :
    Reassigned κ bundles (β.expire t) (γ.expire t) := by
  have hexpired : (γ.active.filter fun b => b.expiredBy t) =
      (β.active.filter fun b => b.expiredBy t).map (Bundle.reassign κ) := by
    rw [h.active, List.filter_map]
    rfl
  rw [Buffer.expire, Buffer.expire, hexpired]
  exact h.remove hids hactive _ fun v hv => hactive v (List.mem_of_mem_filter hv)

theorem ready (h : Reassigned κ bundles β γ) (w : ContactWindow) :
    γ.ready w = (β.ready w).map (Bundle.reassign κ) := by
  rw [Buffer.ready, h.active, List.filter_map]
  rfl

theorem accept (hids : (bundles.map Bundle.bundleId).Nodup) (h : Reassigned κ bundles β γ)
    (hb : b ∈ bundles) : Reassigned κ bundles (β.accept b) (γ.accept (b.reassign κ)) := by
  have honly : ∀ c ∈ [b], c ∈ bundles := by simpa using hb
  refine ⟨?_, h.settled hids (Lifecycle.admitted b.ingressTs) honly⟩
  show γ.active ++ [_] = (β.active ++ [b]).map _
  rw [h.active, List.map_append, List.map_singleton]

theorem drop (hids : (bundles.map Bundle.bundleId).Nodup) (h : Reassigned κ bundles β γ)
    (hb : b ∈ bundles) : Reassigned κ bundles (β.drop b) (γ.drop (b.reassign κ)) := by
  have honly : ∀ c ∈ [b], c ∈ bundles := by simpa using hb
  exact ⟨h.active, h.settled hids Lifecycle.overflowed honly⟩

end Reassigned

/-- Admission does not look at the classes if it is not priority-aware, or if the arrival has room
unless it is too large anyway. -/
theorem admission_blind {active : List Bundle} (hsizes : ∀ c ∈ active, 0 < c.sizeBytes)
    (hblind : sch.admissionIsPriorityAware = false ∨
      (sch.Fits 0 b.sizeBytes → sch.Fits (totalBytes active) b.sizeBytes)) :
    sch.admission active b =
      if sch.Fits (totalBytes active) b.sizeBytes then some [] else none := by
  rw [Scheduler.admission]
  by_cases hfits : sch.Fits (totalBytes active) b.sizeBytes
  · rw [if_pos hfits, if_pos hfits]
  · rw [if_neg hfits, if_neg hfits, if_neg]
    rintro ⟨haware, hprotected⟩
    rcases hblind with hunaware | hroomy
    · rw [hunaware] at haware
      cases haware
    · -- it would fit alone, so it fits
      refine hfits (hroomy (hprotected.mono ?_))
      exact totalBytes_nonneg fun c hc => hsizes c (List.mem_of_mem_filter hc)

theorem Reassigned.offer (hids : (bundles.map Bundle.bundleId).Nodup)
    (h : Reassigned κ bundles β γ) (hb : b ∈ bundles)
    (hsizes : ∀ c ∈ β.active, 0 < c.sizeBytes)
    (hblind : sch.admissionIsPriorityAware = false ∨
      (sch.Fits 0 b.sizeBytes → sch.Fits (totalBytes β.active) b.sizeBytes)) :
    Reassigned κ bundles (β.offer sch b) (γ.offer sch (b.reassign κ)) := by
  have hbytes : totalBytes γ.active = totalBytes β.active := by
    rw [h.active, totalBytes_reassign]
  have hsizes' : ∀ c ∈ γ.active, 0 < c.sizeBytes := by
    intro c hc
    rw [h.active] at hc
    obtain ⟨a, ha, rfl⟩ := List.mem_map.1 hc
    exact hsizes a ha
  have hadm := admission_blind hsizes hblind
  have hadm' := admission_blind (b := b.reassign κ) hsizes' (by rw [hbytes]; exact hblind)
  rw [hbytes] at hadm'
  rw [Buffer.offer, Buffer.offer, hadm, hadm']
  by_cases hfits : sch.Fits (totalBytes β.active) b.sizeBytes
  · have hfits' : sch.Fits (totalBytes β.active) (b.reassign κ).sizeBytes := hfits
    rw [if_pos hfits, if_pos hfits']
    simp only [Buffer.evict, Buffer.remove_nil]
    exact h.accept hids hb
  · have hfits' : ¬ sch.Fits (totalBytes β.active) (b.reassign κ).sizeBytes := hfits
    rw [if_neg hfits, if_neg hfits']
    exact h.drop hids hb

/-- A drain by instants sends the same bundles. -/
theorem sent_reassign (hpolicy : DrainsBlind sch) {w : ContactWindow} {bs sent sent' : List Bundle}
    {credit credit' : Prop} (service : Service sch w bs sent credit)
    (service' : Service sch w (bs.map (Bundle.reassign κ)) sent' credit') :
    sent' = sent.map (Bundle.reassign κ) := by
  rcases hpolicy with hpolicy | hpolicy
  · have horder : ∀ cs, sch.drainOrder w cs =
        some (!sch.fifoSkipOver, sortBy Bundle.ingressTs cs) := fun cs => by
      rw [Scheduler.drainOrder, hpolicy]
    have hsort : sortBy Bundle.ingressTs (bs.map (Bundle.reassign κ)) =
        (sortBy Bundle.ingressTs bs).map (Bundle.reassign κ) := sortBy_map (fun _ => rfl) bs
    rw [service.ordered _ _ (horder _), service'.ordered _ _ (horder _), hsort]
    exact greedyFill_map _ (fun _ => rfl) _ _ _
  · have horder : ∀ cs, sch.drainOrder w cs = some (false, sortBy Bundle.deadline cs) :=
      fun cs => by rw [Scheduler.drainOrder, hpolicy]
    have hsort : sortBy Bundle.deadline (bs.map (Bundle.reassign κ)) =
        (sortBy Bundle.deadline bs).map (Bundle.reassign κ) := sortBy_map (fun _ => rfl) bs
    rw [service.ordered _ _ (horder _), service'.ordered _ _ (horder _), hsort]
    exact greedyFill_map _ (fun _ => rfl) _ _ _

/-- Corresponding events keep two buffers alike. -/
theorem Reassigned.step (hpolicy : DrainsBlind sch) (hids : (bundles.map Bundle.bundleId).Nodup)
    {credit credit' : Prop} {e : Event} {es : List Event} {β' γ' : Buffer}
    (hwf : β.WellFormed sch (offered (e :: es)))
    (hknown : ∀ b ∈ β.active ++ offered (e :: es), b ∈ bundles)
    (hblind : sch.admissionIsPriorityAware = false ∨ ∀ b, e = .arrival b →
      sch.Fits 0 b.sizeBytes → sch.Fits (totalBytes β.active) b.sizeBytes)
    (h : Reassigned κ bundles β γ) (hstep : Step sch credit e β β')
    (hstep' : Step sch credit' (e.reassign κ) γ γ') : Reassigned κ bundles β' γ' := by
  have hactive : ∀ b ∈ β.active, b ∈ bundles := fun b hb =>
    hknown b (List.mem_append_left _ hb)
  cases hstep with
  | arrival b =>
      cases hstep'
      exact h.offer hids (hknown b (List.mem_append_right _ (List.mem_cons_self ..)))
        (fun c hc => hwf.active_size_pos hc) (hblind.imp_right fun hroomy => hroomy b rfl)
  | @contact w _ sent service =>
      cases hstep' with
      | contact service' =>
          have hexp := h.expire hids hactive w.startTs
          have hactive' : ∀ b ∈ (β.expire w.startTs).active, b ∈ bundles := fun b hb =>
            hactive b (mem_without.1 hb).1
          rw [hexp.ready w] at service'
          rw [sent_reassign hpolicy service service']
          exact hexp.remove hids hactive' _ fun b hb =>
            hactive' b (List.mem_of_mem_filter (service.subset b hb))

theorem Reassigned.finish (hids : (bundles.map Bundle.bundleId).Nodup)
    (h : Reassigned κ bundles β γ) (hactive : ∀ b ∈ β.active, b ∈ bundles) (lastEnd : Option ℚ) :
    ∀ b ∈ bundles, (γ.lastExpire lastEnd).sweep.records (b.reassign κ) =
      (β.lastExpire lastEnd).sweep.records b := by
  have hlast : Reassigned κ bundles (β.lastExpire lastEnd) (γ.lastExpire lastEnd) ∧
      ∀ b ∈ (β.lastExpire lastEnd).active, b ∈ bundles := by
    cases lastEnd with
    | none => exact ⟨h, hactive⟩
    | some t => exact ⟨h.expire hids hactive t, fun b hb => hactive b (mem_without.1 hb).1⟩
  intro b hb
  show overwrite _ (γ.lastExpire lastEnd).active _ _ = _
  rw [hlast.1.active]
  exact hlast.1.settled hids _ hlast.2 b hb

end Buffers

/-! ## Two runs -/

/-- Two runs over the same bundles with different classes, with `es` still to come. -/
structure Paired (sch : Scheduler) (κ : String → TrafficClass) (bundles : List Bundle)
    (es : List Event) (s t : SchedulerState) : Prop where
  wellFormed : s.toBuffer.WellFormed sch (offered es)
  wellFormed' : t.toBuffer.WellFormed sch (offered (es.map (Event.reassign κ)))
  known : ∀ b ∈ s.active ++ offered es, b ∈ bundles
  alike : Reassigned κ bundles s.toBuffer t.toBuffer

section Runs

variable {sch : Scheduler} {κ : String → TrafficClass} {bundles : List Bundle}
  {records records' : Bundle → Lifecycle} {e : Event} {es : List Event} {s t : SchedulerState}

theorem Paired.handle (hpolicy : DrainsBlind sch) (hids : (bundles.map Bundle.bundleId).Nodup)
    (h : Paired sch κ bundles (e :: es) s t)
    (hblind : sch.admissionIsPriorityAware = false ∨ ∀ b, e = .arrival b →
      sch.Fits 0 b.sizeBytes → sch.Fits s.activeBytes b.sizeBytes) :
    ∃ s' t', e.handle sch s = .ok ⟨⟩ s' ∧ (e.reassign κ).handle sch t = .ok ⟨⟩ t' ∧
      Paired sch κ bundles es s' t' := by
  obtain ⟨_, s', hs', hstep, -⟩ := handle_spec h.wellFormed
  obtain ⟨_, t', ht', hstep', -⟩ := handle_spec h.wellFormed'
  refine ⟨s', t', hs', ht', hstep.wellFormed h.wellFormed, hstep'.wellFormed h.wellFormed',
    fun b hb => h.known b (hstep.subset b hb), ?_⟩
  rw [h.wellFormed.bytes] at hblind
  exact h.alike.step hpolicy hids h.wellFormed h.known hblind hstep hstep'

theorem AlwaysRoom.tail (h : AlwaysRoom sch (e :: es) s) (hhandle : e.handle sch s = .ok ⟨⟩ t) :
    AlwaysRoom sch es t := by
  intro made b rest s' hsplit hmade
  refine h (e :: made) b rest s' (by rw [hsplit]; rfl) ?_
  exact (bind_ok hhandle).trans hmade

/-- As long as admission does not look at the classes the runs stay alike. -/
theorem Paired.serve (hpolicy : DrainsBlind sch) (hids : (bundles.map Bundle.bundleId).Nodup) :
    ∀ (made : List Event) {rest : List Event} (s t : SchedulerState),
      Paired sch κ bundles (made ++ rest) s t →
        (sch.admissionIsPriorityAware = false ∨ AlwaysRoom sch made s) →
          ∃ s' t', made.forM (Event.handle sch) s = .ok ⟨⟩ s' ∧
            (made.map (Event.reassign κ)).forM (Event.handle sch) t = .ok ⟨⟩ t' ∧
            Paired sch κ bundles rest s' t' := by
  intro made
  induction made with
  | nil => exact fun s t h _ => ⟨s, t, rfl, rfl, h⟩
  | cons e made ih =>
      intro rest s t h hblind
      obtain ⟨s₁, t₁, hs₁, ht₁, h₁⟩ := Paired.handle hpolicy hids h (hblind.imp_right
        fun hroomy b hb => hroomy [] b made s (by rw [hb]; rfl) rfl)
      obtain ⟨s', t', hs', ht', h'⟩ := ih s₁ t₁ h₁ (hblind.imp_right fun hroomy =>
        hroomy.tail hs₁)
      exact ⟨s', t', (bind_ok hs₁).trans hs', (bind_ok ht₁).trans ht', h'⟩

theorem Valid.reassign (h : Valid bundles records)
    (hrecords : ∀ b ∈ bundles, records' (b.reassign κ) = records b) :
    Valid (bundles.map (Bundle.reassign κ)) records' := by
  have hmem : ∀ c ∈ bundles.map (Bundle.reassign κ), ∃ b ∈ bundles, b.reassign κ = c :=
    fun c hc => List.mem_map.1 hc
  refine ⟨?_, fun c hc => ?_, fun c hc => ?_, fun c hc => ?_⟩
  · rw [List.map_map]
    exact h.distinct
  · obtain ⟨b, hb, rfl⟩ := hmem c hc
    exact h.sizes b hb
  · obtain ⟨b, hb, rfl⟩ := hmem c hc
    exact h.lifetimes b hb
  · obtain ⟨b, hb, rfl⟩ := hmem c hc
    rw [hrecords b hb]
    exact h.pending b hb

/-- Before the first event. -/
theorem Valid.paired (h : Valid bundles records)
    (hrecords : ∀ b ∈ bundles, records' (b.reassign κ) = records b) (sch : Scheduler) :
    Paired sch κ bundles (timeline sch.plan.windows bundles) (SchedulerState.fresh records)
      (SchedulerState.fresh records') := by
  have hidle := SchedulerState.fresh_idle records
  refine ⟨h.wellFormed hidle sch _, ?_, fun b hb => ?_, ⟨rfl, hrecords⟩⟩
  · rw [← timeline_reassign]
    exact (h.reassign hrecords).wellFormed (SchedulerState.fresh_idle records') sch _
  · rw [hidle.queue] at hb
    exact (mem_sortBy _).1 hb

/-- What is left of a run after its timeline. -/
theorem run_finishes (h : Valid bundles records) (now : ℚ)
    (hserved : (timeline sch.plan.windows bundles).forM (Event.handle sch)
      (SchedulerState.fresh records) = .ok ⟨⟩ s) (hwf : s.toBuffer.WellFormed sch []) :
    Returns (run sch now bundles) (SchedulerState.fresh records) fun _ s' =>
      s'.toBuffer = (s.toBuffer.lastExpire sch.plan.lastEnd).sweep := by
  rw [run_eq]
  refine Returns.ok_bind (checkExpirations_ok h.lifetimes _) (Returns.ok_bind hserved ?_)
  refine (lastExpiry_spec sch.plan.lastEnd hwf).bind fun _ s₁ h₁ => ?_
  have hwf₁ : s₁.toBuffer.WellFormed sch [] := h₁.buffer ▸ hwf.lastExpire _
  refine (finalSweep_spec now sch.plan.lastEnd hwf₁).mono fun _ s' h' => ?_
  rw [h'.buffer, h₁.buffer]

/-- Run with other classes, every bundle ends with the same record. -/
theorem run_reassign (hpolicy : DrainsBlind sch) (h : Valid bundles records)
    (hrecords : ∀ b ∈ bundles, records' (b.reassign κ) = records b)
    (hblind : sch.admissionIsPriorityAware = false ∨
      AlwaysRoom sch (timeline sch.plan.windows bundles) (SchedulerState.fresh records))
    (now now' : ℚ) :
    ∃ s s', run sch now bundles (SchedulerState.fresh records) = .ok ⟨⟩ s ∧
      run sch now' (bundles.map (Bundle.reassign κ)) (SchedulerState.fresh records') = .ok ⟨⟩ s' ∧
      ∀ b ∈ bundles, s'.records (b.reassign κ) = s.records b := by
  have hpaired := h.paired hrecords sch
  rw [← List.append_nil (timeline sch.plan.windows bundles)] at hpaired
  obtain ⟨s₁, t₁, hs₁, ht₁, h₁⟩ := Paired.serve hpolicy h.distinct _ _ _ hpaired hblind
  rw [← timeline_reassign] at ht₁
  obtain ⟨_, s', hrun, hs'⟩ := run_finishes h now hs₁ h₁.wellFormed
  obtain ⟨_, t', hrun', ht'⟩ :=
    run_finishes (h.reassign hrecords) now' ht₁ h₁.wellFormed'
  refine ⟨s', t', hrun, hrun', fun b hb => ?_⟩
  rw [hs', ht']
  exact h₁.alike.finish h.distinct (fun c hc => h₁.known c (List.mem_append_left _ hc)) _ b hb

end Runs

/-! ## Two assignments that differ -/

section Lost

variable {sch : Scheduler} {credit : Prop} {future vs : List Bundle} {β β' : Buffer} {c : Bundle}

theorem Bundle.rank_nonneg (b : Bundle) : 0 ≤ b.rank := by
  rw [Bundle.rank]
  cases b.trafficClass <;> decide

/-- Lost for lack of room. -/
def Buffer.Lost (β : Buffer) (c : Bundle) : Prop := (β.records c).terminalState = .queueOverflow

/-- Not queued, or of the highest priority. -/
def Buffer.Safe (β : Buffer) (c : Bundle) : Prop := c ∉ β.active ∨ c.trafficClass = .emergency

theorem Buffer.Safe.remove {f : Lifecycle → Lifecycle} (h : β.Safe c) : (β.remove f vs).Safe c :=
  h.imp_left fun hc hmem => hc (mem_without.1 hmem).1

/-- Whoever is settled otherwise was not lost and is not. -/
theorem lost_settle_iff {f : Lifecycle → Lifecycle} {g : Bundle → Lifecycle}
    (hf : ∀ r, (f r).terminalState ≠ .queueOverflow)
    (hpending : ∀ v ∈ vs, (g v).terminalState = .pending) :
    (overwrite f vs g c).terminalState = .queueOverflow ↔
      (g c).terminalState = .queueOverflow := by
  by_cases hc : c ∈ vs
  · rw [overwrite_of_mem hc, hpending c hc]
    exact iff_of_false (hf _) nofun
  · rw [overwrite_of_notMem hc]

/-- What is lost stays lost, and a safe bundle that has been offered is not lost any more. -/
theorem Step.lost_iff {e : Event} {es : List Event} (hwf : β.WellFormed sch (offered (e :: es)))
    (hc : c ∉ offered (e :: es)) (hsafe : β.Safe c) (hstep : Step sch credit e β β') :
    (β'.Lost c ↔ β.Lost c) ∧ β'.Safe c := by
  cases hstep with
  | arrival b =>
      have hne : c ∉ [b] := fun hmem =>
        hc (List.mem_singleton.1 hmem ▸ List.mem_cons_self ..)
      unfold Buffer.offer
      cases hadm : sch.admission β.active b with
      | none =>
          refine ⟨?_, hsafe⟩
          show (overwrite _ [b] β.records c).terminalState = _ ↔ _
          rw [overwrite_of_notMem hne]
          rfl
      | some vs =>
          -- nobody evicts a bundle of the highest priority
          have hnot : c ∉ vs := by
            intro hmem
            obtain ⟨hact, hrank⟩ := (admission_victims hwf.active_nodup hadm).2 c hmem
            rcases hsafe with hsafe | hsafe
            · exact hsafe hact
            · have hzero : c.rank = 0 := by rw [Bundle.rank, hsafe]; rfl
              exact absurd (hzero ▸ hrank) (not_lt.2 b.rank_nonneg)
          refine ⟨?_, ?_⟩
          · show (overwrite _ [b] (overwrite _ vs β.records) c).terminalState = _ ↔ _
            rw [overwrite_of_notMem hne, overwrite_of_notMem hnot]
            rfl
          · refine hsafe.imp_left fun hact hmem => ?_
            rcases List.mem_append.1 hmem with hmem | hmem
            · exact hact (mem_without.1 hmem).1
            · exact hne hmem
  | @contact w _ sent service =>
      have hready : ∀ v ∈ sent, v ∈ (β.expire w.startTs).active := fun v hv =>
        List.mem_of_mem_filter (service.subset v hv)
      have hexp : (β.expire w.startTs).Lost c ↔ β.Lost c :=
        lost_settle_iff (fun _ => nofun) fun v hv =>
          hwf.active_pending (List.mem_of_mem_filter hv)
      have hsent : ((β.expire w.startTs).transmitted w sent).Lost c ↔
          (β.expire w.startTs).Lost c :=
        lost_settle_iff (fun _ => nofun) fun v hv =>
          (hwf.expire w.startTs).active_pending (hready v hv)
      exact ⟨hsent.trans hexp, hsafe.remove.remove⟩

theorem lost_finish_iff (hwf : β.WellFormed sch []) (lastEnd : Option ℚ) :
    (β.lastExpire lastEnd).sweep.Lost c ↔ β.Lost c := by
  have hlast : (β.lastExpire lastEnd).Lost c ↔ β.Lost c := by
    cases lastEnd with
    | none => exact Iff.rfl
    | some t =>
        exact lost_settle_iff (fun _ => nofun) fun v hv =>
          hwf.active_pending (List.mem_of_mem_filter hv)
  refine Iff.trans (lost_settle_iff (fun _ => nofun) fun v hv => ?_) hlast
  exact (hwf.lastExpire lastEnd).active_pending hv

end Lost

section Crowded

variable {sch : Scheduler} {κ : String → TrafficClass} {bundles : List Bundle}
  {records records' : Bundle → Lifecycle} {made rest : List Event} {b : Bundle}
  {s t : SchedulerState}

/-- Among bundles of its own class, and where it could not be of a higher one, an arrival that does
not fit is dropped. -/
theorem offer_uniform {β : Buffer} (hsame : ∀ c ∈ β.active, c.rank ≤ b.rank)
    (hfull : ¬ sch.Fits (totalBytes β.active) b.sizeBytes) : β.offer sch b = β.drop b := by
  have hall : protectedFrom β.active b = β.active :=
    List.filter_eq_self.2 fun c hc => decide_eq_true (hsame c hc)
  rw [Buffer.offer, Scheduler.admission, if_neg hfull, hall, if_neg fun hboth => hfull hboth.2]

/-- An arrival that outranks everybody is admitted if the empty buffer would hold it. -/
theorem offer_outranking {β : Buffer} (haware : sch.admissionIsPriorityAware = true)
    (habove : ∀ c ∈ β.active, b.rank < c.rank) (halone : sch.Fits 0 b.sizeBytes) :
    ∃ vs, β.offer sch b = (β.evict vs).accept b ∧ ∀ v ∈ vs, v ∈ β.active := by
  have hnone : protectedFrom β.active b = [] :=
    List.filter_eq_nil_iff.2 fun c hc => by simpa using habove c hc
  rw [Buffer.offer, Scheduler.admission, hnone, totalBytes_nil]
  by_cases hfits : sch.Fits (totalBytes β.active) b.sizeBytes
  · rw [if_pos hfits]
    exact ⟨[], rfl, by rintro v ⟨⟩⟩
  · rw [if_neg hfits, if_pos ⟨haware, halone⟩]
    refine ⟨_, rfl, fun v hv => ?_⟩
    have hmem := (neededVictims_isPrefix sch _ _ _).subset hv
    rw [victimOrder, mem_sortBy] at hmem
    exact List.mem_of_mem_filter hmem

theorem made_wellFormed (h : Valid bundles records)
    (hsplit : timeline sch.plan.windows bundles = made ++ rest)
    (hmade : made.forM (Event.handle sch) (SchedulerState.fresh records) = .ok ⟨⟩ s) :
    s.toBuffer.WellFormed sch (offered rest) := by
  have hstart := h.wellFormed (SchedulerState.fresh_idle records) sch sch.plan.windows
  rw [hsplit] at hstart
  refine (forM_eq_ok_iff.1 hmade).invariant
    (I := fun es t => t.toBuffer.WellFormed sch (offered (es ++ rest)))
    (fun e es t t' hwf hhandle => ?_) hstart
  obtain ⟨_, t'', ht'', hstep, -⟩ := handle_spec hwf
  rw [hhandle] at ht''
  cases ht''
  exact hstep.wellFormed hwf

/-- What an arrival has lost or saved for good. -/
theorem run_lost_iff (h : Valid bundles records)
    (hsplit : timeline sch.plan.windows bundles = made ++ .arrival b :: rest)
    (hmade : made.forM (Event.handle sch) (SchedulerState.fresh records) = .ok ⟨⟩ s)
    (hsafe : (s.toBuffer.offer sch b).Safe b) :
    Returns (run sch 0 bundles) (SchedulerState.fresh records) fun _ s' =>
      s'.toBuffer.Lost b ↔ (s.toBuffer.offer sch b).Lost b := by
  have hwf := made_wellFormed h hsplit hmade
  obtain ⟨_, s₁, hadmit, hbecame, hwf₁⟩ := tryAdmit_spec hwf
  obtain ⟨_, s₂, hrest, hrun, hwf₂, -⟩ :=
    forM_handle_spec rest s₁ hwf₁ id
  have hserved : (timeline sch.plan.windows bundles).forM (Event.handle sch)
      (SchedulerState.fresh records) = .ok ⟨⟩ s₂ := by
    rw [hsplit]
    exact forM_eq_ok_iff.2 ((forM_eq_ok_iff.1 hmade).append
      (.cons hadmit (forM_eq_ok_iff.1 hrest)))
  have hend := hrun.invariant
    (I := fun es β => β.WellFormed sch (offered es) ∧ b ∉ offered es ∧ β.Safe b ∧
      (β.Lost b ↔ (s.toBuffer.offer sch b).Lost b))
    (fun e es β β' hI hstep => ?_)
    ⟨hwf₁, hwf.next_notMem_future, hbecame.buffer ▸ hsafe, by rw [hbecame.buffer]⟩
  · refine (run_finishes h 0 hserved hwf₂).mono fun _ s' hs' => ?_
    rw [hs', lost_finish_iff hwf₂]
    exact hend.2.2.2
  · obtain ⟨hiff, hsafe'⟩ := hstep.lost_iff hI.1 hI.2.1 hI.2.2.1
    refine ⟨hstep.wellFormed hI.1, fun hmem => hI.2.1 ?_, hsafe', hiff.trans hI.2.2.2⟩
    exact List.mem_filterMap.2 (by
      obtain ⟨x, hx, hxb⟩ := List.mem_filterMap.1 hmem
      exact ⟨x, List.mem_cons_of_mem _ hx, hxb⟩)

/-- The classes of the bundles can be given back to them. -/
theorem exists_restoring (h : Valid bundles records) (κ : String → TrafficClass) :
    ∃ records' : Bundle → Lifecycle, ∀ b ∈ bundles, records' (b.reassign κ) = records b := by
  classical
  refine ⟨fun c => if hc : ∃ b ∈ bundles, b.reassign κ = c then records hc.choose else {},
    fun b hb => ?_⟩
  have hc : ∃ a ∈ bundles, a.reassign κ = b.reassign κ := ⟨b, hb, rfl⟩
  -- ids are distinct, so the bundle chosen is `b`
  have heq := reassign_inj h.distinct hc.choose_spec.1 hb hc.choose_spec.2
  show (if hc : ∃ a ∈ bundles, a.reassign κ = b.reassign κ then records hc.choose else {}) = _
  rw [dif_pos hc, heq]

end Crowded

/-! ## The first arrival without room -/

/-- All bundles alike. -/
def levelled : String → TrafficClass := fun _ => .media

/-- All bundles alike, apart from `b`, which is above them. -/
def elevated (b : Bundle) : String → TrafficClass := fun id =>
  if id = b.bundleId then .emergency else .media

/-- In a run that has had room for everybody in `made`, the arrival `b` finds too little, though
the empty buffer would hold it. -/
structure FirstCrowded (sch : Scheduler) (bundles : List Bundle) (records : Bundle → Lifecycle)
    (made : List Event) (b : Bundle) (rest : List Event) (s : SchedulerState) : Prop where
  split : timeline sch.plan.windows bundles = made ++ .arrival b :: rest
  reached : made.forM (Event.handle sch) (SchedulerState.fresh records) = .ok ⟨⟩ s
  roomy : AlwaysRoom sch made (SchedulerState.fresh records)
  alone : sch.Fits 0 b.sizeBytes
  full : ¬ sch.Fits s.activeBytes b.sizeBytes

section FirstCrowded

variable {sch : Scheduler} {κ : String → TrafficClass} {bundles : List Bundle}
  {records records' : Bundle → Lifecycle} {made rest : List Event} {b : Bundle}
  {s t : SchedulerState}

/-- Where an arrival lacks room there is a first one that does. -/
theorem roomy_of_no_first {es : List Event}
    (h : ∀ made b rest s', es = made ++ .arrival b :: rest →
      made.forM (Event.handle sch) s = .ok ⟨⟩ s' → AlwaysRoom sch made s →
        sch.Fits 0 b.sizeBytes → sch.Fits s'.activeBytes b.sizeBytes) : AlwaysRoom sch es s := by
  suffices hall : ∀ n made b rest s', made.length = n → es = made ++ .arrival b :: rest →
      made.forM (Event.handle sch) s = .ok ⟨⟩ s' →
        sch.Fits 0 b.sizeBytes → sch.Fits s'.activeBytes b.sizeBytes from
    fun made b rest s' => hall _ made b rest s' rfl
  intro n
  induction n using Nat.strong_induction_on with
  | _ n ih =>
      -- the arrivals in `made` come after fewer events, so they had room
      intro made b rest s' hlen hsplit hmade
      refine h made b rest s' hsplit hmade fun made₀ b₀ rest₀ s₀ hsplit₀ hmade₀ => ?_
      refine ih made₀.length ?_ made₀ b₀ (rest₀ ++ .arrival b :: rest) s₀ rfl ?_ hmade₀
      · rw [← hlen, hsplit₀, List.length_append, List.length_cons]
        omega
      · rw [hsplit, hsplit₀, List.append_assoc, List.cons_append]

namespace FirstCrowded

theorem split_reassign (hc : FirstCrowded sch bundles records made b rest s)
    (κ : String → TrafficClass) :
    timeline sch.plan.windows (bundles.map (Bundle.reassign κ)) =
      made.map (Event.reassign κ) ++ .arrival (b.reassign κ) :: rest.map (Event.reassign κ) := by
  rw [timeline_reassign, hc.split, List.map_append, List.map_cons]
  rfl

/-- Other classes change nothing up to that arrival. -/
theorem paired (hc : FirstCrowded sch bundles records made b rest s) (hpolicy : DrainsBlind sch)
    (h : Valid bundles records)
    (hrecords : ∀ b ∈ bundles, records' (b.reassign κ) = records b) :
    ∃ t, (made.map (Event.reassign κ)).forM (Event.handle sch) (SchedulerState.fresh records') =
        .ok ⟨⟩ t ∧
      Paired sch κ bundles (.arrival b :: rest) s t := by
  have hstart := h.paired hrecords sch
  rw [hc.split] at hstart
  obtain ⟨s₁, t, hs₁, ht, hpaired⟩ :=
    Paired.serve hpolicy h.distinct made _ _ hstart (Or.inr hc.roomy)
  rw [hc.reached] at hs₁
  cases hs₁
  exact ⟨t, ht, hpaired⟩

end FirstCrowded

namespace Paired

theorem mem (h : Paired sch κ bundles (.arrival b :: rest) s t) : b ∈ bundles :=
  h.known b (List.mem_append_right _ (List.mem_cons_self ..))

/-- With other classes, too, the arrival is not queued yet. -/
theorem notMem (h : Paired sch κ bundles (.arrival b :: rest) s t) : b.reassign κ ∉ t.active :=
  h.wellFormed'.future_notMem_active (List.mem_cons_self ..)

/-- Who is queued is another bundle of the list. -/
theorem exists_queued (h : Paired sch κ bundles (.arrival b :: rest) s t) {c : Bundle}
    (hc : c ∈ t.active) : ∃ a ∈ bundles, a ≠ b ∧ a.reassign κ = c := by
  have hactive : t.active = s.active.map (Bundle.reassign κ) := h.alike.active
  rw [hactive] at hc
  obtain ⟨a, ha, rfl⟩ := List.mem_map.1 hc
  refine ⟨a, h.known a (List.mem_append_left _ ha), ?_, rfl⟩
  rintro rfl
  exact h.wellFormed.future_notMem_active (List.mem_cons_self ..) ha

theorem totalBytes_eq (h : Paired sch κ bundles (.arrival b :: rest) s t) :
    totalBytes t.active = s.activeBytes := by
  have hactive : t.active = s.active.map (Bundle.reassign κ) := h.alike.active
  rw [hactive, totalBytes_reassign]
  exact h.wellFormed.bytes.symm

end Paired

namespace FirstCrowded

/-- Among equals the arrival is lost. -/
theorem lost_levelled (hc : FirstCrowded sch bundles records made b rest s)
    (hpolicy : DrainsBlind sch) (h : Valid bundles records)
    (hrecords : ∀ b ∈ bundles, records' (b.reassign levelled) = records b) :
    Returns (run sch 0 (bundles.map (Bundle.reassign levelled))) (SchedulerState.fresh records')
      fun _ s' => s'.toBuffer.Lost (b.reassign levelled) := by
  obtain ⟨t, ht, hpaired⟩ := hc.paired hpolicy h hrecords
  -- nobody ranks below it, so there is nobody to evict
  have hdrop : t.toBuffer.offer sch (b.reassign levelled) =
      t.toBuffer.drop (b.reassign levelled) := by
    refine offer_uniform (fun c hmem => ?_) ?_
    · obtain ⟨a, -, -, rfl⟩ := hpaired.exists_queued hmem
      exact le_refl (b.reassign levelled).rank
    · exact fun hfits => hc.full (hpaired.totalBytes_eq ▸ hfits)
  have hlost : (t.toBuffer.drop (b.reassign levelled)).Lost (b.reassign levelled) := by
    show (overwrite _ [_] t.records _).terminalState = _
    rw [overwrite_of_mem (List.mem_singleton_self _)]
    rfl
  refine (run_lost_iff (h.reassign hrecords) (hc.split_reassign levelled) ht ?_).mono
    fun _ s' hiff => hiff.2 ?_
  · exact Or.inl (hdrop ▸ hpaired.notMem)
  · exact hdrop ▸ hlost

/-- Above all others it is saved. -/
theorem saved_elevated (hc : FirstCrowded sch bundles records made b rest s)
    (hpolicy : DrainsBlind sch) (haware : sch.admissionIsPriorityAware = true)
    (h : Valid bundles records)
    (hrecords : ∀ a ∈ bundles, records' (a.reassign (elevated b)) = records a) :
    Returns (run sch 0 (bundles.map (Bundle.reassign (elevated b))))
      (SchedulerState.fresh records') fun _ s' =>
        ¬ s'.toBuffer.Lost (b.reassign (elevated b)) := by
  obtain ⟨t, ht, hpaired⟩ := hc.paired hpolicy h hrecords
  have hclass : (b.reassign (elevated b)).trafficClass = .emergency := if_pos rfl
  have habove : ∀ c ∈ t.active, (b.reassign (elevated b)).rank < c.rank := by
    intro c hmem
    obtain ⟨a, ha, hne, rfl⟩ := hpaired.exists_queued hmem
    have hid : a.bundleId ≠ b.bundleId := fun hid =>
      hne (List.inj_on_of_nodup_map h.distinct ha hpaired.mem hid)
    have hother : (a.reassign (elevated b)).trafficClass = .media := if_neg hid
    rw [Bundle.rank, Bundle.rank, hclass, hother]
    decide
  -- everybody ranks below it, so the whole queue may be evicted for it
  obtain ⟨vs, hoffer, hvs⟩ := offer_outranking (β := t.toBuffer) haware habove hc.alone
  have hnot : b.reassign (elevated b) ∉ vs := fun hmem => hpaired.notMem (hvs _ hmem)
  have hsaved : ¬ ((t.toBuffer.evict vs).accept (b.reassign (elevated b))).Lost
      (b.reassign (elevated b)) := by
    have hpending := hpaired.wellFormed'.pending (b.reassign (elevated b))
      (List.mem_append_right _ (List.mem_cons_self ..))
    show ¬ (overwrite _ [_] (overwrite _ vs t.records) _).terminalState = _
    rw [overwrite_of_mem (List.mem_singleton_self _), overwrite_of_notMem hnot]
    show ¬ (t.records (b.reassign (elevated b))).terminalState = _
    rw [hpending]
    exact nofun
  refine (run_lost_iff (h.reassign hrecords) (hc.split_reassign (elevated b)) ht
    (Or.inr hclass)).mono fun _ s' hiff hlost => ?_
  exact hsaved (hoffer ▸ hiff.1 hlost)

end FirstCrowded

/-- The outcomes a run has with any classes are those of the run itself. -/
theorem ClassBlind.lost_iff (hblind : ClassBlind sch bundles records)
    (hrecords : ∀ b ∈ bundles, records' (b.reassign κ) = records b) (hb : b ∈ bundles)
    {P : Prop} (hrun : Returns (run sch 0 (bundles.map (Bundle.reassign κ)))
      (SchedulerState.fresh records') fun _ s' => s'.toBuffer.Lost (b.reassign κ) ↔ P) :
    Returns (run sch 0 bundles) (SchedulerState.fresh records) fun _ s' =>
      s'.toBuffer.Lost b ↔ P := by
  obtain ⟨s, s', hs, hs', hsame⟩ := hblind κ records' 0 0 hrecords
  have hiff : s'.toBuffer.Lost (b.reassign κ) ↔ P := hrun.ensures _ _ hs'
  refine ⟨⟨⟩, s, hs, ?_⟩
  refine Iff.trans ?_ hiff
  show (s.records b).terminalState = _ ↔ (s'.records (b.reassign κ)).terminalState = _
  rw [(hsame b hb).1]

end FirstCrowded

/-! ## Class blindness -/

/-- FIFO, and DEADLINE_AWARE with the default admission, give the bundles outcomes that do not
depend on their classes exactly if the policy is FIFO or the run has room for every arrival that the
empty buffer would hold. -/
theorem class_blind_iff {sch : Scheduler} {bundles : List Bundle} {records : Bundle → Lifecycle}
    (hpolicy : DrainsBlind sch) (hnone : sch.priorityAwareAdmission = none)
    (h : Valid bundles records) :
    ClassBlind sch bundles records ↔ sch.policy = .fifo ∨
      AlwaysRoom sch (timeline sch.plan.windows bundles) (SchedulerState.fresh records) := by
  constructor
  · intro hblind
    by_cases hfifo : sch.policy = .fifo
    · exact Or.inl hfifo
    · -- the first arrival without room is lost among equals and saved above them
      have haware : sch.admissionIsPriorityAware = true := by
        rw [Scheduler.admissionIsPriorityAware, hnone]
        exact decide_eq_true hfifo
      refine Or.inr (roomy_of_no_first fun made b rest s hsplit hmade hroomy halone => ?_)
      by_contra hfull
      have hc : FirstCrowded sch bundles records made b rest s :=
        ⟨hsplit, hmade, hroomy, halone, hfull⟩
      obtain ⟨records₁, hrecords₁⟩ := exists_restoring h levelled
      obtain ⟨records₂, hrecords₂⟩ := exists_restoring h (elevated b)
      obtain ⟨t, -, hpaired⟩ := hc.paired hpolicy h hrecords₁
      have hlost := hblind.lost_iff hrecords₁ hpaired.mem
        ((hc.lost_levelled hpolicy h hrecords₁).mono fun _ _ hlost => iff_true_intro hlost)
      have hsaved := hblind.lost_iff hrecords₂ hpaired.mem
        ((hc.saved_elevated hpolicy haware h hrecords₂).mono fun _ _ hnot => iff_false_intro hnot)
      obtain ⟨_, s', -, hiff, hiff'⟩ := hlost.and hsaved
      exact hiff'.1 (hiff.2 trivial)
  · intro hwhen κ records' now now' hrecords
    -- either way admission does not come to look at the classes
    have hadm : sch.admissionIsPriorityAware = false ∨
        AlwaysRoom sch (timeline sch.plan.windows bundles) (SchedulerState.fresh records) := by
      refine hwhen.imp_left fun hfifo => ?_
      rw [Scheduler.admissionIsPriorityAware, hnone]
      exact decide_eq_false fun hne => hne hfifo
    obtain ⟨s, s', hs, hs', hsame⟩ := run_reassign hpolicy h hrecords hadm now now'
    refine ⟨s, s', hs, hs', fun b hb => ?_⟩
    rw [hsame b hb]
    exact ⟨rfl, rfl, rfl⟩

/-- Fills three quarters of the buffer. -/
def Small.spool : Bundle := Small.bundle "spool" .media 1500 0 100

/-- Does not fit next to it. -/
def Small.clip : Bundle := Small.bundle "clip" .media 1000 1 100

theorem Small.valid_crowded : Valid [Small.spool, Small.clip] (fun _ => {}) where
  distinct := by decide +kernel
  sizes := by decide +kernel
  lifetimes := by decide +kernel
  pending := fun _ _ => rfl

/-- Under FIFO the classes of the two do not matter. -/
theorem class_blind_iff_small :
    ClassBlind { Small.scheduler with policy := .fifo } [Small.spool, Small.clip]
      (fun _ => {}) :=
  (class_blind_iff (Or.inl rfl) rfl Small.valid_crowded).2 (Or.inl rfl)

/-- Under DEADLINE_AWARE they do: as MEDIA the clip is dropped, as EMERGENCY it evicts the spool and
is delivered. -/
theorem clip_outcome_depends_on_class :
    ¬ ClassBlind { Small.scheduler with policy := .deadlineAware } [Small.spool, Small.clip]
      (fun _ => {}) := by
  intro hblind
  obtain ⟨s, s', hs, hs', hsame⟩ := hblind (elevated Small.clip) (fun _ => {}) 0 0 fun _ _ => rfl
  have hclip : (recordAfter Small.clip (run { Small.scheduler with policy := .deadlineAware } 0
      [Small.spool, Small.clip] (SchedulerState.fresh fun _ => {}))).map Lifecycle.terminalState =
        some .queueOverflow := by
    decide +kernel
  have hclip' : (recordAfter (Small.clip.reassign (elevated Small.clip))
      (run { Small.scheduler with policy := .deadlineAware } 0
        ([Small.spool, Small.clip].map (Bundle.reassign (elevated Small.clip)))
        (SchedulerState.fresh fun _ => {}))).map Lifecycle.terminalState =
          some .delivered := by
    decide +kernel
  rw [hs] at hclip
  rw [hs'] at hclip'
  have hstate := (hsame Small.clip (by decide +kernel)).1
  rw [Option.some.inj hclip, Option.some.inj hclip'] at hstate
  cases hstate

end Gateway
end LunaBridge
