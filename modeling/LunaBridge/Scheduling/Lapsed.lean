import LunaBridge.Scheduling.Displacement

/-!
# Lapsed — expired bundles that still take up room

The expiry pass runs once a window, at its start, and after the arrivals up to the end of the window
have been offered.  A bundle whose lifetime is over may therefore be in the way of an arrival.  It
is not if the pass of some window comes between (`Punctual`).  Where none does, a full buffer and a
window that carries nothing lose the arrival to it (`lapsed_bundle_in_the_way`).
-/

namespace LunaBridge
namespace Gateway

open Foundation.GreedyFill Foundation.Machine Foundation.Selection Foundation.StableSort

variable {sch : Scheduler}

/-- The queued bundles that are alive at `t`. -/
def liveAt (t : ℚ) (active : List Bundle) : List Bundle :=
  active.filter fun c => !c.expiredBy t

/-- If offering `b` costs a bundle, be it `b` or a queued one, then already the live bundles leave
`b` no room. -/
def LossJustified (sch : Scheduler) (b : Bundle) (s s' : SchedulerState) : Prop :=
  (s'.records b).terminalState = .queueOverflow ∨
      (∃ c ∈ s.active, (s'.records c).terminalState = .queueOverflow) →
    ¬ sch.Fits (totalBytes (liveAt b.ingressTs s.active)) b.sizeBytes

/-- Everything that is queued when `b` arrives is alive. -/
def NoneLapsed (b : Bundle) (s : SchedulerState) : Prop :=
  ∀ a ∈ s.active, a.expiredBy b.ingressTs = false

/-- If `a` has expired when `b` arrives, then a window that closes between the two arrivals has
opened after the expiry: its pass removes `a` in time. -/
def RemovedInTime (plan : ContactPlan) (a b : Bundle) : Prop :=
  a.expiredBy b.ingressTs = true →
    ∃ w ∈ plan.windows, a.ingressTs ≤ w.endTs ∧ w.endTs < b.ingressTs ∧
      a.expiredBy w.startTs = true

/-- Of all bundles, those that have expired when another one arrives are removed in time. -/
def Punctual (plan : ContactPlan) (bundles : List Bundle) : Prop :=
  ∀ a ∈ bundles, ∀ b ∈ bundles, a ≠ b → a.ingressTs ≤ b.ingressTs → RemovedInTime plan a b

/-- Offering a bundle costs one exactly if the queue as a whole leaves it no room. -/
theorem Buffer.offer_costs_iff {future : List Bundle} {β : Buffer} {b : Bundle}
    (h : β.WellFormed sch (b :: future)) :
    (((β.offer sch b).records b).terminalState = .queueOverflow ∨
      ∃ c ∈ β.active, ((β.offer sch b).records c).terminalState = .queueOverflow) ↔
    ¬ sch.Fits (totalBytes β.active) b.sizeBytes := by
  constructor
  · -- with room for all, nobody's state changes
    intro hlost hfit
    have hoffer : β.offer sch b = β.accept b := by
      simp [Buffer.offer, Scheduler.admission, hfit, Buffer.evict]
    have hkept : ∀ c ∈ β.active ++ b :: future,
        ((β.offer sch b).records c).terminalState = .pending := by
      intro c hc
      rw [hoffer]
      simp only [Buffer.accept]
      rw [terminalState_overwrite_admitted]
      exact h.pending c hc
    rcases hlost with hb | ⟨c, hc, hlost⟩
    · rw [hkept b (by simp)] at hb
      cases hb
    · rw [hkept c (List.mem_append_left _ hc)] at hlost
      cases hlost
  · intro hfull
    unfold Buffer.offer
    cases hadm : sch.admission β.active b with
    | none => exact Or.inl (by simp [Buffer.drop, overwrite, Lifecycle.overflowed])
    | some vs =>
        -- without a victim the bundle would have had room
        have hne : vs ≠ [] := by
          rintro rfl
          have hfits := admission_fits hadm
          rw [totalBytes_nil, sub_zero] at hfits
          exact hfull hfits
        obtain ⟨v, hv⟩ := List.exists_mem_of_ne_nil vs hne
        have hact := ((admission_victims h.active_nodup hadm).2 v hv).1
        refine Or.inr ⟨v, hact, ?_⟩
        simp only [Buffer.accept]
        rw [terminalState_overwrite_admitted]
        simp [Buffer.evict, Buffer.remove, Buffer.settle, overwrite, hv, Lifecycle.overflowed]

/-- A call of `_try_admit` that finds nothing expired in the queue. -/
theorem NoneLapsed.lossJustified {b : Bundle} {future : List Bundle} {s s' : SchedulerState}
    (h : NoneLapsed b s) (hwf : s.toBuffer.WellFormed sch (b :: future))
    (hoffer : s'.toBuffer = s.toBuffer.offer sch b) : LossJustified sch b s s' := by
  intro hlost
  have hlive : liveAt b.ingressTs s.active = s.active := by
    refine List.filter_eq_self.2 fun a ha => ?_
    rw [h a ha]
    rfl
  rw [hlive]
  rw [hoffer] at hlost
  exact (Buffer.offer_costs_iff hwf).1 hlost

/-! ## Arrivals within a run -/

/-- A call of `_try_admit` is the arrival of its bundle. -/
theorem exists_arrival {b : Bundle} {tail : List Call} (htail : ∀ c, Call.tryAdmit c ∉ tail) :
    ∀ (es : List Event) (made rest : List Call),
      es.flatMap Event.calls ++ tail = made ++ .tryAdmit b :: rest →
      ∃ pre post, es = pre ++ .arrival b :: post ∧ made = pre.flatMap Event.calls := by
  intro es
  induction es with
  | nil =>
      intro made rest hsplit
      refine absurd ?_ (htail b)
      rw [List.flatMap_nil, List.nil_append] at hsplit
      rw [hsplit]
      exact List.mem_append_right _ List.mem_cons_self
  | cons e es ih =>
      intro made rest hsplit
      cases e with
      | arrival c =>
          rcases List.cons_eq_append_iff.1 hsplit with ⟨rfl, hhead⟩ | ⟨made', rfl, hsplit'⟩
          · obtain ⟨hcall, -⟩ := List.cons.inj hhead
            cases hcall
            exact ⟨[], es, rfl, rfl⟩
          · obtain ⟨pre, post, rfl, rfl⟩ := ih made' rest hsplit'
            exact ⟨.arrival c :: pre, post, rfl, rfl⟩
      | contact w =>
          -- the two calls of a contact come before the one in question
          rcases List.cons_eq_append_iff.1 hsplit with ⟨rfl, hhead⟩ | ⟨made', rfl, hsplit'⟩
          · cases (List.cons.inj hhead).1
          · rcases List.cons_eq_append_iff.1 hsplit' with ⟨rfl, hhead⟩ | ⟨made'', rfl, hsplit''⟩
            · cases (List.cons.inj hhead).1
            · obtain ⟨pre, post, rfl, rfl⟩ := ih made'' rest hsplit''
              exact ⟨.contact w :: pre, post, rfl, rfl⟩

theorem exists_arrival_of_calls {bundles : List Bundle} {made rest : List Call} {b : Bundle}
    (hsplit : sch.calls bundles = made ++ .tryAdmit b :: rest) :
    ∃ pre post, timeline sch.plan.windows bundles = pre ++ .arrival b :: post ∧
      made = pre.flatMap Event.calls := by
  have htail : ∀ c, Call.tryAdmit c ∉ (sch.plan.lastEnd.map Call.expireInBlackout).toList := by
    intro c hc
    cases hlast : sch.plan.lastEnd <;> simp [hlast] at hc
  exact exists_arrival htail _ made rest hsplit

/-- Queued bundles have been alive when the windows opened that closed after their arrival. -/
def Survived (sch : Scheduler) (es : List Event) (β : Buffer) : Prop :=
  ∀ a ∈ β.active, ∀ w ∈ sch.plan.windows, w ∉ contacts es → a.ingressTs ≤ w.endTs →
    a.expiredBy w.startTs = false

/-- An arrival has not met any window yet, and a contact is met by whoever stays. -/
theorem Survived.step {bundles : List Bundle} {credit : Prop} {e : Event} {es : List Event}
    {β β' : Buffer} (h : Survived sch (e :: es) β) (hline : OnTimeline sch bundles (e :: es) β)
    (hstep : Step sch credit e β β') : Survived sch es β' := by
  intro a ha w hw hnot hle
  cases hstep with
  | arrival b =>
      rcases Buffer.mem_offer_active ha with hact | rfl
      · exact h a hact w hw hnot hle
      · exact absurd hle (not_le.2 (hline.passed w hw hnot a List.mem_cons_self))
  | @contact v _ sent service =>
      have hstays : a ∈ (β.expire v.startTs).active := (mem_without.1 ha).1
      rw [Buffer.expire_active, List.mem_filter] at hstays
      by_cases hwv : w = v
      · subst hwv
        simpa using hstays.2
      · exact h a hstays.1 w hw (by simp [hwv, hnot]) hle

/-- Among punctual bundles nothing expired is queued when one arrives. -/
theorem Survived.noneLapsed {bundles : List Bundle} {b : Bundle} {es : List Event}
    {s : SchedulerState} (h : Survived sch (.arrival b :: es) s.toBuffer)
    (hline : OnTimeline sch bundles (.arrival b :: es) s.toBuffer)
    (hpunctual : Punctual sch.plan bundles) : NoneLapsed b s := by
  intro a ha
  by_contra hlapsed
  have hwf : s.toBuffer.WellFormed sch (b :: offered es) := hline.wellFormed
  have hne : a ≠ b := fun heq => hwf.future_notMem_active List.mem_cons_self (heq ▸ ha)
  have hle : a.ingressTs ≤ b.ingressTs :=
    (List.pairwise_append.1 hwf.ordered).2.2 a ha b List.mem_cons_self
  obtain ⟨w, hw, hafter, hbefore, hexpired⟩ := hpunctual a (hline.known_active ha) b
    (hline.known b (List.mem_append_right _ List.mem_cons_self)) hne hle
    (Bool.not_eq_false _ ▸ hlapsed)
  -- the window is not one of those still to come
  have hgone : w ∉ contacts (.arrival b :: es) := by
    intro hcome
    have horder : b.ingressTs ≤ w.endTs :=
      (List.pairwise_cons.1 hline.ordered).1 _ (mem_contacts.1 hcome)
    exact absurd horder (not_le.2 hbefore)
  have halive := h a ha w hw hgone hafter
  rw [hexpired] at halive
  cases halive

/-- A run up to one of its arrivals. -/
theorem run_to_arrival {bundles : List Bundle} {records : Bundle → Lifecycle}
    {pre post : List Event} {b : Bundle} (hvalid : Valid bundles records)
    (hsplit : timeline sch.plan.windows bundles = pre ++ .arrival b :: post) :
    Returns (pre.forM (Event.handle sch)) (SchedulerState.fresh records) fun _ s =>
      OnTimeline sch bundles (.arrival b :: post) s.toBuffer ∧
        Survived sch (.arrival b :: post) s.toBuffer := by
  have hline := hvalid.onTimeline (SchedulerState.fresh_idle records) sch
  rw [hsplit] at hline
  have hempty : Survived sch (pre ++ .arrival b :: post)
      (SchedulerState.fresh records).toBuffer := by
    intro a ha
    cases ha
  refine Returns.forM (I := fun es (s : SchedulerState) =>
    OnTimeline sch bundles (es ++ .arrival b :: post) s.toBuffer ∧
      Survived sch (es ++ .arrival b :: post) s.toBuffer) ?_ pre _ ⟨hline, hempty⟩
  intro e es s hI
  refine (handle_spec hI.1.wellFormed).mono fun _ s' h' => ?_
  exact ⟨hI.1.step h'.1, hI.2.step hI.1 h'.1⟩

/-! ## Where no pass comes between -/

/-- More bytes than any window of the plan carries. -/
def boulderBytes (plan : ContactPlan) : ℤ :=
  ⌈(plan.windows.map ContactWindow.rawBitBudget).sum⌉ + 1

theorem boulderBytes_pos (plan : ContactPlan) : 0 < boulderBytes plan := by
  have hsum : 0 ≤ (plan.windows.map ContactWindow.rawBitBudget).sum := by
    refine List.sum_nonneg fun x hx => ?_
    obtain ⟨w, -, rfl⟩ := List.mem_map.1 hx
    exact w.rawBitBudget_pos.le
  have hceil : 0 ≤ ⌈(plan.windows.map ContactWindow.rawBitBudget).sum⌉ := Int.ceil_nonneg hsum
  rw [boulderBytes]
  omega

/-- A bundle that arrives with `a`, blocks every window, and is still alive when `b` arrives. -/
def boulder (plan : ContactPlan) (a b : Bundle) : Bundle where
  bundleId := "boulder" ++ a.bundleId ++ b.bundleId
  flowId := "boulder"
  trafficClass := .media
  sizeBytes := boulderBytes plan
  ingressTs := a.ingressTs
  expirationTs := some (b.ingressTs + 1)

/-- A strict FIFO whose buffer has room for the boulder and one of the two bundles. -/
def narrowFifo (plan : ContactPlan) (a b : Bundle) (ha : 0 < a.sizeBytes) : Scheduler where
  plan := plan
  maxQueueBytes := ((boulderBytes plan + max a.sizeBytes b.sizeBytes : ℤ) : ℚ)
  policy := .fifo
  fifoSkipOver := false
  maxQueueBytes_pos := by
    exact_mod_cast add_pos (boulderBytes_pos plan) (lt_max_of_lt_left ha)

section Boulder

variable {plan : ContactPlan} {a b : Bundle}

/-- No window carries the boulder. -/
theorem rawBitBudget_lt_boulder {w : ContactWindow} (hw : w ∈ plan.windows) :
    w.rawBitBudget < (boulder plan a b).bits := by
  have hle : w.rawBitBudget ≤ (plan.windows.map ContactWindow.rawBitBudget).sum :=
    List.single_le_sum (fun x hx => by
      obtain ⟨v, -, rfl⟩ := List.mem_map.1 hx
      exact v.rawBitBudget_pos.le) _ (List.mem_map_of_mem hw)
  have hceil := Int.le_ceil (plan.windows.map ContactWindow.rawBitBudget).sum
  have hpos : (0 : ℚ) < boulderBytes plan := by exact_mod_cast boulderBytes_pos plan
  have hbytes : ((boulderBytes plan : ℤ) : ℚ) =
      (⌈(plan.windows.map ContactWindow.rawBitBudget).sum⌉ : ℚ) + 1 := by
    rw [boulderBytes]
    push_cast
    rfl
  calc w.rawBitBudget
    _ ≤ ⌈(plan.windows.map ContactWindow.rawBitBudget).sum⌉ := hle.trans hceil
    _ < boulderBytes plan := by linarith
    _ ≤ boulderBytes plan * 8 := by linarith

theorem boulder_valid (hids : a.bundleId ≠ b.bundleId) (ha : 0 < a.sizeBytes)
    (hb : 0 < b.sizeBytes) (hlife : a.expirationTs ≠ none) (hlife' : b.expirationTs ≠ none) :
    Valid [boulder plan a b, a, b] fun _ => {} where
  distinct := by
    -- its id is longer than the two others
    have hlonger : ∀ id : String, id.length ≤ a.bundleId.length + b.bundleId.length →
        (boulder plan a b).bundleId ≠ id := by
      intro id hle heq
      have hlength := congrArg String.length heq
      simp only [boulder, String.length_append] at hlength
      have hword : "boulder".length = 7 := rfl
      omega
    simp only [List.map_cons, List.map_nil, List.nodup_cons, List.mem_cons, List.not_mem_nil,
      or_false, not_or, List.nodup_nil, and_true, not_false_eq_true]
    exact ⟨⟨hlonger _ (by omega), hlonger _ (by omega)⟩, hids⟩
  sizes := by
    simp only [List.forall_mem_cons]
    exact ⟨boulderBytes_pos plan, ha, hb, nofun⟩
  lifetimes := by
    simp only [List.forall_mem_cons]
    exact ⟨Option.some_ne_none _, hlife, hlife', nofun⟩
  pending := fun _ _ => rfl

/-- Until `b` arrives nothing leaves the queue of the narrow FIFO; `es` are the events to come
before it. -/
structure Blocked (plan : ContactPlan) (a b : Bundle) (es : List Event) (β : Buffer) : Prop where
  queue : β.active ++ offered es = [boulder plan a b, a]
  met : ∀ c ∈ β.active, ∀ w ∈ contacts es, c.ingressTs ≤ w.endTs

theorem Blocked.mem_active {es : List Event} {β : Buffer} (h : Blocked plan a b es β) {c : Bundle}
    (hc : c ∈ β.active) : c = boulder plan a b ∨ c = a := by
  have hmem : c ∈ β.active ++ offered es := List.mem_append_left _ hc
  rw [h.queue] at hmem
  simpa using hmem

variable {ha : 0 < a.sizeBytes} {es post : List Event} {β β' : Buffer} {credit : Prop}
  {bundles : List Bundle}

/-- The boulder and `a` have room. -/
theorem Blocked.arrival {c : Bundle} (h : Blocked plan a b (.arrival c :: es) β)
    (hline : OnTimeline (narrowFifo plan a b ha) bundles
      (.arrival c :: es ++ .arrival b :: post) β) :
    Blocked plan a b es (β.offer (narrowFifo plan a b ha) c) := by
  have hrest : 0 ≤ totalBytes (offered es) := by
    refine totalBytes_nonneg fun d hd => hline.wellFormed.sizes d (List.mem_append_right _ ?_)
    rw [offered_append]
    exact List.mem_append_left _ (List.mem_cons_of_mem _ hd)
  have hfit : (narrowFifo plan a b ha).Fits (totalBytes β.active) c.sizeBytes := by
    have htotal := congrArg totalBytes h.queue
    simp only [totalBytes_append, offered_arrival, totalBytes_cons, totalBytes_nil] at htotal
    have hboulder : (boulder plan a b).sizeBytes = boulderBytes plan := rfl
    have hle : totalBytes β.active + c.sizeBytes ≤
        boulderBytes plan + max a.sizeBytes b.sizeBytes := by
      have hmax := le_max_left a.sizeBytes b.sizeBytes
      omega
    exact Int.cast_le.2 hle
  have hoffer : β.offer (narrowFifo plan a b ha) c = β.accept c := by
    simp [Buffer.offer, Scheduler.admission, hfit, Buffer.evict]
  rw [hoffer]
  refine ⟨?_, fun d hd w hw => ?_⟩
  · rw [Buffer.accept, List.append_assoc]
    exact h.queue
  · rcases List.mem_append.1 hd with hact | hnew
    · exact h.met d hact w hw
    · obtain rfl := List.mem_singleton.1 hnew
      have hmem : Event.contact w ∈ es ++ .arrival b :: post :=
        List.mem_append_left _ (mem_contacts.1 hw)
      exact (List.pairwise_cons.1 hline.ordered).1 _ hmem

/-- What is eligible starts with the boulder, so nothing is sent. -/
theorem Blocked.sends_nothing {w : ContactWindow} {sent : List Bundle}
    (h : Blocked plan a b es β) (hw : w ∈ plan.windows)
    (service : Service (narrowFifo plan a b ha) w (β.ready w) sent credit) : sent = [] := by
  have horder := service.ordered true (sortBy Bundle.ingressTs (β.ready w)) rfl
  have hingress : ∀ c ∈ β.active, c.ingressTs = a.ingressTs := by
    intro c hc
    rcases h.mem_active hc with rfl | rfl <;> rfl
  have hsorted : sortBy Bundle.ingressTs (β.ready w) = β.ready w := by
    refine List.Pairwise.insertionSort_eq (List.pairwise_of_forall_mem_list fun c hc d hd => ?_)
    rw [hingress c (List.mem_of_mem_filter hc), hingress d (List.mem_of_mem_filter hd)]
  rw [hsorted] at horder
  rw [horder]
  by_cases hopen : a.ingressTs < w.endTs
  · -- everybody is eligible
    have hready : β.ready w = β.active := by
      refine List.filter_eq_self.2 fun c hc => decide_eq_true ?_
      rw [hingress c hc]
      exact hopen
    rw [hready]
    cases hactive : β.active with
    | nil => rfl
    | cons c cs =>
        have hqueue := h.queue
        rw [hactive, List.cons_append] at hqueue
        obtain ⟨rfl, -⟩ := List.cons.inj hqueue
        rw [greedyFill, if_neg (not_le.2 (rawBitBudget_lt_boulder hw)), if_pos rfl]
  · have hready : β.ready w = [] := by
      refine List.filter_eq_nil_iff.2 fun c hc => ?_
      rw [decide_eq_true_eq, hingress c hc]
      exact hopen
    rw [hready]
    rfl

/-- Nobody has expired when a window opens, and nobody is sent. -/
theorem Blocked.contact {w : ContactWindow} {sent : List Bundle}
    (hlapsed : ¬ RemovedInTime plan a b) (h : Blocked plan a b (.contact w :: es) β)
    (hline : OnTimeline (narrowFifo plan a b ha) bundles
      (.contact w :: es ++ .arrival b :: post) β)
    (service : Service (narrowFifo plan a b ha) w ((β.expire w.startTs).ready w) sent credit) :
    Blocked plan a b es ((β.expire w.startTs).transmitted w sent) := by
  have hw : w ∈ plan.windows := OnTimeline.window_mem hline
  have hbefore : w.endTs < b.ingressTs := by
    have hmem : Event.arrival b ∈ es ++ .arrival b :: post :=
      List.mem_append_right _ List.mem_cons_self
    exact OnTimeline.endTs_lt_ingressTs hline (mem_offered.2 hmem)
  have halive : (β.expire w.startTs).active = β.active := by
    rw [Buffer.expire_active]
    refine List.filter_eq_self.2 fun c hc => ?_
    rcases h.mem_active hc with rfl | rfl
    · have hlater : ¬ b.ingressTs + 1 ≤ w.startTs := by
        have hopens := w.start_lt_end
        linarith
      simp [Bundle.expiredBy, boulder, hlater]
    · by_contra hexpired
      refine hlapsed fun _ => ⟨w, hw, h.met c hc w List.mem_cons_self, hbefore, ?_⟩
      simpa using hexpired
  have hblocked : Blocked plan a b (.contact w :: es) (β.expire w.startTs) := by
    refine ⟨?_, ?_⟩
    · rw [halive]
      exact h.queue
    · rw [halive]
      exact h.met
  obtain rfl := hblocked.sends_nothing hw service
  rw [Buffer.transmitted, Buffer.remove_nil]
  exact ⟨hblocked.queue, fun c hc v hv => hblocked.met c hc v (List.mem_cons_of_mem _ hv)⟩

/-- When `b` arrives the boulder and `a` are still queued. -/
theorem active_before_arrival (hlapsed : ¬ RemovedInTime plan a b)
    (ha : 0 < a.sizeBytes) (hle : a.ingressTs ≤ b.ingressTs)
    (hvalid : Valid [boulder plan a b, a, b] fun _ => {}) {pre : List Event}
    (hsplit : timeline plan.windows [boulder plan a b, a, b] = pre ++ .arrival b :: post) :
    Returns (pre.forM (Event.handle (narrowFifo plan a b ha)))
      (SchedulerState.fresh fun _ => {}) fun _ s => s.active = [boulder plan a b, a] ∧
        s.toBuffer.WellFormed (narrowFifo plan a b ha) (b :: offered post) := by
  -- the three come in the order in which they are listed
  have hsorted : sortBy Bundle.ingressTs [boulder plan a b, a, b] = [boulder plan a b, a, b] := by
    refine List.Pairwise.insertionSort_eq ?_
    simp [boulder, hle]
  have hoffered : offered pre = [boulder plan a b, a] := by
    have hall := offered_timeline plan.windows [boulder plan a b, a, b]
    rw [hsplit, hsorted, offered_append, offered_arrival] at hall
    have hnotin : b ∉ [boulder plan a b, a] := by
      have hnodup : ([boulder plan a b, a] ++ [b]).Nodup := hvalid.nodup
      exact fun hb => (List.nodup_append.1 hnodup).2.2 b hb b List.mem_cons_self rfl
    have hall' : [boulder plan a b, a] ++ b :: [] = offered pre ++ b :: offered post := hall.symm
    exact ((List.append_cons_inj_of_notMem hnotin List.not_mem_nil).1 hall').1.symm
  have hline := hvalid.onTimeline (SchedulerState.fresh_idle fun _ => {}) (narrowFifo plan a b ha)
  have hwindows : (narrowFifo plan a b ha).plan.windows = plan.windows := rfl
  rw [hwindows, hsplit] at hline
  have hstart : Blocked plan a b pre (SchedulerState.fresh fun _ => {}).toBuffer :=
    ⟨hoffered, fun c hc => by cases hc⟩
  refine (Returns.forM (I := fun es (s : SchedulerState) =>
    OnTimeline (narrowFifo plan a b ha) [boulder plan a b, a, b] (es ++ .arrival b :: post)
      s.toBuffer ∧ Blocked plan a b es s.toBuffer) ?_ pre _ ⟨hline, hstart⟩).mono ?_
  · intro e es s hI
    refine (handle_spec hI.1.wellFormed).mono fun _ s' h' => ⟨hI.1.step h'.1, ?_⟩
    have hstep := h'.1
    generalize s'.toBuffer = β' at hstep
    cases hstep with
    | arrival c => exact hI.2.arrival hI.1
    | contact service => exact hI.2.contact hlapsed hI.1 service
  · intro _ s hend
    have hqueue := hend.2.queue
    rw [offered_nil, List.append_nil] at hqueue
    exact ⟨hqueue, hend.1.wellFormed⟩

/-- Where no pass of a window removes `a` before `b` arrives, there are a scheduler on the plan and
a third bundle with which `b` is lost to `a`. -/
theorem lapsed_bundle_in_the_way (hids : a.bundleId ≠ b.bundleId) (ha : 0 < a.sizeBytes)
    (hb : 0 < b.sizeBytes) (hlife : a.expirationTs ≠ none) (hlife' : b.expirationTs ≠ none)
    (hle : a.ingressTs ≤ b.ingressTs) (hlapsed : ¬ RemovedInTime plan a b) :
    ∃ (sch : Scheduler) (c : Bundle) (made rest : List Call) (s₁ s₂ : SchedulerState),
      sch.plan = plan ∧ Valid [c, a, b] (fun _ => {}) ∧
      sch.calls [c, a, b] = made ++ .tryAdmit b :: rest ∧
      made.forM (Call.exec sch) (SchedulerState.fresh fun _ => {}) = .ok ⟨⟩ s₁ ∧
      tryAdmit sch b b.ingressTs s₁ = .ok ⟨⟩ s₂ ∧ ¬ LossJustified sch b s₁ s₂ := by
  have hvalid : Valid [boulder plan a b, a, b] fun _ => {} := boulder_valid hids ha hb hlife hlife'
  have hmem : Event.arrival b ∈ timeline plan.windows [boulder plan a b, a, b] :=
    mem_timeline_arrival.2 (by simp)
  obtain ⟨pre, post, hsplit⟩ := List.append_of_mem hmem
  rcases active_before_arrival hlapsed ha hle hvalid hsplit with
    ⟨⟨⟩, s₁, hpre, hactive, hwf⟩
  rcases tryAdmit_spec hwf with ⟨⟨⟩, s₂, hadmit, hbecame, -⟩
  have hcalls : (narrowFifo plan a b ha).calls [boulder plan a b, a, b] =
      pre.flatMap Event.calls ++ .tryAdmit b ::
        (post.flatMap Event.calls ++ (plan.lastEnd.map Call.expireInBlackout).toList) := by
    have hwindows : (narrowFifo plan a b ha).plan = plan := rfl
    rw [Scheduler.calls, hwindows, hsplit, List.flatMap_append, List.flatMap_cons,
      List.append_assoc, List.append_assoc]
    rfl
  refine ⟨narrowFifo plan a b ha, boulder plan a b, _, _, s₁, s₂, rfl, hvalid, hcalls, ?_, hadmit,
    fun hjustified => ?_⟩
  · rw [forM_calls]
    exact hpre
  · have hcap : (narrowFifo plan a b ha).maxQueueBytes =
        ((boulderBytes plan + max a.sizeBytes b.sizeBytes : ℤ) : ℚ) := rfl
    have hboulder : (boulder plan a b).sizeBytes = boulderBytes plan := rfl
    -- all three do not fit, so the arrival costs a bundle
    have hfull : ¬ (narrowFifo plan a b ha).Fits (totalBytes s₁.active) b.sizeBytes := by
      rw [Scheduler.Fits, hactive, hcap, Int.cast_le]
      simp only [totalBytes_cons, totalBytes_nil, hboulder]
      omega
    have hlost := (Buffer.offer_costs_iff hwf).2 hfull
    rw [← hbecame.buffer] at hlost
    -- but of those in the queue only the boulder is alive
    have hexpired : a.expiredBy b.ingressTs = true := by
      by_contra halive
      exact hlapsed fun h => absurd h halive
    have hlive : liveAt b.ingressTs s₁.active = [boulder plan a b] := by
      have hlater : ¬ b.ingressTs + 1 ≤ b.ingressTs := by linarith
      have hstays : (boulder plan a b).expiredBy b.ingressTs = false := by
        simp [Bundle.expiredBy, boulder, hlater]
      rw [hactive, liveAt]
      simp [hexpired, hstays]
    refine hjustified hlost ?_
    rw [Scheduler.Fits, hlive, hcap, Int.cast_le]
    simp only [totalBytes_cons, totalBytes_nil, hboulder]
    omega

end Boulder

/-! ## Whole runs -/

/-- Every arrival of every run on a plan that finds nothing expired in the queue is judged by the
live bundles, and in a run over punctual bundles every arrival does.  Two bundles that are not
punctual are enough for a loss that the live bundles do not justify. -/
theorem punctual_losses_are_justified (plan : ContactPlan) :
    (∀ (sch : Scheduler) (bundles : List Bundle) (records : Bundle → Lifecycle), sch.plan = plan →
      Valid bundles records → ∀ made b rest, sch.calls bundles = made ++ .tryAdmit b :: rest →
      ∃ s₁ s₂, made.forM (Call.exec sch) (SchedulerState.fresh records) = .ok ⟨⟩ s₁ ∧
        tryAdmit sch b b.ingressTs s₁ = .ok ⟨⟩ s₂ ∧
        (NoneLapsed b s₁ → LossJustified sch b s₁ s₂) ∧
        (Punctual plan bundles → LossJustified sch b s₁ s₂)) ∧
    ∀ (a b : Bundle), a.bundleId ≠ b.bundleId → 0 < a.sizeBytes →
      0 < b.sizeBytes → a.expirationTs ≠ none → b.expirationTs ≠ none →
      a.ingressTs ≤ b.ingressTs → ¬ RemovedInTime plan a b →
      ∃ (sch : Scheduler) (c : Bundle) (made rest : List Call) (s₁ s₂ : SchedulerState),
        sch.plan = plan ∧ Valid [c, a, b] (fun _ => {}) ∧
        sch.calls [c, a, b] = made ++ .tryAdmit b :: rest ∧
        made.forM (Call.exec sch) (SchedulerState.fresh fun _ => {}) = .ok ⟨⟩ s₁ ∧
        tryAdmit sch b b.ingressTs s₁ = .ok ⟨⟩ s₂ ∧ ¬ LossJustified sch b s₁ s₂ := by
  constructor
  · rintro sch bundles records rfl hvalid made b rest hsplit
    obtain ⟨pre, post, htimeline, rfl⟩ := exists_arrival_of_calls hsplit
    rcases run_to_arrival hvalid htimeline with ⟨⟨⟩, s₁, hpre, hline, hsurvived⟩
    have hwf : s₁.toBuffer.WellFormed sch (b :: offered post) := hline.wellFormed
    rcases tryAdmit_spec hwf with ⟨⟨⟩, s₂, hadmit, hbecame, -⟩
    refine ⟨s₁, s₂, ?_, hadmit, fun hnone => hnone.lossJustified hwf hbecame.buffer,
      fun hpunctual => ?_⟩
    · rw [forM_calls]
      exact hpre
    · exact (hsurvived.noneLapsed hline hpunctual).lossJustified hwf hbecame.buffer
  · intro a b hids ha hb hlife hlife' hle hlapsed
    exact lapsed_bundle_in_the_way hids ha hb hlife hlife' hle hlapsed

/-- A MEDIA bundle that has expired when `Small.punctual` arrives, before the window opens. -/
def Small.lapsed : Bundle := Small.bundle "lapsed" .media 1500 0 5

def Small.punctual : Bundle := Small.bundle "punctual" .media 1000 6 100

theorem Small.valid_lapsed : Valid [Small.lapsed, Small.punctual] (fun _ => {}) where
  distinct := by decide +kernel
  sizes := by decide +kernel
  lifetimes := by decide +kernel
  pending := fun _ _ => rfl

theorem Small.calls_lapsed : Small.scheduler.calls [Small.lapsed, Small.punctual] =
    [.tryAdmit Small.lapsed] ++ .tryAdmit Small.punctual ::
      [.expireInBlackout 10, .drainWindow Small.window, .expireInBlackout 20] := by
  rfl

/-- A bundle that arrives after the window has closed. -/
def Small.latecomer : Bundle := Small.bundle "latecomer" .media 1000 21 100

theorem Small.valid_latecomer : Valid [Small.lapsed, Small.latecomer] (fun _ => {}) where
  distinct := by decide +kernel
  sizes := by decide +kernel
  lifetimes := by decide +kernel
  pending := fun _ _ => rfl

theorem Small.calls_latecomer : Small.scheduler.calls [Small.lapsed, Small.latecomer] =
    [.tryAdmit Small.lapsed, .expireInBlackout 10, .drainWindow Small.window] ++
      .tryAdmit Small.latecomer :: [.expireInBlackout 20] := by
  rfl

/-- The window opens between the expiry of one bundle and the arrival of the other; a bundle that
arrives before it opens is lost in some run. -/
theorem punctual_losses_are_justified_small :
    (∃ s₁ s₂, [Call.tryAdmit Small.lapsed, .expireInBlackout 10, .drainWindow Small.window].forM
        (Call.exec Small.scheduler) (SchedulerState.fresh fun _ => {}) = .ok ⟨⟩ s₁ ∧
      tryAdmit Small.scheduler Small.latecomer Small.latecomer.ingressTs s₁ = .ok ⟨⟩ s₂ ∧
      LossJustified Small.scheduler Small.latecomer s₁ s₂) ∧
    ∃ (sch : Scheduler) (c : Bundle) (made rest : List Call) (s₁ s₂ : SchedulerState),
      sch.plan = Small.plan ∧ Valid [c, Small.lapsed, Small.punctual] (fun _ => {}) ∧
      sch.calls [c, Small.lapsed, Small.punctual] = made ++ .tryAdmit Small.punctual :: rest ∧
      made.forM (Call.exec sch) (SchedulerState.fresh fun _ => {}) = .ok ⟨⟩ s₁ ∧
      tryAdmit sch Small.punctual Small.punctual.ingressTs s₁ = .ok ⟨⟩ s₂ ∧
      ¬ LossJustified sch Small.punctual s₁ s₂ := by
  constructor
  · obtain ⟨s₁, s₂, hmade, hadmit, -, hjustified⟩ :=
      (punctual_losses_are_justified Small.plan).1 Small.scheduler [Small.lapsed, Small.latecomer]
        (fun _ => {}) rfl Small.valid_latecomer _ _ _ Small.calls_latecomer
    refine ⟨s₁, s₂, hmade, hadmit, hjustified ?_⟩
    have hremoved : RemovedInTime Small.plan Small.lapsed Small.latecomer := fun _ =>
      ⟨Small.window, List.mem_singleton_self _, by decide +kernel, by decide +kernel,
        by decide +kernel⟩
    have hkept : ¬ Small.latecomer.ingressTs ≤ Small.lapsed.ingressTs := by decide +kernel
    simp only [Punctual, List.forall_mem_cons]
    exact ⟨⟨fun h => absurd rfl h, fun _ _ => hremoved, nofun⟩,
      ⟨fun _ h => absurd h hkept, fun h => absurd rfl h, nofun⟩, nofun⟩
  · refine (punctual_losses_are_justified Small.plan).2 Small.lapsed Small.punctual (by decide)
      (by decide +kernel) (by decide +kernel) (by decide +kernel) (by decide +kernel)
      (by decide +kernel) fun hremoved => ?_
    obtain ⟨w, hw, -, hbefore, -⟩ := hremoved (by decide +kernel)
    obtain rfl := List.mem_singleton.1 hw
    exact absurd hbefore (by decide +kernel)

/-- A bundle of 1000 bytes is lost, in a run over two bundles, to a full buffer whose only bundle
has expired. -/
theorem lapsed_bundle_costs_a_live_one :
    Valid [Small.lapsed, Small.punctual] (fun _ => {}) ∧
    (∃ rest, Small.scheduler.calls [Small.lapsed, Small.punctual] =
      [.tryAdmit Small.lapsed] ++ .tryAdmit Small.punctual :: rest) ∧
    ∃ s₁ s₂, [Call.tryAdmit Small.lapsed].forM (Call.exec Small.scheduler)
        (SchedulerState.fresh fun _ => {}) = .ok ⟨⟩ s₁ ∧
      tryAdmit Small.scheduler Small.punctual Small.punctual.ingressTs s₁ = .ok ⟨⟩ s₂ ∧
      (s₂.records Small.punctual).terminalState = .queueOverflow ∧
      liveAt Small.punctual.ingressTs s₁.active = [] ∧
      ¬ LossJustified Small.scheduler Small.punctual s₁ s₂ := by
  have hrun : (finalState ([Call.tryAdmit Small.lapsed].forM (Call.exec Small.scheduler)
      (SchedulerState.fresh fun _ => {}))).map (fun s₁ => (s₁.active,
        (finalState (tryAdmit Small.scheduler Small.punctual Small.punctual.ingressTs s₁)).map
          fun s₂ => (s₂.records Small.punctual).terminalState)) =
      some ([Small.lapsed], some .queueOverflow) := by
    decide +kernel
  obtain ⟨s₁, hmade, hfacts⟩ := finalState_map_eq_some hrun
  simp only [Prod.mk.injEq] at hfacts
  obtain ⟨s₂, hadmit, hlost⟩ := finalState_map_eq_some hfacts.2
  have hnone : liveAt Small.punctual.ingressTs s₁.active = [] := by
    rw [hfacts.1]
    decide +kernel
  refine ⟨Small.valid_lapsed, ⟨_, Small.calls_lapsed⟩, s₁, s₂, hmade, hadmit, hlost, hnone,
    fun h => h (Or.inl hlost) ?_⟩
  rw [hnone]
  decide +kernel

end Gateway
end LunaBridge
