import LunaBridge.Scheduling.AuditTrail

/-!
# Overtaking — strict FIFO sends in arrival order

Without skip-over a FIFO window sends a prefix of what is ready, and what is ready comes in the
order of arrival.  So when a bundle is sent, whoever came before it has already been sent, has
expired or has been evicted, and the log says so first.
-/

namespace LunaBridge
namespace Gateway

open Foundation.AuditLog Foundation.Machine Foundation.Trace Foundation.Selection
open Foundation.StableSort Foundation.GreedyFill

/-! ## The order of arrival -/

/-- `a` comes before `b`: it arrives earlier, or at the same time and is listed first. -/
def Precedes (bundles : List Bundle) (a b : Bundle) : Prop :=
  a.ingressTs < b.ingressTs ∨ a.ingressTs = b.ingressTs ∧ [a, b].Sublist bundles

theorem Precedes.pair_sublist {bundles : List Bundle} {a b : Bundle} (h : Precedes bundles a b)
    (ha : a ∈ bundles) (hb : b ∈ bundles) : [a, b].Sublist (sortBy Bundle.ingressTs bundles) := by
  rcases h with hlt | ⟨heq, hlisted⟩
  · -- in the sorted list `a` cannot stand behind `b`
    obtain ⟨front, back, hsplit⟩ := List.append_of_mem ((mem_sortBy Bundle.ingressTs).2 hb)
    have hsorted := sortBy_pairwise Bundle.ingressTs bundles
    have ha' : a ∈ sortBy Bundle.ingressTs bundles := (mem_sortBy _).2 ha
    rw [hsplit] at hsorted ha' ⊢
    have hfront : a ∈ front := by
      rcases List.mem_append.1 ha' with hfront | hback
      · exact hfront
      · have hle : b.ingressTs ≤ a.ingressTs := by
          rcases List.mem_cons.1 hback with rfl | hback'
          · exact le_rfl
          · exact (List.pairwise_cons.1 (List.pairwise_append.1 hsorted).2.1).1 a hback'
        exact absurd hlt (not_lt.2 hle)
    exact (List.singleton_sublist.2 hfront).append (List.singleton_sublist.2 (by simp))
  · exact List.pair_sublist_insertionSort heq.le hlisted

/-! ## The order of calls -/

/-- No window drains before an earlier call's instant. -/
def Call.Before : Call → Call → Prop
  | .expireInBlackout t, .drainWindow u => t ≤ u.startTs
  | .drainWindow v, .drainWindow u => v.startTs ≤ u.startTs
  | _, _ => True

theorem Event.Before.calls {e f : Event} (h : Event.Before e f) :
    ∀ c ∈ e.calls, ∀ d ∈ f.calls, c.Before d := by
  intro c hc d hd
  cases e with
  | arrival a =>
      obtain rfl := List.mem_singleton.1 hc
      cases d <;> trivial
  | contact v =>
      cases f with
      | arrival b =>
          obtain rfl := List.mem_singleton.1 hd
          cases c <;> trivial
      | contact u =>
          have hle : v.startTs ≤ u.startTs := v.start_lt_end.le.trans h
          simp only [Event.calls, List.mem_cons, List.not_mem_nil, or_false] at hc hd
          rcases hc with rfl | rfl <;> rcases hd with rfl | rfl
          · trivial
          · exact hle
          · trivial
          · exact hle

theorem Event.calls_pairwise (e : Event) : e.calls.Pairwise Call.Before := by
  cases e with
  | arrival b => exact List.pairwise_singleton _ _
  | contact w => simp [Event.calls, Call.Before]

theorem Scheduler.calls_pairwise (sch : Scheduler) (bundles : List Bundle) :
    (sch.calls bundles).Pairwise Call.Before := by
  have hevents := timeline_pairwise sch.plan.disjoint bundles
  rw [Scheduler.calls, List.pairwise_append]
  refine ⟨List.pairwise_flatMap.2 ⟨fun e _ => e.calls_pairwise,
    hevents.imp fun h => Event.Before.calls h⟩, ?_, fun c _ d hd => ?_⟩
  · cases sch.plan.lastEnd <;> simp
  · -- nothing drains after the last expiry pass
    cases hlast : sch.plan.lastEnd with
    | none => simp [hlast] at hd
    | some t =>
        obtain rfl : d = .expireInBlackout t := by simpa [hlast] using hd
        cases c <;> trivial

/-! ## One window -/

/-- What the log says about a bundle that FIFO sends in `w`. -/
def sentEntry (w : ContactWindow) (b : Bundle) : SchedulingDecision :=
  decision w.startTs b .transmit "fifo" (some w.contactId)

/-- A walk that stops at the first bundle that does not fit logs the bundles it sends in order,
then the one it stops at. -/
theorem transmitLoop_stop_log (w : ContactWindow) : ∀ (bs : List Bundle) (r : ℚ)
    (s : SchedulerState), Ensures (transmitLoop w "fifo" true bs r) s fun _ s' =>
      ∃ deferrals, s'.decisions =
        s.decisions ++ (greedyFill Bundle.bits true r bs).map (sentEntry w) ++ deferrals := by
  intro bs
  induction bs with
  | nil => exact fun r s => Ensures.pure ⟨[], by simp [greedyFill]⟩
  | cons b bs ih =>
      intro r s
      unfold transmitLoop
      by_cases hfit : b.bits ≤ r
      · simp only [if_pos hfit, greedyFill]
        refine (transmit_ledger w "fifo" b s).bind fun _ s₁ h₁ => ?_
        have hlog : s₁.decisions = s.decisions ++ [sentEntry w b] := congrArg Ledger.entries h₁.2
        refine (ih _ s₁).mono fun _ s' h' => ?_
        obtain ⟨deferrals, hrest⟩ := h'
        exact ⟨deferrals, by rw [hrest, hlog]; simp⟩
      · simp only [if_neg hfit, greedyFill, if_true]
        refine (log_ledger _ _ _ _ _ s).bind fun _ s₁ h₁ => Ensures.pure ?_
        refine ⟨[decision w.startTs b .defer "insufficient_budget" (some w.contactId)], ?_⟩
        rw [List.map_nil, List.append_nil]
        exact congrArg Ledger.entries h₁

/-- What is ready is in ingress order already. -/
theorem Buffer.WellFormed.sortBy_ready {sch : Scheduler} {future : List Bundle} {β : Buffer}
    (h : β.WellFormed sch future) (w : ContactWindow) :
    sortBy Bundle.ingressTs (β.ready w) = β.ready w :=
  (h.active_ordered.filter _).insertionSort_eq

/-- A strict FIFO window sends the front of what is ready and logs it in order. -/
theorem drainWindow_fifo_log {sch : Scheduler} {future : List Bundle} {s : SchedulerState}
    (hfifo : sch.policy = .fifo) (hstrict : sch.fifoSkipOver = false) (w : ContactWindow)
    (h : s.toBuffer.WellFormed sch future) :
    Ensures (drainWindow sch w) s fun _ s' => ∃ deferrals, s'.decisions = s.decisions ++
      (greedyFill Bundle.bits true w.rawBitBudget (s.toBuffer.ready w)).map (sentEntry w) ++
        deferrals := by
  refine Ensures.get_bind ?_
  rw [eligible_eq_ready h]
  simp only [drainByPolicy, hfifo, drainFifo, drainOrdered, hstrict, Bool.not_false,
    h.sortBy_ready w]
  refine Ensures.bind ?_ fun _ s₁ h₁ => Ensures.modify h₁
  exact (transmitLoop_stop_log w _ _ s).bind fun _ _ h₁ => Ensures.pure h₁

/-! ## How a record is closed -/

/-- A call that closes the record of `x` has overflowed, expired or sent it. -/
inductive ClosedBy (x : Bundle) (r r' : Lifecycle) : Call → Prop
  | overflowed {c : Call} (hstate : r'.terminalState = .queueOverflow) : ClosedBy x r r' c
  | expired {t : ℚ} (hstate : r'.terminalState = .ttlExpired) (hdead : x.deadline ≤ t) :
      ClosedBy x r r' (.expireInBlackout t)
  | sent {w : ContactWindow} (hsent : r' = r.delivered w) : ClosedBy x r r' (.drainWindow w)

/-- A record that has been closed was among those overwritten. -/
theorem mem_of_overwrite_closed {f : Lifecycle → Lifecycle} {vs : List Bundle}
    {g : Bundle → Lifecycle} {x : Bundle} (hopen : (g x).terminalState = .pending)
    (hclosed : (overwrite f vs g x).terminalState ≠ .pending) : x ∈ vs := by
  by_contra hx
  rw [overwrite_of_notMem hx] at hclosed
  exact hclosed hopen

/-- Noting an admission closes no record. -/
theorem terminalState_overwrite_admitted (ts : ℚ) (vs : List Bundle) (g : Bundle → Lifecycle)
    (x : Bundle) : (overwrite (Lifecycle.admitted ts) vs g x).terminalState =
      (g x).terminalState := by
  unfold overwrite
  split <;> rfl

theorem Buffer.offer_closed {sch : Scheduler} {β : Buffer} {b x : Bundle}
    (hopen : (β.records x).terminalState = .pending)
    (hclosed : ((β.offer sch b).records x).terminalState ≠ .pending) :
    ((β.offer sch b).records x).terminalState = .queueOverflow := by
  unfold Buffer.offer at hclosed ⊢
  cases hadm : sch.admission β.active b with
  | none =>
      simp only [hadm, Buffer.drop] at hclosed ⊢
      rw [overwrite_of_mem (mem_of_overwrite_closed hopen hclosed)]
      rfl
  | some vs =>
      simp only [hadm, Buffer.accept, Buffer.evict, Buffer.remove, Buffer.settle,
        terminalState_overwrite_admitted] at hclosed ⊢
      rw [overwrite_of_mem (mem_of_overwrite_closed hopen hclosed)]
      rfl

theorem Call.Effect.closedBy {sch : Scheduler} {future : List Bundle} {c : Call} {β β' : Buffer}
    (h : c.Effect sch β β') (hwf : β.WellFormed sch future) {x : Bundle}
    (hopen : (β.records x).terminalState = .pending)
    (hclosed : (β'.records x).terminalState ≠ .pending) :
    ClosedBy x (β.records x) (β'.records x) c := by
  cases h with
  | tryAdmit b => exact .overflowed (Buffer.offer_closed hopen hclosed)
  | expireInBlackout t =>
      have hx : x ∈ β.active.filter fun b => b.expiredBy t :=
        mem_of_overwrite_closed hopen hclosed
      have hrec : (β.expire t).records x = (β.records x).expired := overwrite_of_mem hx
      rcases List.mem_filter.1 hx with ⟨hact, hexp⟩
      rw [hrec]
      exact .expired rfl ((Bundle.expiredBy_iff (hwf.active_lifetime hact) t).1 hexp)
  | @drainWindow w _ sent _ service =>
      have hx : x ∈ sent := mem_of_overwrite_closed hopen hclosed
      exact .sent (overwrite_of_mem hx)

/-! ## Two bundles in order -/

/-- `a` has left the queue by `t`, or in a window that opens at `t`. -/
inductive GoneBy (plan : ContactPlan) (a : Bundle) (t : ℚ) (r : Lifecycle) : Prop
  | sent {v : ContactWindow} (hv : v ∈ plan.windows) (hstart : v.startTs ≤ t)
      (hstate : r.terminalState = .delivered) (hts : r.transmissionTs = some v.startTs)
      (hid : r.contactId = some v.contactId)
  | expired (hstate : r.terminalState = .ttlExpired) (hdead : a.deadline ≤ t)
  | overflowed (hstate : r.terminalState = .queueOverflow)

/-- `b` has been sent in `w`.  By then `a` was gone, and what closed the record of `a` is in the log
before the transmission of `b`. -/
structure Followed (plan : ContactPlan) (a b : Bundle) (w : ContactWindow) (s : SchedulerState) :
    Prop where
  window : w ∈ plan.windows
  sent : (s.records b).transmissionTs = some w.startTs
  closed : (s.records a).terminalState ≠ .pending
  gone : GoneBy plan a w.startTs (s.records a)
  logged : ∃ front back, s.decisions = front ++ sentEntry w b :: back ∧
    ∃ d ∈ front, d.bundleId = a.bundleId ∧ d.action ≠ .defer

/-- Where `a` and `b`, in this order, stand while the calls `cs` are still to be made. -/
structure InTurn (sch : Scheduler) (bundles : List Bundle) (records : Bundle → Lifecycle)
    (a b : Bundle) (cs : List Call) (s : SchedulerState) : Prop where
  standing : Standing sch bundles records cs s
  tracked : Tracked (fun _ r => r.terminalState ≠ .pending) bundles records (offeredBy cs)
    s.toBuffer
  order : (s.active ++ offeredBy cs).Sublist (sortBy Bundle.ingressTs bundles)
  calls : cs.Pairwise Call.Before
  windows : ∀ w, Call.drainWindow w ∈ cs → w ∈ sch.plan.windows
  trail : Trail (auditSchema records) s.ledger a
  gone : (s.records a).terminalState ≠ .pending → ∀ w, Call.drainWindow w ∈ cs →
    GoneBy sch.plan a w.startTs (s.records a)
  followed : (s.records b).terminalState = .delivered → ∃ w, Followed sch.plan a b w s

section Step

variable {sch : Scheduler} {bundles : List Bundle} {records : Bundle → Lifecycle} {a b : Bundle}
  {c : Call} {cs : List Call} {s s' : SchedulerState}

/-- What a call leaves of the queue, with what is still to come, is in the order of before. -/
theorem Call.Effect.sublist {β β' : Buffer} (h : c.Effect sch β β') :
    (β'.active ++ offeredBy cs).Sublist (β.active ++ offeredBy (c :: cs)) := by
  cases h with
  | tryAdmit b =>
      show (_ ++ offeredBy cs).Sublist (β.active ++ (b :: offeredBy cs))
      unfold Buffer.offer
      cases sch.admission β.active b with
      | none => exact (List.sublist_cons_self b _).append_left _
      | some vs =>
          show ((without β.active vs ++ [b]) ++ offeredBy cs).Sublist _
          rw [List.append_assoc, List.singleton_append]
          exact (without_sublist _ _).append_right _
  | expireInBlackout t => exact (without_sublist _ _).append_right _
  | drainWindow service => exact (without_sublist _ _).append_right _

theorem Tracked.effect {β β' : Buffer} (h : c.Effect sch β β')
    (hwf : β.WellFormed sch (offeredBy (c :: cs)))
    (htracked : Tracked (fun _ r => r.terminalState ≠ .pending) bundles records
      (offeredBy (c :: cs)) β) :
    Tracked (fun _ r => r.terminalState ≠ .pending) bundles records (offeredBy cs) β' := by
  cases h with
  | tryAdmit b =>
      exact htracked.offer hwf (by simp [Lifecycle.overflowed])
        fun _ _ => by simp [Lifecycle.overflowed]
  | expireInBlackout t =>
      exact htracked.remove hwf (fun v hv => List.mem_of_mem_filter hv)
        fun _ _ => by simp [Lifecycle.expired]
  | drainWindow service =>
      exact htracked.remove hwf (fun b hb => List.mem_of_mem_filter (service.subset b hb))
        fun _ _ => by simp [Lifecycle.delivered]

/-- What is known stays so: closed records are not written again, and the log only grows. -/
theorem Followed.mono {plan : ContactPlan} {w : ContactWindow} (h : Followed plan a b w s)
    (ha : s'.records a = s.records a) (hb : s'.records b = s.records b)
    (hgrown : s.decisions <+: s'.decisions) : Followed plan a b w s' := by
  refine ⟨h.window, hb ▸ h.sent, ha ▸ h.closed, ha ▸ h.gone, ?_⟩
  obtain ⟨front, back, hlog, hbefore⟩ := h.logged
  obtain ⟨new, hnew⟩ := hgrown
  exact ⟨front, back ++ new, by rw [← hnew, hlog]; simp, hbefore⟩

/-- A closed record has an entry in the log. -/
theorem exists_entry_of_closed (h : Trail (auditSchema records) s.ledger a)
    (hclosed : (s.records a).terminalState ≠ .pending) :
    ∃ d ∈ s.decisions, d.bundleId = a.bundleId ∧ d.action ≠ .defer := by
  obtain ⟨deferrals, e, hentries, _, hclosing, _⟩ := trail_of_terminal h hclosed
  have he : e ∈ entriesAbout a s.decisions := hentries ▸ by simp
  have he' : e ∈ s.decisions ∧ e.bundleId = a.bundleId := by simpa [entriesAbout] using he
  exact ⟨e, he'.1, he'.2, hclosing⟩

namespace InTurn

variable (hids : (bundles.map Bundle.bundleId).Nodup) (hfifo : sch.policy = .fifo)
  (hstrict : sch.fifoSkipOver = false)

/-- If both are queued when `w` sends `b`, then `w` sends `a` first. -/
theorem sent_before {w : ContactWindow} {sent : List Bundle} (hnodup : bundles.Nodup)
    (ha : a ∈ bundles) (hab : [a, b].Sublist (sortBy Bundle.ingressTs bundles))
    (h : InTurn sch bundles records a b (.drainWindow w :: cs) s)
    (hopen : (s.records a).terminalState = .pending)
    (hsent : sent.IsPrefix (s.toBuffer.ready w)) (hb : b ∈ sent) : [a, b].Sublist sent := by
  have hwf := h.standing.wellFormed
  have hready : b ∈ s.active ∧ b.ingressTs < w.endTs := Buffer.mem_ready.1 (hsent.subset hb)
  -- a pending bundle is queued or still to come
  have hwaiting : a ∈ s.active ++ offeredBy cs := by
    by_contra hnot
    rw [List.mem_append, not_or] at hnot
    exact h.tracked.settled a ha hnot.2 hnot.1 hopen
  have hordered : [a, b].Sublist (s.active ++ offeredBy cs) :=
    pair_sublist_of_mem ((sortBy_perm _ _).nodup_iff.2 hnodup) hab h.order hwaiting
      (List.mem_append_left _ hready.1)
  have hqueued : [a, b].Sublist s.active := pair_sublist_left hordered fun hb' =>
    hwf.future_notMem_active hb' hready.1
  have hle : a.ingressTs ≤ b.ingressTs := by
    simpa using hwf.active_ordered.sublist hqueued
  -- `a` came in no later than `b`, so the window sees it too
  have hfilter : [a, b].Sublist (s.toBuffer.ready w) := by
    have hboth := hqueued.filter fun c => decide (c.ingressTs < w.endTs)
    simpa [Buffer.ready, hready.2, hle.trans_lt hready.2] using hboth
  obtain ⟨rest, hrest⟩ := hsent
  rw [← hrest] at hfilter
  refine pair_sublist_left hfilter fun hb' => ?_
  have hnd : (sent ++ rest).Nodup := hrest ▸ hwf.active_nodup.filter _
  exact (List.nodup_append.1 hnd).2.2 b hb b hb' rfl

include hfifo hstrict in
/-- When a window sends `b`, `a` is gone, and the log says so first. -/
theorem followed_of_drain {w : ContactWindow} (hnodup : bundles.Nodup) (ha : a ∈ bundles)
    (hab : [a, b].Sublist (sortBy Bundle.ingressTs bundles))
    (h : InTurn sch bundles records a b (.drainWindow w :: cs) s)
    (hexec : drainWindow sch w s = .ok ⟨⟩ s')
    (hopen : (s.records b).terminalState = .pending)
    (hdelivered : (s'.records b).terminalState ≠ .pending)
    (hframe : (s.records a).terminalState ≠ .pending → s'.records a = s.records a) :
    Followed sch.plan a b w s' := by
  have hwf := h.standing.wellFormed
  have hw : w ∈ sch.plan.windows := h.windows w (by simp)
  rcases (drainWindow_spec hwf).ensures ⟨⟩ s' hexec with ⟨sent, hservice, _, hbuffer, _⟩
  obtain ⟨deferrals, hlog⟩ := drainWindow_fifo_log hfifo hstrict w hwf ⟨⟩ s' hexec
  -- what is sent is the front of what is ready
  have hfill : sent = greedyFill Bundle.bits true w.rawBitBudget (s.toBuffer.ready w) := by
    refine hservice.ordered true _ ?_
    simp [Scheduler.drainOrder, hfifo, hstrict, hwf.sortBy_ready w]
  rw [← hfill] at hlog
  have hrecords : s'.records = overwrite (Lifecycle.delivered w) sent s.records :=
    (congrArg Buffer.records hbuffer :)
  have hrecord : ∀ c ∈ sent, s'.records c = (s.records c).delivered w := fun c hc => by
    rw [hrecords, overwrite_of_mem hc]
  have hb : b ∈ sent := by
    rw [hrecords] at hdelivered
    exact mem_of_overwrite_closed hopen hdelivered
  by_cases hopenA : (s.records a).terminalState = .pending
  · -- `a` is still queued: it goes out in the same window, ahead of `b`
    have hpair := h.sent_before hnodup ha hab hopenA
      (hfill ▸ greedyFill_stop_isPrefix Bundle.bits _ _) hb
    obtain ⟨front, back, hsplit, hfront⟩ := mem_front_of_pair_sublist hpair
    have hrecA := hrecord a (hpair.subset (by simp))
    refine ⟨hw, by rw [hrecord b hb]; rfl, by rw [hrecA]; simp [Lifecycle.delivered], ?_, ?_⟩
    · rw [hrecA]
      exact .sent hw le_rfl rfl rfl rfl
    · refine ⟨s.decisions ++ front.map (sentEntry w), back.map (sentEntry w) ++ deferrals, ?_,
        sentEntry w a, List.mem_append_right _ (List.mem_map_of_mem hfront), rfl, by simp
          [sentEntry, decision]⟩
      rw [hlog, hsplit]
      simp
  · -- `a` was gone before the window began to send
    obtain ⟨front, back, hsplit⟩ := List.append_of_mem hb
    obtain ⟨d, hd, hid, haction⟩ := exists_entry_of_closed h.trail hopenA
    refine ⟨hw, by rw [hrecord b hb]; rfl, hframe hopenA ▸ hopenA, ?_, ?_⟩
    · rw [hframe hopenA]
      exact h.gone hopenA w (by simp)
    · refine ⟨s.decisions ++ front.map (sentEntry w), back.map (sentEntry w) ++ deferrals, ?_,
        d, List.mem_append_left _ hd, hid, haction⟩
      rw [hlog, hsplit]
      simp

include hids hfifo hstrict in
/-- Every call keeps the two bundles in turn. -/
theorem exec (ha : a ∈ bundles) (hab : [a, b].Sublist (sortBy Bundle.ingressTs bundles))
    (h : InTurn sch bundles records a b (c :: cs) s) (hexec : c.exec sch s = .ok ⟨⟩ s') :
    InTurn sch bundles records a b cs s' := by
  have hwf := h.standing.wellFormed
  have heffect := (exec_effect hwf).ensures ⟨⟩ s' hexec
  have haudited := h.standing.exec_audited hids ⟨⟩ s' hexec
  have hframe : ∀ x, (s.records x).terminalState ≠ .pending → s'.records x = s.records x :=
    fun x hx => haudited.closed_record hx
  have hbefore := (List.pairwise_cons.1 h.calls).1
  refine ⟨h.standing.exec.ensures ⟨⟩ s' hexec, h.tracked.effect heffect hwf,
    heffect.sublist.trans h.order, h.calls.of_cons,
    fun w hw => h.windows w (List.mem_cons_of_mem _ hw), haudited.trail ha h.trail,
    fun hclosed w hw => ?_, fun hdelivered => ?_⟩
  · by_cases hopen : (s.records a).terminalState = .pending
    · -- this call closes `a`, at an instant before every window still to come
      cases heffect.closedBy hwf hopen hclosed with
      | overflowed hstate => exact .overflowed hstate
      | expired hstate hdead => exact .expired hstate (hdead.trans (hbefore _ hw))
      | @sent v hsent =>
          rw [hsent]
          exact .sent (h.windows v (by simp)) (hbefore _ hw) rfl rfl rfl
    · rw [hframe a hopen]
      exact h.gone hopen w (List.mem_cons_of_mem _ hw)
  · have hclosed : (s'.records b).terminalState ≠ .pending := by simp [hdelivered]
    by_cases hopen : (s.records b).terminalState = .pending
    · -- only a window delivers
      cases heffect.closedBy hwf hopen hclosed with
      | overflowed hstate => simp [hstate] at hdelivered
      | expired hstate hdead => simp [hstate] at hdelivered
      | @sent w hsent =>
          exact ⟨w, h.followed_of_drain hfifo hstrict hids.of_map ha hab hexec hopen
            hclosed (hframe a)⟩
    · -- `b` was sent before, and nothing known then has changed
      rw [hframe b hopen] at hdelivered
      obtain ⟨w, hfollowed⟩ := h.followed hdelivered
      exact ⟨w, hfollowed.mono (hframe a hfollowed.closed) (hframe b hopen)
        haudited.decisions_grow⟩

end InTurn

end Step

/-! ## Whole runs -/

/-- When `b` goes out in `w`, nobody is overtaken: `a` has been sent by then, or has expired or
overflowed, and the entry that says so comes before the one that says that `b` was sent.  That entry
agrees with the record of `a`; in particular an admitted bundle that overflowed was evicted. -/
structure OutOfTheWay (plan : ContactPlan) (initial : Lifecycle) (a b : Bundle) (w : ContactWindow)
    (s : SchedulerState) : Prop where
  gone : GoneBy plan a w.startTs (s.records a)
  logged : ∃ front e back, s.decisions = front ++ e :: back ∧ e.bundleId = b.bundleId ∧
    e.action = .transmit ∧ ∃ d ∈ front, d.bundleId = a.bundleId ∧ d.action ≠ .defer ∧
      Agrees initial (s.records a) d

theorem Followed.outOfTheWay {plan : ContactPlan} {records : Bundle → Lifecycle} {a b : Bundle}
    {v w : ContactWindow} {s : SchedulerState} (h : Followed plan a b v s)
    (htrail : Trail (auditSchema records) s.ledger a)
    (hw : (s.records b).transmissionTs = some w.startTs) :
    OutOfTheWay plan (records a) a b w s := by
  have hstart : v.startTs = w.startTs := Option.some.inj (h.sent.symm.trans hw)
  refine ⟨hstart ▸ h.gone, ?_⟩
  obtain ⟨front, back, hlog, d, hd, hid, haction⟩ := h.logged
  refine ⟨front, _, back, hlog, rfl, rfl, d, hd, hid, haction, ?_⟩
  -- the terminal entry about `a` is its only one
  obtain ⟨deferrals, e, hentries, hdefer, _, hagrees⟩ := trail_of_terminal htrail h.closed
  have hmem : d ∈ entriesAbout a s.decisions := by simp [entriesAbout, hlog, hd, hid]
  rw [hentries] at hmem
  rcases List.mem_append.1 hmem with hmem | hmem
  · exact absurd (hdefer d hmem) haction
  · rwa [List.mem_singleton.1 hmem]

theorem Valid.inTurn {sch : Scheduler} {bundles : List Bundle} {records : Bundle → Lifecycle}
    {a b : Bundle} (h : Valid bundles records) (ha : a ∈ bundles) (hb : b ∈ bundles) :
    InTurn sch bundles records a b (sch.calls bundles) (SchedulerState.fresh records) := by
  have hidle := SchedulerState.fresh_idle records
  refine ⟨h.standing sch, ?_, ?_, sch.calls_pairwise bundles,
    fun w hw => mem_windows_of_drainWindow hw, .unsettled (h.pending a ha) nofun,
    fun hclosed => absurd (h.pending a ha) hclosed, fun hdelivered => ?_⟩
  · rw [offeredBy_schedulerCalls]
    exact .start hidle
  · rw [offeredBy_schedulerCalls, hidle.queue]
  · have hpending : (records b).terminalState = .pending := h.pending b hb
    simp [SchedulerState.fresh, hpending] at hdelivered

/-- Strict FIFO never overtakes. -/
theorem strict_fifo_never_overtakes (sch : Scheduler) (now : ℚ) {bundles : List Bundle}
    {records : Bundle → Lifecycle} (h : Valid bundles records) (hfifo : sch.policy = .fifo)
    (hstrict : sch.fifoSkipOver = false) :
    ∃ s', run sch now bundles (SchedulerState.fresh records) = .ok ⟨⟩ s' ∧
      ∀ a ∈ bundles, ∀ b ∈ bundles, Precedes bundles a b →
        ∀ w, (s'.records b).terminalState = .delivered →
          (s'.records b).transmissionTs = some w.startTs →
          OutOfTheWay sch.plan (records a) a b w s' := by
  obtain ⟨s₁, s', hmade, hstand, hsweep, hrun⟩ := h.run_makes sch now
  refine ⟨s', hrun, fun a ha b hb hab w hdelivered hw => ?_⟩
  have hturn := hmade.invariant (I := InTurn sch bundles records a b)
    (fun _ _ _ _ hI hexec => hI.exec h.distinct hfifo hstrict ha (hab.pair_sublist ha hb) hexec)
    (h.inTurn ha hb)
  -- the sweep closes what is still open, and sends nobody
  let A : AuditScope := ⟨bundles, records, [], h.distinct, nofun⟩
  have hswept : Audited A s₁ s' := finalSweep_audited A now _ hstand.known_active ⟨⟩ s' hsweep
  have hsent : (s₁.records b).terminalState ≠ .pending := by
    intro hopen
    have hqueued : b ∈ s₁.active := by
      by_contra hnot
      exact hturn.tracked.settled b hb (List.not_mem_nil) hnot hopen
    have hbuffer := ((finalSweep_spec now sch.plan.lastEnd hstand.wellFormed).ensures ⟨⟩ s'
      hsweep).buffer
    have hrecord : s'.records b = (s₁.records b).unscheduled := by
      rw [hbuffer]
      exact overwrite_of_mem hqueued
    simp [hrecord, Lifecycle.unscheduled] at hdelivered
  have hframeB : s'.records b = s₁.records b := hswept.closed_record hsent
  rw [hframeB] at hdelivered
  obtain ⟨v, hfollowed⟩ := hturn.followed hdelivered
  have hframeA : s'.records a = s₁.records a := hswept.closed_record hfollowed.closed
  exact (hfollowed.mono hframeA hframeB hswept.decisions_grow).outOfTheWay
    (hswept.trail ha hturn.trail) hw

/-- `Small.scheduler` under strict FIFO. -/
def Small.strictFifo : Scheduler :=
  { Small.scheduler with policy := .fifo, fifoSkipOver := false }

theorem strict_fifo_never_overtakes_small :
    ∃ s', run Small.strictFifo 0 [Small.early, Small.doomed, Small.late]
        (SchedulerState.fresh fun _ => {}) = .ok ⟨⟩ s' ∧
      ∀ a ∈ [Small.early, Small.doomed, Small.late],
        ∀ b ∈ [Small.early, Small.doomed, Small.late],
          Precedes [Small.early, Small.doomed, Small.late] a b →
            ∀ w, (s'.records b).terminalState = .delivered →
              (s'.records b).transmissionTs = some w.startTs →
              OutOfTheWay Small.strictFifo.plan {} a b w s' :=
  strict_fifo_never_overtakes Small.strictFifo 0 Small.valid rfl rfl

end Gateway
end LunaBridge
