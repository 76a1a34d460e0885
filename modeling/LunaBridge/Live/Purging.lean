import LunaBridge.Live.Fairness
import LunaBridge.Live.View

/-!
# Purging — expired bundles go before live ones

`_head` looks at the fronts of the queues only.  With a clock that does not run backwards and
bundles stamped on arrival every queue is in order of time (`Timely`), whatever leaves it at either
end, so that a purge leaves nothing that has expired.
-/

namespace LunaBridge
namespace LinkController

open Foundation.Machine Foundation.Python Gateway

/-- The queues are in order of time, and nothing in them is from after `now`. -/
structure Timely (now : ℚ) (s : LiveState) : Prop where
  filed : Filed s
  ordered : ∀ c, (s.q c).Pairwise fun a b => a.t ≤ b.t
  past : ∀ c, ∀ b ∈ s.q c, b.t ≤ now
  turns : s.rr.Perm wfqWeightClasses

/-- Nothing in the queue of class `c` has expired. -/
def Clear (gw : LiveGateway) (now : ℚ) (s : LiveState) (c : TrafficClass) : Prop :=
  ∀ b ∈ s.q c, gw.expired now b = false

section Purging

variable {gw : LiveGateway} {now : ℚ} {s s' : LiveState} {c : TrafficClass} {b : LiveBundle}

theorem LiveState.initial_timely (now : ℚ) : Timely now .initial where
  filed := nofun
  ordered := fun _ => List.Pairwise.nil
  past := nofun
  turns := List.Perm.refl _

theorem Timely.later (h : Timely now s) {later : ℚ} (hle : now ≤ later) : Timely later s :=
  { h with past := fun c b hb => (h.past c b hb).trans hle }

/-- Bundles may leave at either end of a queue. -/
theorem Timely.thinned (h : Timely now s) (hthin : Thinned s s') : Timely now s' where
  filed := h.filed.thinned hthin
  ordered := fun c => (h.ordered c).sublist (hthin.queues c)
  past := fun c b hb => h.past c b ((hthin.queues c).subset hb)
  turns := hthin.turns.trans h.turns

/-- A bundle stamped `now` may join. -/
theorem Timely.enqueued (h : Timely now s) (hb : b.t = now) : Timely now (s.enqueued b) where
  filed := h.filed.enqueued b
  ordered := by
    intro c
    rw [LiveState.enqueued_q]
    refine List.pairwise_append.2 ⟨h.ordered c, by split <;> simp, fun a ha a' ha' => ?_⟩
    split at ha'
    · rw [List.mem_singleton.1 ha', hb]
      exact h.past c a ha
    · cases ha'
  past := by
    intro c a ha
    rcases mem_enqueued ha with ha | ⟨rfl, -⟩
    · exact h.past c a ha
    · exact hb.le
  turns := h.turns

theorem Clear.thinned (h : Clear gw now s c) (hthin : Thinned s s') : Clear gw now s' c :=
  fun b hb => h b ((hthin.queues c).subset hb)

/-- Once its head is alive, a queue in order of time is clear. -/
theorem Peeked.clear (hpeek : Peeked gw now c s s') (h : Timely now s) : Clear gw now s' c := by
  have h' := h.thinned hpeek.thinned
  cases hq : s'.q c with
  | nil =>
      intro b hb
      rw [hq] at hb
      cases hb
  | cons a rest =>
      have halive := (hpeek.head_alive (b := a) (by rw [hq]; rfl)).2
      have hordered := h'.ordered c
      rw [hq, List.pairwise_cons] at hordered
      intro b hb
      have hcls := h'.filed c b hb
      have hle : a.t ≤ b.t := by
        rw [hq] at hb
        rcases List.mem_cons.1 hb with rfl | hb
        · exact le_rfl
        · exact hordered.1 b hb
      rw [LiveGateway.expired, decide_eq_false_iff_not, not_lt, hcls]
      linarith

theorem purge_clears (gw : LiveGateway) (now : ℚ) : ∀ (cs : List TrafficClass) (s : LiveState),
    Timely now s → Returns (gw.purge now cs) s fun _ s' =>
      Shed .expire now s s' ∧ ∀ c ∈ cs, Clear gw now s' c := by
  intro cs
  induction cs with
  | nil => exact fun s _ => Returns.pure ⟨Shed.refl .., nofun⟩
  | cons c cs ih =>
      intro s h
      refine (head_peeks gw c now s).bind fun r s₁ h₁ => ?_
      have hclear := h₁.1.clear h
      refine (ih s₁ (h.thinned h₁.1.thinned)).mono fun _ s' h' => ⟨h₁.1.shed.trans h'.1, ?_⟩
      intro c' hc'
      rcases List.mem_cons.1 hc' with rfl | hc'
      · exact hclear.thinned h'.1.thinned
      · exact h'.2 c' hc'

/-- Before `admit` evicts or drops, all queues are clear. -/
theorem admit_clears (gw : LiveGateway) (h : Timely now s) (b : LiveBundle) :
    Returns (gw.admitBundle b now) s fun accepted s' =>
      s' = s.enqueued b ∨ ∃ s₁ s₂, Shed .expire now s s₁ ∧ (∀ c, Clear gw now s₁ c) ∧
        Shed .evict now s₁ s₂ ∧ s' = if accepted then s₂.enqueued b else s₂.dropped b now := by
  by_cases hover : gw.Over b s
  · have hpurge : Returns (gw.purgeIfOver b now) s fun _ s' =>
        Shed .expire now s s' ∧ ∀ c, Clear gw now s' c := by
      refine Returns.get_bind ?_
      rw [if_pos hover]
      exact (purge_clears gw now rankClasses s h).mono fun _ _ h' =>
        ⟨h'.1, fun c => h'.2 c (mem_rankClasses c)⟩
    refine hpurge.bind fun _ s₁ h₁ => ?_
    refine (evictIfOver_sheds gw b now s₁).bind fun _ s₂ h₂ => Returns.get_bind ?_
    split
    · exact Returns.modify_bind (Returns.pure (Or.inr ⟨s₁, s₂, h₁.1, h₁.2, h₂, rfl⟩))
    · exact ⟨true, _, rfl, Or.inr ⟨s₁, s₂, h₁.1, h₁.2, h₂, rfl⟩⟩
  · -- there is room at once
    refine ⟨true, _, ?_, Or.inl rfl⟩
    have hpurge : gw.purgeIfOver b now s = .ok ⟨⟩ s := by
      rw [LiveGateway.purgeIfOver, run_get_bind, run_ite, if_neg hover]
      rfl
    have hevict : gw.evictIfOver b now s = .ok ⟨⟩ s := by
      rw [LiveGateway.evictIfOver, run_get_bind, run_ite, if_neg fun hboth => hover hboth.1]
      rfl
    rw [LiveGateway.admitBundle, bind_ok hpurge, bind_ok hevict, run_get_bind, run_ite,
      if_neg hover]
    rfl

/-- One call keeps the queues in order of time. -/
theorem Timely.exec (h : Timely now s) {call : LiveCall} (hnow : now ≤ call.now)
    (hstamped : ∀ b ∈ call.offered?, b.t = call.now) :
    Returns (call.exec gw) s fun _ s' => Timely call.now s' := by
  have hlater := h.later hnow
  cases call with
  | admitBundle b ts =>
      refine (admit_sheds gw b ts s).bind fun accepted s' h' => Returns.pure ?_
      obtain ⟨s₁, s₂, hpurged, hevicted, rfl⟩ := h'
      have hroom := (hlater.thinned hpurged.thinned).thinned hevicted.thinned
      cases accepted with
      | true => exact hroom.enqueued (hstamped b rfl)
      | false => exact ⟨hroom.filed, hroom.ordered, hroom.past, hroom.turns⟩
  | next ts =>
      have hturns : s.rr ≠ [] := fun hnil => nomatch (hnil ▸ h.turns).nil_eq
      refine (next_gives gw ts hturns).bind fun _ _ h' => Returns.pure ?_
      exact hlater.thinned h'.thinned

/-- Any number of calls. -/
theorem Timely.serve : ∀ (calls : List LiveCall) (now : ℚ) (s : LiveState), Timely now s →
    (∀ call ∈ calls, now ≤ call.now) → (calls.map LiveCall.now).Pairwise (· ≤ ·) →
    (∀ b ts, LiveCall.admitBundle b ts ∈ calls → b.t = ts) →
    ∀ later, now ≤ later → (∀ call ∈ calls, call.now ≤ later) →
      Returns (gw.serve calls) s fun _ s' => Timely later s' := by
  intro calls
  induction calls with
  | nil => exact fun now s h _ _ _ later hle _ => Returns.pure (h.later hle)
  | cons call calls ih =>
      intro now s h hnow hmono hstamped later _ hlater
      have hstamp : ∀ b ∈ call.offered?, b.t = call.now := by
        intro b hb
        cases call with
        | admitBundle b' ts =>
            cases hb
            exact hstamped b ts (List.mem_cons_self ..)
        | next ts => cases hb
      rw [List.map_cons, List.pairwise_cons] at hmono
      refine (h.exec (hnow call (List.mem_cons_self ..)) hstamp).bind fun _ s₁ h₁ => ?_
      have hrest := ih call.now s₁ h₁ (fun call' hmem => hmono.1 _ (List.mem_map_of_mem hmem))
        hmono.2 (fun b ts hb => hstamped b ts (List.mem_cons_of_mem _ hb)) later
        (hlater call (List.mem_cons_self ..))
        fun call' hmem => hlater call' (List.mem_cons_of_mem _ hmem)
      exact hrest.bind fun _ _ h' => Returns.pure h'

/-- Calls on a clock that does not run backwards start at some instant. -/
theorem exists_start {calls : List LiveCall}
    (hmono : (calls.map LiveCall.now).Pairwise (· ≤ ·)) (hlater : ∀ call ∈ calls, call.now ≤ now) :
    ∃ start ≤ now, ∀ call ∈ calls, start ≤ call.now := by
  cases calls with
  | nil => exact ⟨now, le_rfl, nofun⟩
  | cons call calls =>
      rw [List.map_cons, List.pairwise_cons] at hmono
      refine ⟨call.now, hlater call (List.mem_cons_self ..), fun call' hmem => ?_⟩
      rcases List.mem_cons.1 hmem with rfl | hmem
      · exact le_rfl
      · exact hmono.1 _ (List.mem_map_of_mem hmem)

/-- Who has expired when a stamped arrival is let in is at most the arrival itself. -/
theorem Clear.enqueued (hclear : ∀ c, Clear gw now s c) {b : LiveBundle} (hstamp : b.t = now)
    (c : TrafficClass) : ∀ a ∈ (s.enqueued b).q c,
      gw.expired now a = false ∨ a = b ∧ gw.L b.cls < 0 := by
  intro a ha
  rcases mem_enqueued ha with ha | ⟨rfl, -⟩
  · exact Or.inl (hclear c a ha)
  · cases hexp : gw.expired now a with
    | false => exact Or.inl rfl
    | true =>
        -- it is as old as its stamp
        refine Or.inr ⟨rfl, ?_⟩
        simpa [LiveGateway.expired, hstamp] using hexp

/-- What `admit` logs, and what it leaves in the queues, when it has to make room. -/
theorem Timely.admit_purges (gw : LiveGateway) (h : Timely now s) {b : LiveBundle}
    (hstamp : b.t = now) :
    ∃ accepted s' new, gw.admitBundle b now s = .ok accepted s' ∧ s'.log = s.log ++ new ∧
      ((∃ e ∈ new, e.event = .evict ∨ e.event = .drop) →
        (∀ e ∈ new, e.event = .evict → gw.expired now e.bundle = false) ∧
        ∀ c, ∀ a ∈ s'.q c, gw.expired now a = false ∨ a = b ∧ gw.L b.cls < 0) := by
  obtain ⟨accepted, s', hadmit, hroom⟩ := admit_clears gw h b
  refine ⟨accepted, s', ?_⟩
  rcases hroom with rfl | ⟨s₁, s₂, hpurged, hclear, hevicted, hend⟩
  · -- there was room at once: nothing is logged
    exact ⟨[], hadmit, (List.append_nil _).symm, by simp⟩
  · obtain ⟨us, hlog₁, -⟩ := hpurged.log
    obtain ⟨vs, hlog₂, hvs⟩ := hevicted.log
    have hclear₂ : ∀ c, Clear gw now s₂ c := fun c => (hclear c).thinned hevicted.thinned
    refine ⟨us.map (fun u => { event := .expire, bundle := u, now := now }) ++
      vs.map (fun v => { event := .evict, bundle := v, now := now }) ++
      (if accepted then [] else [{ event := .drop, bundle := b, now := now }]), hadmit,
      ?_, fun _ => ⟨fun e he hevent => ?_, fun c a ha => ?_⟩⟩
    · rw [hend]
      cases accepted <;> simp [LiveState.enqueued, LiveState.dropped, hlog₂, hlog₁]
    · -- who is evicted was still queued after the purge
      rcases List.mem_append.1 he with he | he
      · rcases List.mem_append.1 he with he | he
        · obtain ⟨u, -, rfl⟩ := List.mem_map.1 he
          cases hevent
        · obtain ⟨v, hv, rfl⟩ := List.mem_map.1 he
          obtain ⟨c, hc⟩ := hvs v hv
          exact hclear c v hc
      · split at he
        · cases he
        · rw [List.mem_singleton.1 he] at hevent
          cases hevent
    · rw [hend] at ha
      cases accepted with
      | false => exact Or.inl (hclear₂ c a ha)
      | true => exact Clear.enqueued hclear₂ hstamp c a ha

end Purging

/-- Whenever `admit` logs an eviction or a drop, no bundle it evicts has expired, and no bundle that
has expired remains in any queue but the arrival itself, should its lifetime be negative. -/
theorem purges_before_it_sacrifices (gw : LiveGateway) {calls : List LiveCall} {b : LiveBundle}
    {now : ℚ}
    (hmono : ((calls ++ [LiveCall.admitBundle b now]).map LiveCall.now).Pairwise (· ≤ ·))
    (hstamped : ∀ a ts, LiveCall.admitBundle a ts ∈ calls ++ [.admitBundle b now] → a.t = ts) :
    ∃ answers s accepted s' new, gw.serve calls .initial = .ok answers s ∧
      gw.admitBundle b now s = .ok accepted s' ∧ s'.log = s.log ++ new ∧
      ((∃ e ∈ new, e.event = .evict ∨ e.event = .drop) →
        (∀ e ∈ new, e.event = .evict → gw.expired now e.bundle = false) ∧
        ∀ c, ∀ a ∈ s'.q c, gw.expired now a = false ∨ a = b ∧ gw.L b.cls < 0) := by
  rw [List.map_append, List.pairwise_append] at hmono
  obtain ⟨hbefore, -, hlast⟩ := hmono
  have hlater : ∀ call ∈ calls, call.now ≤ now := fun call hmem =>
    hlast _ (List.mem_map_of_mem hmem) now (by simp [LiveCall.now])
  obtain ⟨start, hle, hstart⟩ := exists_start hbefore hlater
  obtain ⟨answers, s, hserve, htimely⟩ :
      Returns (gw.serve calls) .initial fun _ s => Timely now s :=
    Timely.serve calls start .initial (LiveState.initial_timely start) hstart hbefore
      (fun a ts ha => hstamped a ts (List.mem_append_left _ ha)) now hle hlater
  obtain ⟨accepted, s', new, hadmit, hlog, hpurged⟩ :=
    htimely.admit_purges gw (hstamped b now (by simp))
  exact ⟨answers, s, accepted, s', new, hserve, hadmit, hlog, hpurged⟩

theorem purges_before_it_sacrifices_small :
    ∃ answers s accepted s' new,
      (Small.gateway .fifo).serve [.admitBundle Small.clip 0] .initial = .ok answers s ∧
      (Small.gateway .fifo).admitBundle Small.alarm 1 s = .ok accepted s' ∧
      s'.log = s.log ++ new ∧
      ((∃ e ∈ new, e.event = .evict ∨ e.event = .drop) →
        (∀ e ∈ new, e.event = .evict → (Small.gateway .fifo).expired 1 e.bundle = false) ∧
        ∀ c, ∀ a ∈ s'.q c, (Small.gateway .fifo).expired 1 a = false ∨
          a = Small.alarm ∧ (Small.gateway .fifo).L Small.alarm.cls < 0) :=
  purges_before_it_sacrifices _ (by decide +kernel) (by
    intro a ts ha
    simp only [List.singleton_append, List.mem_cons, LiveCall.admitBundle.injEq,
      List.not_mem_nil, or_false] at ha
    rcases ha with ⟨rfl, rfl⟩ | ⟨rfl, rfl⟩ <;> rfl)

end LinkController
end LunaBridge
