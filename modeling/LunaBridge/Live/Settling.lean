import LunaBridge.Live.Admission

/-!
# Settling — what one call does to the queued bundles, whatever its clock shows

The two threads read the clock before they take the lock, so a call may carry an older reading than
the call before it.  `Settles s out s'` says what a call does in any case: every bundle that was
queued is queued still, or has been logged, or is handed `out`.
-/

namespace LunaBridge
namespace LinkController

open Foundation.Machine Foundation.Selection Foundation.Python Foundation.StableSort Gateway
open scoped List

/-- From `s` to `s'` nothing but log entries is added, and what left the queues was logged or is
among the bundles `out`. -/
structure Settles (s : LiveState) (out : List LiveBundle) (s' : LiveState) : Prop where
  coherent : Coherent s'
  turns : s'.rr.Perm s.rr
  kept : s'.fifo.Sublist s.fifo
  settled : ∃ entries, s'.log = s.log ++ entries ∧
    s.queued.Perm (entries.map LogEntry.bundle ++ out ++ s'.queued)

namespace Settles

variable {gw : LiveGateway} {now : ℚ} {s s₁ s' : LiveState} {out : List LiveBundle}
  {b : LiveBundle} {c : TrafficClass}

theorem refl (h : Coherent s) : Settles s [] s where
  coherent := h
  turns := List.Perm.refl _
  kept := List.Sublist.refl _
  settled := ⟨[], by simp, List.Perm.refl _⟩

/-- A call that hands nothing out, followed by one that does. -/
theorem trans (h : Settles s [] s₁) (h' : Settles s₁ out s') : Settles s out s' where
  coherent := h'.coherent
  turns := h'.turns.trans h.turns
  kept := h'.kept.trans h.kept
  settled := by
    obtain ⟨entries, hlog, hqueued⟩ := h.settled
    obtain ⟨entries', hlog', hqueued'⟩ := h'.settled
    refine ⟨entries ++ entries', by rw [hlog', hlog, List.append_assoc], ?_⟩
    calc s.queued
        _ ~ entries.map LogEntry.bundle ++ s₁.queued := by simpa using hqueued
        _ ~ entries.map LogEntry.bundle ++
            (entries'.map LogEntry.bundle ++ out ++ s'.queued) := hqueued'.append_left _
        _ ~ (entries ++ entries').map LogEntry.bundle ++ out ++ s'.queued := by
          rw [List.map_append]
          simp only [List.append_assoc]
          exact List.Perm.refl _

/-- Bundles that leave and are logged have settled. -/
theorem expel (h : Coherent s) (event : LogEvent) (ts : ℚ) {vs : List LiveBundle} (hvs : vs.Nodup)
    (hsub : ∀ v ∈ vs, v ∈ s.queued) : Settles s [] (s.expel event ts vs) where
  coherent := h.expel hvs hsub
  turns := List.Perm.refl _
  kept := List.Sublist.refl _
  settled := by
    refine ⟨vs.map fun v => { event := event, bundle := v, now := ts }, rfl, ?_⟩
    have hqueued : (s.expel event ts vs).queued = without s.queued vs := s.leave_queued vs
    rw [hqueued, List.append_nil, List.map_map]
    simpa [Function.comp_def] using perm_append_without h.queued_nodup hvs hsub

theorem peeked (h : Coherent s) (gw : LiveGateway) (now : ℚ) (c : TrafficClass) :
    Settles s [] (s.expel .expire now (gw.stale now s c)) :=
  expel h .expire now ((h.q_nodup c).filter _) (stale_subset_queued h gw now c)

/-- A bundle that leaves is handed out. -/
theorem take (h : Coherent s) (hb : b ∈ s.queued) : Settles s [b] (s.leave [b]) where
  coherent := h.leave (List.nodup_singleton b) (by simpa using hb)
  turns := List.Perm.refl _
  kept := List.Sublist.refl _
  settled := by
    refine ⟨[], by simp [LiveState.leave], ?_⟩
    rw [LiveState.leave_queued]
    simpa using perm_append_without h.queued_nodup (List.nodup_singleton b) (by simpa using hb)

/-- A bundle that is gone may leave the global order. -/
theorem dropGone {rest : List LiveBundle} (h : Settles s out s') (hfifo : s'.fifo = b :: rest)
    (hgone : s'.gone b = true) : Settles s out { s' with fifo := rest } where
  coherent := h.coherent.dropGone hfifo hgone
  turns := h.turns
  kept := (hfifo ▸ List.sublist_cons_self b rest : rest.Sublist s'.fifo).trans h.kept
  settled := h.settled

/-- Deficits and turns are the policy's own business. -/
theorem turn (h : Settles s out s') (deficit : TrafficClass → ℚ) {rr : List TrafficClass}
    (hrr : rr.Perm s'.rr) : Settles s out { s' with deficit := deficit, rr := rr } where
  coherent := h.coherent.turn deficit rr
  turns := hrr.trans h.turns
  kept := h.kept
  settled := h.settled

/-! ## next -/

theorem fifoLoop (gw : LiveGateway) (now : ℚ) (h : Coherent s) :
    Returns (gw.fifoLoop now s.fifo) s fun r s' => Settles s r.toList s' := by
  have hrule : Returns (gw.fifoLoop now s.fifo) s fun r s' =>
      Coherent s → Settles s r.toList s' := by
    refine fifoLoop_rule (motive := fun s r s' => Coherent s → Settles s r.toList s')
      ?nil ?gone ?expired ?live s h
    case nil => exact fun s _ hcoh => refl hcoh
    case gone =>
      intro s b rest hcoh hfifo hgone r s' ih _
      have hdrop := (refl hcoh).dropGone hfifo hgone
      exact hdrop.trans (ih hdrop.coherent)
    case expired =>
      intro s b rest hcoh hfifo _ _ hgone r s' ih _
      have hdrop := (peeked hcoh gw now b.cls).dropGone hfifo hgone
      exact hdrop.trans (ih hdrop.coherent)
    case live =>
      intro s b rest hcoh hfifo hgone hexp _
      have hlive := List.mem_of_head? (hcoh.first_live hfifo hgone hexp)
      have hpeek := peeked hcoh gw now b.cls
      exact (hpeek.trans (take hpeek.coherent (live_queued hlive))).dropGone hfifo
        (LiveState.leave_gone (by simp) _)
  exact hrule.mono fun r s' h' => h' h

/-- A head that has been found is taken. -/
theorem takeHead {r : Option LiveBundle} (h : Coherent s) (hr : r = (s.q c).head?)
    {rest : LiveM (Option LiveBundle)}
    (hrest : Returns rest s fun r' s' => Settles s r'.toList s') :
    Returns (if r.isSome then do
      let taken ← LiveGateway.take c
      pure (some taken) else rest) s fun r' s' => Settles s r'.toList s' := by
  cases r with
  | none => exact hrest
  | some b =>
      rw [Option.isSome_some, if_pos rfl]
      refine Returns.ok_bind (take_eq h hr.symm) (Returns.pure ?_)
      exact take h (h.q_subset_queued (List.mem_of_head? hr.symm))

theorem strictLoop (gw : LiveGateway) (now : ℚ) : ∀ (cs : List TrafficClass) (s : LiveState),
    Coherent s → Returns (gw.strictLoop now cs) s fun r s' => Settles s r.toList s' := by
  intro cs
  induction cs with
  | nil => exact fun s h => Returns.pure (refl h)
  | cons c cs ih =>
      intro s h
      have hpeek := peeked h gw now c
      refine Returns.ok_bind (head_eq h gw c now) ?_
      refine (takeHead hpeek.coherent ?_ (ih _ hpeek.coherent)).mono fun r s' h' => hpeek.trans h'
      rw [expel_stale_q]

theorem wfqRounds (gw : LiveGateway) (now : ℚ) (visits : ℕ) (h : Coherent s)
    (hturns : s.rr.Perm wfqWeightClasses) :
    Returns (gw.wfqRounds now visits) s fun r s' => Settles s r.toList s' := by
  have hrule : Returns (gw.wfqRounds now visits) s fun r s' =>
      Coherent s → Settles s r.toList s' := by
    refine wfqRounds_rule (motive := fun _ s r s' => Coherent s → Settles s r.toList s')
      ?exhausted ?idle ?short ?paid visits s h hturns
    case exhausted => exact fun s _ hcoh => refl hcoh
    case idle =>
      intro _ s c cs hcoh hturn _ r s' ih _
      have hpass := (peeked hcoh gw now c).turn (Function.update s.deficit c 0) hturn.passed
      exact hpass.trans (ih hpass.coherent)
    case short =>
      intro _ s c cs b hcoh hturn _ _ r s' ih _
      have hpass := (peeked hcoh gw now c).turn
        (Function.update s.deficit c (s.deficit c + wfqQuantum * wfqWeight c)) hturn.passed
      exact hpass.trans (ih hpass.coherent)
    case paid =>
      intro _ s c cs b hcoh _ hhead _ _
      have hlive := List.mem_of_head? hhead
      have hpaid := (peeked hcoh gw now c).turn
        (Function.update s.deficit c (s.deficit c - b.n)) (List.Perm.refl s.rr)
      exact hpaid.trans (take hpaid.coherent (live_queued hlive))
  exact hrule.mono fun r s' h' => h' h

theorem wfqNext (gw : LiveGateway) (now : ℚ) (h : Coherent s)
    (hturns : s.rr.Perm wfqWeightClasses) :
    Returns (gw.wfqNext now) s fun r s' => Settles s r.toList s' := by
  have hkeys : s.rr.Nodup := hturns.nodup_iff.2 wfqWeightClasses_nodup
  have hstale := staleOf_nodup h gw now hkeys
  have hpurge := expel h .expire now hstale.1 hstale.2
  refine Returns.get_bind (Returns.ok_bind (backlogged_eq gw now s.rr s h hkeys) ?_)
  split
  · exact Returns.modify_bind (Returns.pure (hpurge.turn _ (List.Perm.refl _)))
  · exact (wfqRounds gw now 10000 hpurge.coherent hturns).mono fun r s' h' => hpurge.trans h'

end Settles

/-- `next` raises nothing, at whatever instant, and hands out what it returns. -/
theorem next_settles (gw : LiveGateway) (now : ℚ) {s : LiveState} (h : Coherent s)
    (hturns : s.rr.Perm wfqWeightClasses) :
    Returns (gw.next now) s fun r s' => Settles s r.toList s' := by
  rw [LiveGateway.next]
  split
  · exact Returns.get_bind (Settles.fifoLoop gw now h)
  · have hpeek := Settles.peeked h gw now .emergency
    refine Returns.ok_bind (head_eq h gw .emergency now) ?_
    refine (Settles.takeHead hpeek.coherent ?_ ?_).mono fun r s' h' => hpeek.trans h'
    · rw [expel_stale_q]
    · split
      · exact Settles.strictLoop gw now _ _ hpeek.coherent
      · exact Settles.wfqNext gw now hpeek.coherent hturns

/-! ## admit -/

/-- Making room hands nothing out. -/
theorem roomFor_settles (gw : LiveGateway) (b : LiveBundle) (now : ℚ) {s : LiveState}
    (h : Coherent s) : Settles s [] (gw.roomFor b now s) := by
  have hpurged : Settles s [] (gw.purgedFor b now s) := by
    rw [LiveGateway.purgedFor]
    split
    · have hstale := staleOf_nodup h gw now rankClasses_nodup
      exact Settles.expel h .expire now hstale.1 hstale.2
    · exact Settles.refl h
  refine hpurged.trans ?_
  rw [LiveGateway.roomFor, LiveGateway.evictedFor]
  split
  · have hneeded := needed_nodup hpurged.coherent gw b (gw.purgedFor b now s).bytes
    exact Settles.expel hpurged.coherent .evict now hneeded.1 fun v hv => (hneeded.2 v hv).1
  · exact Settles.refl hpurged.coherent

/-- What `admit` has done with `b` when it returns: the bundles queued before and `b` are queued or
have been logged. -/
structure Received (s : LiveState) (b : LiveBundle) (s' : LiveState) : Prop where
  coherent : Coherent s'
  turns : s'.rr.Perm s.rr
  kept : s'.fifo.Sublist (s.fifo ++ [b])
  settled : ∃ entries, s'.log = s.log ++ entries ∧
    (s.queued ++ [b]).Perm (entries.map LogEntry.bundle ++ s'.queued)

/-- A bundle that is not queued yet, and was built after all that are, may be admitted at whatever
instant. -/
theorem admit_receives (gw : LiveGateway) {b : LiveBundle} (now : ℚ) {s : LiveState}
    (h : Coherent s) (hnew : b ∉ s.fifo) (hlast : ∀ a ∈ s.fifo, a.t ≤ b.t) :
    Returns (gw.admitBundle b now) s fun _ s' => Received s b s' := by
  have hroom := roomFor_settles gw b now h
  obtain ⟨entries, hlog, hqueued⟩ := hroom.settled
  rw [List.append_nil] at hqueued
  have hadmit := admit_eq h gw b now
  by_cases hover : gw.Over b (gw.roomFor b now s)
  · -- it is dropped at the door
    rw [if_pos hover] at hadmit
    refine ⟨_, _, hadmit, ⟨⟨hroom.coherent.queues, hroom.coherent.nodup, hroom.coherent.ordered,
      hroom.coherent.bytes⟩, hroom.turns, hroom.kept.trans (List.sublist_append_left _ _), ?_⟩⟩
    refine ⟨entries ++ [LogEntry.mk .drop b now], ?_, ?_⟩
    · simp [LiveState.dropped, hlog]
    · calc s.queued ++ [b]
          _ ~ entries.map LogEntry.bundle ++ (gw.roomFor b now s).queued ++ [b] :=
            hqueued.append_right _
          _ ~ entries.map LogEntry.bundle ++ ([b] ++ (gw.roomFor b now s).queued) := by
            rw [List.append_assoc]
            exact List.perm_append_comm.append_left _
          _ ~ (entries ++ [LogEntry.mk .drop b now]).map LogEntry.bundle ++
              ((gw.roomFor b now s).dropped b now).queued := by
            rw [List.map_append, List.append_assoc]
            exact List.Perm.refl _
  · -- it joins the queue of its class
    rw [if_neg hover] at hadmit
    have hkept : ∀ a ∈ (gw.roomFor b now s).fifo, a ∈ s.fifo := fun a ha => hroom.kept.subset ha
    refine ⟨_, _, hadmit, ⟨hroom.coherent.enqueued (fun hb => hnew (hkept b hb))
      fun a ha => hlast a (hkept a ha), hroom.turns, hroom.kept.append (List.Sublist.refl _),
      entries, hlog, ?_⟩⟩
    calc s.queued ++ [b]
        _ ~ entries.map LogEntry.bundle ++ (gw.roomFor b now s).queued ++ [b] :=
          hqueued.append_right _
        _ ~ entries.map LogEntry.bundle ++ ([b] ++ (gw.roomFor b now s).queued) := by
          rw [List.append_assoc]
          exact List.perm_append_comm.append_left _
        _ ~ entries.map LogEntry.bundle ++ ((gw.roomFor b now s).enqueued b).queued :=
          ((gw.roomFor b now s).enqueued_queued b).symm.append_left _

end LinkController
end LunaBridge
