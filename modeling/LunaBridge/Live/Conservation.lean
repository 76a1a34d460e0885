import LunaBridge.Live.Admission

/-!
# Conservation — every bundle the live gateway is offered has exactly one fate

`Sound` is what holds after any sequence of calls: the two queue structures hang together, the cap
is kept, and the bundles offered so far are those in the log, those returned and those queued, each
once.  Every loop keeps it, so every interleaving of the two threads does.
-/

namespace LunaBridge
namespace LinkController

open Foundation.Machine Foundation.Selection Foundation.Python Foundation.StableSort Gateway
open scoped List

/-! ## The invariant -/

/-- What has happened so far: the bundles handed to `admit`, those it accepted, and those `next`
has returned. -/
structure History where
  offered : List LiveBundle
  admitted : List LiveBundle
  returned : List LiveBundle

/-- With the history `hist` behind it, and no call later than `now`. -/
structure Sound (gw : LiveGateway) (hist : History) (now : ℚ) (s : LiveState) : Prop where
  coherent : Coherent s
  settled : hist.offered.Perm (s.log.map LogEntry.bundle ++ hist.returned ++ s.queued)
  admitted : s.fifo.Sublist hist.admitted
  offered : ∀ b ∈ hist.admitted, b ∈ hist.offered
  past : ∀ b ∈ s.fifo, b.t ≤ now
  capacity : s.bytes ≤ gw.cap
  turns : s.rr.Perm wfqWeightClasses

theorem Sound.initial (gw : LiveGateway) (now : ℚ) : Sound gw ⟨[], [], []⟩ now .initial where
  coherent := LiveState.initial_coherent
  settled := List.Perm.refl _
  admitted := List.Sublist.refl _
  offered := nofun
  past := nofun
  capacity := Int.natCast_nonneg _
  turns := List.Perm.refl _

/-- What `next` has done when it returns `r`. -/
def Popped (gw : LiveGateway) (hist : History) (now : ℚ) (r : Option LiveBundle) (s : LiveState) :
    Prop :=
  match r with
  | none => Sound gw hist now s
  | some b => Sound gw { hist with returned := hist.returned ++ [b] } now s ∧
      now - b.t ≤ gw.L b.cls

namespace Sound

variable {gw : LiveGateway} {hist : History} {now : ℚ} {s : LiveState} {b : LiveBundle}

theorem mono (h : Sound gw hist now s) {later : ℚ} (hle : now ≤ later) : Sound gw hist later s :=
  { h with past := fun b hb => (h.past b hb).trans hle }

/-- Bundles that leave and are logged have settled. -/
theorem expel {vs : List LiveBundle} {event : LogEvent} (h : Sound gw hist now s) (ts : ℚ)
    (hvs : vs.Nodup) (hsub : ∀ v ∈ vs, v ∈ s.queued) : Sound gw hist now (s.expel event ts vs) where
  coherent := h.coherent.expel hvs hsub
  settled := by
    have hlog : (s.expel event ts vs).log.map LogEntry.bundle =
        s.log.map LogEntry.bundle ++ vs := by
      simp [LiveState.expel, Function.comp_def]
    have hqueued : (s.expel event ts vs).queued = without s.queued vs := s.leave_queued vs
    have hsplit := perm_append_without h.coherent.queued_nodup hvs hsub
    rw [hlog, hqueued]
    calc hist.offered
        _ ~ s.log.map LogEntry.bundle ++ hist.returned ++ s.queued := h.settled
        _ ~ s.log.map LogEntry.bundle ++ hist.returned ++ (vs ++ without s.queued vs) :=
          hsplit.append_left _
        _ ~ s.log.map LogEntry.bundle ++ vs ++ hist.returned ++ without s.queued vs := by
          rw [← List.append_assoc]
          refine List.Perm.append_right _ ?_
          rw [List.append_assoc, List.append_assoc]
          exact List.perm_append_comm.append_left _
  admitted := h.admitted
  offered := h.offered
  past := h.past
  capacity := by
    have hbytes : (s.expel event ts vs).bytes = s.bytes - bytesOf vs := rfl
    have := bytesOf_nonneg vs
    have := h.capacity
    omega
  turns := h.turns

/-- What expires at the front of a class has settled. -/
theorem peeked (h : Sound gw hist now s) (c : TrafficClass) :
    Sound gw hist now (s.expel .expire now (gw.stale now s c)) :=
  h.expel now ((h.coherent.q_nodup c).filter _) (stale_subset_queued h.coherent gw now c)

/-- A bundle that leaves and is returned has settled. -/
theorem take (h : Sound gw hist now s) (hb : b ∈ s.queued) :
    Sound gw { hist with returned := hist.returned ++ [b] } now (s.leave [b]) where
  coherent := h.coherent.leave (List.nodup_singleton b) (by simpa using hb)
  settled := by
    have hsplit := perm_append_without h.coherent.queued_nodup (List.nodup_singleton b)
      (by simpa using hb)
    rw [LiveState.leave_queued]
    calc hist.offered
        _ ~ s.log.map LogEntry.bundle ++ hist.returned ++ s.queued := h.settled
        _ ~ s.log.map LogEntry.bundle ++ hist.returned ++ ([b] ++ without s.queued [b]) :=
          hsplit.append_left _
        _ ~ s.log.map LogEntry.bundle ++ (hist.returned ++ [b]) ++ without s.queued [b] := by
          simp only [List.append_assoc]
          exact List.Perm.refl _
  admitted := h.admitted
  offered := h.offered
  past := h.past
  capacity := by
    have hbytes : (s.leave [b]).bytes = s.bytes - bytesOf [b] := rfl
    have := bytesOf_nonneg [b]
    have := h.capacity
    omega
  turns := h.turns

/-- A bundle that is gone may leave the global order. -/
theorem dropGone {rest : List LiveBundle} (h : Sound gw hist now s) (hfifo : s.fifo = b :: rest)
    (hgone : s.gone b = true) : Sound gw hist now { s with fifo := rest } where
  coherent := h.coherent.dropGone hfifo hgone
  settled := h.settled
  admitted := (hfifo ▸ List.sublist_cons_self b rest : rest.Sublist s.fifo).trans h.admitted
  offered := h.offered
  past := fun c hc => h.past c (hfifo ▸ List.mem_cons_of_mem b hc)
  capacity := h.capacity
  turns := h.turns

/-- Deficits and turns are the policy's own business. -/
theorem turn (h : Sound gw hist now s) (deficit : TrafficClass → ℚ) {rr : List TrafficClass}
    (hrr : rr.Perm s.rr) : Sound gw hist now { s with deficit := deficit, rr := rr } where
  coherent := h.coherent.turn deficit rr
  settled := h.settled
  admitted := h.admitted
  offered := h.offered
  past := h.past
  capacity := h.capacity
  turns := hrr.trans h.turns

/-- A fresh bundle that fits may be queued. -/
theorem enqueue (h : Sound gw hist now s) (hfresh : b ∉ hist.offered) (hnow : b.t = now)
    (hfits : ¬ gw.Over b s) :
    Sound gw ⟨hist.offered ++ [b], hist.admitted ++ [b], hist.returned⟩ now (s.enqueued b) where
  coherent := h.coherent.enqueued (fun hmem => hfresh (h.offered b (h.admitted.subset hmem)))
    fun a ha => hnow ▸ h.past a ha
  settled := by
    calc hist.offered ++ [b]
        _ ~ (s.log.map LogEntry.bundle ++ hist.returned ++ s.queued) ++ [b] :=
          h.settled.append_right _
        _ ~ s.log.map LogEntry.bundle ++ hist.returned ++ ([b] ++ s.queued) := by
          rw [List.append_assoc]
          exact List.perm_append_comm.append_left _
        _ ~ s.log.map LogEntry.bundle ++ hist.returned ++ (s.enqueued b).queued :=
          (s.enqueued_queued b).symm.append_left _
  admitted := h.admitted.append (List.Sublist.refl _)
  offered := by
    intro a ha
    rcases List.mem_append.1 ha with ha | ha
    · exact List.mem_append_left _ (h.offered a ha)
    · exact List.mem_append_right _ ha
  past := by
    intro a ha
    rcases List.mem_append.1 ha with ha | ha
    · exact h.past a ha
    · exact (List.mem_singleton.1 ha ▸ hnow).le
  capacity := not_lt.1 hfits
  turns := h.turns

/-- A bundle that is dropped at the door has settled. -/
theorem drop (h : Sound gw hist now s) (b : LiveBundle) (ts : ℚ) :
    Sound gw ⟨hist.offered ++ [b], hist.admitted, hist.returned⟩ now (s.dropped b ts) where
  coherent := ⟨h.coherent.queues, h.coherent.nodup, h.coherent.ordered, h.coherent.bytes⟩
  settled := by
    have hlog : (s.dropped b ts).log.map LogEntry.bundle = s.log.map LogEntry.bundle ++ [b] := by
      simp [LiveState.dropped]
    rw [hlog]
    calc hist.offered ++ [b]
        _ ~ (s.log.map LogEntry.bundle ++ hist.returned ++ s.queued) ++ [b] :=
          h.settled.append_right _
        _ ~ s.log.map LogEntry.bundle ++ (hist.returned ++ s.queued ++ [b]) := by
          simp only [List.append_assoc]
          exact List.Perm.refl _
        _ ~ s.log.map LogEntry.bundle ++ ([b] ++ (hist.returned ++ s.queued)) :=
          List.perm_append_comm.append_left _
        _ ~ s.log.map LogEntry.bundle ++ [b] ++ hist.returned ++ s.queued := by
          simp only [List.append_assoc]
          exact List.Perm.refl _
  admitted := h.admitted
  offered := fun a ha => List.mem_append_left _ (h.offered a ha)
  past := h.past
  capacity := h.capacity
  turns := h.turns

end Sound

/-! ## The calls -/

section Calls

variable {gw : LiveGateway} {hist : History} {now : ℚ} {s : LiveState} {b : LiveBundle}
  {c : TrafficClass}

/-- `_head` leaves live bundles in the queue of the class and returns the first of them. -/
theorem head_spec (h : Sound gw hist now s) (c : TrafficClass) :
    Returns (gw.head c now) s fun r s' => Sound gw hist now s' ∧ s'.rr = s.rr ∧
      r = (s'.q c).head? ∧ ∀ b ∈ s'.q c, now - b.t ≤ gw.L b.cls := by
  refine ⟨_, _, head_eq h.coherent gw c now, h.peeked c, rfl, ?_, fun b hb => ?_⟩
  · rw [expel_stale_q]
  · rw [expel_stale_q] at hb
    exact (mem_live.1 hb).2

/-- `_take` returns the head of the queue. -/
theorem take_spec (h : Sound gw hist now s) (hb : (s.q c).head? = some b)
    (halive : now - b.t ≤ gw.L b.cls) :
    Returns (LiveGateway.take c) s fun taken s' => Popped gw hist now (some taken) s' := by
  refine ⟨_, _, take_eq h.coherent hb, h.take ?_, halive⟩
  exact h.coherent.q_subset_queued (List.mem_of_head? hb)

/-- What FIFO returns has settled, like what it purges. -/
theorem fifoLoop_spec (h : Sound gw hist now s) :
    Returns (gw.fifoLoop now s.fifo) s fun r s' => Popped gw hist now r s' := by
  have hrule : Returns (gw.fifoLoop now s.fifo) s fun r s' =>
      Sound gw hist now s → Popped gw hist now r s' := by
    refine fifoLoop_rule (motive := fun s r s' => Sound gw hist now s → Popped gw hist now r s')
      ?nil ?gone ?expired ?live s h.coherent
    case nil => exact fun s _ h => h
    case gone =>
      intro s b rest _ hfifo hgone r s' ih h
      exact ih (h.dropGone hfifo hgone)
    case expired =>
      intro s b rest _ hfifo _ _ hgone r s' ih h
      exact ih ((h.peeked b.cls).dropGone hfifo hgone)
    case live =>
      intro s b rest hcoh hfifo hgone hexp h
      have hlive := List.mem_of_head? (hcoh.first_live hfifo hgone hexp)
      have htaken := (h.peeked b.cls).take (live_queued hlive)
      exact ⟨htaken.dropGone hfifo (LiveState.leave_gone (by simp) _), (mem_live.1 hlive).2⟩
  exact hrule.mono fun r s' h' => h' h

/-- A head that has been found is taken. -/
theorem takeHead_spec {r : Option LiveBundle} (h : Sound gw hist now s) (hr : r = (s.q c).head?)
    (halive : ∀ b ∈ s.q c, now - b.t ≤ gw.L b.cls) {rest : LiveM (Option LiveBundle)}
    (hrest : Returns rest s fun r' s' => Popped gw hist now r' s') :
    Returns (if r.isSome then do
      let taken ← LiveGateway.take c
      pure (some taken) else rest) s fun r' s' => Popped gw hist now r' s' := by
  cases r with
  | none => exact hrest
  | some b =>
      rw [Option.isSome_some, if_pos rfl]
      exact (take_spec h hr.symm (halive b (List.mem_of_head? hr.symm))).bind
        fun _ _ h' => Returns.pure h'

theorem strictLoop_spec (now : ℚ) : ∀ (cs : List TrafficClass) (s : LiveState),
    Sound gw hist now s →
      Returns (gw.strictLoop now cs) s fun r s' => Popped gw hist now r s' := by
  intro cs
  induction cs with
  | nil => exact fun s h => Returns.pure h
  | cons c cs ih =>
      intro s h
      refine (head_spec h c).bind fun r s₁ h₁ => ?_
      rcases h₁ with ⟨hs₁, -, hr, halive⟩
      exact takeHead_spec hs₁ hr halive (ih s₁ hs₁)

theorem backlogged_spec (now : ℚ) : ∀ (cs : List TrafficClass) (s : LiveState),
    Sound gw hist now s → Returns (gw.backlogged now cs) s fun _ s' => Sound gw hist now s' := by
  intro cs
  induction cs with
  | nil => exact fun s h => Returns.pure h
  | cons c cs ih =>
      intro s h
      refine (head_spec h c).bind fun r s₁ h₁ => ?_
      exact (ih s₁ h₁.1).bind fun rest s₂ h₂ => Returns.pure h₂

theorem wfqRounds_spec (visits : ℕ) (h : Sound gw hist now s) :
    Returns (gw.wfqRounds now visits) s fun r s' => Popped gw hist now r s' := by
  have hrule : Returns (gw.wfqRounds now visits) s fun r s' =>
      Sound gw hist now s → Popped gw hist now r s' := by
    refine wfqRounds_rule
      (motive := fun _ s r s' => Sound gw hist now s → Popped gw hist now r s')
      ?exhausted ?idle ?short ?paid visits s h.coherent h.turns
    case exhausted => exact fun s _ h => h
    case idle =>
      intro _ s c cs _ hturn _ r s' ih h
      exact ih ((h.peeked c).turn _ hturn.passed)
    case short =>
      intro _ s c cs b _ hturn _ _ r s' ih h
      exact ih ((h.peeked c).turn _ hturn.passed)
    case paid =>
      intro _ s c cs b _ _ hhead _ h
      have hlive := List.mem_of_head? hhead
      have hpaid := (h.peeked c).turn (Function.update s.deficit c (s.deficit c - b.n))
        (List.Perm.refl s.rr)
      exact ⟨hpaid.take (live_queued hlive), (mem_live.1 hlive).2⟩
  exact hrule.mono fun r s' h' => h' h

theorem wfqNext_spec (h : Sound gw hist now s) :
    Returns (gw.wfqNext now) s fun r s' => Popped gw hist now r s' := by
  refine Returns.get_bind ((backlogged_spec now s.rr s h).bind fun waiting s₁ h₁ => ?_)
  split
  · exact Returns.modify_bind (Returns.pure (h₁.turn _ (List.Perm.refl s₁.rr)))
  · exact wfqRounds_spec 10000 h₁

/-- `next` raises nothing under any policy, and what it returns is within its lifetime. -/
theorem next_spec (h : Sound gw hist now s) :
    Returns (gw.next now) s fun r s' => Popped gw hist now r s' := by
  rw [LiveGateway.next]
  split
  · exact Returns.get_bind (fifoLoop_spec h)
  · refine (head_spec h .emergency).bind fun r s₁ h₁ => ?_
    rcases h₁ with ⟨hs₁, -, hr, halive⟩
    refine takeHead_spec hs₁ hr halive ?_
    split
    · exact strictLoop_spec now _ s₁ hs₁
    · exact wfqNext_spec hs₁

theorem Sound.roomFor (h : Sound gw hist now s) (b : LiveBundle) (ts : ℚ) :
    Sound gw hist now (gw.roomFor b ts s) := by
  have hpurged : Sound gw hist now (gw.purgedFor b ts s) := by
    rw [LiveGateway.purgedFor]
    split
    · have hstale := staleOf_nodup h.coherent gw ts rankClasses_nodup
      exact h.expel ts hstale.1 hstale.2
    · exact h
  rw [LiveGateway.roomFor, LiveGateway.evictedFor]
  split
  · have hneeded := needed_nodup hpurged.coherent gw b (gw.purgedFor b ts s).bytes
    exact hpurged.expel ts hneeded.1 fun v hv => (hneeded.2 v hv).1
  · exact hpurged

end Calls

/-! ## Sequences of calls -/

/-- The bundles some calls offer. -/
def offeredBy (calls : List LiveCall) : List LiveBundle := calls.filterMap LiveCall.offered?

/-- The bundle a call has brought in. -/
def LiveCall.admitted? : LiveCall × LiveAnswer → Option LiveBundle
  | (.admitBundle b _, .admitted true) => some b
  | _ => none

/-- The bundles some calls have brought in. -/
def admittedBy (calls : List LiveCall) (answers : List LiveAnswer) : List LiveBundle :=
  (calls.zip answers).filterMap LiveCall.admitted?

/-- The bundle a call has got out. -/
def LiveAnswer.popped? : LiveAnswer → Option LiveBundle
  | .admitted _ => none
  | .popped b => b

/-- The bundles some calls have got out. -/
def returnedBy (answers : List LiveAnswer) : List LiveBundle :=
  answers.filterMap LiveAnswer.popped?

/-- The clock does not run backwards, every bundle is a dictionary of its own and is stamped with
the instant at which it is offered. -/
structure Admissible (calls : List LiveCall) : Prop where
  monotone : (calls.map LiveCall.now).Pairwise (· ≤ ·)
  fresh : ((offeredBy calls).map LiveBundle.ref).Nodup
  stamped : ∀ b now, LiveCall.admitBundle b now ∈ calls → b.t = now

/-- A bundle that is returned is within its lifetime. -/
def InTime (gw : LiveGateway) (call : LiveCall) (answer : LiveAnswer) : Prop :=
  ∀ b, answer = .popped (some b) → call.now - b.t ≤ gw.L b.cls

/-- The history once some more calls have been answered. -/
def History.extend (hist : History) (calls : List LiveCall) (answers : List LiveAnswer) :
    History where
  offered := hist.offered ++ offeredBy calls
  admitted := hist.admitted ++ admittedBy calls answers
  returned := hist.returned ++ returnedBy answers

theorem History.extend_nil (hist : History) : hist.extend [] [] = hist := by
  simp [History.extend, offeredBy, admittedBy, returnedBy]

theorem History.extend_cons (hist : History) (call : LiveCall) (answer : LiveAnswer)
    (calls : List LiveCall) (answers : List LiveAnswer) :
    (hist.extend [call] [answer]).extend calls answers =
      hist.extend (call :: calls) (answer :: answers) := by
  have hzip : (call :: calls).zip (answer :: answers) =
      [call].zip [answer] ++ calls.zip answers := rfl
  simp only [History.extend, offeredBy, admittedBy, returnedBy, List.append_assoc, hzip,
    ← List.filterMap_append, List.singleton_append]

/-- One call adds at most one bundle to each list. -/
theorem History.extend_singleton (hist : History) (call : LiveCall) (answer : LiveAnswer) :
    hist.extend [call] [answer] =
      ⟨hist.offered ++ call.offered?.toList,
        hist.admitted ++ (LiveCall.admitted? (call, answer)).toList,
        hist.returned ++ answer.popped?.toList⟩ := by
  have hone : ∀ {α : Type} (f : α → Option LiveBundle) (a : α),
      [a].filterMap f = (f a).toList := by
    intro α f a
    cases hf : f a <;> simp [hf]
  simp only [History.extend, offeredBy, admittedBy, returnedBy, List.zip_cons_cons,
    List.zip_nil_left, hone]

section Sequences

variable {gw : LiveGateway} {hist : History} {now : ℚ} {s : LiveState}

/-- One call, whichever thread makes it. -/
theorem exec_spec {call : LiveCall} (h : Sound gw hist now s) (hnow : now ≤ call.now)
    (hfresh : ∀ b ∈ call.offered?, b ∉ hist.offered)
    (hstamped : ∀ b ∈ call.offered?, b.t = call.now) :
    Returns (call.exec gw) s fun answer s' =>
      Sound gw (hist.extend [call] [answer]) call.now s' ∧ InTime gw call answer := by
  have h' := h.mono hnow
  cases call with
  | admitBundle b ts =>
      have hroom := h'.roomFor b ts
      have hadmit := admit_eq h.coherent gw b ts
      by_cases hover : gw.Over b (gw.roomFor b ts s)
      · rw [if_pos hover] at hadmit
        refine Returns.ok_bind hadmit (Returns.pure ⟨?_, nofun⟩)
        rw [History.extend_singleton]
        simpa [LiveCall.offered?, LiveCall.admitted?, LiveAnswer.popped?] using hroom.drop b ts
      · rw [if_neg hover] at hadmit
        refine Returns.ok_bind hadmit (Returns.pure ⟨?_, nofun⟩)
        rw [History.extend_singleton]
        simpa [LiveCall.offered?, LiveCall.admitted?, LiveAnswer.popped?] using
          hroom.enqueue (hfresh b rfl) (hstamped b rfl) hover
  | next ts =>
      refine (next_spec h').bind fun r s₁ h₁ => Returns.pure ?_
      rw [History.extend_singleton]
      cases r with
      | none =>
          refine ⟨?_, nofun⟩
          simp only [LiveCall.offered?, LiveCall.admitted?, LiveAnswer.popped?,
            Option.toList_none, List.append_nil]
          exact h₁
      | some b =>
          refine ⟨?_, ?_⟩
          · simpa [LiveCall.offered?, LiveCall.admitted?, LiveAnswer.popped?] using h₁.1
          · rintro _ ⟨⟩
            exact h₁.2

/-- The calls may follow the history `hist`, none of whose calls was later than `now`. -/
structure Ready (hist : History) (now : ℚ) (calls : List LiveCall) : Prop where
  later : ∀ call ∈ calls, now ≤ call.now
  monotone : (calls.map LiveCall.now).Pairwise (· ≤ ·)
  fresh : (hist.offered ++ offeredBy calls).Nodup
  stamped : ∀ b ts, LiveCall.admitBundle b ts ∈ calls → b.t = ts

theorem offeredBy_cons (call : LiveCall) (calls : List LiveCall) :
    offeredBy (call :: calls) = call.offered?.toList ++ offeredBy calls := by
  cases hcall : call.offered? <;> simp [offeredBy, hcall]

theorem admittedBy_cons (call : LiveCall) (calls : List LiveCall) (answer : LiveAnswer)
    (answers : List LiveAnswer) : admittedBy (call :: calls) (answer :: answers) =
      (LiveCall.admitted? (call, answer)).toList ++ admittedBy calls answers := by
  cases hin : LiveCall.admitted? (call, answer) <;> simp [admittedBy, hin]

/-- Whatever has been admitted was offered. -/
theorem admittedBy_sublist (calls : List LiveCall) (answers : List LiveAnswer) :
    (admittedBy calls answers).Sublist (offeredBy calls) := by
  induction calls generalizing answers with
  | nil => exact List.nil_sublist _
  | cons call calls ih =>
      cases answers with
      | nil => exact List.nil_sublist _
      | cons answer answers =>
          rw [admittedBy_cons, offeredBy_cons]
          refine List.Sublist.append ?_ (ih answers)
          cases hin : LiveCall.admitted? (call, answer) with
          | none => exact List.nil_sublist _
          | some b =>
              have hoffered : call.offered? = some b := by
                unfold LiveCall.admitted? at hin
                split at hin
                · next b' ts heq =>
                    cases heq
                    exact hin
                · cases hin
              rw [hoffered]

/-- The later calls do not come before the first one. -/
theorem Ready.first_le {call : LiveCall} {calls : List LiveCall}
    (h : Ready hist now (call :: calls)) :
    ∀ call' ∈ calls, call.now ≤ call'.now := fun _ hmem =>
  (List.pairwise_cons.1 h.monotone).1 _ (List.mem_map_of_mem hmem)

/-- The first call keeps the invariant, and the others may follow. -/
theorem Ready.exec {call : LiveCall} {calls : List LiveCall} (h : Ready hist now (call :: calls))
    (hs : Sound gw hist now s) :
    Returns (call.exec gw) s fun answer s' =>
      Sound gw (hist.extend [call] [answer]) call.now s' ∧ InTime gw call answer ∧
        Ready (hist.extend [call] [answer]) call.now calls := by
  have hfresh := h.fresh
  rw [offeredBy_cons, ← List.append_assoc] at hfresh
  have hnew : ∀ b ∈ call.offered?, b ∉ hist.offered := fun b hb hmem =>
    (List.nodup_append.1 (List.nodup_append.1 hfresh).1).2.2 b hmem b (by simpa using hb) rfl
  have hstamped : ∀ b ∈ call.offered?, b.t = call.now := by
    intro b hb
    cases call with
    | admitBundle b' ts =>
        cases hb
        exact h.stamped b ts (by simp)
    | next ts => cases hb
  refine (exec_spec hs (h.later call (by simp)) hnew hstamped).mono fun answer s' h' =>
    ⟨h'.1, h'.2, h.first_le, h.monotone.of_cons, ?_,
      fun b ts hb => h.stamped b ts (List.mem_cons_of_mem _ hb)⟩
  rw [History.extend_singleton]
  exact hfresh

/-- Any number of calls, in the order in which they take the lock. -/
theorem serve_spec : ∀ (calls : List LiveCall) (hist : History) (now : ℚ) (s : LiveState),
    Ready hist now calls → Sound gw hist now s →
      Returns (gw.serve calls) s fun answers s' =>
        (∃ later, Sound gw (hist.extend calls answers) later s') ∧
          List.Forall₂ (InTime gw) calls answers := by
  intro calls
  induction calls with
  | nil =>
      intro hist now s _ h
      exact Returns.pure ⟨⟨now, by rwa [History.extend_nil]⟩, .nil⟩
  | cons call calls ih =>
      intro hist now s hready h
      refine (hready.exec h).bind fun answer s₁ h₁ => ?_
      rcases h₁ with ⟨hs₁, hintime, hready₁⟩
      refine (ih _ call.now s₁ hready₁ hs₁).bind fun answers s₂ h₂ => Returns.pure ?_
      rcases h₂ with ⟨⟨later, hs₂⟩, hall⟩
      exact ⟨⟨later, by rwa [History.extend_cons] at hs₂⟩, .cons hintime hall⟩

/-- Admissible calls may be made on a new gateway. -/
theorem Admissible.ready {calls : List LiveCall} (h : Admissible calls) :
    ∃ start, Ready ⟨[], [], []⟩ start calls := by
  have hfresh : (offeredBy calls).Nodup := h.fresh.of_map
  cases calls with
  | nil => exact ⟨0, nofun, h.monotone, hfresh, h.stamped⟩
  | cons call calls =>
      refine ⟨call.now, fun call' hmem => ?_, h.monotone, hfresh, h.stamped⟩
      rcases List.mem_cons.1 hmem with rfl | hmem
      · exact le_refl _
      · exact (List.pairwise_cons.1 h.monotone).1 _ (List.mem_map_of_mem hmem)

end Sequences

/-! ## One fate -/

/-- What can become of a bundle that is offered. -/
inductive LiveFate
  | dropped
  | evicted
  | expired
  | returned
  | queued
  deriving DecidableEq, Repr

/-- What a log entry says has become of its bundle. -/
def LogEvent.fate : LogEvent → LiveFate
  | .drop => .dropped
  | .evict => .evicted
  | .expire => .expired

/-- Everything that has become of `b`: one entry for each time it is in the log, has been returned,
or is in the queue of its class. -/
def fates (answers : List LiveAnswer) (s : LiveState) (b : LiveBundle) : List LiveFate :=
  ((s.log.filter fun e => e.bundle == b).map fun e => e.event.fate) ++
    ((returnedBy answers).filter fun a => a == b).map (fun _ => .returned) ++
    ((s.q b.cls).filter fun a => a == b).map fun _ => .queued

theorem fates_length {gw : LiveGateway} {hist : History} {now : ℚ} {s : LiveState}
    {answers : List LiveAnswer} (h : Sound gw hist now s)
    (hret : hist.returned = returnedBy answers)
    (b : LiveBundle) : (fates answers s b).length = hist.offered.count b := by
  have hqueued : s.queued.count b = (s.q b.cls).count b := by
    have hmem : b ∈ s.queued ↔ b ∈ s.q b.cls := by
      rw [h.coherent.mem_queued, h.coherent.mem_q]
      simp
    rw [h.coherent.queued_nodup.count, (h.coherent.q_nodup b.cls).count]
    simp only [hmem]
  have hlog : (s.log.map LogEntry.bundle).count b =
      (s.log.filter fun e => e.bundle == b).length := by
    rw [List.count, List.countP_map, List.countP_eq_length_filter]
    rfl
  rw [h.settled.count_eq, List.count_append, List.count_append, hqueued, hlog, hret, fates]
  simp only [List.length_append, List.length_map, List.count_eq_length_filter]

theorem Small.calls_admissible : Admissible Small.calls where
  monotone := by decide +kernel
  fresh := by decide +kernel
  stamped b now hb := by
    simp only [Small.calls, List.mem_cons, LiveCall.admitBundle.injEq, reduceCtorEq,
      List.not_mem_nil, or_false, false_or] at hb
    rcases hb with ⟨rfl, rfl⟩ | ⟨rfl, rfl⟩ | ⟨rfl, rfl⟩ | ⟨rfl, rfl⟩ <;> rfl

/-- However the calls of the two threads interleave, after each of them the counter is the bytes of
what is queued and within the cap, the queues hold no bundle that is gone and keep the order of
admission, every bundle offered so far has exactly one fate, and whatever has been returned was
within its lifetime. -/
theorem every_interleaving_conserves (gw : LiveGateway) {calls : List LiveCall}
    (h : Admissible calls) : ∃ answers s, gw.serve calls .initial = .ok answers s ∧
      s.bytes = bytesOf (rankClasses.flatMap s.q) ∧ s.bytes ≤ gw.cap ∧
      (∀ c, (∀ b ∈ s.q c, s.gone b = false ∧ b.cls = c) ∧
        (s.q c).Sublist (admittedBy calls answers)) ∧
      (∀ b ∈ offeredBy calls, ∃ fate, fates answers s b = [fate]) ∧
      List.Forall₂ (InTime gw) calls answers := by
  have hfresh : (offeredBy calls).Nodup := h.fresh.of_map
  obtain ⟨start, hready⟩ := h.ready
  obtain ⟨answers, s, hserve, ⟨later, hsound⟩, hintime⟩ :=
    serve_spec calls _ start _ hready (Sound.initial gw start)
  refine ⟨answers, s, hserve, hsound.coherent.bytes, hsound.capacity, fun c => ⟨fun b hb => ?_, ?_⟩,
    fun b hb => ?_, hintime⟩
  · exact (hsound.coherent.mem_q.1 hb).2
  · simpa [History.extend] using (hsound.coherent.q_sublist c).trans hsound.admitted
  · refine List.length_eq_one_iff.1 ?_
    rw [fates_length hsound (by simp [History.extend])]
    have hoffered : (History.extend ⟨[], [], []⟩ calls answers).offered = offeredBy calls := by
      simp [History.extend]
    rw [hoffered]
    exact List.count_eq_one_of_mem hfresh hb

theorem every_interleaving_conserves_small :
    ∃ answers s, (Small.gateway .wfq).serve Small.calls .initial = .ok answers s ∧
      s.bytes = bytesOf (rankClasses.flatMap s.q) ∧ s.bytes ≤ (Small.gateway .wfq).cap ∧
      (∀ c, (∀ b ∈ s.q c, s.gone b = false ∧ b.cls = c) ∧
        (s.q c).Sublist (admittedBy Small.calls answers)) ∧
      (∀ b ∈ offeredBy Small.calls, ∃ fate, fates answers s b = [fate]) ∧
      List.Forall₂ (InTime (Small.gateway .wfq)) Small.calls answers :=
  every_interleaving_conserves _ Small.calls_admissible

end LinkController
end LunaBridge
