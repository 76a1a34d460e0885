import LunaBridge.Live.Expiry
import LunaBridge.Live.Fairness

/-!
# Draining — the live gateway emptied at one instant

What `next` has to do with the two queue structures is said here of one list: the unexpired bundles
in the order of their admission (`waiting`).  A call takes one of them out, and which one is the
policy's choice (`Picks`); it returns nothing only where nothing is waiting, since the visits that
the round robin is allowed save up more than any packet takes (`next_takes`).  So calls at one
instant empty the list in the policy's order.
-/

namespace LunaBridge
namespace LinkController

open Foundation.Machine Foundation.Selection Foundation.Python Gateway

/-! ## What the policies choose -/

/-- The bundles of one class. -/
def ofClass (c : TrafficClass) (bs : List LiveBundle) : List LiveBundle :=
  bs.filter fun b => decide (b.cls = c)

/-- Highest class first, in the given order within a class. -/
def byRank (bs : List LiveBundle) : List LiveBundle := rankClasses.flatMap fun c => ofClass c bs

/-- The policy's choice among the bundles `ws`, which are listed in the order of their admission.
WFQ is free to choose a class below EMERGENCY. -/
def Picks : LivePolicy → List LiveBundle → Option LiveBundle → Prop
  | .fifo, ws, r => r = ws.head?
  | .strict, ws, r => r = (byRank ws).head?
  | .wfq, ws, none => ws = []
  | .wfq, ws, some b => (ofClass b.cls ws).head? = some b ∧
      (b.cls = .emergency ∨ ofClass .emergency ws = [])

/-- What becomes of the bundles `ws` if they are chosen one after the other. -/
inductive Drains (policy : LivePolicy) : List LiveBundle → List LiveBundle → Prop
  | done : Drains policy [] []
  | pop {ws bs : List LiveBundle} {b : LiveBundle} (choice : Picks policy ws (some b))
      (rest : Drains policy (without ws [b]) bs) : Drains policy ws (b :: bs)

/-- The order in which a policy drains a backlog: as it was admitted, by rank, or EMERGENCY first
and every class as it was admitted. -/
def InPolicyOrder : LivePolicy → List LiveBundle → List LiveBundle → Prop
  | .fifo, backlog, popped => popped = backlog
  | .strict, backlog, popped => popped = byRank backlog
  | .wfq, backlog, popped => (∃ rest, popped = ofClass .emergency backlog ++ rest) ∧
      ∀ c, ofClass c popped = ofClass c backlog

section Order

variable {policy : LivePolicy} {ws bs : List LiveBundle} {b : LiveBundle}

theorem ofClass_without (c : TrafficClass) (ws vs : List LiveBundle) :
    ofClass c (without ws vs) = without (ofClass c ws) vs :=
  filter_without _ ws vs

theorem ofClass_cons (c : TrafficClass) (b : LiveBundle) (bs : List LiveBundle) :
    ofClass c (b :: bs) = if b.cls = c then b :: ofClass c bs else ofClass c bs := by
  rw [ofClass, List.filter_cons]
  simp only [decide_eq_true_eq]
  rfl

theorem mem_ofClass {c : TrafficClass} : b ∈ ofClass c bs ↔ b ∈ bs ∧ b.cls = c := by
  simp [ofClass]

theorem byRank_without (ws vs : List LiveBundle) :
    byRank (without ws vs) = without (byRank ws) vs := by
  calc byRank (without ws vs)
      _ = rankClasses.flatMap fun c => without (ofClass c ws) vs :=
        List.flatMap_congr fun c _ => ofClass_without c ws vs
      _ = without (byRank ws) vs := List.filter_flatMap.symm

theorem byRank_nodup (h : ws.Nodup) : (byRank ws).Nodup := by
  refine List.nodup_flatMap.2 ⟨fun c _ => h.filter _, ?_⟩
  refine rankClasses_nodup.imp fun {c c'} hne b hb hb' => hne ?_
  exact (mem_ofClass.1 hb).2.symm.trans (mem_ofClass.1 hb').2

/-- What is left behind the first element. -/
theorem without_head (h : ws.Nodup) (hb : ws.head? = some b) : ws = b :: without ws [b] := by
  obtain ⟨rest, rfl⟩ := List.head?_eq_some_iff.1 hb
  rw [without_cons_self h]

/-- Only what is there is chosen. -/
theorem Picks.mem (h : Picks policy ws (some b)) : b ∈ ws := by
  cases policy with
  | fifo => exact List.mem_of_head? (Eq.symm h)
  | strict =>
      obtain ⟨c, _, hb⟩ := List.mem_flatMap.1 (List.mem_of_head? (Eq.symm h))
      exact (mem_ofClass.1 hb).1
  | wfq => exact (mem_ofClass.1 (List.mem_of_head? h.1)).1

/-- Something is chosen unless there is nothing. -/
theorem Picks.none_iff {r : Option LiveBundle} (h : Picks policy ws r) : r = none ↔ ws = [] := by
  constructor
  · rintro rfl
    cases policy with
    | fifo => exact List.head?_eq_none_iff.1 (Eq.symm h)
    | strict =>
        have hnone : byRank ws = [] := List.head?_eq_none_iff.1 (Eq.symm h)
        refine List.eq_nil_iff_forall_not_mem.2 fun a ha => ?_
        have hmem : a ∈ byRank ws :=
          List.mem_flatMap.2 ⟨a.cls, mem_rankClasses a.cls, mem_ofClass.2 ⟨ha, rfl⟩⟩
        rw [hnone] at hmem
        cases hmem
    | wfq => exact h
  · rintro rfl
    cases r with
    | none => rfl
    | some a => cases h.mem

/-- Everything is chosen once. -/
theorem Drains.perm (h : Drains policy ws bs) (hnd : ws.Nodup) : bs.Perm ws := by
  induction h with
  | done => exact List.Perm.refl _
  | @pop ws bs b choice rest ih =>
      have hsub : ∀ v ∈ [b], v ∈ ws := by simpa using choice.mem
      have hrest := ih (hnd.sublist (without_sublist ws [b]))
      exact (hrest.cons b).trans (perm_append_without hnd (List.nodup_singleton b) hsub).symm

/-- A policy's choices come in its order. -/
theorem Drains.inPolicyOrder (h : Drains policy ws bs) (hnd : ws.Nodup) :
    InPolicyOrder policy ws bs := by
  induction h with
  | done =>
      cases policy with
      | fifo => rfl
      | strict => rfl
      | wfq => exact ⟨⟨[], rfl⟩, fun _ => rfl⟩
  | @pop ws bs b choice rest ih =>
      have hrest := ih (hnd.sublist (without_sublist ws [b]))
      cases policy with
      | fifo =>
          have hfirst : ws = b :: without ws [b] := without_head hnd choice.symm
          have htail : bs = without ws [b] := hrest
          rw [InPolicyOrder, htail]
          exact hfirst.symm
      | strict =>
          have hfirst := without_head (byRank_nodup hnd) choice.symm
          have htail : bs = byRank (without ws [b]) := hrest
          rw [InPolicyOrder, htail, byRank_without]
          exact hfirst.symm
      | wfq =>
          obtain ⟨⟨others, hothers⟩, hclasses⟩ := hrest
          obtain ⟨hhead, hpreempt⟩ := choice
          have hfirst := without_head (hnd.filter _) hhead
          refine ⟨?_, fun c => ?_⟩
          · rcases hpreempt with hcls | hnone
            · -- an EMERGENCY is followed by the other ones
              refine ⟨others, ?_⟩
              rw [hcls, ← ofClass, ← ofClass_without] at hfirst
              rw [hfirst, List.cons_append, ← hothers]
            · exact ⟨b :: bs, by rw [hnone, List.nil_append]⟩
          · rw [ofClass_cons, hclasses c, ofClass_without]
            split
            · next hc =>
                subst hc
                exact hfirst.symm
            · next hc =>
                -- the other classes lose nothing
                refine List.filter_eq_self.2 fun a ha => ?_
                have hne : a ≠ b := fun hab => hc (hab ▸ (mem_ofClass.1 ha).2)
                simpa using hne

end Order

/-! ## What is waiting in a state -/

/-- The unexpired bundles of a state, in the order of their admission. -/
def LiveGateway.waiting (gw : LiveGateway) (now : ℚ) (s : LiveState) : List LiveBundle :=
  s.fifo.filter fun b => !s.gone b && !gw.expired now b

section Waiting

variable {gw : LiveGateway} {now : ℚ} {s : LiveState} {b : LiveBundle} {c : TrafficClass}

theorem ofClass_waiting (h : Coherent s) (gw : LiveGateway) (now : ℚ) (c : TrafficClass) :
    ofClass c (gw.waiting now s) = gw.live now s c := by
  rw [ofClass, LiveGateway.waiting, LiveGateway.live, h.queues, List.filter_filter,
    List.filter_filter]
  refine List.filter_congr fun b _ => ?_
  cases s.gone b <;> cases gw.expired now b <;> simp

theorem byRank_waiting (h : Coherent s) (gw : LiveGateway) (now : ℚ) :
    byRank (gw.waiting now s) = rankClasses.flatMap (gw.live now s) :=
  List.flatMap_congr fun c _ => ofClass_waiting h gw now c

theorem mem_waiting (h : Coherent s) :
    b ∈ gw.waiting now s ↔ b ∈ s.queued ∧ gw.expired now b = false := by
  rw [LiveGateway.waiting, List.mem_filter, h.mem_queued]
  simp [and_assoc]

theorem waiting_nodup (h : Coherent s) (gw : LiveGateway) (now : ℚ) :
    (gw.waiting now s).Nodup :=
  h.nodup.filter _

theorem waiting_leave (gw : LiveGateway) (now : ℚ) (vs : List LiveBundle) (s : LiveState) :
    gw.waiting now (s.leave vs) = without (gw.waiting now s) vs := by
  rw [LiveGateway.waiting, LiveGateway.waiting, without, List.filter_filter]
  refine List.filter_congr fun b _ => ?_
  by_cases hb : b ∈ vs
  · simp [LiveState.leave_gone hb, hb]
  · simp [LiveState.leave_gone_of_notMem hb, hb]

/-- Nobody waits less for the purge of what has expired. -/
theorem waiting_expel (event : LogEvent) (ts : ℚ) {vs : List LiveBundle}
    (hvs : ∀ v ∈ vs, gw.expired now v = true) (s : LiveState) :
    gw.waiting now (s.expel event ts vs) = gw.waiting now s := by
  have hsame : gw.waiting now (s.expel event ts vs) = gw.waiting now (s.leave vs) := rfl
  rw [hsame, waiting_leave]
  refine without_expired hvs fun b hb => ?_
  have halive := (List.mem_filter.1 hb).2
  simpa using (Bool.and_eq_true_iff.1 halive).2

theorem waiting_peeked (gw : LiveGateway) (now : ℚ) (s : LiveState) (c : TrafficClass) :
    gw.waiting now (s.expel .expire now (gw.stale now s c)) = gw.waiting now s :=
  waiting_expel _ _ (fun _ hv => (List.mem_filter.1 hv).2) s

/-- Nor do the deficits and the turns matter. -/
theorem waiting_passed (gw : LiveGateway) (now : ℚ) (s : LiveState) (c : TrafficClass)
    (deficit : TrafficClass → ℚ) (rr : List TrafficClass) :
    gw.waiting now { s.expel .expire now (gw.stale now s c) with deficit := deficit, rr := rr } =
      gw.waiting now s :=
  waiting_peeked gw now s c

theorem live_passed (gw : LiveGateway) (now : ℚ) (s : LiveState) (c : TrafficClass)
    (deficit : TrafficClass → ℚ) (rr : List TrafficClass) :
    gw.live now { s.expel .expire now (gw.stale now s c) with deficit := deficit, rr := rr } =
      gw.live now s :=
  live_peeked gw now s c

/-- A bundle that is gone may be dropped from the global order. -/
theorem waiting_dropped {rest : List LiveBundle} (hfifo : s.fifo = b :: rest)
    (hgone : s.gone b = true) :
    gw.waiting now { s with fifo := rest } = gw.waiting now s := by
  have hout : ¬ (!s.gone b && !gw.expired now b) = true := by simp [hgone]
  have hrest : gw.waiting now s = rest.filter fun a => !s.gone a && !gw.expired now a := by
    rw [LiveGateway.waiting, hfifo,
      List.filter_cons_of_neg (p := fun a => !s.gone a && !gw.expired now a) hout]
  exact hrest.symm

theorem live_cls (h : Coherent s) (hb : b ∈ gw.live now s c) : b.cls = c :=
  (h.mem_q.1 (mem_live.1 hb).1).2.2

/-- What `next` has done when it returns `r`: nobody else has left. -/
structure Took (gw : LiveGateway) (now : ℚ) (s : LiveState) (r : Option LiveBundle)
    (s' : LiveState) : Prop where
  choice : Picks gw.policy (gw.waiting now s) r
  left : gw.waiting now s' = without (gw.waiting now s) r.toList

/-- A head that has been found is taken out of what is waiting. -/
theorem take_waiting (h : Coherent s) (hb : (gw.live now s c).head? = some b) :
    Returns (LiveGateway.take c) (s.expel .expire now (gw.stale now s c)) fun taken s' =>
      taken = b ∧ gw.waiting now s' = without (gw.waiting now s) [b] := by
  have hhead : ((s.expel .expire now (gw.stale now s c)).q c).head? = some b := by
    rw [expel_stale_q, hb]
  refine ⟨_, _, take_eq (h.peeked gw now c) hhead, rfl, ?_⟩
  rw [waiting_leave, waiting_peeked]

end Waiting

/-! ## FIFO and STRICT -/

section Orders

variable {gw : LiveGateway} {now : ℚ}

/-- The FIFO loop comes to the first bundle that waits. -/
theorem fifoLoop_takes (gw : LiveGateway) (now : ℚ) {s : LiveState} (h : Coherent s) :
    Returns (gw.fifoLoop now s.fifo) s fun r s' => r = (gw.waiting now s).head? ∧
      gw.waiting now s' = without (gw.waiting now s) r.toList := by
  refine fifoLoop_rule (motive := fun s r s' => r = (gw.waiting now s).head? ∧
    gw.waiting now s' = without (gw.waiting now s) r.toList) ?nil ?gone ?expired ?live s h
  case nil =>
    intro s hfifo
    have hnil : gw.waiting now s = [] := by rw [LiveGateway.waiting, hfifo, List.filter_nil]
    exact ⟨by rw [hnil]; rfl, by rw [hnil]; rfl⟩
  case gone =>
    intro s b rest _ hfifo hgone r s' ih
    rwa [waiting_dropped hfifo hgone] at ih
  case expired =>
    intro s b rest _ hfifo _ _ hgone r s' ih
    have hdrop : gw.waiting now
          { s.expel .expire now (gw.stale now s b.cls) with fifo := rest } =
        gw.waiting now (s.expel .expire now (gw.stale now s b.cls)) :=
      waiting_dropped hfifo hgone
    rwa [hdrop, waiting_peeked] at ih
  case live =>
    intro s b rest _ hfifo hgone hexp
    have hdrop : gw.waiting now
          { (s.expel .expire now (gw.stale now s b.cls)).leave [b] with fifo := rest } =
        gw.waiting now ((s.expel .expire now (gw.stale now s b.cls)).leave [b]) :=
      waiting_dropped hfifo (LiveState.leave_gone (List.mem_singleton_self b) _)
    constructor
    · rw [LiveGateway.waiting, hfifo, List.filter_cons_of_pos (by simp [hgone, hexp])]
      rfl
    · rw [hdrop, waiting_leave, waiting_peeked]
      rfl

/-- STRICT takes the first bundle that waits in the highest class. -/
theorem strictLoop_takes (gw : LiveGateway) (now : ℚ) {s : LiveState} (h : Coherent s) :
    Returns (gw.strictLoop now rankClasses) s fun r s' => r = (byRank (gw.waiting now s)).head? ∧
      gw.waiting now s' = without (gw.waiting now s) r.toList := by
  refine (strictLoop_leaves gw now rankClasses s h).mono fun r s' h' => ?_
  obtain ⟨hr, vs, hvs, rfl⟩ := h'
  rw [byRank_waiting h, waiting_leave, waiting_expel _ _ fun v hv => (hvs v hv).2]
  exact ⟨hr, rfl⟩

end Orders

/-! ## WFQ -/

section Rounds

variable {gw : LiveGateway} {now : ℚ} {s : LiveState} {b : LiveBundle}

/-- The round robin takes the head of some class: it may come to another one before the deficit of
the class of `b` pays for `b`, but not run out of visits. -/
theorem wfqRounds_takes (hcls : b.cls ∈ wfqWeightClasses) (visits : ℕ) (h : Coherent s)
    (hturns : s.rr.Perm wfqWeightClasses) (hb : (gw.live now s b.cls).head? = some b)
    (haffords : Affords b visits s) :
    Returns (gw.wfqRounds now visits) s fun r s' => ∃ a, r = some a ∧
      (gw.live now s a.cls).head? = some a ∧
      gw.waiting now s' = without (gw.waiting now s) [a] := by
  have hrule : Returns (gw.wfqRounds now visits) s fun r s' =>
      (gw.live now s b.cls).head? = some b → Affords b visits s → ∃ a, r = some a ∧
        (gw.live now s a.cls).head? = some a ∧
        gw.waiting now s' = without (gw.waiting now s) [a] := by
    refine wfqRounds_rule (motive := fun visits s r s' =>
      (gw.live now s b.cls).head? = some b → Affords b visits s → ∃ a, r = some a ∧
        (gw.live now s a.cls).head? = some a ∧
        gw.waiting now s' = without (gw.waiting now s) [a]) ?exhausted ?idle ?short ?paid visits s h
      hturns
    case exhausted => exact fun s _ _ haffords => absurd haffords not_affords_zero
    case idle =>
      intro visits s c cs _ hturn hhead r s' ih hb haffords
      -- the class of `b` is not idle
      have hc : c ≠ b.cls := by
        rintro rfl
        rw [hb] at hhead
        cases hhead
      have hlater := (affords_passed hturn.front hc (hturn.behind _ hcls hc) 0).2 haffords
      rw [waiting_passed, live_passed] at ih
      exact ih hb hlater
    case short =>
      intro visits s c cs a h hturn hhead hshort r s' ih hb haffords
      rw [waiting_passed, live_passed] at ih
      refine ih hb ?_
      by_cases hc : c = b.cls
      · subst hc
        -- the head is `b`, and its class has saved up a quantum
        obtain rfl : a = b := Option.some.inj (hhead.symm.trans hb)
        exact (affords_saved hturn.front hturn.length hturn.notMem hshort).2 haffords
      · exact (affords_passed hturn.front hc (hturn.behind _ hcls hc) _).2 haffords
    case paid =>
      intro visits s c cs a h _ hhead _ _ _
      have ha : a.cls = c := live_cls h (List.mem_of_head? hhead)
      refine ⟨a, rfl, ha ▸ hhead, ?_⟩
      rw [waiting_leave]
      exact congrArg (without · [a]) (waiting_peeked gw now s c)
  exact hrule.mono fun r s' h' => h' hb haffords

/-- Ten thousand visits save up more than the largest packet takes. -/
theorem affords_packet (hturns : s.rr.Perm wfqWeightClasses) (hcls : b.cls ∈ wfqWeightClasses)
    (hcredit : 0 ≤ s.deficit b.cls) (hn : b.n ≤ 65735) : Affords b 10000 s := by
  have hindex : s.rr.idxOf b.cls < 3 := by
    have hlt := List.idxOf_lt_length_of_mem (hturns.mem_iff.2 hcls)
    rwa [hturns.length_eq] at hlt
  rw [affords_iff (by omega) (by omega)]
  have hweight : 1 ≤ wfqWeight b.cls := by
    cases hb : b.cls <;> simp_all [wfqWeightClasses, wfqWeight]
  have hturn : (3332 : ℚ) ≤ ((10000 - 1 - s.rr.idxOf b.cls) / 3 : ℕ) := by
    exact_mod_cast (by omega : 3332 ≤ (10000 - 1 - s.rr.idxOf b.cls) / 3)
  have hsize : (b.n : ℚ) ≤ 65735 := by exact_mod_cast hn
  have hquantum : wfqQuantum ≤ wfqQuantum * wfqWeight b.cls :=
    le_mul_of_one_le_right (by decide) hweight
  calc (b.n : ℚ)
      _ ≤ wfqQuantum * 3332 := hsize.trans (by norm_num [wfqQuantum])
      _ ≤ wfqQuantum * wfqWeight b.cls * ((10000 - 1 - s.rr.idxOf b.cls) / 3 : ℕ) := by
        refine mul_le_mul hquantum hturn (by norm_num) ?_
        exact (by decide : (0 : ℚ) ≤ wfqQuantum).trans hquantum
      _ ≤ s.deficit b.cls +
          wfqQuantum * wfqWeight b.cls * ((10000 - 1 - s.rr.idxOf b.cls) / 3 : ℕ) :=
        le_add_of_nonneg_left hcredit

/-- Where nothing is live in any class, nothing waits. -/
theorem waiting_eq_nil (h : Coherent s) (hnone : ∀ c, gw.live now s c = []) :
    gw.waiting now s = [] := by
  refine List.eq_nil_iff_forall_not_mem.2 fun b hb => ?_
  have hlive : b ∈ ofClass b.cls (gw.waiting now s) := mem_ofClass.2 ⟨hb, rfl⟩
  rw [ofClass_waiting h, hnone] at hlive
  cases hlive

/-- Where no EMERGENCY is live, the round robin takes what is. -/
theorem wfqNext_takes (hpolicy : gw.policy = .wfq) (h : Coherent s)
    (hturns : s.rr.Perm wfqWeightClasses) (hcredit : ∀ c ∈ wfqWeightClasses, 0 ≤ s.deficit c)
    (hsizes : ∀ b ∈ gw.waiting now s, b.n ≤ 65735) (hcalm : gw.live now s .emergency = []) :
    Returns (gw.wfqNext now) s fun r s' => Took gw now s r s' := by
  have hnodup : s.rr.Nodup := hturns.nodup_iff.2 wfqWeightClasses_nodup
  have hstale := staleOf_nodup h gw now hnodup
  have hcoh : Coherent (s.expel .expire now (gw.staleOf now s s.rr)) :=
    h.expel hstale.1 hstale.2
  have hexpired : ∀ v ∈ gw.staleOf now s s.rr, gw.expired now v = true := fun v hv =>
    expired_of_mem_staleOf hv
  have hwaiting : gw.waiting now (s.expel .expire now (gw.staleOf now s s.rr)) =
      gw.waiting now s := waiting_expel _ _ hexpired s
  have hlive : gw.live now (s.expel .expire now (gw.staleOf now s s.rr)) = gw.live now s :=
    live_expel _ _ hexpired s
  refine Returns.get_bind (Returns.ok_bind (backlogged_eq gw now s.rr s h hnodup) ?_)
  split
  · next hnone =>
      -- no class has a head
      have hnil : gw.waiting now s = [] := by
        refine waiting_eq_nil h fun c => ?_
        by_cases hc : c = .emergency
        · rw [hc, hcalm]
        · exact live_eq_nil_of_idle hnone (hturns.mem_iff.2 (mem_wfqWeightClasses.2 hc))
      refine Returns.modify_bind (Returns.pure ⟨?_, ?_⟩)
      · rw [hpolicy]
        exact hnil
      · exact hwaiting.trans (without_nil _).symm
  · next hsome =>
      obtain ⟨c, hc⟩ := List.exists_mem_of_ne_nil _ hsome
      obtain ⟨hc, hhead⟩ := List.mem_filter.1 hc
      obtain ⟨b, hb⟩ := Option.isSome_iff_exists.1 hhead
      have hmem := List.mem_of_head? hb
      obtain rfl := live_cls h hmem
      have hcls := hturns.mem_iff.1 hc
      have hwaits : b ∈ gw.waiting now s := by
        rw [← ofClass_waiting h] at hmem
        exact (mem_ofClass.1 hmem).1
      have haffords := affords_packet hturns hcls (hcredit _ hcls) (hsizes b hwaits)
      refine (wfqRounds_takes hcls 10000 hcoh hturns (hlive ▸ hb) haffords).mono
        fun r s' h' => ?_
      obtain ⟨a, rfl, ha, hleft⟩ := h'
      rw [hlive] at ha
      rw [hwaiting] at hleft
      refine ⟨?_, hleft⟩
      rw [hpolicy]
      exact ⟨ofClass_waiting h gw now a.cls ▸ ha, .inr (ofClass_waiting h gw now _ ▸ hcalm)⟩

end Rounds

/-! ## One call -/

section Calls

variable {gw : LiveGateway} {now : ℚ} {s : LiveState}

/-- `next` takes what its policy chooses out of what is waiting. -/
theorem next_takes (h : Coherent s) (hturns : s.rr.Perm wfqWeightClasses)
    (hcredit : gw.policy = .wfq → ∀ c ∈ wfqWeightClasses, 0 ≤ s.deficit c)
    (hsizes : ∀ b ∈ gw.waiting now s, b.n ≤ 65735) :
    Returns (gw.next now) s fun r s' => Took gw now s r s' := by
  cases hpolicy : gw.policy with
  | fifo =>
      rw [LiveGateway.next, if_pos hpolicy]
      refine Returns.get_bind ((fifoLoop_takes gw now h).mono fun r s' h' => ?_)
      exact ⟨by rw [hpolicy]; exact h'.1, h'.2⟩
  | strict =>
      rw [next_strict hpolicy]
      refine (strictLoop_takes gw now h).mono fun r s' h' => ⟨?_, h'.2⟩
      rw [hpolicy]
      exact h'.1
  | wfq =>
      rw [LiveGateway.next, if_neg (by simp [hpolicy]), if_neg (by simp [hpolicy])]
      refine Returns.ok_bind (head_eq h gw .emergency now) ?_
      cases hhead : (gw.live now s .emergency).head? with
      | some b =>
          -- an EMERGENCY preempts
          rw [Option.isSome_some, if_pos rfl]
          have hcls := live_cls h (List.mem_of_head? hhead)
          refine (take_waiting h hhead).bind fun taken s' h' => Returns.pure ?_
          obtain ⟨rfl, hleft⟩ := h'
          refine ⟨?_, hleft⟩
          rw [hpolicy]
          refine ⟨?_, .inl hcls⟩
          rw [hcls, ofClass_waiting h, hhead]
      | none =>
          rw [Option.isSome_none, if_neg Bool.false_ne_true]
          have hlive := live_peeked gw now s .emergency
          have hwaiting := waiting_peeked gw now s .emergency
          have hcalm : gw.live now s .emergency = [] := List.head?_eq_none_iff.1 hhead
          have hrest : Returns (gw.wfqNext now) (s.expel .expire now (gw.stale now s .emergency))
              fun r s' => Took gw now (s.expel .expire now (gw.stale now s .emergency)) r s' :=
            wfqNext_takes hpolicy (h.peeked gw now .emergency) hturns (hcredit hpolicy)
              (hwaiting ▸ hsizes) (hlive ▸ hcalm)
          exact hrest.mono fun r s' h' => ⟨hwaiting ▸ h'.choice, hwaiting ▸ h'.left⟩

end Calls

/-! ## Calls at one instant -/

/-- What `m` calls of `next` answer if `bs` is all that there is to return. -/
def poppedIn (m : ℕ) (bs : List LiveBundle) : List LiveAnswer :=
  (List.range m).map fun i => .popped bs[i]?

/-- What `next` needs to find its way, and leaves behind. -/
structure Drainable (gw : LiveGateway) (now : ℚ) (s : LiveState) : Prop where
  sound : ∃ hist, Sound gw hist now s
  steady : gw.policy = .wfq → ∃ admitted, Steady admitted s
  sizes : ∀ b ∈ gw.waiting now s, b.n ≤ 65735

section Instant

variable {gw : LiveGateway} {now : ℚ} {s s₁ s' : LiveState} {r : Option LiveBundle}

theorem poppedIn_succ (m : ℕ) (r : Option LiveBundle) (bs : List LiveBundle)
    (hr : r = none → bs = []) :
    poppedIn (m + 1) (r.toList ++ bs) = .popped r :: poppedIn m bs := by
  rw [poppedIn, List.range_succ_eq_map, List.map_cons, List.map_map]
  cases r with
  | none =>
      rw [hr rfl]
      rfl
  | some b => rfl

theorem serve_next {calls : List LiveCall} {answers : List LiveAnswer}
    (hnext : gw.next now s = .ok r s₁) (hserve : gw.serve calls s₁ = .ok answers s') :
    gw.serve (.next now :: calls) s = .ok (.popped r :: answers) s' := by
  have hexec : (LiveCall.next now).exec gw s = .ok (.popped r) s₁ := (bind_ok hnext).trans rfl
  exact (bind_ok hexec).trans ((bind_ok hserve).trans rfl)

/-- One call. -/
theorem Drainable.next (h : Drainable gw now s) :
    Returns (gw.next now) s fun r s' => Took gw now s r s' ∧ Drainable gw now s' := by
  obtain ⟨hist, hsound⟩ := h.sound
  have hcredit : gw.policy = .wfq → ∀ c ∈ wfqWeightClasses, 0 ≤ s.deficit c := by
    intro hpolicy c hc
    obtain ⟨admitted, hsteady⟩ := h.steady hpolicy
    exact (hsteady.credit c (hsteady.turns.mem_iff.2 hc)).1
  obtain ⟨r, s', hrun, htook⟩ := next_takes hsound.coherent hsound.turns hcredit h.sizes
  refine ⟨r, s', hrun, htook, ?_, fun hpolicy => ?_, fun b hb => h.sizes b ?_⟩
  · have hpopped := (next_spec hsound).ensures r s' hrun
    cases r with
    | none => exact ⟨hist, hpopped⟩
    | some b => exact ⟨_, hpopped.1⟩
  · obtain ⟨admitted, hsteady⟩ := h.steady hpolicy
    obtain ⟨moves, hmoves⟩ :=
      (next_turns hpolicy now hsteady.filed hsteady.turns).ensures r s' hrun
    exact ⟨admitted, hsteady.turned hmoves⟩
  · rw [htook.left] at hb
    exact (without_sublist _ _).subset hb

/-- Where nothing waits, nothing is returned. -/
theorem Drainable.drained : ∀ (m : ℕ) (s : LiveState), Drainable gw now s →
    gw.waiting now s = [] → ∃ s', gw.serve (List.replicate m (.next now)) s =
      .ok (poppedIn m []) s' ∧ Drainable gw now s' ∧ gw.waiting now s' = [] := by
  intro m
  induction m with
  | zero => exact fun s h hnil => ⟨s, rfl, h, hnil⟩
  | succ m ih =>
      intro s h hnil
      obtain ⟨r, s₁, hnext, htook, h₁⟩ := h.next
      obtain rfl : r = none := htook.choice.none_iff.2 hnil
      have hnil₁ : gw.waiting now s₁ = [] := by
        rw [htook.left, hnil]
        rfl
      obtain ⟨s', hserve, hlast⟩ := ih s₁ h₁ hnil₁
      refine ⟨s', ?_, hlast⟩
      rw [List.replicate_succ, serve_next hnext hserve]
      exact congrArg (EStateM.Result.ok · s') (poppedIn_succ m none [] fun _ => rfl).symm

/-- As many calls as there is something waiting empty the list, in the policy's order. -/
theorem Drainable.drains : ∀ (k : ℕ) (s : LiveState), Drainable gw now s →
    (gw.waiting now s).length = k → ∃ bs, Drains gw.policy (gw.waiting now s) bs ∧
      ∀ m, ∃ s', gw.serve (List.replicate m (.next now)) s = .ok (poppedIn m bs) s' ∧
        Drainable gw now s' ∧ (bs[m]? = none ↔ gw.waiting now s' = []) := by
  intro k
  induction k with
  | zero =>
      intro s h hlength
      have hnil := List.length_eq_zero_iff.1 hlength
      refine ⟨[], by rw [hnil]; exact .done, fun m => ?_⟩
      obtain ⟨s', hserve, h', hnil'⟩ := h.drained m s hnil
      exact ⟨s', hserve, h', iff_of_true rfl hnil'⟩
  | succ k ih =>
      intro s h hlength
      obtain ⟨hist, hsound⟩ := h.sound
      have hnodup := waiting_nodup hsound.coherent gw now
      obtain ⟨r, s₁, hnext, htook, h₁⟩ := h.next
      cases r with
      | none =>
          have hnil := htook.choice.none_iff.1 rfl
          rw [hnil] at hlength
          cases hlength
      | some b =>
          have hleft : gw.waiting now s₁ = without (gw.waiting now s) [b] := htook.left
          have hlength₁ : (gw.waiting now s₁).length = k := by
            have hsplit := (perm_append_without hnodup (List.nodup_singleton b)
              (by simpa using htook.choice.mem)).length_eq
            rw [hleft]
            simp only [List.singleton_append, List.length_cons] at hsplit
            omega
          obtain ⟨bs, hdrains, hserves⟩ := ih s₁ h₁ hlength₁
          refine ⟨b :: bs, .pop htook.choice (hleft ▸ hdrains), fun m => ?_⟩
          cases m with
          | zero =>
              refine ⟨s, rfl, h, iff_of_false (by simp) fun hnil => ?_⟩
              rw [hnil] at hlength
              cases hlength
          | succ m =>
              obtain ⟨s', hserve, hlast⟩ := hserves m
              refine ⟨s', ?_, hlast⟩
              rw [List.replicate_succ, serve_next hnext hserve]
              exact congrArg (EStateM.Result.ok · s')
                (poppedIn_succ m (some b) bs (by simp)).symm

end Instant

/-! ## Reachable states -/

/-- The bundles among `admitted` that a state still queues unexpired. -/
def LiveGateway.backlog (gw : LiveGateway) (now : ℚ) (admitted : List LiveBundle)
    (s : LiveState) : List LiveBundle :=
  admitted.filter fun b => decide (b ∈ s.queued) && !gw.expired now b

section Reachable

variable {calls : List LiveCall} {answers : List LiveAnswer} {now : ℚ}

/-- Whatever has been admitted was admitted by a call. -/
theorem mem_admittedBy {b : LiveBundle} (hb : b ∈ admittedBy calls answers) :
    ∃ ts, LiveCall.admitBundle b ts ∈ calls := by
  have hoffered := (admittedBy_sublist calls answers).subset hb
  obtain ⟨call, hcall, hsome⟩ := List.mem_filterMap.1 hoffered
  cases call with
  | next ts => cases hsome
  | admitBundle b' ts =>
      cases hsome
      exact ⟨ts, hcall⟩

/-- A reachable state in which no bundle is larger than a packet can be. -/
theorem Admissible.drainable (gw : LiveGateway) (h : Admissible calls)
    (hnow : ∀ call ∈ calls, call.now ≤ now) :
    Returns (gw.serve calls) .initial fun answers s => (∀ b ∈ s.queued, b.n ≤ 65735) →
      Drainable gw now s ∧ gw.waiting now s = gw.backlog now (admittedBy calls answers) s := by
  obtain ⟨start, hready⟩ := h.ready
  obtain ⟨answers, s, hserve, ⟨later, hlater⟩, -⟩ :=
    serve_spec calls _ start _ hready (Sound.initial gw start)
  refine ⟨answers, s, hserve, fun hsizes => ?_⟩
  have hcoh := hlater.coherent
  have hfifo : s.fifo.Sublist (admittedBy calls answers) := hlater.admitted
  -- no bundle is younger than the call that brought it
  have hpast : ∀ b ∈ s.fifo, b.t ≤ now := by
    intro b hb
    obtain ⟨ts, hcall⟩ := mem_admittedBy (hfifo.subset hb)
    rw [h.stamped b ts hcall]
    exact hnow _ hcall
  refine ⟨⟨⟨_, { hlater with past := hpast }⟩, fun hpolicy => ?_, fun b hb => ?_⟩, ?_⟩
  · exact ⟨_, ((LiveState.initial_steady.serve hpolicy calls).ensures answers s hserve).1⟩
  · exact hsizes b ((mem_waiting hcoh).1 hb).1
  · have hnodup : (admittedBy calls answers).Nodup :=
      (h.fresh.of_map (f := LiveBundle.ref)).sublist (admittedBy_sublist calls answers)
    refine eq_filter_of_sublist hnodup (List.filter_sublist.trans hfifo) fun b _ => ?_
    rw [mem_waiting hcoh]
    simp

end Reachable

/-- In every reachable state in which no queued bundle is larger than a packet can be, calls of
`next` at one instant return the unexpired bundles that are queued, each once and in the order of
the policy, and after that nothing; so nothing is returned only where no unexpired bundle is
queued. -/
theorem drains_backlog_in_order (gw : LiveGateway) {calls : List LiveCall} (h : Admissible calls)
    {now : ℚ} (hnow : ∀ call ∈ calls, call.now ≤ now) :
    ∃ answers s, gw.serve calls .initial = .ok answers s ∧
      ((∀ b ∈ s.queued, b.n ≤ 65735) → ∃ bs : List LiveBundle, bs.Nodup ∧
        (∀ b, b ∈ bs ↔ b ∈ s.queued ∧ gw.expired now b = false) ∧
        InPolicyOrder gw.policy (gw.backlog now (admittedBy calls answers) s) bs ∧
        ∀ m, ∃ s', gw.serve (List.replicate m (.next now)) s = .ok (poppedIn m bs) s' ∧
          (bs[m]? = none ↔ ∀ b ∈ s'.queued, gw.expired now b = true)) := by
  obtain ⟨answers, s, hserve, hstate⟩ := h.drainable gw hnow
  refine ⟨answers, s, hserve, fun hsizes => ?_⟩
  obtain ⟨hdrainable, hbacklog⟩ := hstate hsizes
  obtain ⟨hist, hsound⟩ := hdrainable.sound
  have hnodup := waiting_nodup hsound.coherent gw now
  obtain ⟨bs, hdrains, hserves⟩ := hdrainable.drains _ s rfl
  have hperm := hdrains.perm hnodup
  refine ⟨bs, hperm.nodup_iff.2 hnodup, fun b => ?_, ?_, fun m => ?_⟩
  · rw [hperm.mem_iff, mem_waiting hsound.coherent]
  · rw [← hbacklog]
    exact hdrains.inPolicyOrder hnodup
  · obtain ⟨s', hserve', ⟨⟨hist', hsound'⟩, -, -⟩, hempty⟩ := hserves m
    refine ⟨s', hserve', hempty.trans ?_⟩
    rw [List.eq_nil_iff_forall_not_mem]
    refine forall_congr' fun b => ?_
    rw [mem_waiting hsound'.coherent]
    simp

/-- At 11 the clip has expired. -/
def Small.burst : List LiveCall :=
  [.admitBundle { ref := 0, cls := .media, n := 100, t := 0 } 0,
    .admitBundle { ref := 1, cls := .scienceBulk, n := 400, t := 5 } 5,
    .admitBundle { ref := 2, cls := .media, n := 200, t := 6 } 6,
    .admitBundle { ref := 3, cls := .emergency, n := 200, t := 7 } 7]

theorem Small.burst_admissible : Admissible Small.burst where
  monotone := by decide +kernel
  fresh := by decide +kernel
  stamped b now hb := by
    simp only [Small.burst, List.mem_cons, LiveCall.admitBundle.injEq, List.not_mem_nil,
      or_false] at hb
    rcases hb with ⟨rfl, rfl⟩ | ⟨rfl, rfl⟩ | ⟨rfl, rfl⟩ | ⟨rfl, rfl⟩ <;> rfl

theorem drains_backlog_in_order_small :
    ∃ answers s, (Small.gateway .wfq).serve Small.burst .initial = .ok answers s ∧
      ((∀ b ∈ s.queued, b.n ≤ 65735) → ∃ bs : List LiveBundle, bs.Nodup ∧
        (∀ b, b ∈ bs ↔ b ∈ s.queued ∧ (Small.gateway .wfq).expired 11 b = false) ∧
        InPolicyOrder .wfq ((Small.gateway .wfq).backlog 11 (admittedBy Small.burst answers) s) bs ∧
        ∀ m, ∃ s', (Small.gateway .wfq).serve (List.replicate m (.next 11)) s =
            .ok (poppedIn m bs) s' ∧
          (bs[m]? = none ↔ ∀ b ∈ s'.queued, (Small.gateway .wfq).expired 11 b = true)) :=
  drains_backlog_in_order _ Small.burst_admissible (by decide +kernel)

end LinkController
end LunaBridge
