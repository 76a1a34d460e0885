import LunaBridge.Live.View
import LunaBridge.Scheduling.Ample

/-!
# Expiry — three verdicts on one bundle

A bundle that is alone in the buffer is returned by the live gateway unless it is older than its
lifetime or the round robin runs out of visits (`next_alone`).  The offline scheduler and the
predictor do without the second exception, and give up the bundle as soon as it is as old as its
lifetime.
-/

namespace LunaBridge
namespace LinkController

open Foundation.Machine Foundation.Selection Foundation.Python Gateway

/-! ## A bundle alone in the buffer -/

section Alone

variable {gw : LiveGateway} {hist : History} {now : ℚ} {s : LiveState} {b : LiveBundle}

theorem Coherent.q_alone (h : Coherent s) (halone : s.queued = [b]) : s.q b.cls = [b] := by
  have hmem : b ∈ s.q b.cls := by
    have hqueued : b ∈ s.queued := halone ▸ List.mem_singleton_self b
    exact h.mem_q.2 ⟨(h.mem_queued.1 hqueued).1, (h.mem_queued.1 hqueued).2, rfl⟩
  refine List.perm_singleton.1 ((List.perm_ext_iff_of_nodup (h.q_nodup _)
    (List.nodup_singleton b)).2 fun a => ?_)
  constructor
  · intro ha
    exact halone ▸ h.q_subset_queued ha
  · intro ha
    rwa [List.mem_singleton.1 ha]

theorem Coherent.q_others (h : Coherent s) (halone : s.queued = [b]) {c : TrafficClass}
    (hc : c ≠ b.cls) : s.q c = [] := by
  refine List.eq_nil_iff_forall_not_mem.2 fun a ha => hc ?_
  have hab : a = b := List.mem_singleton.1 (halone ▸ h.q_subset_queued ha)
  rw [← hab, (h.mem_q.1 ha).2.2]

/-- The first bundle of the global order that is not gone is the only one queued. -/
theorem Coherent.first_alone {a : LiveBundle} {rest : List LiveBundle} (h : Coherent s)
    (halone : s.queued = [b]) (hfifo : s.fifo = a :: rest) (hgone : ¬ s.gone a = true) : a = b := by
  have hqueued : a ∈ s.queued :=
    h.mem_queued.2 ⟨hfifo ▸ List.mem_cons_self .., by simpa using hgone⟩
  exact List.mem_singleton.1 (halone ▸ hqueued)

/-- It is the live bundle of its class. -/
theorem live_alone (h : Coherent s) (halone : s.queued = [b]) (halive : now - b.t ≤ gw.L b.cls) :
    gw.live now s b.cls = [b] := by
  have hexp : gw.expired now b = false := decide_eq_false (not_lt.2 halive)
  simp [LiveGateway.live, h.q_alone halone, hexp]

/-- Nothing has expired. -/
theorem stale_alone (h : Coherent s) (halone : s.queued = [b]) (halive : now - b.t ≤ gw.L b.cls)
    {c : TrafficClass} : gw.stale now s c = [] := by
  have hexp : gw.expired now b = false := decide_eq_false (not_lt.2 halive)
  by_cases hc : c = b.cls
  · simp [hc, LiveGateway.stale, h.q_alone halone, hexp]
  · simp [LiveGateway.stale, h.q_others halone hc]

/-- No other bundle is the head of a class. -/
theorem head_is_alone {a : LiveBundle} {c : TrafficClass} (h : Coherent s)
    (halone : s.queued = [b]) (hhead : (gw.live now s c).head? = some a) : a = b ∧ a.cls = c := by
  have hmem := (mem_live.1 (List.mem_of_head? hhead)).1
  exact ⟨List.mem_singleton.1 (halone ▸ h.q_subset_queued hmem), (h.mem_q.1 hmem).2.2⟩

/-- Its class has a head. -/
theorem head_alone (h : Coherent s) (halone : s.queued = [b]) (halive : now - b.t ≤ gw.L b.cls) :
    gw.head b.cls now s = .ok (some b) s := by
  rw [head_eq h, live_alone h halone halive, stale_alone h halone halive, LiveState.expel_nil]
  rfl

/-- No other class has one. -/
theorem head_others (h : Coherent s) (halone : s.queued = [b]) {c : TrafficClass}
    (hc : c ≠ b.cls) : gw.head c now s = .ok none s := by
  have hlive : gw.live now s c = [] := by simp [LiveGateway.live, h.q_others halone hc]
  have hstale : gw.stale now s c = [] := by simp [LiveGateway.stale, h.q_others halone hc]
  rw [head_eq h, hlive, hstale, LiveState.expel_nil]
  rfl

theorem take_alone (h : Coherent s) (halone : s.queued = [b]) :
    LiveGateway.take b.cls s = .ok b (s.leave [b]) :=
  take_eq h (by rw [h.q_alone halone]; rfl)

/-! ## One policy after the other -/

/-- FIFO skips what is gone and comes to the bundle. -/
theorem fifoLoop_alone (h : Coherent s) (halone : s.queued = [b])
    (halive : now - b.t ≤ gw.L b.cls) :
    Returns (gw.fifoLoop now s.fifo) s fun r _ => r = some b := by
  have hrule : Returns (gw.fifoLoop now s.fifo) s fun r _ =>
      Coherent s → s.queued = [b] → r = some b := by
    refine fifoLoop_rule (motive := fun s r _ => Coherent s → s.queued = [b] → r = some b)
      ?nil ?gone ?expired ?live s h
    case nil =>
      -- the bundle is still in the global order, so the loop does not run dry
      intro s hfifo h halone
      have hmem := (h.mem_queued.1 (halone ▸ List.mem_singleton_self b)).1
      rw [hfifo] at hmem
      cases hmem
    case gone =>
      intro s a rest h hfifo hgone r _ ih _ halone
      exact ih (h.dropGone hfifo hgone) halone
    case expired =>
      intro s a rest h hfifo hgone hexp _ r _ _ _ halone
      obtain rfl := h.first_alone halone hfifo hgone
      exact absurd (of_decide_eq_true hexp) (not_lt.2 halive)
    case live =>
      intro s a rest h hfifo hgone _ _ halone
      rw [h.first_alone halone hfifo hgone]
  exact hrule.mono fun r _ h' => h' h halone

theorem strictLoop_alone (h : Coherent s) (halone : s.queued = [b])
    (halive : now - b.t ≤ gw.L b.cls) :
    Returns (gw.strictLoop now rankClasses) s fun r _ => r = some b := by
  have hexp : gw.expired now b = false := decide_eq_false (not_lt.2 halive)
  have hview : rankClasses.flatMap (gw.view now s) = [b] := by
    calc rankClasses.flatMap (gw.view now s)
        _ = s.queued.filter fun a => !gw.expired now a := by
          rw [LiveState.queued, List.filter_flatMap]
          rfl
        _ = [b] := by simp [halone, hexp]
  refine (strictLoop_view gw now rankClasses h).mono fun r _ h' => ?_
  rw [h'.1, hview]
  rfl

/-- An EMERGENCY preempts. -/
theorem emergency_alone (h : Coherent s) (halone : s.queued = [b])
    (halive : now - b.t ≤ gw.L b.cls) (hcls : b.cls = .emergency) (hpolicy : gw.policy ≠ .fifo) :
    Returns (gw.next now) s fun r _ => r = some b := by
  have hhead := head_alone h halone halive
  have htake := take_alone h halone
  rw [hcls] at hhead htake
  rw [LiveGateway.next, if_neg hpolicy]
  refine Returns.ok_bind hhead ?_
  rw [Option.isSome_some, if_pos rfl]
  exact Returns.ok_bind htake (Returns.pure rfl)

/-- The classes with a head are those of the bundle. -/
theorem backlogged_alone (h : Coherent s) (halone : s.queued = [b])
    (halive : now - b.t ≤ gw.L b.cls) (cs : List TrafficClass) :
    gw.backlogged now cs s = .ok (cs.filter fun c => decide (c = b.cls)) s := by
  induction cs with
  | nil => rfl
  | cons c cs ih =>
      rw [LiveGateway.backlogged]
      by_cases hc : c = b.cls
      · subst hc
        rw [bind_ok (head_alone h halone halive), bind_ok ih,
          List.filter_cons_of_pos (by simp)]
        rfl
      · rw [bind_ok (head_others h halone hc), bind_ok ih, List.filter_cons_of_neg (by simpa)]
        rfl

end Alone

/-! ## Deficit round robin -/

/-- In one of the next `visits` visits the deficit of its class pays for `b`: the class has every
third turn, and gains a quantum in each that does not suffice. -/
def Affords (b : LiveBundle) (visits : ℕ) (s : LiveState) : Prop :=
  ∃ j < (visits + 2 - s.rr.idxOf b.cls) / 3,
    (b.n : ℚ) ≤ s.deficit b.cls + wfqQuantum * wfqWeight b.cls * j

section Visits

variable {gw : LiveGateway} {hist : History} {now : ℚ} {s : LiveState} {b : LiveBundle}
  {c : TrafficClass} {cs : List TrafficClass} {visits : ℕ}

theorem wfqWeight_nonneg (c : TrafficClass) : 0 ≤ wfqWeight c := by
  cases c <;> decide

/-- What counts is the deficit in the last of its turns. -/
theorem affords_iff (hturns : s.rr.idxOf b.cls ≤ visits - 1) (hvisits : 0 < visits) :
    Affords b visits s ↔ (b.n : ℚ) ≤ s.deficit b.cls +
      wfqQuantum * wfqWeight b.cls * ((visits - 1 - s.rr.idxOf b.cls) / 3 : ℕ) := by
  have hlast : (visits + 2 - s.rr.idxOf b.cls) / 3 =
      (visits - 1 - s.rr.idxOf b.cls) / 3 + 1 := by omega
  constructor
  · rintro ⟨j, hj, hn⟩
    have hle : (j : ℚ) ≤ ((visits - 1 - s.rr.idxOf b.cls) / 3 : ℕ) := by
      exact_mod_cast (by omega : j ≤ (visits - 1 - s.rr.idxOf b.cls) / 3)
    have hgain : 0 ≤ wfqQuantum * wfqWeight b.cls :=
      mul_nonneg (by decide) (wfqWeight_nonneg b.cls)
    exact hn.trans (add_le_add_right (mul_le_mul_of_nonneg_left hle hgain) _)
  · exact fun hn => ⟨_, by omega, hn⟩

theorem not_affords_zero : ¬ Affords b 0 s := by
  rintro ⟨j, hj, -⟩
  omega

theorem affords_of_le (hrr : s.rr = b.cls :: cs) (h : (b.n : ℚ) ≤ s.deficit b.cls) :
    Affords b (visits + 1) s := by
  refine ⟨0, ?_, by simpa using h⟩
  rw [hrr, List.idxOf_cons_self]
  omega

/-- A turn that does not suffice. -/
theorem affords_saved (hrr : s.rr = b.cls :: cs) (hcs : cs.length = 2) (hnot : b.cls ∉ cs)
    (hshort : ¬ (b.n : ℚ) ≤ s.deficit b.cls) :
    Affords b visits { s with
      deficit := Function.update s.deficit b.cls
        (s.deficit b.cls + wfqQuantum * wfqWeight b.cls)
      rr := cs ++ [b.cls] } ↔ Affords b (visits + 1) s := by
  have hback : (cs ++ [b.cls]).idxOf b.cls = 2 := by
    rw [List.idxOf_append_of_notMem hnot, hcs]
    simp
  simp only [Affords, hback, hrr, List.idxOf_cons_self, Function.update_self]
  constructor
  · rintro ⟨j, hj, hn⟩
    refine ⟨j + 1, by omega, ?_⟩
    push_cast
    linarith
  · rintro ⟨j, hj, hn⟩
    cases j with
    | zero => exact absurd (by simpa using hn) hshort
    | succ j =>
        refine ⟨j, by omega, ?_⟩
        push_cast at hn
        linarith

/-- The turn of another class. -/
theorem affords_passed (hrr : s.rr = c :: cs) (hc : c ≠ b.cls) (hmem : b.cls ∈ cs) (value : ℚ) :
    Affords b visits { s with deficit := Function.update s.deficit c value, rr := cs ++ [c] } ↔
      Affords b (visits + 1) s := by
  have hfront : (cs ++ [c]).idxOf b.cls = cs.idxOf b.cls := List.idxOf_append_of_mem hmem
  have hvisits : visits + 1 + 2 - (cs.idxOf b.cls).succ = visits + 2 - cs.idxOf b.cls := by omega
  simp only [Affords, hfront, hrr, Function.update_of_ne hc.symm, List.idxOf_cons_ne _ hc, hvisits]

/-- The round robin returns the bundle if a turn of its class comes in which the deficit pays for
it, and nothing otherwise. -/
theorem wfqRounds_alone (halive : now - b.t ≤ gw.L b.cls) (hcls : b.cls ∈ wfqWeightClasses)
    (visits : ℕ) (h : Coherent s) (hturns : s.rr.Perm wfqWeightClasses)
    (halone : s.queued = [b]) :
    Returns (gw.wfqRounds now visits) s fun r _ => r = some b ↔ Affords b visits s := by
  have hrule : Returns (gw.wfqRounds now visits) s fun r _ =>
      s.queued = [b] → (r = some b ↔ Affords b visits s) := by
    refine wfqRounds_rule
      (motive := fun visits s r _ => s.queued = [b] → (r = some b ↔ Affords b visits s))
      ?exhausted ?idle ?short ?paid visits s h hturns
    case exhausted => exact fun s _ _ => iff_of_false (by simp) not_affords_zero
    case idle =>
      -- the turn of an idle class
      intro visits s c cs h hturn hhead r _ ih halone
      have hc : c ≠ b.cls := by
        rintro rfl
        rw [live_alone h halone halive] at hhead
        cases hhead
      rw [stale_alone h halone halive, LiveState.expel_nil] at ih
      exact (ih halone).trans (affords_passed hturn.front hc (hturn.behind _ hcls hc) 0)
    case short =>
      -- the turn of its class: the deficit grows by a quantum
      intro visits s c cs a h hturn hhead hshort r _ ih halone
      obtain ⟨rfl, rfl⟩ := head_is_alone h halone hhead
      rw [stale_alone h halone halive, LiveState.expel_nil] at ih
      exact (ih halone).trans (affords_saved hturn.front hturn.length hturn.notMem hshort)
    case paid =>
      -- or pays for the bundle
      intro visits s c cs a h hturn hhead hpays halone
      obtain ⟨rfl, rfl⟩ := head_is_alone h halone hhead
      exact iff_of_true rfl (affords_of_le hturn.front hpays)
  exact hrule.mono fun r _ h' => h' halone

/-- Whether the policy gets round to the bundle: under WFQ a bundle below EMERGENCY may be larger
than what ten thousand visits save up for it. -/
def LiveGateway.WithinReach (gw : LiveGateway) (b : LiveBundle) (s : LiveState) : Prop :=
  gw.policy ≠ .wfq ∨ b.cls = .emergency ∨ (b.n : ℚ) ≤ s.deficit b.cls +
    wfqQuantum * wfqWeight b.cls * ((9999 - s.rr.idxOf b.cls) / 3 : ℕ)

/-- Alone in the buffer and within its lifetime, a bundle is returned if it is within reach. -/
theorem next_alive (h : Sound gw hist now s) (halone : s.queued = [b])
    (halive : now - b.t ≤ gw.L b.cls) :
    Returns (gw.next now) s fun r _ => r = some b ↔ gw.WithinReach b s := by
  cases hpolicy : gw.policy with
  | fifo =>
      rw [LiveGateway.next, if_pos hpolicy]
      refine Returns.get_bind
        ((fifoLoop_alone h.coherent halone halive).mono fun r _ hr => ?_)
      exact iff_of_true hr (.inl (by simp [hpolicy]))
  | strict =>
      rw [next_strict hpolicy]
      refine (strictLoop_alone h.coherent halone halive).mono fun r _ hr => ?_
      exact iff_of_true hr (.inl (by simp [hpolicy]))
  | wfq =>
      by_cases hcls : b.cls = .emergency
      · refine (emergency_alone h.coherent halone halive hcls (by simp [hpolicy])).mono
          fun r _ hr => ?_
        exact iff_of_true hr (.inr (.inl hcls))
      · have hmem : b.cls ∈ wfqWeightClasses := mem_wfqWeightClasses.2 hcls
        have hindex : s.rr.idxOf b.cls < 3 := by
          have hlt := List.idxOf_lt_length_of_mem (h.turns.mem_iff.2 hmem)
          rw [h.turns.length_eq] at hlt
          exact hlt
        have hreach : Affords b 10000 s ↔ gw.WithinReach b s := by
          rw [affords_iff (by omega) (by omega), LiveGateway.WithinReach]
          simp [hpolicy, hcls]
        rw [LiveGateway.next, if_neg (by simp [hpolicy])]
        refine Returns.ok_bind (head_others h.coherent halone (Ne.symm hcls)) ?_
        rw [if_neg (by simp), if_neg (by simp [hpolicy])]
        refine Returns.get_bind ?_
        refine Returns.ok_bind (backlogged_alone h.coherent halone halive s.rr) ?_
        have hwaiting : s.rr.filter (fun c => decide (c = b.cls)) ≠ [] := by
          refine List.ne_nil_of_mem (a := b.cls) (List.mem_filter.2 ⟨h.turns.mem_iff.2 hmem, ?_⟩)
          simp
        rw [if_neg hwaiting]
        exact (wfqRounds_alone halive hmem 10000 h.coherent h.turns halone).mono
          fun r _ hr => hr.trans hreach

/-- What becomes of a bundle alone in the buffer. -/
theorem next_alone (h : Sound gw hist now s) (halone : s.queued = [b]) :
    (∃ s', gw.next now s = .ok (some b) s') ↔ now - b.t ≤ gw.L b.cls ∧ gw.WithinReach b s := by
  by_cases halive : now - b.t ≤ gw.L b.cls
  · obtain ⟨r, s', hrun, hr⟩ := next_alive h halone halive
    rw [hrun]
    constructor
    · rintro ⟨s'', heq⟩
      cases heq
      exact ⟨halive, hr.1 rfl⟩
    · exact fun hreach => ⟨s', by rw [hr.2 hreach.2]⟩
  · refine iff_of_false ?_ fun hboth => halive hboth.1
    rintro ⟨s', heq⟩
    -- what is returned is within its lifetime
    obtain ⟨r, s'', hrun, hr⟩ := next_spec h
    rw [heq] at hrun
    cases hrun
    exact halive hr.2

end Visits

/-! ## The offline scheduler and the predictor -/

/-- The record of a live bundle in the offline scheduler. -/
def LiveBundle.record (b : LiveBundle) (bundleId flowId : String) (L : ℚ) : Bundle :=
  Bundle.setTtl { bundleId := bundleId
                  flowId := flowId
                  trafficClass := b.cls
                  sizeBytes := b.n
                  ingressTs := b.t } (some L)

section Offline

variable {b : LiveBundle} {bundleId flowId : String} {L : ℚ} {sch : Scheduler}
  {w : ContactWindow}

/-- The offline scheduler delivers the only bundle of a run if its first contact opens before the
bundle is as old as its lifetime. -/
theorem record_delivered_iff (hn : 0 < b.n)
    (hfirst : sch.plan.firstContact (b.record bundleId flowId L) = some w)
    (hbudget : (b.n : ℚ) * 8 ≤ w.rawBitBudget) (hcap : (b.n : ℚ) ≤ sch.maxQueueBytes) (clock : ℚ) :
    (∃ s', run sch clock [b.record bundleId flowId L] (SchedulerState.fresh fun _ => {}) =
        .ok ⟨⟩ s' ∧ (s'.records (b.record bundleId flowId L)).terminalState = .delivered) ↔
      w.startTs - b.t < L := by
  have hbytes : totalBytes [b.record bundleId flowId L] = b.n := by
    simp [totalBytes, LiveBundle.record, Bundle.setTtl]
  have hload : Foundation.GreedyFill.load Bundle.bits [b.record bundleId flowId L] =
      (b.n : ℚ) * 8 := by
    rw [load_bits, hbytes]
    simp
  have hroom : Roomy sch [b.record bundleId flowId L] := by
    refine ⟨?_, fun v hv => ?_⟩
    · rw [hbytes]
      exact_mod_cast hcap
    · by_cases hvw : v = w
      · subst hvw
        rw [List.filter_cons_of_pos (by simp [hfirst]), List.filter_nil, hload]
        exact hbudget
      · rw [List.filter_cons_of_neg (by simp [hfirst, Ne.symm hvw]), List.filter_nil]
        exact v.rawBitBudget_pos.le
  have hvalid : Valid [b.record bundleId flowId L] (fun _ => {}) :=
    ⟨by simp, by simpa [LiveBundle.record, Bundle.setTtl] using hn,
      by simp [LiveBundle.record, Bundle.setTtl], fun _ _ => rfl⟩
  obtain ⟨_, s', hrun, hrecord⟩ := run_outcome clock hroom hvalid
    (SchedulerState.fresh_idle _) (SchedulerState.fresh_inCredit _)
  have hdeadline : (b.record bundleId flowId L).deadline = b.t + L := rfl
  have hdelivered : (s'.records (b.record bundleId flowId L)).terminalState = .delivered ↔
      w.startTs - b.t < L := by
    rw [hrecord _ (List.mem_singleton_self _), outcome_delivered_iff, hfirst]
    simp only [Option.some.injEq, exists_eq_left', hdeadline, sub_lt_iff_lt_add']
  rw [← hdelivered, hrun]
  constructor
  · rintro ⟨s'', heq, hs''⟩
    cases heq
    exact hs''
  · exact fun hs' => ⟨s', rfl, hs'⟩

theorem predictOne_iff (hL : 0 < L) (ht : b.t < w.endTs) :
    predictOne b.t [(w.startTs, w.endTs)] L = true ↔ w.startTs - b.t < L := by
  have hpredict := predictOne_eq_true_iff (t := b.t) hL [w]
  rw [List.map_singleton] at hpredict
  rw [hpredict, List.find?_cons_of_pos (by simpa using ht)]
  simp only [Option.some.injEq, exists_eq_left', sub_lt_iff_lt_add']

end Offline

/-! ## Agreement -/

/-- With a bundle alone in the buffer and a contact with room for it, the live gateway returns the
bundle exactly if the offline scheduler delivers it, and exactly if the predictor says so, if and
only if the bundle is within reach where the contact opens before the lifetime is over, and is not
where it opens at that very instant. -/
theorem expiry_agrees_iff {gw : LiveGateway} {hist : History} {now : ℚ} {s : LiveState}
    {b : LiveBundle} (h : Sound gw hist now s) (halone : s.queued = [b]) (hL : 0 < gw.L b.cls)
    (hn : 0 < b.n) {sch : Scheduler} {bundleId flowId : String} {w : ContactWindow}
    (hfirst : sch.plan.firstContact (b.record bundleId flowId (gw.L b.cls)) = some w)
    (hnow : now ≤ w.startTs) (hbudget : (b.n : ℚ) * 8 ≤ w.rawBitBudget)
    (hcap : (b.n : ℚ) ≤ sch.maxQueueBytes) (clock : ℚ) :
    (((∃ s', gw.next w.startTs s = .ok (some b) s') ↔
        ∃ s', run sch clock [b.record bundleId flowId (gw.L b.cls)]
          (SchedulerState.fresh fun _ => {}) = .ok ⟨⟩ s' ∧
            (s'.records (b.record bundleId flowId (gw.L b.cls))).terminalState = .delivered) ∧
      ((∃ s', gw.next w.startTs s = .ok (some b) s') ↔
        predictOne b.t [(w.startTs, w.endTs)] (gw.L b.cls) = true)) ↔
      (w.startTs - b.t < gw.L b.cls → gw.WithinReach b s) ∧
        (w.startTs - b.t = gw.L b.cls → ¬ gw.WithinReach b s) := by
  have hended : b.t < w.endTs := (ContactPlan.firstContact_mem hfirst).2
  rw [next_alone (h.mono hnow) halone, record_delivered_iff hn hfirst hbudget hcap,
    predictOne_iff hL hended, and_self]
  rcases lt_trichotomy (w.startTs - b.t) (gw.L b.cls) with hlt | heq | hgt
  · simp [hlt, hlt.le, hlt.ne]
  · simp [heq]
  · simp [not_le.2 hgt, not_lt.2 hgt.le, hgt.ne']

/-- Arrives ten seconds before the window opens, with a lifetime of ten seconds. -/
def Small.probe : LiveBundle := { ref := 4, cls := .telemetry, n := 100, t := 0 }

theorem expiry_agrees_iff_small :
    (((∃ s', (Small.gateway .strict).next 10 (LiveState.initial.enqueued Small.beacon) =
          .ok (some Small.beacon) s') ↔
        ∃ s', run Gateway.Small.scheduler 0 [Small.beacon.record "beacon" "beacon" 10]
          (SchedulerState.fresh fun _ => {}) = .ok ⟨⟩ s' ∧
            (s'.records (Small.beacon.record "beacon" "beacon" 10)).terminalState = .delivered) ∧
      ((∃ s', (Small.gateway .strict).next 10 (LiveState.initial.enqueued Small.beacon) =
          .ok (some Small.beacon) s') ↔ predictOne 4 [(10, 20)] 10 = true)) ↔
      ((10 : ℚ) - 4 < 10 →
          (Small.gateway .strict).WithinReach Small.beacon
            (LiveState.initial.enqueued Small.beacon)) ∧
        ((10 : ℚ) - 4 = 10 → ¬ (Small.gateway .strict).WithinReach Small.beacon
          (LiveState.initial.enqueued Small.beacon)) := by
  have hsound : Sound (Small.gateway .strict) ⟨[Small.beacon], [Small.beacon], []⟩ 4
      (LiveState.initial.enqueued Small.beacon) :=
    (Sound.initial (Small.gateway .strict) 4).enqueue (by simp) rfl (by decide)
  have hfirst : Gateway.Small.scheduler.plan.firstContact
      (Small.beacon.record "beacon" "beacon" 10) = some Gateway.Small.window := by
    decide +kernel
  exact expiry_agrees_iff hsound (by decide) (by decide) (by decide) hfirst (by decide +kernel)
    (by decide +kernel) (by decide +kernel) 0

/-- What a new gateway answers. -/
def LiveGateway.answers (gw : LiveGateway) (calls : List LiveCall) : Option (List LiveAnswer) :=
  match gw.serve calls .initial with
  | .ok answers _ => some answers
  | .error _ _ => none

theorem serve_of_answers {gw : LiveGateway} {calls : List LiveCall} {answers : List LiveAnswer}
    (h : gw.answers calls = some answers) : ∃ s, gw.serve calls .initial = .ok answers s := by
  rw [LiveGateway.answers] at h
  split at h
  · next answers' s hrun =>
      cases h
      exact ⟨s, hrun⟩
  · cases h

/-- At the very instant at which its lifetime is over the live gateway still returns the bundle;
offline it has expired, and the predictor gives it up. -/
theorem probe_outlives_record :
    (∃ s, (Small.gateway .strict).serve [.admitBundle Small.probe 0, .next 10] .initial =
        .ok [.admitted true, .popped (some Small.probe)] s) ∧
      (∃ s', run Gateway.Small.scheduler 0 [Small.probe.record "probe" "probe" 10]
          (SchedulerState.fresh fun _ => {}) = .ok ⟨⟩ s' ∧
        (s'.records (Small.probe.record "probe" "probe" 10)).terminalState = .ttlExpired) ∧
      predictOne 0 [(10, 20)] 10 = false := by
  refine ⟨serve_of_answers (by decide +kernel), ?_, by decide +kernel⟩
  have hrec : recordAfter (Small.probe.record "probe" "probe" 10) (run Gateway.Small.scheduler 0
      [Small.probe.record "probe" "probe" 10] (SchedulerState.fresh fun _ => {})) =
      some (({} : Lifecycle).admitted 0).expired := by
    decide +kernel
  obtain ⟨s', hrun, hrec'⟩ := finalState_map_eq_some hrec
  exact ⟨s', hrun, by rw [hrec']; rfl⟩

end LinkController
end LunaBridge
