import LunaBridge.Live.Isolation

/-!
# Rejection — what an arrival costs that is turned away

`admit` evicts victim by victim and finds out at the end whether the arrival fits.  On an arrival
that does not fit whoever goes, all unexpired bundles below it have been evicted by then
(`rejection_costs_nothing_iff`).
-/

namespace LunaBridge
namespace LinkController

open Foundation.Machine Foundation.Selection Foundation.Python Foundation.StableSort Gateway

/-- No unexpired bundle has been evicted, and queues and counter are as before but for some bundles
that have expired. -/
structure CostsNothing (gw : LiveGateway) (now : ℚ) (s s' : LiveState) : Prop where
  evictions : ∃ new, s'.evictions = s.evictions ++ new ∧
    ∀ e ∈ new, gw.expired now e.bundle = true
  queues : ∃ vs : List LiveBundle, vs.Nodup ∧
    (∀ v ∈ vs, v ∈ s.queued ∧ gw.expired now v = true) ∧
    (∀ c, s'.q c = without (s.q c) vs) ∧ s'.bytes = s.bytes - bytesOf vs

namespace View

variable {gw : LiveGateway} {view : View} {b : LiveBundle}

/-- `b` is accepted if it fits beside the bundles of its own and higher ranks. -/
theorem accepts_iff (gw : LiveGateway) (view : View) (b : LiveBundle) :
    view.Accepts gw b ↔ (view.upTo (rank b.cls)).bytes + b.n ≤ gw.cap := by
  have hself : b.upTo (rank b.cls) = true := decide_eq_true le_rfl
  -- among those nobody may be displaced
  have hnone : displaceable (view.upTo (rank b.cls)) b LiveGateway.lowestFirst = [] := by
    refine List.flatMap_eq_nil_iff.2 fun c hc => ?_
    rw [upTo_of_lt (of_mem_takeWhile (P := fun c => rank b.cls < rank c) hc), List.reverse_nil]
  have hvictims : (view.upTo (rank b.cls)).victims gw b = [] := by
    rw [victims, hnone, LiveGateway.needed]
  rw [(victims_upTo gw view hself).2, Accepts, hvictims, bytesOf_nil, sub_zero]

/-- If `b` is not accepted, everybody below it has gone. -/
theorem victims_of_not_accepts (h : ¬ view.Accepts gw b) :
    view.victims gw b = view.below (rank b.cls) := by
  refine (needed_fits_or_all gw b view.bytes _).resolve_left fun hfits => h ?_
  exact not_lt.1 hfits

end View

section Rejection

variable {gw : LiveGateway} {s : LiveState} {now : ℚ} {b : LiveBundle}

/-- Where nobody is displaced, only the purge is left of making room. -/
theorem roomFor_of_below_nil (hover : gw.Over b s)
    (hbelow : (gw.view now s).below (rank b.cls) = []) :
    gw.roomFor b now s = s.expel .expire now (gw.staleOf now s rankClasses) := by
  have hpurged : gw.purgedFor b now s =
      s.expel .expire now (gw.staleOf now s rankClasses) := if_pos hover
  have hnone : displaceable (s.expel .expire now (gw.staleOf now s rankClasses)).q b
      LiveGateway.lowestFirst = [] := by
    rw [purged_q]
    exact hbelow
  rw [LiveGateway.roomFor, hpurged, LiveGateway.evictedFor, hnone, LiveGateway.needed,
    LiveState.expel_nil, ite_self]

theorem Coherent.rejection (hadmission : gw.admission = .priority) (h : Coherent s)
    (b : LiveBundle) (now : ℚ) :
    Returns (gw.admitBundle b now) s fun accepted s' =>
      ((accepted = false → CostsNothing gw now s s') ↔
        ((gw.view now s).upTo (rank b.cls)).bytes + b.n ≤ gw.cap ∨
          (gw.view now s).below (rank b.cls) = []) := by
  obtain ⟨-, haccepts, hevictions⟩ := roomFor_view hadmission h b now
  have hadmit := admit_eq h gw b now
  rw [← View.accepts_iff, ← haccepts]
  by_cases hover : gw.Over b (gw.roomFor b now s)
  · rw [if_pos hover] at hadmit
    refine ⟨_, _, hadmit, ?_⟩
    have hdrop : ((gw.roomFor b now s).dropped b now).evictions =
        (gw.roomFor b now s).evictions := by
      simp [LiveState.evictions, LiveState.dropped, List.filter_append]
    rw [View.victims_of_not_accepts (fun hacc => haccepts.2 hacc hover)] at hevictions
    rw [or_iff_right (not_not.2 hover)]
    constructor
    · -- whoever is below `b` has been evicted, and was not expired
      intro hcosts
      obtain ⟨new, hnew, hexpired⟩ := (hcosts rfl).evictions
      rw [hdrop, hevictions] at hnew
      obtain rfl := List.append_cancel_left hnew
      refine List.eq_nil_iff_forall_not_mem.2 fun v hv => ?_
      have hexp := hexpired _ (List.mem_map_of_mem hv)
      obtain ⟨c, -, hv'⟩ := List.mem_flatMap.1 hv
      have halive := (List.mem_filter.1 (List.mem_reverse.1 hv')).2
      simp [hexp] at halive
    · intro hbelow _
      have hover' : gw.Over b s := by
        by_contra hfits
        have hroom : gw.roomFor b now s = s := by
          rw [LiveGateway.roomFor, LiveGateway.purgedFor, if_neg hfits, LiveGateway.evictedFor,
            if_neg fun hboth => hfits hboth.1]
        exact hfits (hroom ▸ hover)
      have hroom := roomFor_of_below_nil hover' hbelow
      have hstale := staleOf_nodup h gw now rankClasses_nodup
      refine ⟨⟨[], ?_, fun e he => absurd he List.not_mem_nil⟩,
        gw.staleOf now s rankClasses, hstale.1,
        fun v hv => ⟨hstale.2 v hv, expired_of_mem_staleOf hv⟩, fun c => ?_, ?_⟩
      · rw [hdrop, hroom, evictions_expel_expire, List.append_nil]
      · rw [hroom]
        rfl
      · rw [hroom]
        rfl
  · rw [if_neg hover] at hadmit
    exact ⟨_, _, hadmit, iff_of_true (fun hfalse => absurd hfalse (by decide)) (Or.inl hover)⟩

end Rejection

/-- With priority admission, in every reachable state, an arrival that is rejected costs nothing
exactly if it fits beside the unexpired bundles of its own and higher ranks, so that it is not
rejected, or no unexpired bundle of lower rank is queued. -/
theorem rejection_costs_nothing_iff {gw : LiveGateway} (hadmission : gw.admission = .priority)
    {calls : List LiveCall} (h : Admissible calls) (b : LiveBundle) (now : ℚ) :
    ∃ answers s accepted s', gw.serve calls .initial = .ok answers s ∧
      gw.admitBundle b now s = .ok accepted s' ∧
      ((accepted = false → CostsNothing gw now s s') ↔
        ((gw.view now s).upTo (rank b.cls)).bytes + b.n ≤ gw.cap ∨
          (gw.view now s).below (rank b.cls) = []) := by
  obtain ⟨start, hready⟩ := h.ready
  obtain ⟨answers, s, hserve, ⟨_, hsound⟩, -⟩ :=
    serve_spec calls _ start _ hready (Sound.initial gw start)
  obtain ⟨accepted, s', hadmit, hiff⟩ := hsound.coherent.rejection hadmission b now
  exact ⟨answers, s, accepted, s', hserve, hadmit, hiff⟩

/-- Larger than the whole buffer. -/
def Small.flood : LiveBundle := { ref := 4, cls := .emergency, n := 1100, t := 20 }

theorem rejection_costs_nothing_iff_small :
    ∃ answers s accepted s', (Small.gateway .fifo).serve Small.calls .initial = .ok answers s ∧
      (Small.gateway .fifo).admitBundle Small.flood 20 s = .ok accepted s' ∧
      ((accepted = false → CostsNothing (Small.gateway .fifo) 20 s s') ↔
        (((Small.gateway .fifo).view 20 s).upTo (rank Small.flood.cls)).bytes + Small.flood.n ≤
            (Small.gateway .fifo).cap ∨
          ((Small.gateway .fifo).view 20 s).below (rank Small.flood.cls) = []) :=
  rejection_costs_nothing_iff rfl Small.calls_admissible Small.flood 20

/-- It is rejected, but not before a live bundle has been evicted for it. -/
theorem flood_evicts_and_is_rejected :
    ∃ answers s s', (Small.gateway .fifo).serve [.admitBundle Small.clip 0] .initial =
        .ok answers s ∧
      (Small.gateway .fifo).admitBundle Small.flood 5 s = .ok false s' ∧
      ¬ CostsNothing (Small.gateway .fifo) 5 s s' := by
  have hrun : (outcome ((Small.gateway .fifo).serve [.admitBundle Small.clip 0] .initial)).map
      (fun p => (p.2.evictions, (outcome ((Small.gateway .fifo).admitBundle Small.flood 5 p.2)).map
        fun p' => (p'.1, p'.2.evictions))) =
      some ([], some (false, evictionEntries 5 [Small.clip])) := by
    decide +kernel
  obtain ⟨answers, s, hserve, hfacts⟩ := eq_ok_of_outcome hrun
  obtain ⟨hbefore, hadmit⟩ := Prod.mk.inj hfacts
  obtain ⟨accepted, s', hadmit, hafter⟩ := eq_ok_of_outcome hadmit
  obtain ⟨rfl, hafter⟩ := Prod.mk.inj hafter
  refine ⟨answers, s, s', hserve, hadmit, fun h => ?_⟩
  obtain ⟨new, hnew, hexpired⟩ := h.evictions
  rw [hbefore, hafter, List.nil_append] at hnew
  subst hnew
  exact absurd (hexpired _ (List.mem_singleton_self _)) (by decide +kernel)

end LinkController
end LunaBridge
