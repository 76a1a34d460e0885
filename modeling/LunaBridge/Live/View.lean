import LunaBridge.Live.Conservation

/-!
# View — the live gateway without its stale bundles

Expired bundles stay in the queues until somebody looks at them, so the state of the gateway
depends on who looked when.  A `View` holds the bundles that have not expired.  Under STRICT with
priority admission the view is all that matters: `exec_refines` says that each call answers, evicts
and goes on as the abstract machine on views does.
-/

namespace LunaBridge
namespace LinkController

open Foundation.Machine Foundation.Selection Foundation.Python Foundation.StableSort Gateway

/-! ## The abstract machine -/

/-- The live bundles of every class, oldest first. -/
abbrev View := TrafficClass → List LiveBundle

namespace View

/-- The bytes of all live bundles. -/
def bytes (view : View) : ℤ := bytesOf (rankClasses.flatMap view)

/-- Who has to go for `b`. -/
def victims (gw : LiveGateway) (view : View) (b : LiveBundle) : List LiveBundle :=
  gw.needed b view.bytes (displaceable view b LiveGateway.lowestFirst)

/-- Once they have gone, `b` fits. -/
def Accepts (gw : LiveGateway) (view : View) (b : LiveBundle) : Prop :=
  view.bytes - bytesOf (view.victims gw b) + b.n ≤ gw.cap

instance (gw : LiveGateway) (view : View) (b : LiveBundle) : Decidable (view.Accepts gw b) :=
  inferInstanceAs (Decidable (_ ≤ _))

/-- The bundles `vs` go. -/
def leave (view : View) (vs : List LiveBundle) : View := fun c => without (view c) vs

/-- `b` joins, unless the lifetime of its class is over at once. -/
def join (gw : LiveGateway) (view : View) (b : LiveBundle) (now : ℚ) : View :=
  if gw.expired now b then view else Function.update view b.cls (view b.cls ++ [b])

/-- The first live bundle of the highest class. -/
def first (view : View) : Option LiveBundle := (rankClasses.flatMap view).head?

/-- What a call answers. -/
def answer (gw : LiveGateway) (view : View) : LiveCall → LiveAnswer
  | .admitBundle b _ => .admitted (decide (view.Accepts gw b))
  | .next _ => .popped view.first

/-- Whom a call evicts. -/
def evicted (gw : LiveGateway) (view : View) : LiveCall → List LiveBundle
  | .admitBundle b _ => view.victims gw b
  | .next _ => []

/-- What a call leaves behind. -/
def after (gw : LiveGateway) (view : View) : LiveCall → View
  | .admitBundle b now =>
      if view.Accepts gw b then (view.leave (view.victims gw b)).join gw b now
      else view.leave (view.victims gw b)
  | .next _ => view.leave view.first.toList

end View

/-- The evictions in the log. -/
def LiveState.evictions (s : LiveState) : List LogEntry :=
  s.log.filter fun e => decide (e.event = .evict)

/-- The log entries of some evictions. -/
def evictionEntries (now : ℚ) (vs : List LiveBundle) : List LogEntry :=
  vs.map fun v => { event := .evict, bundle := v, now := now }

/-! ## The view of a state -/

/-- The bundles of a state that have not expired. -/
def LiveGateway.view (gw : LiveGateway) (now : ℚ) (s : LiveState) : View := gw.live now s

section Views

variable {gw : LiveGateway} {s : LiveState} {now : ℚ} {b : LiveBundle}

theorem view_leave (gw : LiveGateway) (now : ℚ) (vs : List LiveBundle) (s : LiveState) :
    gw.view now (s.leave vs) = (gw.view now s).leave vs := by
  funext c
  exact filter_without _ _ _

theorem view_expel (gw : LiveGateway) (now : ℚ) (event : LogEvent) (ts : ℚ)
    (vs : List LiveBundle) (s : LiveState) :
    gw.view now (s.expel event ts vs) = (gw.view now s).leave vs :=
  view_leave gw now vs s

/-- Nobody misses the stale bundles. -/
theorem leave_stale {vs : List LiveBundle} (hvs : ∀ v ∈ vs, gw.expired now v = true) :
    (gw.view now s).leave vs = gw.view now s :=
  (view_expel gw now .expire now vs s).symm.trans (live_expel .expire now hvs s)

/-- As time goes by, live bundles expire. -/
theorem view_later (gw : LiveGateway) {later : ℚ} (hle : now ≤ later) (s : LiveState)
    (c : TrafficClass) :
    gw.view later s c = (gw.view now s c).filter fun b => !gw.expired later b := by
  rw [LiveGateway.view, LiveGateway.view, LiveGateway.live, LiveGateway.live, List.filter_filter]
  refine List.filter_congr fun b _ => ?_
  have hexp : gw.expired now b = true → gw.expired later b = true := by
    simp only [LiveGateway.expired, decide_eq_true_eq]
    intro h
    linarith
  cases hlater : gw.expired later b with
  | true => simp
  | false =>
      cases hnow : gw.expired now b with
      | true => exact absurd (hexp hnow) (by simp [hlater])
      | false => rfl

theorem view_enqueued (gw : LiveGateway) (now : ℚ) (b : LiveBundle) (s : LiveState) :
    gw.view now (s.enqueued b) = (gw.view now s).join gw b now := by
  funext c
  have hq : (s.enqueued b).q = Function.update s.q b.cls (s.q b.cls ++ [b]) := rfl
  rw [View.join, LiveGateway.view, LiveGateway.live, hq]
  by_cases hc : c = b.cls
  · subst hc
    cases hexp : gw.expired now b <;>
      simp [LiveGateway.view, LiveGateway.live, List.filter_append, hexp]
  · rw [Function.update_of_ne hc]
    split
    · rfl
    · rw [Function.update_of_ne hc]
      rfl

/-- The live bundles are no more than the counter says. -/
theorem view_bytes_le (h : Coherent s) (gw : LiveGateway) (now : ℚ) :
    (gw.view now s).bytes ≤ s.bytes := by
  have hfilter : rankClasses.flatMap (gw.view now s) =
      without s.queued (s.queued.filter (gw.expired now)) := by
    rw [without_filter, LiveState.queued, List.filter_flatMap]
    rfl
  have hstale := bytesOf_nonneg (s.queued.filter (gw.expired now))
  have hsplit := bytesOf_without h.queued_nodup (h.queued_nodup.filter (gw.expired now))
    fun v hv => List.mem_of_mem_filter hv
  rw [View.bytes, hfilter, hsplit, h.bytes]
  omega

theorem expired_of_mem_staleOf {cs : List TrafficClass} {v : LiveBundle}
    (hv : v ∈ gw.staleOf now s cs) : gw.expired now v = true := by
  obtain ⟨c, _, hv'⟩ := List.mem_flatMap.1 hv
  exact (List.mem_filter.1 hv').2

/-- Once the purge has been made the queues are the view. -/
theorem purged_q (gw : LiveGateway) (now : ℚ) (s : LiveState) :
    (s.expel .expire now (gw.staleOf now s rankClasses)).q = gw.view now s := by
  funext c
  refine List.filter_congr fun b hb => ?_
  have hiff : b ∈ gw.staleOf now s rankClasses ↔ gw.expired now b = true :=
    ⟨expired_of_mem_staleOf, fun hexp =>
      List.mem_flatMap.2 ⟨c, mem_rankClasses c, List.mem_filter.2 ⟨hb, hexp⟩⟩⟩
  simp [hiff]

/-- The purge does not change the view. -/
theorem purged_view (gw : LiveGateway) (now : ℚ) (s : LiveState) :
    gw.view now (s.expel .expire now (gw.staleOf now s rankClasses)) = gw.view now s := by
  rw [view_expel, leave_stale]
  exact fun v hv => expired_of_mem_staleOf hv

theorem evictions_expel_expire (ts : ℚ) (vs : List LiveBundle) (s : LiveState) :
    (s.expel .expire ts vs).evictions = s.evictions := by
  simp [LiveState.evictions, LiveState.expel, LiveState.leave, List.filter_append,
    List.filter_map, Function.comp_def]

theorem evictions_expel_evict (ts : ℚ) (vs : List LiveBundle) (s : LiveState) :
    (s.expel .evict ts vs).evictions = s.evictions ++ evictionEntries ts vs := by
  simp [LiveState.evictions, LiveState.expel, LiveState.leave, List.filter_append,
    List.filter_map, Function.comp_def, evictionEntries]

end Views

/-! ## Refinement -/

section Refinement

variable {gw : LiveGateway} {s : LiveState} {now : ℚ} {b : LiveBundle}

/-- Where `b` fits on top of the view there are no victims, and it is accepted. -/
theorem no_victims {t : LiveState} (hlive : gw.view now t = gw.view now s)
    (hevictions : t.evictions = s.evictions) (hover : ¬ gw.Over b t)
    (hfits : ¬ (gw.cap : ℤ) < (gw.view now s).bytes + b.n) :
    gw.view now t = (gw.view now s).leave ((gw.view now s).victims gw b) ∧
      (¬ gw.Over b t ↔ (gw.view now s).Accepts gw b) ∧
      t.evictions = s.evictions ++ evictionEntries now ((gw.view now s).victims gw b) := by
  have hvictims : (gw.view now s).victims gw b = [] := needed_of_fits hfits _
  refine ⟨?_, ?_, ?_⟩
  · rw [hvictims, hlive]
    funext c
    exact (without_nil _).symm
  · rw [View.Accepts, hvictims, bytesOf_nil, sub_zero]
    exact iff_of_true hover (not_lt.1 hfits)
  · rw [hvictims, hevictions, evictionEntries, List.map_nil, List.append_nil]

/-- Purging and evicting for `b` depends on the view only. -/
theorem roomFor_view (hadmission : gw.admission = .priority) (h : Coherent s) (b : LiveBundle)
    (now : ℚ) :
    gw.view now (gw.roomFor b now s) =
        (gw.view now s).leave ((gw.view now s).victims gw b) ∧
      (¬ gw.Over b (gw.roomFor b now s) ↔ (gw.view now s).Accepts gw b) ∧
      (gw.roomFor b now s).evictions =
        s.evictions ++ evictionEntries now ((gw.view now s).victims gw b) := by
  have hle := view_bytes_le h gw now
  by_cases hover : gw.Over b s
  · have hpurged : gw.purgedFor b now s =
        s.expel .expire now (gw.staleOf now s rankClasses) := if_pos hover
    have hq : (gw.purgedFor b now s).q = gw.view now s := by rw [hpurged, purged_q]
    have hlive : gw.view now (gw.purgedFor b now s) = gw.view now s := by
      rw [hpurged, purged_view]
    have hbytes : (gw.purgedFor b now s).bytes = (gw.view now s).bytes := by
      rw [(purgedFor_coherent h gw b now).bytes, LiveState.queued, hq]
      rfl
    have hevictions : (gw.purgedFor b now s).evictions = s.evictions := by
      rw [hpurged, evictions_expel_expire]
    by_cases hover' : gw.Over b (gw.purgedFor b now s)
    · -- the purge was not enough: the victims go
      have hroom : gw.roomFor b now s = (gw.purgedFor b now s).expel .evict now
          ((gw.view now s).victims gw b) := by
        rw [LiveGateway.roomFor, LiveGateway.evictedFor, if_pos ⟨hover', hadmission⟩, hbytes, hq]
        rfl
      have hroomBytes : (gw.roomFor b now s).bytes =
          (gw.view now s).bytes - bytesOf ((gw.view now s).victims gw b) := by
        rw [hroom, ← hbytes]
        rfl
      refine ⟨?_, ?_, ?_⟩
      · rw [hroom, view_expel, hlive]
      · rw [LiveGateway.Over, View.Accepts, hroomBytes, not_lt]
      · rw [hroom, evictions_expel_evict, hevictions]
    · have hroom : gw.roomFor b now s = gw.purgedFor b now s :=
        if_neg fun hboth => hover' hboth.1
      rw [hroom]
      refine no_victims hlive hevictions hover' ?_
      rw [← hbytes]
      exact hover'
  · -- with the stale bundles it fits, so without them it does
    have hroom : gw.roomFor b now s = s := by
      have hpurged : gw.purgedFor b now s = s := if_neg hover
      rw [LiveGateway.roomFor, hpurged]
      exact if_neg fun hboth => hover hboth.1
    rw [hroom]
    refine no_victims rfl rfl hover fun hlt => hover ?_
    show (gw.cap : ℤ) < s.bytes + b.n
    omega

/-- The loop over the classes returns the first live bundle of the first class that has one. -/
theorem strictLoop_view (gw : LiveGateway) (now : ℚ) (cs : List TrafficClass) (h : Coherent s) :
    Returns (gw.strictLoop now cs) s fun r s' =>
      r = (cs.flatMap (gw.view now s)).head? ∧
        gw.view now s' = (gw.view now s).leave r.toList ∧ s'.evictions = s.evictions := by
  refine (strictLoop_leaves gw now cs s h).mono fun r s' h' => ?_
  obtain ⟨hr, vs, hvs, rfl⟩ := h'
  refine ⟨hr, ?_, evictions_expel_expire now vs s⟩
  rw [view_leave, view_expel, leave_stale fun v hv => (hvs v hv).2]

theorem next_strict (hpolicy : gw.policy = .strict) (now : ℚ) :
    gw.next now = gw.strictLoop now rankClasses := by
  rw [LiveGateway.next, if_neg (by simp [hpolicy]), if_pos hpolicy]
  rfl

/-- The gateway refines the abstract machine on views. -/
theorem exec_refines (hpolicy : gw.policy = .strict) (hadmission : gw.admission = .priority)
    (h : Coherent s) (call : LiveCall) :
    Returns (call.exec gw) s fun a s' =>
      a = (gw.view call.now s).answer gw call ∧
        gw.view call.now s' = (gw.view call.now s).after gw call ∧
        s'.evictions = s.evictions ++
          evictionEntries call.now ((gw.view call.now s).evicted gw call) := by
  cases call with
  | admitBundle b ts =>
      rcases roomFor_view hadmission h b ts with ⟨hlive, haccepts, hevictions⟩
      have hadmit := admit_eq h gw b ts
      by_cases hover : gw.Over b (gw.roomFor b ts s)
      · have hnot : ¬ (gw.view ts s).Accepts gw b := fun hacc => haccepts.2 hacc hover
        rw [if_pos hover] at hadmit
        refine Returns.ok_bind hadmit (Returns.pure ?_)
        refine ⟨by simp [View.answer, LiveCall.now, hnot], ?_, ?_⟩
        · show _ = if (gw.view ts s).Accepts gw b then _ else _
          rw [if_neg hnot]
          exact hlive
        · have hdrop : ((gw.roomFor b ts s).dropped b ts).evictions =
              (gw.roomFor b ts s).evictions := by
            simp [LiveState.evictions, LiveState.dropped, List.filter_append]
          rw [hdrop, hevictions]
          rfl
      · have hacc := haccepts.1 hover
        rw [if_neg hover] at hadmit
        refine Returns.ok_bind hadmit (Returns.pure ?_)
        refine ⟨by simp [View.answer, LiveCall.now, hacc], ?_, hevictions⟩
        show gw.view ts _ = if (gw.view ts s).Accepts gw b then _ else _
        rw [if_pos hacc, view_enqueued, hlive]
        rfl
  | next ts =>
      have hnext : Returns (gw.next ts) s fun r s' => r = (gw.view ts s).first ∧
          gw.view ts s' = (gw.view ts s).leave r.toList ∧ s'.evictions = s.evictions := by
        rw [next_strict hpolicy]
        exact strictLoop_view gw ts rankClasses h
      refine hnext.bind fun r s₁ h₁ => Returns.pure ?_
      rcases h₁ with ⟨rfl, hlive, hevictions⟩
      exact ⟨rfl, hlive, by simp [hevictions, View.evicted, evictionEntries]⟩

end Refinement

end LinkController
end LunaBridge
