import LunaBridge.Live.Queues
import Mathlib.Data.List.TakeWhile

/-!
# Admission — `admit` in closed form

`LiveGateway.roomFor` is the state after the purge and the evictions; `admit_eq` says that `admit`
then drops or queues the arrival.
-/

namespace LunaBridge
namespace LinkController

open Foundation.Machine Foundation.Selection Foundation.Python Foundation.StableSort Gateway

namespace LiveState

/-- `b` is queued. -/
def enqueued (b : LiveBundle) (s : LiveState) : LiveState :=
  { s with
    gone := Function.update s.gone b false
    q := Function.update s.q b.cls (s.q b.cls ++ [b])
    fifo := s.fifo ++ [b]
    bytes := s.bytes + b.n }

/-- `b` is dropped at the door. -/
def dropped (b : LiveBundle) (now : ℚ) (s : LiveState) : LiveState :=
  { s with log := s.log ++ [{ event := .drop, bundle := b, now := now }] }

/-- Queueing `b` adds it to the bundles of its class. -/
theorem enqueued_queued (b : LiveBundle) (s : LiveState) :
    (s.enqueued b).queued.Perm ([b] ++ s.queued) := by
  have hq : (s.enqueued b).q = Function.update s.q b.cls (s.q b.cls ++ [b]) := rfl
  have hclass : ((s.enqueued b).q b.cls).Perm ([b] ++ s.q b.cls) := by
    rw [hq, Function.update_self]
    exact List.perm_append_comm
  have hrest : Function.update (s.enqueued b).q b.cls (s.q b.cls) = s.q := by
    rw [hq, Function.update_idem, Function.update_eq_self]
  have h := flatMap_update_perm rankClasses_nodup (mem_rankClasses b.cls) hclass
  rwa [hrest] at h

theorem enqueued_q (b : LiveBundle) (s : LiveState) (c : TrafficClass) :
    (s.enqueued b).q c = s.q c ++ if b.cls = c then [b] else [] := by
  by_cases hc : b.cls = c
  · subst hc
    simp [enqueued]
  · simp [enqueued, Function.update_of_ne (Ne.symm hc), hc]

end LiveState

/-- A new bundle may be queued if it is stamped no earlier than the others. -/
theorem Coherent.enqueued {s : LiveState} {b : LiveBundle} (h : Coherent s) (hnew : b ∉ s.fifo)
    (hlast : ∀ a ∈ s.fifo, a.t ≤ b.t) : Coherent (s.enqueued b) where
  queues := by
    intro c
    -- the flags of the others are as they were
    have hold : (s.fifo.filter fun a => !Function.update s.gone b false a &&
        decide (a.cls = c)) = s.q c := by
      rw [h.queues c]
      refine List.filter_congr fun a ha => ?_
      have hne : a ≠ b := fun heq => hnew (heq ▸ ha)
      rw [Function.update_of_ne hne]
    rw [s.enqueued_q b c]
    show _ = (s.fifo ++ [b]).filter fun a => !Function.update s.gone b false a &&
      decide (a.cls = c)
    rw [List.filter_append, hold]
    by_cases hc : b.cls = c <;> simp [hc]
  nodup := List.nodup_append.2 ⟨h.nodup, List.nodup_singleton b, fun _ ha _ ha' heq =>
    hnew (List.mem_singleton.1 ha' ▸ heq ▸ ha)⟩
  ordered := by
    refine List.pairwise_append.2 ⟨h.ordered, List.pairwise_singleton _ _, fun a ha a' ha' => ?_⟩
    rw [List.mem_singleton.1 ha']
    exact hlast a ha
  bytes := by
    rw [bytesOf_perm (s.enqueued_queued b), bytesOf_append, ← h.bytes]
    simp [LiveState.enqueued, add_comm]

section Admission

variable {gw : LiveGateway} {s : LiveState} {now : ℚ} {b : LiveBundle}

/-- The state after the purge, which is made if `b` does not fit. -/
def LiveGateway.purgedFor (gw : LiveGateway) (b : LiveBundle) (now : ℚ) (s : LiveState) :
    LiveState :=
  if gw.Over b s then s.expel .expire now (gw.staleOf now s rankClasses) else s

/-- The state after the evictions, which are made if `b` does not fit and the mode allows it. -/
def LiveGateway.evictedFor (gw : LiveGateway) (b : LiveBundle) (now : ℚ) (s : LiveState) :
    LiveState :=
  if gw.Over b s ∧ gw.admission = .priority then
    s.expel .evict now (gw.needed b s.bytes (displaceable s.q b LiveGateway.lowestFirst))
  else s

/-- The state in which `admit` decides. -/
def LiveGateway.roomFor (gw : LiveGateway) (b : LiveBundle) (now : ℚ) (s : LiveState) :
    LiveState :=
  gw.evictedFor b now (gw.purgedFor b now s)

theorem staleOf_nodup (h : Coherent s) (gw : LiveGateway) (now : ℚ) {cs : List TrafficClass}
    (hcs : cs.Nodup) :
    (gw.staleOf now s cs).Nodup ∧ ∀ v ∈ gw.staleOf now s cs, v ∈ s.queued := by
  constructor
  · refine List.nodup_flatMap.2 ⟨fun c _ => (h.q_nodup c).filter _, ?_⟩
    refine hcs.imp fun {c c'} hne v hv hv' => ?_
    exact hne ((h.mem_q.1 (List.mem_of_mem_filter hv)).2.2.symm.trans
      (h.mem_q.1 (List.mem_of_mem_filter hv')).2.2)
  · intro v hv
    obtain ⟨c, -, hv⟩ := List.mem_flatMap.1 hv
    exact stale_subset_queued h gw now c v hv

/-- What may be displaced is queued, once, with a lower priority. -/
theorem displaceable_nodup (h : Coherent s) (b : LiveBundle) :
    (displaceable s.q b LiveGateway.lowestFirst).Nodup ∧
      ∀ v ∈ displaceable s.q b LiveGateway.lowestFirst, v ∈ s.queued ∧ rank b.cls < rank v.cls := by
  constructor
  · refine List.nodup_flatMap.2 ⟨fun c _ => List.nodup_reverse.2 (h.q_nodup c), ?_⟩
    have hkeys : LiveGateway.lowestFirst.Nodup := by decide
    refine (hkeys.sublist (List.takeWhile_sublist _)).imp fun {c c'} hne v hv hv' => ?_
    exact hne ((h.mem_q.1 (List.mem_reverse.1 hv)).2.2.symm.trans
      (h.mem_q.1 (List.mem_reverse.1 hv')).2.2)
  · intro v hv
    obtain ⟨c, hc, hv'⟩ := List.mem_flatMap.1 hv
    have hq := List.mem_reverse.1 hv'
    have hlt := List.mem_takeWhile_imp hc
    rw [(h.mem_q.1 hq).2.2]
    exact ⟨h.q_subset_queued hq, of_decide_eq_true hlt⟩

theorem purgedFor_coherent (h : Coherent s) (gw : LiveGateway) (b : LiveBundle) (now : ℚ) :
    Coherent (gw.purgedFor b now s) := by
  rw [LiveGateway.purgedFor]
  split
  · have hstale := staleOf_nodup h gw now rankClasses_nodup
    exact h.expel hstale.1 hstale.2
  · exact h

theorem needed_nodup (h : Coherent s) (gw : LiveGateway) (b : LiveBundle) (bytes : ℤ) :
    (gw.needed b bytes (displaceable s.q b LiveGateway.lowestFirst)).Nodup ∧
      ∀ v ∈ gw.needed b bytes (displaceable s.q b LiveGateway.lowestFirst),
        v ∈ s.queued ∧ rank b.cls < rank v.cls := by
  have hfront := needed_isPrefix gw b bytes (displaceable s.q b LiveGateway.lowestFirst)
  exact ⟨(displaceable_nodup h b).1.sublist hfront.sublist,
    fun v hv => (displaceable_nodup h b).2 v (hfront.subset hv)⟩

theorem purgeIfOver_eq (h : Coherent s) (gw : LiveGateway) (b : LiveBundle) (now : ℚ) :
    gw.purgeIfOver b now s = .ok ⟨⟩ (gw.purgedFor b now s) := by
  rw [LiveGateway.purgeIfOver, LiveGateway.purgedFor, run_get_bind, run_ite]
  split
  · exact purge_eq gw now rankClasses s h (by decide)
  · rfl

theorem evictIfOver_eq (h : Coherent s) (gw : LiveGateway) (b : LiveBundle) (now : ℚ) :
    gw.evictIfOver b now s = .ok ⟨⟩ (gw.evictedFor b now s) := by
  rw [LiveGateway.evictIfOver, LiveGateway.evictedFor, run_get_bind, run_ite]
  split
  · exact evictClasses_eq gw b now _ s h (by decide)
  · rfl

/-- `admit` makes what room it can, and then drops or queues the arrival. -/
theorem admit_eq (h : Coherent s) (gw : LiveGateway) (b : LiveBundle) (now : ℚ) :
    gw.admitBundle b now s =
      if gw.Over b (gw.roomFor b now s) then .ok false ((gw.roomFor b now s).dropped b now)
      else .ok true ((gw.roomFor b now s).enqueued b) := by
  have hpurge := purgeIfOver_eq h gw b now
  have hevict := evictIfOver_eq (purgedFor_coherent h gw b now) gw b now
  rw [LiveGateway.admitBundle, bind_ok hpurge, bind_ok hevict, run_get_bind, run_ite]
  rfl

end Admission

end LinkController
end LunaBridge
