import LunaBridge.Foundation.GreedyFill
import LunaBridge.Foundation.Selection
import LunaBridge.Gateway.Scheduler
import Mathlib.Tactic.Linarith
import Mathlib.Tactic.Ring

/-!
# Buffer — what scheduling does to the queue, the counter and the records

An abstract store-and-forward buffer.  Its operations take as arguments the choices the scheduler
makes (who is evicted, who is sent) and say in one step what a whole loop of the scheduler does.
`Buffer.WellFormed` is the representation invariant, relative to the bundles that have not been
offered yet; every operation keeps it.
-/

namespace LunaBridge
namespace Gateway

open Foundation.Selection Foundation.GreedyFill

/-! ## Byte counts -/

@[simp] theorem totalBytes_nil : totalBytes [] = 0 := rfl

@[simp] theorem totalBytes_cons (b : Bundle) (bs : List Bundle) :
    totalBytes (b :: bs) = b.sizeBytes + totalBytes bs := by
  simp [totalBytes]

@[simp] theorem totalBytes_append (as bs : List Bundle) :
    totalBytes (as ++ bs) = totalBytes as + totalBytes bs := by
  simp [totalBytes]

theorem totalBytes_perm {as bs : List Bundle} (h : as.Perm bs) : totalBytes as = totalBytes bs :=
  (h.map Bundle.sizeBytes).sum_eq

theorem totalBytes_nonneg {bs : List Bundle} (h : ∀ b ∈ bs, 0 < b.sizeBytes) :
    0 ≤ totalBytes bs := by
  induction bs with
  | nil => exact le_rfl
  | cons b bs ih =>
      have hb := h b (by simp)
      have htail := ih fun c hc => h c (List.mem_cons_of_mem _ hc)
      rw [totalBytes_cons]
      omega

/-- A list of positive sizes has no bytes only if it is empty. -/
theorem totalBytes_eq_zero_iff {bs : List Bundle} (h : ∀ b ∈ bs, 0 < b.sizeBytes) :
    totalBytes bs = 0 ↔ bs = [] := by
  cases bs with
  | nil => simp
  | cons b bs =>
      have hb := h b (by simp)
      have htail := totalBytes_nonneg fun c hc => h c (List.mem_cons_of_mem _ hc)
      simp only [totalBytes_cons, reduceCtorEq, iff_false]
      omega

theorem totalBytes_filter_add (p : Bundle → Bool) (bs : List Bundle) :
    totalBytes (bs.filter p) + totalBytes (bs.filter fun b => !p b) = totalBytes bs := by
  rw [← totalBytes_append]
  exact totalBytes_perm (List.filter_append_perm p bs)

theorem totalBytes_without {bs vs : List Bundle} (hbs : bs.Nodup) (hvs : vs.Nodup)
    (hsub : ∀ v ∈ vs, v ∈ bs) : totalBytes (without bs vs) = totalBytes bs - totalBytes vs := by
  have h := totalBytes_perm (perm_append_without hbs hvs hsub)
  rw [totalBytes_append] at h
  omega

/-- Duplicate-free bundles found in a list are no more than the list. -/
theorem totalBytes_le_of_subset {as bs : List Bundle} (has : as.Nodup) (hbs : bs.Nodup)
    (hsub : ∀ a ∈ as, a ∈ bs) (hpos : ∀ b ∈ bs, 0 < b.sizeBytes) :
    totalBytes as ≤ totalBytes bs := by
  have hrest : 0 ≤ totalBytes (without bs as) :=
    totalBytes_nonneg fun b hb => hpos b (mem_without.1 hb).1
  have := totalBytes_without hbs has hsub
  omega

theorem load_bits (bs : List Bundle) : load Bundle.bits bs = (totalBytes bs : ℚ) * 8 := by
  induction bs with
  | nil => simp
  | cons b bs ih =>
      rw [load_cons, ih, totalBytes_cons, Bundle.bits]
      push_cast
      ring

/-! ## Changes to one record -/

namespace Lifecycle

/-- Dropped for lack of buffer space. -/
def overflowed (r : Lifecycle) : Lifecycle := { r with terminalState := .queueOverflow }

/-- Admitted to the queue at `ts`. -/
def admitted (ts : ℚ) (r : Lifecycle) : Lifecycle := { r with queueAdmissionTs := some ts }

/-- Expired in the queue. -/
def expired (r : Lifecycle) : Lifecycle := { r with terminalState := .ttlExpired }

/-- Sent in window `w`. -/
def delivered (w : ContactWindow) (r : Lifecycle) : Lifecycle :=
  { r with
    transmissionTs := some w.startTs
    deliveryTs := if r.deliveryTs = none then some w.startTs else r.deliveryTs
    terminalState := .delivered
    contactId := some w.contactId }

/-- Left over when the plan ran out. -/
def unscheduled (r : Lifecycle) : Lifecycle := { r with terminalState := .neverScheduled }

end Lifecycle

/-! ## Buffer operations -/

namespace Buffer

@[ext] theorem ext {β γ : Buffer} (ha : β.active = γ.active) (hb : β.activeBytes = γ.activeBytes)
    (hr : β.records = γ.records) : β = γ := by
  cases β
  cases γ
  cases ha
  cases hb
  cases hr
  rfl

/-- The arrival `b` is dropped at the door. -/
def drop (b : Bundle) (β : Buffer) : Buffer :=
  { β with records := overwrite Lifecycle.overflowed [b] β.records }

/-- The arrival `b` joins the queue. -/
def accept (b : Bundle) (β : Buffer) : Buffer where
  active := β.active ++ [b]
  activeBytes := β.activeBytes + b.sizeBytes
  records := overwrite (Lifecycle.admitted b.ingressTs) [b] β.records

/-- The bundles `vs` are settled: `f` is applied to their records and their bytes are released.
The list still holds them. -/
def settle (f : Lifecycle → Lifecycle) (vs : List Bundle) (β : Buffer) : Buffer where
  active := β.active
  activeBytes := β.activeBytes - totalBytes vs
  records := overwrite f vs β.records

/-- The queued bundles `vs` are settled and leave the list. -/
def remove (f : Lifecycle → Lifecycle) (vs : List Bundle) (β : Buffer) : Buffer :=
  { β.settle f vs with active := without β.active vs }

/-- Queued bundles are evicted. -/
def evict (vs : List Bundle) (β : Buffer) : Buffer := β.remove Lifecycle.overflowed vs

/-- Queued bundles past their lifetime at `cutoffTs` leave. -/
def expire (cutoffTs : ℚ) (β : Buffer) : Buffer :=
  β.remove Lifecycle.expired (β.active.filter fun b => b.expiredBy cutoffTs)

/-- Queued bundles go out in window `w`. -/
def transmitted (w : ContactWindow) (sent : List Bundle) (β : Buffer) : Buffer :=
  β.remove (Lifecycle.delivered w) sent

/-- Whatever is still queued has never been scheduled.  The byte counter is left as it is. -/
def sweep (β : Buffer) : Buffer where
  active := []
  activeBytes := β.activeBytes
  records := overwrite Lifecycle.unscheduled β.active β.records

@[simp] theorem remove_nil (f : Lifecycle → Lifecycle) (β : Buffer) : β.remove f [] = β := by
  simp [remove, settle]

@[simp] theorem settle_nil (f : Lifecycle → Lifecycle) (β : Buffer) : β.settle f [] = β := by
  simp [settle]

theorem settle_settle {f : Lifecycle → Lifecycle} {us vs : List Bundle} (β : Buffer)
    (h : ∀ u ∈ us, u ∉ vs) : (β.settle f us).settle f vs = β.settle f (us ++ vs) := by
  ext1
  · rfl
  · simp only [settle, totalBytes_append]
    ring
  · exact overwrite_overwrite f β.records h

theorem remove_remove {f : Lifecycle → Lifecycle} {us vs : List Bundle} (β : Buffer)
    (h : ∀ u ∈ us, u ∉ vs) : (β.remove f us).remove f vs = β.remove f (us ++ vs) := by
  ext1
  · exact without_without β.active us vs
  · simp only [remove, settle, totalBytes_append]
    ring
  · exact overwrite_overwrite f β.records h

theorem expire_active (cutoffTs : ℚ) (β : Buffer) :
    (β.expire cutoffTs).active = β.active.filter fun b => !b.expiredBy cutoffTs :=
  without_filter _ _

/-! ## The representation invariant -/

/-- The queue and the bundles of `future`, which will still be offered in this order, are pending
and distinct, come in ingress order and have positive sizes and a lifetime; the counter is the
bytes of the queue and stays within the cap. -/
structure WellFormed (sch : Scheduler) (future : List Bundle) (β : Buffer) : Prop where
  pending : ∀ b ∈ β.active ++ future, (β.records b).terminalState = .pending
  nodup : (β.active ++ future).Nodup
  ordered : (β.active ++ future).Pairwise fun a b => a.ingressTs ≤ b.ingressTs
  sizes : ∀ b ∈ β.active ++ future, 0 < b.sizeBytes
  lifetimes : ∀ b ∈ β.active ++ future, b.expirationTs ≠ none
  bytes : β.activeBytes = totalBytes β.active
  capacity : (β.activeBytes : ℚ) ≤ sch.maxQueueBytes

namespace WellFormed

variable {sch : Scheduler} {future : List Bundle} {β : Buffer}

theorem active_nodup (h : β.WellFormed sch future) : β.active.Nodup :=
  (List.nodup_append.1 h.nodup).1

theorem active_pending (h : β.WellFormed sch future) {b : Bundle} (hb : b ∈ β.active) :
    (β.records b).terminalState = .pending :=
  h.pending b (List.mem_append_left _ hb)

theorem active_size_pos (h : β.WellFormed sch future) {b : Bundle} (hb : b ∈ β.active) :
    0 < b.sizeBytes :=
  h.sizes b (List.mem_append_left _ hb)

theorem active_lifetime (h : β.WellFormed sch future) {b : Bundle} (hb : b ∈ β.active) :
    b.expirationTs ≠ none :=
  h.lifetimes b (List.mem_append_left _ hb)

theorem active_ordered (h : β.WellFormed sch future) :
    β.active.Pairwise fun a b => a.ingressTs ≤ b.ingressTs :=
  (List.pairwise_append.1 h.ordered).1

theorem future_notMem_active (h : β.WellFormed sch future) {b : Bundle} (hb : b ∈ future) :
    b ∉ β.active := fun hact => (List.nodup_append.1 h.nodup).2.2 b hact b hb rfl

/-- A bundle is offered once. -/
theorem next_notMem_future {b : Bundle} (h : β.WellFormed sch (b :: future)) : b ∉ future :=
  (List.nodup_cons.1 (List.nodup_append.1 h.nodup).2.1).1

theorem bytes_nonneg (h : β.WellFormed sch future) : 0 ≤ β.activeBytes := by
  rw [h.bytes]
  exact totalBytes_nonneg fun b hb => h.active_size_pos hb

/-- The queue may shrink and the next arrival may be skipped, as long as the records of what is
left stay pending. -/
theorem shrink {β' : Buffer} {future' : List Bundle} (h : β.WellFormed sch future)
    (hsub : (β'.active ++ future').Sublist (β.active ++ future))
    (hpend : ∀ b ∈ β'.active ++ future', (β'.records b).terminalState = .pending)
    (hbytes : β'.activeBytes = totalBytes β'.active)
    (hcap : (β'.activeBytes : ℚ) ≤ sch.maxQueueBytes) : β'.WellFormed sch future' where
  pending := hpend
  nodup := h.nodup.sublist hsub
  ordered := h.ordered.sublist hsub
  sizes := fun b hb => h.sizes b (hsub.subset hb)
  lifetimes := fun b hb => h.lifetimes b (hsub.subset hb)
  bytes := hbytes
  capacity := hcap

/-- Queued bundles leave the buffer with a terminal record. -/
theorem remove {f : Lifecycle → Lifecycle} {vs : List Bundle} (h : β.WellFormed sch future)
    (hvs : vs.Nodup) (hsub : ∀ v ∈ vs, v ∈ β.active) :
    (β.remove f vs).WellFormed sch future := by
  have hpos : 0 ≤ totalBytes vs := totalBytes_nonneg fun v hv => h.active_size_pos (hsub v hv)
  refine h.shrink ((without_sublist _ _).append_right _) ?_ ?_ ?_
  · -- whoever stays is not among `vs`, and its record has not been touched
    intro b hb
    have hnot : b ∉ vs := by
      rcases List.mem_append.1 hb with hact | hfut
      · exact (mem_without.1 hact).2
      · exact fun hmem => h.future_notMem_active hfut (hsub b hmem)
    show (overwrite f vs β.records b).terminalState = .pending
    rw [overwrite_of_notMem hnot]
    exact h.pending b (((without_sublist _ _).append_right _).subset hb)
  · simp only [Buffer.remove, settle, h.bytes, totalBytes_without h.active_nodup hvs hsub]
  · -- the counter only goes down
    have hcap := h.capacity
    have hpos' : (0 : ℚ) ≤ (totalBytes vs : ℤ) := by exact_mod_cast hpos
    simp only [Buffer.remove, settle]
    push_cast
    linarith

theorem evict {vs : List Bundle} (h : β.WellFormed sch future) (hvs : vs.Nodup)
    (hsub : ∀ v ∈ vs, v ∈ β.active) : (β.evict vs).WellFormed sch future :=
  h.remove hvs hsub

theorem drop {b : Bundle} (h : β.WellFormed sch (b :: future)) :
    (β.drop b).WellFormed sch future := by
  have hsub : (β.active ++ future).Sublist (β.active ++ b :: future) :=
    (List.sublist_cons_self b future).append_left _
  refine h.shrink hsub ?_ h.bytes h.capacity
  intro c hc
  have hcb : c ∉ [b] := by
    rintro hmem
    obtain rfl := List.mem_singleton.1 hmem
    have hnd := h.nodup
    rw [List.nodup_middle, List.nodup_cons] at hnd
    exact hnd.1 hc
  show (overwrite _ [b] β.records c).terminalState = .pending
  rw [overwrite_of_notMem hcb]
  exact h.pending c (hsub.subset hc)

theorem accept {b : Bundle} (h : β.WellFormed sch (b :: future))
    (hfits : sch.Fits β.activeBytes b.sizeBytes) : (β.accept b).WellFormed sch future := by
  have hEq : (β.accept b).active ++ future = β.active ++ b :: future := by
    simp [Buffer.accept]
  refine ⟨?_, hEq ▸ h.nodup, hEq ▸ h.ordered, hEq ▸ h.sizes, hEq ▸ h.lifetimes, ?_, hfits⟩
  · -- noting the admission leaves the bundle pending
    intro c hc
    rw [hEq] at hc
    have hpend := h.pending c hc
    by_cases hcb : c ∈ [b]
    · show (overwrite _ [b] β.records c).terminalState = .pending
      rw [overwrite_of_mem hcb]
      exact hpend
    · show (overwrite _ [b] β.records c).terminalState = .pending
      rw [overwrite_of_notMem hcb]
      exact hpend
  · simp [Buffer.accept, h.bytes]

theorem expire (cutoffTs : ℚ) (h : β.WellFormed sch future) :
    (β.expire cutoffTs).WellFormed sch future :=
  h.remove (h.active_nodup.filter _) fun _ hv => List.mem_of_mem_filter hv

theorem transmitted (w : ContactWindow) {sent : List Bundle} (h : β.WellFormed sch future)
    (hsent : sent.Nodup) (hsub : ∀ b ∈ sent, b ∈ β.active) :
    (β.transmitted w sent).WellFormed sch future :=
  h.remove hsent hsub

end WellFormed

end Buffer

end Gateway
end LunaBridge
