import LunaBridge.Foundation.Selection
import LunaBridge.LinkController.LiveGateway
import Mathlib.Tactic.Linarith
import Mathlib.Tactic.Ring

/-!
# Queues — what the loops of the live gateway do to its two queue structures

A bundle is held twice, in the queue of its class and in the global order, and leaves the second
one late.  `Coherent` says how the two hang together: the queue of a class is what the global order
still holds of it, without the bundles that are gone.  `expel` is what every loop does in one step;
the equations `head_eq`, `take_eq`, `purge_eq` and `evictClasses_eq` reduce the loops to it.
-/

namespace LunaBridge
namespace LinkController

open Foundation.Machine Foundation.Selection Foundation.Python Foundation.StableSort Gateway

/-! ## Byte counts -/

/-- The bytes some bundles are charged for. -/
def bytesOf (bs : List LiveBundle) : ℤ := (bs.map fun b => (b.n : ℤ)).sum

@[simp] theorem bytesOf_nil : bytesOf [] = 0 := rfl

@[simp] theorem bytesOf_cons (b : LiveBundle) (bs : List LiveBundle) :
    bytesOf (b :: bs) = b.n + bytesOf bs := by
  simp [bytesOf]

@[simp] theorem bytesOf_append (as bs : List LiveBundle) :
    bytesOf (as ++ bs) = bytesOf as + bytesOf bs := by
  simp [bytesOf]

theorem bytesOf_perm {as bs : List LiveBundle} (h : as.Perm bs) : bytesOf as = bytesOf bs :=
  (h.map _).sum_eq

theorem bytesOf_nonneg (bs : List LiveBundle) : 0 ≤ bytesOf bs := by
  induction bs with
  | nil => exact le_refl _
  | cons b bs ih =>
      rw [bytesOf_cons]
      omega

theorem bytesOf_without {bs vs : List LiveBundle} (hbs : bs.Nodup) (hvs : vs.Nodup)
    (hsub : ∀ v ∈ vs, v ∈ bs) : bytesOf (without bs vs) = bytesOf bs - bytesOf vs := by
  have h := bytesOf_perm (perm_append_without hbs hvs hsub)
  rw [bytesOf_append] at h
  omega

/-! ## Leaving the queues -/

namespace LiveState

/-- All queued bundles, class by class. -/
def queued (s : LiveState) : List LiveBundle := rankClasses.flatMap s.q

/-- The bundles `vs` leave: they are marked and their bytes are released.  The global order still
holds them. -/
def leave (vs : List LiveBundle) (s : LiveState) : LiveState :=
  { s with
    q := fun c => without (s.q c) vs
    bytes := s.bytes - bytesOf vs
    gone := overwrite (fun _ => true) vs s.gone }

/-- The bundles `vs` leave and are logged. -/
def expel (event : LogEvent) (now : ℚ) (vs : List LiveBundle) (s : LiveState) : LiveState :=
  { s.leave vs with
    log := s.log ++ vs.map fun v => { event := event, bundle := v, now := now } }

@[simp] theorem leave_queued (vs : List LiveBundle) (s : LiveState) :
    (s.leave vs).queued = without s.queued vs := by
  rw [queued, queued, without, List.filter_flatMap]
  rfl

theorem leave_gone {vs : List LiveBundle} {v : LiveBundle} (hv : v ∈ vs) (s : LiveState) :
    (s.leave vs).gone v = true := by
  simp [leave, overwrite, hv]

theorem leave_gone_of_notMem {vs : List LiveBundle} {b : LiveBundle} (hb : b ∉ vs)
    (s : LiveState) : (s.leave vs).gone b = s.gone b := by
  simp [leave, overwrite, hb]

@[simp] theorem expel_nil (event : LogEvent) (now : ℚ) (s : LiveState) :
    s.expel event now [] = s := by
  simp [expel, leave]

theorem expel_expel (event : LogEvent) (now : ℚ) {us vs : List LiveBundle} (s : LiveState)
    (h : ∀ u ∈ us, u ∉ vs) :
    (s.expel event now us).expel event now vs = s.expel event now (us ++ vs) := by
  simp only [expel, leave, without_without, overwrite_overwrite _ s.gone h, List.map_append,
    List.append_assoc, bytesOf_append, sub_sub]

end LiveState

/-! ## The two structures hang together -/

/-- The queues hold what the global order holds and is not gone; nothing is held twice, arrivals
are in order of time, and the counter is the bytes of what is queued. -/
structure Coherent (s : LiveState) : Prop where
  queues : ∀ c, s.q c = s.fifo.filter fun b => !s.gone b && decide (b.cls = c)
  nodup : s.fifo.Nodup
  ordered : s.fifo.Pairwise fun a b => a.t ≤ b.t
  bytes : s.bytes = bytesOf s.queued

theorem LiveState.initial_coherent : Coherent LiveState.initial where
  queues := fun _ => rfl
  nodup := List.nodup_nil
  ordered := List.Pairwise.nil
  bytes := rfl

/-- The first bundle of the global order, if it is not gone, is the first of its class. -/
theorem Coherent.q_first {s : LiveState} {b : LiveBundle} {rest : List LiveBundle}
    (h : Coherent s) (hfifo : s.fifo = b :: rest) (hgone : ¬ s.gone b = true) :
    s.q b.cls = b :: rest.filter fun a => !s.gone a && decide (a.cls = b.cls) := by
  rw [h.queues, hfifo, List.filter_cons_of_pos (by simpa using hgone)]

theorem mem_rankClasses (c : TrafficClass) : c ∈ rankClasses := by
  cases c <;> decide

theorem rankClasses_nodup : rankClasses.Nodup := by decide

namespace Coherent

variable {s : LiveState}

theorem mem_q (h : Coherent s) {b : LiveBundle} {c : TrafficClass} :
    b ∈ s.q c ↔ b ∈ s.fifo ∧ s.gone b = false ∧ b.cls = c := by
  rw [h.queues c]
  simp

/-- What `snapshot` shows is what is queued. -/
theorem snapshot_eq (h : Coherent s) : s.snapshot = s.q := by
  funext c
  refine List.filter_eq_self.2 fun b hb => ?_
  simp [(h.mem_q.1 hb).2.1]

theorem q_sublist (h : Coherent s) (c : TrafficClass) : (s.q c).Sublist s.fifo := by
  rw [h.queues c]
  exact List.filter_sublist

theorem q_nodup (h : Coherent s) (c : TrafficClass) : (s.q c).Nodup :=
  h.nodup.sublist (h.q_sublist c)

theorem q_ordered (h : Coherent s) (c : TrafficClass) :
    (s.q c).Pairwise fun a b => a.t ≤ b.t :=
  h.ordered.sublist (h.q_sublist c)

theorem mem_queued (h : Coherent s) {b : LiveBundle} :
    b ∈ s.queued ↔ b ∈ s.fifo ∧ s.gone b = false := by
  rw [LiveState.queued, List.mem_flatMap]
  constructor
  · rintro ⟨c, _, hb⟩
    exact ⟨(h.mem_q.1 hb).1, (h.mem_q.1 hb).2.1⟩
  · rintro ⟨hb, hgone⟩
    exact ⟨b.cls, mem_rankClasses _, h.mem_q.2 ⟨hb, hgone, rfl⟩⟩

theorem q_subset_queued (h : Coherent s) {b : LiveBundle} {c : TrafficClass} (hb : b ∈ s.q c) :
    b ∈ s.queued :=
  h.mem_queued.2 ⟨(h.mem_q.1 hb).1, (h.mem_q.1 hb).2.1⟩

theorem queued_nodup (h : Coherent s) : s.queued.Nodup := by
  refine List.nodup_flatMap.2 ⟨fun c _ => h.q_nodup c, ?_⟩
  refine rankClasses_nodup.imp fun {c c'} hne b hb hb' => ?_
  exact hne ((h.mem_q.1 hb).2.2.symm.trans (h.mem_q.1 hb').2.2)

/-- A bundle that is gone may leave the global order. -/
theorem dropGone {b : LiveBundle} {rest : List LiveBundle} (h : Coherent s)
    (hfifo : s.fifo = b :: rest) (hgone : s.gone b = true) :
    Coherent { s with fifo := rest } := by
  have hsub : rest.Sublist s.fifo := hfifo ▸ List.sublist_cons_self b rest
  refine ⟨fun c => ?_, h.nodup.sublist hsub, h.ordered.sublist hsub, h.bytes⟩
  have hq := h.queues c
  rw [hfifo, List.filter_cons_of_neg (by simp [hgone])] at hq
  exact hq

/-- Queued bundles may leave. -/
theorem leave {vs : List LiveBundle} (h : Coherent s) (hvs : vs.Nodup)
    (hsub : ∀ v ∈ vs, v ∈ s.queued) : Coherent (s.leave vs) := by
  refine ⟨fun c => ?_, h.nodup, h.ordered, ?_⟩
  · show without (s.q c) vs = s.fifo.filter _
    rw [h.queues c, without, List.filter_filter]
    refine List.filter_congr fun b _ => ?_
    by_cases hb : b ∈ vs <;> simp [LiveState.leave, overwrite, hb]
  · rw [LiveState.leave_queued, bytesOf_without h.queued_nodup hvs hsub, ← h.bytes]
    rfl

theorem expel {vs : List LiveBundle} {event : LogEvent} {now : ℚ} (h : Coherent s) (hvs : vs.Nodup)
    (hsub : ∀ v ∈ vs, v ∈ s.queued) : Coherent (s.expel event now vs) :=
  let h' := h.leave hvs hsub
  ⟨h'.queues, h'.nodup, h'.ordered, h'.bytes⟩

/-- Deficits and turns are the policy's own business. -/
theorem turn (h : Coherent s) (deficit : TrafficClass → ℚ) (rr : List TrafficClass) :
    Coherent { s with deficit := deficit, rr := rr } :=
  ⟨h.queues, h.nodup, h.ordered, h.bytes⟩

/-- What leaves one class leaves the others alone. -/
theorem leave_q {vs : List LiveBundle} {c c' : TrafficClass} (h : Coherent s)
    (hsub : ∀ v ∈ vs, v ∈ s.q c) (hne : c' ≠ c) : (s.leave vs).q c' = s.q c' := by
  refine List.filter_eq_self.2 fun b hb => ?_
  have hnot : b ∉ vs := fun hmem =>
    hne ((h.mem_q.1 hb).2.2.symm.trans (h.mem_q.1 (hsub b hmem)).2.2)
  simpa using hnot

/-- Taking some bundles out of one queue, as the code does it. -/
theorem leave_eq {vs rest : List LiveBundle} {c : TrafficClass} (h : Coherent s)
    (hsub : ∀ v ∈ vs, v ∈ s.q c) (hrest : without (s.q c) vs = rest) :
    (s.leave vs).q = Function.update s.q c rest := by
  funext c'
  by_cases hc : c' = c
  · subst hc
    rw [Function.update_self]
    exact hrest
  · rw [Function.update_of_ne hc]
    exact h.leave_q hsub hc

/-- One bundle leaves: the writes of the code. -/
theorem leave_singleton {b : LiveBundle} {rest : List LiveBundle} (h : Coherent s)
    (hb : b ∈ s.q b.cls) (hrest : without (s.q b.cls) [b] = rest) :
    s.leave [b] = { s with
      q := Function.update s.q b.cls rest
      gone := Function.update s.gone b true
      bytes := s.bytes + -b.n } := by
  have hq := h.leave_eq (c := b.cls) (by simpa using hb) hrest
  have hgone := update_eq_overwrite (fun _ => true) s.gone b
  rw [LiveState.leave] at hq ⊢
  simp only at hq
  rw [hq, ← hgone]
  simp [sub_eq_add_neg]

end Coherent

/-! ## Heads -/

/-- Older than the lifetime of its class. -/
def LiveGateway.expired (gw : LiveGateway) (now : ℚ) (b : LiveBundle) : Bool :=
  decide (gw.L b.cls < now - b.t)

/-- The queued bundles of a class that have not expired. -/
def LiveGateway.live (gw : LiveGateway) (now : ℚ) (s : LiveState) (c : TrafficClass) :
    List LiveBundle :=
  (s.q c).filter fun b => !gw.expired now b

/-- The queued bundles of a class that have. -/
def LiveGateway.stale (gw : LiveGateway) (now : ℚ) (s : LiveState) (c : TrafficClass) :
    List LiveBundle :=
  (s.q c).filter (gw.expired now)

section Heads

variable {gw : LiveGateway} {s : LiveState} {c : TrafficClass} {now : ℚ}

theorem mem_live {b : LiveBundle} :
    b ∈ gw.live now s c ↔ b ∈ s.q c ∧ now - b.t ≤ gw.L b.cls := by
  simp [LiveGateway.live, LiveGateway.expired]

/-- Within a class the oldest expire first. -/
theorem Coherent.expired_pairwise (h : Coherent s) (gw : LiveGateway) (now : ℚ)
    (c : TrafficClass) :
    (s.q c).Pairwise fun a b => gw.expired now b = true → gw.expired now a = true := by
  refine (h.q_ordered c).imp_of_mem fun {a b} ha hb hab hexp => ?_
  have hcls : b.cls = a.cls := (h.mem_q.1 hb).2.2.trans (h.mem_q.1 ha).2.2.symm
  simp only [LiveGateway.expired, decide_eq_true_eq, hcls] at hexp ⊢
  linarith

/-- The loop of `_head`, on a queue of bundles that are not gone. -/
theorem headLoop_eq (gw : LiveGateway) (c : TrafficClass) (now : ℚ) :
    ∀ (dq : List LiveBundle) (s : LiveState), Coherent s → s.q c = dq →
      gw.headLoop c now dq s = .ok (dq.dropWhile (gw.expired now)).head?
        (s.expel .expire now (dq.takeWhile (gw.expired now))) := by
  intro dq
  induction dq with
  | nil =>
      intro s _ _
      rw [List.takeWhile_nil, LiveState.expel_nil]
      rfl
  | cons b dq ih =>
      intro s h hq
      have hb : b ∈ s.q c := hq ▸ List.mem_cons_self ..
      rcases h.mem_q.1 hb with ⟨-, hgone, hcls⟩
      have hnd : (b :: dq).Nodup := hq ▸ h.q_nodup c
      subst hcls
      by_cases hexp : gw.L b.cls < now - b.t
      · -- the head has expired: it leaves, and the loop goes on
        have hrest : without (s.q b.cls) [b] = dq := by rw [hq, without_cons_self hnd]
        have hleave := h.leave_singleton hb hrest
        have hsub : ∀ v ∈ [b], v ∈ s.queued := by
          simpa using h.q_subset_queued hb
        have hstep : gw.headLoop b.cls now (b :: dq) s =
            gw.headLoop b.cls now dq (s.expel .expire now [b]) := by
          rw [LiveState.expel, hleave, LiveGateway.headLoop, run_get_bind, run_ite, hgone,
            if_neg Bool.false_ne_true, run_ite, if_pos hexp]
          rfl
        have hq' : (s.expel .expire now [b]).q b.cls = dq := hrest
        have hdisjoint : ∀ u ∈ [b], u ∉ dq.takeWhile (gw.expired now) := by
          intro u hu hmem
          rw [List.mem_singleton.1 hu] at hmem
          exact (List.nodup_cons.1 hnd).1 ((List.takeWhile_sublist _).subset hmem)
        have hexp' : gw.expired now b = true := decide_eq_true hexp
        rw [hstep, ih _ (h.expel (List.nodup_singleton b) hsub) hq',
          LiveState.expel_expel _ _ _ hdisjoint, List.dropWhile_cons_of_pos hexp',
          List.takeWhile_cons_of_pos hexp', List.singleton_append]
      · -- the head is alive: nothing leaves
        have hexp' : ¬ gw.expired now b = true := by simpa [LiveGateway.expired] using hexp
        rw [List.dropWhile_cons_of_neg hexp', List.takeWhile_cons_of_neg hexp',
          LiveState.expel_nil, LiveGateway.headLoop, run_get_bind, run_ite, hgone,
          if_neg Bool.false_ne_true, run_ite, if_neg hexp]
        rfl

theorem stale_subset_queued (h : Coherent s) (gw : LiveGateway) (now : ℚ) (c : TrafficClass) :
    ∀ v ∈ gw.stale now s c, v ∈ s.queued := fun _ hv =>
  h.q_subset_queued (List.mem_of_mem_filter hv)

/-- `_head` expels what has expired of its class and returns the first bundle that has not. -/
theorem head_eq (h : Coherent s) (gw : LiveGateway) (c : TrafficClass) (now : ℚ) :
    gw.head c now s =
      .ok (gw.live now s c).head? (s.expel .expire now (gw.stale now s c)) := by
  rw [LiveGateway.head, run_get_bind, headLoop_eq gw c now _ s h rfl,
    dropWhile_eq_filter (h.expired_pairwise gw now c),
    takeWhile_eq_filter (h.expired_pairwise gw now c)]
  rfl

/-- After that the queue of the class holds the others. -/
theorem expel_stale_q (event : LogEvent) (gw : LiveGateway) (now : ℚ) (s : LiveState)
    (c : TrafficClass) : (s.expel event now (gw.stale now s c)).q c = gw.live now s c :=
  without_filter _ _

/-- The live bundles are queued then. -/
theorem live_queued {b : LiveBundle} (hb : b ∈ gw.live now s c) :
    b ∈ (s.expel .expire now (gw.stale now s c)).queued := by
  have hqueue : b ∈ (s.expel .expire now (gw.stale now s c)).q c := by rwa [expel_stale_q]
  exact List.mem_flatMap.2 ⟨c, mem_rankClasses c, hqueue⟩

/-- `_take` takes the head of a queue. -/
theorem take_eq (h : Coherent s) {b : LiveBundle} (hb : (s.q c).head? = some b) :
    LiveGateway.take c s = .ok b (s.leave [b]) := by
  obtain ⟨dq, hq⟩ := List.head?_eq_some_iff.1 hb
  have hmem : b ∈ s.q c := hq ▸ List.mem_cons_self ..
  obtain rfl := (h.mem_q.1 hmem).2.2
  have hrest : without (s.q b.cls) [b] = dq := by
    rw [hq, without_cons_self (hq ▸ h.q_nodup b.cls)]
  rw [h.leave_singleton hmem hrest, LiveGateway.take, run_get_bind, hq]
  rfl

/-- `_take` does not look at the global order. -/
theorem take_fifo {s' : LiveState} {b : LiveBundle} (h : LiveGateway.take c s = .ok b s')
    (fifo : List LiveBundle) :
    LiveGateway.take c { s with fifo := fifo } = .ok b { s' with fifo := fifo } := by
  rw [LiveGateway.take, run_get_bind] at h ⊢
  cases hq : s.q c with
  | nil =>
      rw [hq] at h
      cases h
  | cons b' dq =>
      rw [hq] at h
      cases h
      rfl

/-- Nobody misses what has expired. -/
theorem without_expired {bs vs : List LiveBundle} (hvs : ∀ v ∈ vs, gw.expired now v = true)
    (hbs : ∀ b ∈ bs, gw.expired now b = false) : without bs vs = bs := by
  refine List.filter_eq_self.2 fun b hb => ?_
  have hnot : b ∉ vs := fun hmem => Bool.false_ne_true ((hbs b hb).symm.trans (hvs b hmem))
  simpa using hnot

theorem live_expel (event : LogEvent) (ts : ℚ) {vs : List LiveBundle}
    (hvs : ∀ v ∈ vs, gw.expired now v = true) (s : LiveState) :
    gw.live now (s.expel event ts vs) = gw.live now s := by
  funext c
  have hsplit : gw.live now (s.expel event ts vs) c = without (gw.live now s c) vs :=
    filter_without _ _ _
  rw [hsplit]
  refine without_expired hvs fun b hb => ?_
  simpa using (List.mem_filter.1 hb).2

theorem live_peeked (gw : LiveGateway) (now : ℚ) (s : LiveState) (c : TrafficClass) :
    gw.live now (s.expel .expire now (gw.stale now s c)) = gw.live now s :=
  live_expel _ _ (fun _ hv => (List.mem_filter.1 hv).2) s

/-- `_head` keeps the structures together. -/
theorem Coherent.peeked (h : Coherent s) (gw : LiveGateway) (now : ℚ) (c : TrafficClass) :
    Coherent (s.expel .expire now (gw.stale now s c)) :=
  h.expel ((h.q_nodup c).filter _) (stale_subset_queued h gw now c)

/-- The first of the global order, if it is alive, is the head of its class. -/
theorem Coherent.first_live {b : LiveBundle} {rest : List LiveBundle} (h : Coherent s)
    (hfifo : s.fifo = b :: rest) (hgone : ¬ s.gone b = true) (hexp : ¬ gw.expired now b = true) :
    (gw.live now s b.cls).head? = some b := by
  rw [LiveGateway.live, h.q_first hfifo hgone, List.filter_cons_of_pos (by simpa using hexp)]
  rfl

/-- Rule for the FIFO loop: the first of the global order is `gone`, or is `expired` with the whole
front of its class, or is `live` and returned. -/
theorem fifoLoop_rule {motive : LiveState → Option LiveBundle → LiveState → Prop}
    (nil : ∀ s, s.fifo = [] → motive s none s)
    (gone : ∀ s b rest, Coherent s → s.fifo = b :: rest → s.gone b = true →
      ∀ r s', motive { s with fifo := rest } r s' → motive s r s')
    (expired : ∀ s b rest, Coherent s → s.fifo = b :: rest → ¬ s.gone b = true →
      gw.expired now b = true → (s.expel .expire now (gw.stale now s b.cls)).gone b = true →
      ∀ r s', motive { s.expel .expire now (gw.stale now s b.cls) with fifo := rest } r s' →
        motive s r s')
    (live : ∀ s b rest, Coherent s → s.fifo = b :: rest → ¬ s.gone b = true →
      ¬ gw.expired now b = true →
      motive s (some b)
        { (s.expel .expire now (gw.stale now s b.cls)).leave [b] with fifo := rest }) :
    ∀ s, Coherent s → Returns (gw.fifoLoop now s.fifo) s (motive s) := by
  suffices hall : ∀ fifo s, Coherent s → s.fifo = fifo →
      Returns (gw.fifoLoop now fifo) s (motive s) from fun s h => hall s.fifo s h rfl
  intro fifo
  induction fifo with
  | nil => exact fun s _ hfifo => Returns.pure (nil s hfifo)
  | cons b rest ih =>
      intro s h hfifo
      refine Returns.get_bind ?_
      by_cases hgone : s.gone b = true
      · -- it left through the queue of its class, and is dropped here only now
        rw [if_pos hgone]
        exact Returns.modify_bind
          ((ih _ (h.dropGone hfifo hgone) rfl).mono (gone s b rest h hfifo hgone))
      rw [if_neg hgone]
      have hcoh := h.peeked gw now b.cls
      refine Returns.ok_bind (head_eq h gw b.cls now) ?_
      by_cases hexp : gw.expired now b = true
      · -- it has expired, so the head is another bundle and the loop goes on
        have hmem : b ∈ s.q b.cls := h.q_first hfifo hgone ▸ List.mem_cons_self ..
        have hgone' : (s.expel .expire now (gw.stale now s b.cls)).gone b = true :=
          s.leave_gone (List.mem_filter.2 ⟨hmem, hexp⟩)
        have hother : (gw.live now s b.cls).head? ≠ some b := by
          intro hhead
          have hlive := List.mem_filter.1 (List.mem_of_head? hhead)
          simp [hexp] at hlive
        rw [if_neg hother]
        exact Returns.modify_bind ((ih _ (hcoh.dropGone hfifo hgone') rfl).mono
          (expired s b rest h hfifo hgone hexp hgone'))
      · -- it is the head, and is returned
        have hhead := h.first_live hfifo hgone hexp
        have hhead' : ((s.expel .expire now (gw.stale now s b.cls)).q b.cls).head? = some b := by
          rw [expel_stale_q, hhead]
        rw [if_pos hhead]
        refine Returns.modify_bind (Returns.ok_bind (take_fifo (take_eq hcoh hhead') rest) ?_)
        exact Returns.pure (live s b rest h hfifo hgone hexp)

/-- The loop of STRICT expels some of what has expired, and takes the first live bundle of the
first class that has one. -/
theorem strictLoop_leaves (gw : LiveGateway) (now : ℚ) :
    ∀ (cs : List TrafficClass) (s : LiveState), Coherent s →
      Returns (gw.strictLoop now cs) s fun r s' => r = (cs.flatMap (gw.live now s)).head? ∧
        ∃ vs : List LiveBundle, (∀ v ∈ vs, v ∈ s.queued ∧ gw.expired now v = true) ∧
          s' = (s.expel .expire now vs).leave r.toList := by
  intro cs
  induction cs with
  | nil =>
      intro s _
      refine Returns.pure ⟨rfl, [], nofun, ?_⟩
      rw [LiveState.expel_nil]
      simp [LiveState.leave]
  | cons c cs ih =>
      intro s h
      have hstale : ∀ v ∈ gw.stale now s c, v ∈ s.queued ∧ gw.expired now v = true := fun v hv =>
        ⟨stale_subset_queued h gw now c v hv, (List.mem_filter.1 hv).2⟩
      refine Returns.ok_bind (head_eq h gw c now) ?_
      cases hhead : (gw.live now s c).head? with
      | none =>
          -- everything in this class is stale, so the next one is tried
          have hnil : gw.live now s c = [] := List.head?_eq_none_iff.1 hhead
          refine (ih _ (h.peeked gw now c)).mono fun r s' h' => ?_
          obtain ⟨hr, vs, hvs, rfl⟩ := h'
          have hqueued : (s.expel .expire now (gw.stale now s c)).queued =
              without s.queued (gw.stale now s c) := s.leave_queued _
          rw [hqueued] at hvs
          rw [live_peeked] at hr
          refine ⟨?_, gw.stale now s c ++ vs, fun v hv => ?_, ?_⟩
          · rw [List.flatMap_cons, hnil, List.nil_append]
            exact hr
          · rcases List.mem_append.1 hv with hv | hv
            · exact hstale v hv
            · exact ⟨(mem_without.1 (hvs v hv).1).1, (hvs v hv).2⟩
          · rw [LiveState.expel_expel]
            exact fun u hu hmem => (mem_without.1 (hvs u hmem).1).2 hu
      | some b =>
          -- the oldest live bundle of the class is taken
          have hhead' : ((s.expel .expire now (gw.stale now s c)).q c).head? = some b := by
            rw [expel_stale_q, hhead]
          refine Returns.ok_bind (take_eq (h.peeked gw now c) hhead') (Returns.pure ?_)
          refine ⟨?_, gw.stale now s c, hstale, rfl⟩
          rw [List.flatMap_cons, List.head?_append, hhead]
          rfl

end Heads

/-! ## Purging and evicting -/

/-- The front of `vs` that has to go before a bundle of the size of `b` fits, with `bytes` queued:
the loop stops as soon as it fits. -/
def LiveGateway.needed (gw : LiveGateway) (b : LiveBundle) : ℤ → List LiveBundle → List LiveBundle
  | _, [] => []
  | bytes, v :: vs =>
      if (gw.cap : ℤ) < bytes + b.n then v :: needed gw b (bytes - v.n) vs else []

section Needed

variable {gw : LiveGateway} {b : LiveBundle}

theorem needed_isPrefix (gw : LiveGateway) (b : LiveBundle) (bytes : ℤ) (vs : List LiveBundle) :
    (gw.needed b bytes vs).IsPrefix vs := by
  induction vs generalizing bytes with
  | nil => exact List.prefix_refl _
  | cons v vs ih =>
      rw [LiveGateway.needed]
      split
      · exact List.cons_prefix_cons.2 ⟨rfl, ih _⟩
      · exact List.nil_prefix

theorem needed_of_fits {bytes : ℤ} (h : ¬ (gw.cap : ℤ) < bytes + b.n) (vs : List LiveBundle) :
    gw.needed b bytes vs = [] := by
  cases vs with
  | nil => rfl
  | cons v vs => rw [LiveGateway.needed, if_neg h]

/-- The loop goes on in the next class with what is left to be made room for. -/
theorem needed_append (bytes : ℤ) (us vs : List LiveBundle) :
    gw.needed b bytes (us ++ vs) = gw.needed b bytes us ++
      gw.needed b (bytes - bytesOf (gw.needed b bytes us)) vs := by
  induction us generalizing bytes with
  | nil => simp [LiveGateway.needed]
  | cons u us ih =>
      by_cases hover : (gw.cap : ℤ) < bytes + b.n
      · simp only [List.cons_append, LiveGateway.needed, if_pos hover, ih, bytesOf_cons, sub_sub]
      · simp only [List.cons_append, LiveGateway.needed, if_neg hover, bytesOf_nil, sub_zero,
          List.nil_append, needed_of_fits hover]

/-- Either the needed bundles make room, or all of them are needed. -/
theorem needed_fits_or_all (gw : LiveGateway) (b : LiveBundle) (bytes : ℤ) (vs : List LiveBundle) :
    ¬ (gw.cap : ℤ) < bytes - bytesOf (gw.needed b bytes vs) + b.n ∨
      gw.needed b bytes vs = vs := by
  induction vs generalizing bytes with
  | nil => exact Or.inr rfl
  | cons v vs ih =>
      rw [LiveGateway.needed]
      split
      · next hover =>
          rcases ih (bytes - v.n) with hfits | hall
          · refine Or.inl ?_
            rw [bytesOf_cons, ← sub_sub]
            exact hfits
          · exact Or.inr (by rw [hall])
      · next hfits => exact Or.inl (by simpa using hfits)

end Needed

section Loops

variable {gw : LiveGateway} {s : LiveState} {c : TrafficClass} {now : ℚ} {b : LiveBundle}

/-- The loop that evicts from the queue `newest.reverse` of one class. -/
theorem evictLoop_eq (gw : LiveGateway) (b : LiveBundle) (now : ℚ) (c : TrafficClass) :
    ∀ (newest : List LiveBundle) (s : LiveState), Coherent s → s.q c = newest.reverse →
      gw.evictLoop b now c newest s =
        .ok ⟨⟩ (s.expel .evict now (gw.needed b s.bytes newest)) := by
  intro newest
  induction newest with
  | nil =>
      intro s _ _
      rw [LiveGateway.needed, LiveState.expel_nil]
      rfl
  | cons v older ih =>
      intro s h hq
      rw [List.reverse_cons] at hq
      have hv : v ∈ s.q c := by simp [hq]
      obtain rfl := (h.mem_q.1 hv).2.2
      have hnd : (older.reverse ++ [v]).Nodup := hq ▸ h.q_nodup v.cls
      by_cases hover : gw.Over b s
      · -- the newest bundle is at the back of the queue and leaves
        have hrest : without (s.q v.cls) [v] = older.reverse := by
          rw [hq, without_append_self hnd]
        have hleave := h.leave_singleton hv hrest
        have hstep : gw.evictLoop b now v.cls (v :: older) s =
            gw.evictLoop b now v.cls older (s.expel .evict now [v]) := by
          rw [LiveState.expel, hleave, LiveGateway.evictLoop, run_get_bind, run_ite, if_pos hover]
          rfl
        have hsub : ∀ u ∈ [v], u ∈ s.queued := by simpa using h.q_subset_queued hv
        have hdisjoint : ∀ u ∈ [v], u ∉ gw.needed b (s.bytes - v.n) older := by
          intro u hu hmem
          rw [List.mem_singleton.1 hu] at hmem
          have hmem' : v ∈ older.reverse :=
            List.mem_reverse.2 ((needed_isPrefix gw b _ older).subset hmem)
          exact (List.nodup_append.1 hnd).2.2 v hmem' v (by simp) rfl
        have hbytes : (s.expel .evict now [v]).bytes = s.bytes - v.n := by
          simp [LiveState.expel, LiveState.leave]
        have hover' : (gw.cap : ℤ) < s.bytes + b.n := hover
        rw [hstep, ih _ (h.expel (List.nodup_singleton v) hsub) hrest, hbytes,
          LiveState.expel_expel _ _ _ hdisjoint, LiveGateway.needed, if_pos hover',
          List.singleton_append]
      · -- there is room by now: the loop stops
        rw [needed_of_fits hover, LiveState.expel_nil, LiveGateway.evictLoop, run_get_bind,
          run_ite, if_neg hover]
        rfl

/-- Leaving one class changes the queue of no other. -/
theorem Coherent.expel_q {vs : List LiveBundle} {event : LogEvent} {c' : TrafficClass}
    (h : Coherent s) (hsub : ∀ v ∈ vs, v ∈ s.q c) (hne : c' ≠ c) :
    (s.expel event now vs).q c' = s.q c' :=
  h.leave_q hsub hne

/-- The bundles of the queues `q` that `b` may displace, in the order in which they are evicted. -/
def displaceable (q : TrafficClass → List LiveBundle) (b : LiveBundle) (cs : List TrafficClass) :
    List LiveBundle :=
  (cs.takeWhile fun c => decide (rank b.cls < rank c)).flatMap fun c => (q c).reverse

/-- The loops over the classes evict the needed ones of them. -/
theorem evictClasses_eq (gw : LiveGateway) (b : LiveBundle) (now : ℚ) :
    ∀ (cs : List TrafficClass) (s : LiveState), Coherent s → cs.Nodup →
      gw.evictClasses b now cs s =
        .ok ⟨⟩ (s.expel .evict now (gw.needed b s.bytes (displaceable s.q b cs))) := by
  intro cs
  induction cs with
  | nil =>
      intro s _ _
      rw [displaceable, List.takeWhile_nil, List.flatMap_nil, LiveGateway.needed,
        LiveState.expel_nil]
      rfl
  | cons c cs ih =>
      intro s h hcs
      rcases List.nodup_cons.1 hcs with ⟨hc, hcs'⟩
      by_cases hrank : rank c ≤ rank b.cls
      · -- the first class that outranks or equals `b` ends the loop
        have hstop : displaceable s.q b (c :: cs) = [] := by
          simp [displaceable, not_lt.2 hrank]
        rw [hstop, LiveGateway.needed, LiveState.expel_nil, LiveGateway.evictClasses,
          if_pos hrank]
        rfl
      · have hgo : displaceable s.q b (c :: cs) = (s.q c).reverse ++ displaceable s.q b cs := by
          simp [displaceable, not_le.1 hrank]
        have hfront := (needed_isPrefix gw b s.bytes (s.q c).reverse)
        have hsub : ∀ v ∈ gw.needed b s.bytes (s.q c).reverse, v ∈ s.q c := fun v hv =>
          List.mem_reverse.1 (hfront.subset hv)
        have hnd : (gw.needed b s.bytes (s.q c).reverse).Nodup :=
          (List.nodup_reverse.2 (h.q_nodup c)).sublist hfront.sublist
        have hcoh : Coherent (s.expel .evict now (gw.needed b s.bytes (s.q c).reverse)) :=
          h.expel hnd fun v hv => h.q_subset_queued (hsub v hv)
        -- the other classes are as before
        have hlater : displaceable
            (s.expel .evict now (gw.needed b s.bytes (s.q c).reverse)).q b cs =
              displaceable s.q b cs := by
          refine List.flatMap_congr fun c' hc' => ?_
          have hne : c' ≠ c := fun heq =>
            hc (heq ▸ (List.takeWhile_sublist _).subset hc')
          rw [h.expel_q hsub hne]
        -- and nothing leaves twice
        have hdisjoint : ∀ u ∈ gw.needed b s.bytes (s.q c).reverse,
            u ∉ gw.needed b (s.bytes - bytesOf (gw.needed b s.bytes (s.q c).reverse))
              (displaceable s.q b cs) := by
          intro u hu hmem
          obtain ⟨c', hc', hu'⟩ := List.mem_flatMap.1 ((needed_isPrefix _ _ _ _).subset hmem)
          have heq := (h.mem_q.1 (List.mem_reverse.1 hu')).2.2.symm.trans
            (h.mem_q.1 (hsub u hu)).2.2
          exact hc (heq ▸ (List.takeWhile_sublist _).subset hc')
        rw [LiveGateway.evictClasses, if_neg hrank, run_get_bind,
          bind_ok (evictLoop_eq gw b now c _ s h (List.reverse_reverse _).symm), ih _ hcoh hcs',
          hlater, hgo, needed_append]
        exact congrArg (EStateM.Result.ok PUnit.unit) (LiveState.expel_expel _ _ _ hdisjoint)

/-- All expired bundles of some classes. -/
def LiveGateway.staleOf (gw : LiveGateway) (now : ℚ) (s : LiveState) (cs : List TrafficClass) :
    List LiveBundle :=
  cs.flatMap (gw.stale now s)

/-- Expelling what is stale in one class and then in others is doing it at once. -/
theorem Coherent.expel_stale_staleOf (h : Coherent s) {cs : List TrafficClass} (hc : c ∉ cs) :
    (s.expel .expire now (gw.stale now s c)).expel .expire now
        (gw.staleOf now (s.expel .expire now (gw.stale now s c)) cs) =
      s.expel .expire now (gw.staleOf now s (c :: cs)) := by
  have hsub : ∀ v ∈ gw.stale now s c, v ∈ s.q c := fun v hv => List.mem_of_mem_filter hv
  -- what is stale in the other classes is as before
  have hlater : gw.staleOf now (s.expel .expire now (gw.stale now s c)) cs =
      gw.staleOf now s cs := by
    refine List.flatMap_congr fun c' hc' => ?_
    have hne : c' ≠ c := fun heq => hc (heq ▸ hc')
    rw [LiveGateway.stale, h.expel_q hsub hne, LiveGateway.stale]
  have hdisjoint : ∀ u ∈ gw.stale now s c, u ∉ gw.staleOf now s cs := by
    intro u hu hmem
    obtain ⟨c', hc', hu'⟩ := List.mem_flatMap.1 hmem
    have heq := (h.mem_q.1 (List.mem_of_mem_filter hu')).2.2.symm.trans
      (h.mem_q.1 (hsub u hu)).2.2
    exact hc (heq ▸ hc')
  rw [hlater, LiveState.expel_expel _ _ _ hdisjoint]
  rfl

/-- The purge expels them. -/
theorem purge_eq (gw : LiveGateway) (now : ℚ) :
    ∀ (cs : List TrafficClass) (s : LiveState), Coherent s → cs.Nodup →
      gw.purge now cs s = .ok ⟨⟩ (s.expel .expire now (gw.staleOf now s cs)) := by
  intro cs
  induction cs with
  | nil =>
      intro s _ _
      rw [LiveGateway.staleOf, List.flatMap_nil, LiveState.expel_nil]
      rfl
  | cons c cs ih =>
      intro s h hcs
      rcases List.nodup_cons.1 hcs with ⟨hc, hcs'⟩
      rw [LiveGateway.purge, bind_ok (head_eq h gw c now), ih _ (h.peeked gw now c) hcs',
        h.expel_stale_staleOf hc]

/-- Looking for the classes that have a head expels them as well. -/
theorem backlogged_eq (gw : LiveGateway) (now : ℚ) :
    ∀ (cs : List TrafficClass) (s : LiveState), Coherent s → cs.Nodup →
      gw.backlogged now cs s = .ok (cs.filter fun c => (gw.live now s c).head?.isSome)
        (s.expel .expire now (gw.staleOf now s cs)) := by
  intro cs
  induction cs with
  | nil =>
      intro s _ _
      rw [LiveGateway.staleOf, List.flatMap_nil, LiveState.expel_nil]
      rfl
  | cons c cs ih =>
      intro s h hcs
      rcases List.nodup_cons.1 hcs with ⟨hc, hcs'⟩
      have hsub : ∀ v ∈ gw.stale now s c, v ∈ s.q c := fun v hv => List.mem_of_mem_filter hv
      -- the heads of the other classes are as before
      have hlater : (cs.filter fun c' =>
          (gw.live now (s.expel .expire now (gw.stale now s c)) c').head?.isSome) =
            cs.filter fun c' => (gw.live now s c').head?.isSome := by
        refine List.filter_congr fun c' hc' => ?_
        have hne : c' ≠ c := fun heq => hc (heq ▸ hc')
        rw [LiveGateway.live, h.expel_q hsub hne, LiveGateway.live]
      rw [LiveGateway.backlogged, bind_ok (head_eq h gw c now),
        bind_ok (ih _ (h.peeked gw now c) hcs'), hlater, h.expel_stale_staleOf hc,
        List.filter_cons]
      rfl

/-- A class with anything alive has a head. -/
theorem live_eq_nil_of_idle {gw : LiveGateway} {now : ℚ} {s : LiveState} {cs : List TrafficClass}
    {c : TrafficClass} (hidle : cs.filter (fun c => (gw.live now s c).head?.isSome) = [])
    (hc : c ∈ cs) : gw.live now s c = [] := by
  have hhead := List.filter_eq_nil_iff.1 hidle c hc
  simpa using hhead

end Loops

/-! ## Turns -/

theorem wfqWeightClasses_nodup : wfqWeightClasses.Nodup := by decide

/-- Every class below EMERGENCY has its turn. -/
theorem mem_wfqWeightClasses {c : TrafficClass} : c ∈ wfqWeightClasses ↔ c ≠ .emergency := by
  cases c <;> decide

/-- `c` has the turn, and the other classes of the round robin wait behind it. -/
structure HasTurn (rr : List TrafficClass) (c : TrafficClass) (cs : List TrafficClass) : Prop where
  front : rr = c :: cs
  mem : c ∈ wfqWeightClasses
  notMem : c ∉ cs
  behind : ∀ c' ∈ wfqWeightClasses, c ≠ c' → c' ∈ cs
  length : cs.length = 2
  passed : (cs ++ [c]).Perm rr

/-- Somebody always has the turn. -/
theorem exists_turn {rr : List TrafficClass} (h : rr.Perm wfqWeightClasses) :
    ∃ c cs, HasTurn rr c cs := by
  have hlength := h.length_eq
  cases rr with
  | nil => cases hlength
  | cons c cs =>
      have hnodup : (c :: cs).Nodup := h.nodup_iff.2 wfqWeightClasses_nodup
      refine ⟨c, cs, rfl, h.subset (List.mem_cons_self ..), (List.nodup_cons.1 hnodup).1,
        fun c' hc' hne => ?_, ?_, List.perm_append_singleton c cs⟩
      · exact (List.mem_cons.1 (h.symm.subset hc')).resolve_left (Ne.symm hne)
      · simpa [wfqWeightClasses] using hlength

/-- Rule for the round robin: the class that has the turn is `idle`, or its deficit is too `short`
for its head, or its head is `paid` for and returned. -/
theorem wfqRounds_rule {gw : LiveGateway} {now : ℚ}
    {motive : ℕ → LiveState → Option LiveBundle → LiveState → Prop}
    (exhausted : ∀ s, Coherent s → motive 0 s none s)
    (idle : ∀ visits s c cs, Coherent s → HasTurn s.rr c cs → (gw.live now s c).head? = none →
      ∀ r s', motive visits { s.expel .expire now (gw.stale now s c) with
          deficit := Function.update s.deficit c 0
          rr := cs ++ [c] } r s' →
        motive (visits + 1) s r s')
    (short : ∀ visits s c cs b, Coherent s → HasTurn s.rr c cs →
      (gw.live now s c).head? = some b → ¬ (b.n : ℚ) ≤ s.deficit c →
      ∀ r s', motive visits { s.expel .expire now (gw.stale now s c) with
          deficit := Function.update s.deficit c (s.deficit c + wfqQuantum * wfqWeight c)
          rr := cs ++ [c] } r s' →
        motive (visits + 1) s r s')
    (paid : ∀ visits s c cs b, Coherent s → HasTurn s.rr c cs →
      (gw.live now s c).head? = some b → (b.n : ℚ) ≤ s.deficit c →
      motive (visits + 1) s (some b) (LiveState.leave [b]
        { s.expel .expire now (gw.stale now s c) with
          deficit := Function.update s.deficit c (s.deficit c - b.n) })) :
    ∀ visits s, Coherent s → s.rr.Perm wfqWeightClasses →
      Returns (gw.wfqRounds now visits) s (motive visits s) := by
  intro visits
  induction visits with
  | zero => exact fun s h _ => Returns.pure (exhausted s h)
  | succ visits ih =>
      intro s h hturns
      refine Returns.get_bind ?_
      obtain ⟨c, cs, hturn⟩ := exists_turn hturns
      have hcoh := h.peeked gw now c
      have hpass := hturn.passed.trans hturns
      rw [hturn.front]
      refine Returns.ok_bind (head_eq h gw c now) ?_
      cases hhead : (gw.live now s c).head? with
      | none =>
          -- an idle class forfeits its deficit
          exact (ih _ (hcoh.turn _ _) hpass).mono (idle visits s c cs h hturn hhead)
      | some b =>
          refine Returns.get_bind ?_
          split
          · next hpays =>
              -- the deficit pays for the head of the class
              have hhead' : ((s.expel .expire now (gw.stale now s c)).q c).head? = some b := by
                rw [expel_stale_q, hhead]
              have hpaid := hcoh.turn (Function.update s.deficit c (s.deficit c - b.n)) s.rr
              exact Returns.modify_bind (Returns.ok_bind (take_eq hpaid hhead')
                (Returns.pure (paid visits s c cs b h hturn hhead hpays)))
          · next hshort =>
              -- the class keeps its quantum and waits for its next turn
              exact (ih _ (hcoh.turn _ _) hpass).mono (short visits s c cs b h hturn hhead hshort)

end LinkController
end LunaBridge
