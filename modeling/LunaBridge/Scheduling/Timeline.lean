import LunaBridge.Scheduling.Drain

/-!
# Timeline — a run as a sequence of arrivals and contacts

The window loop of `run`, with its calls of `next_after` and its list of pending arrivals, handles
one event after the other: every arrival is offered, every window expires and drains.  `timeline`
is the order in which it does so.  `run_eq` reduces a run to its timeline.
-/

namespace LunaBridge
namespace Gateway

open Foundation.Machine Foundation.StableSort

/-- What a run reacts to. -/
inductive Event
  | arrival (b : Bundle)
  | contact (w : ContactWindow)

namespace Event

/-- The bundle an arrival offers. -/
def arrival? : Event → Option Bundle
  | .arrival b => some b
  | .contact _ => none

/-- The window a contact opens. -/
def contact? : Event → Option ContactWindow
  | .arrival _ => none
  | .contact w => some w

/-- How the instants of two events compare when the first is handled before the second. -/
def Before : Event → Event → Prop
  | .arrival a, .arrival b => a.ingressTs ≤ b.ingressTs
  | .arrival a, .contact w => a.ingressTs ≤ w.endTs
  | .contact w, .arrival b => w.endTs < b.ingressTs
  | .contact v, .contact w => v.endTs ≤ w.startTs

/-- The reaction to an event. -/
def handle (sch : Scheduler) : Event → SchedM PUnit
  | .arrival b => tryAdmit sch b b.ingressTs
  | .contact w => do
      expireInBlackout w.startTs
      drainWindow sch w

end Event

/-- The bundles of some arrivals, in ingress order. -/
def arrivalsOf (bs : List Bundle) : List Event :=
  (sortBy Bundle.ingressTs bs).map Event.arrival

/-- The events of a run over the windows `ws`: before each window come the bundles that have
arrived by its end. -/
def timeline : List ContactWindow → List Bundle → List Event
  | [], bs => arrivalsOf bs
  | w :: ws, bs =>
      arrivalsOf (bs.filter fun b => decide (b.ingressTs ≤ w.endTs)) ++
        Event.contact w :: timeline ws (bs.filter fun b => decide (w.endTs < b.ingressTs))

/-- The bundles offered by some events, in order. -/
def offered (es : List Event) : List Bundle := es.filterMap Event.arrival?

/-- The windows some events open, in order. -/
def contacts (es : List Event) : List ContactWindow := es.filterMap Event.contact?

theorem mem_offered {es : List Event} {b : Bundle} : b ∈ offered es ↔ Event.arrival b ∈ es := by
  simp only [offered, List.mem_filterMap]
  constructor
  · rintro ⟨e, he, heq⟩
    cases e with
    | arrival c => cases heq; exact he
    | contact w => cases heq
  · exact fun h => ⟨_, h, rfl⟩

theorem mem_contacts {es : List Event} {w : ContactWindow} :
    w ∈ contacts es ↔ Event.contact w ∈ es := by
  simp only [contacts, List.mem_filterMap]
  constructor
  · rintro ⟨e, he, heq⟩
    cases e with
    | arrival c => cases heq
    | contact v => cases heq; exact he
  · exact fun h => ⟨_, h, rfl⟩

/-! ## What a timeline contains -/

@[simp] theorem offered_arrivalsOf (bs : List Bundle) :
    offered (arrivalsOf bs) = sortBy Bundle.ingressTs bs := by
  simp [offered, arrivalsOf, List.filterMap_map, Function.comp_def, Event.arrival?]

@[simp] theorem offered_append (es fs : List Event) :
    offered (es ++ fs) = offered es ++ offered fs :=
  List.filterMap_append

@[simp] theorem offered_nil : offered [] = [] := rfl

@[simp] theorem offered_arrival (b : Bundle) (es : List Event) :
    offered (.arrival b :: es) = b :: offered es := rfl

@[simp] theorem offered_contact (w : ContactWindow) (es : List Event) :
    offered (.contact w :: es) = offered es := rfl

@[simp] theorem contacts_arrival (b : Bundle) (es : List Event) :
    contacts (.arrival b :: es) = contacts es := rfl

@[simp] theorem contacts_contact (w : ContactWindow) (es : List Event) :
    contacts (.contact w :: es) = w :: contacts es := rfl

@[simp] theorem contacts_append (es fs : List Event) :
    contacts (es ++ fs) = contacts es ++ contacts fs :=
  List.filterMap_append

/-- Every bundle is offered, in ingress order. -/
theorem offered_timeline (ws : List ContactWindow) (bs : List Bundle) :
    offered (timeline ws bs) = sortBy Bundle.ingressTs bs := by
  induction ws generalizing bs with
  | nil => exact offered_arrivalsOf bs
  | cons w ws ih =>
      rw [timeline, offered_append, offered_arrivalsOf, offered_contact, ih]
      have hsplit := sortBy_eq_append Bundle.ingressTs (fun b => decide (b.ingressTs ≤ w.endTs)) bs
        (by
          intro a _ b _ ha hb
          have ha' := of_decide_eq_true ha
          have hb' := of_decide_eq_false hb
          exact lt_of_le_of_lt ha' (not_le.1 hb'))
      rw [hsplit]
      congr 2
      apply List.filter_congr
      intro b _
      rw [← decide_not, decide_eq_decide, not_le]

theorem mem_timeline_arrival {ws : List ContactWindow} {bs : List Bundle} {b : Bundle} :
    Event.arrival b ∈ timeline ws bs ↔ b ∈ bs := by
  rw [← mem_offered, offered_timeline, mem_sortBy]

/-- Every window is served once, in order. -/
theorem contacts_timeline (ws : List ContactWindow) (bs : List Bundle) :
    contacts (timeline ws bs) = ws := by
  have hnone : ∀ bs, contacts (arrivalsOf bs) = [] := by
    intro bs
    simp [contacts, arrivalsOf, List.filterMap_map, Function.comp_def, Event.contact?]
  induction ws generalizing bs with
  | nil => exact hnone bs
  | cons w ws ih =>
      rw [timeline, contacts_append, hnone, contacts_contact, ih, List.nil_append]

theorem mem_timeline_contact {ws : List ContactWindow} {bs : List Bundle} {w : ContactWindow} :
    Event.contact w ∈ timeline ws bs ↔ w ∈ ws := by
  rw [← mem_contacts, contacts_timeline]

theorem arrivalsOf_pairwise (bs : List Bundle) : (arrivalsOf bs).Pairwise Event.Before := by
  rw [arrivalsOf, List.pairwise_map]
  exact sortBy_pairwise _ bs

/-- The events of a timeline come in the order of their instants. -/
theorem timeline_pairwise {ws : List ContactWindow}
    (hws : ws.Pairwise fun prev nxt => prev.endTs ≤ nxt.startTs) (bs : List Bundle) :
    (timeline ws bs).Pairwise Event.Before := by
  induction ws generalizing bs with
  | nil => exact arrivalsOf_pairwise bs
  | cons w ws ih =>
      rcases List.pairwise_cons.1 hws with ⟨hw, hws'⟩
      have hlater : ∀ e ∈ timeline ws (bs.filter fun b => decide (w.endTs < b.ingressTs)),
          Event.Before (.contact w) e := by
        intro e he
        cases e with
        | arrival b =>
            have hb := (List.mem_filter.1 (mem_timeline_arrival.1 he)).2
            exact (of_decide_eq_true hb : w.endTs < b.ingressTs)
        | contact v => exact hw v (mem_timeline_contact.1 he)
      refine List.pairwise_append.2 ⟨arrivalsOf_pairwise _,
        List.pairwise_cons.2 ⟨hlater, ih hws' _⟩, ?_⟩
      -- who arrives by the end of `w` comes before `w` and before everything later
      intro e he f hf
      rcases List.mem_map.1 he with ⟨a, ha, rfl⟩
      have haw : a.ingressTs ≤ w.endTs := by
        simpa using (List.mem_filter.1 ((mem_sortBy _).1 ha)).2
      rcases List.mem_cons.1 hf with rfl | hf'
      · exact haw
      · have hwf := hlater f hf'
        cases f with
        | arrival b => exact haw.trans (le_of_lt hwf)
        | contact v =>
            calc a.ingressTs
                _ ≤ w.endTs := haw
                _ ≤ v.startTs := hwf
                _ ≤ v.endTs := v.start_lt_end.le

/-! ## The loop handles the timeline -/

section Loop

variable (sch : Scheduler)

/-- The expiry pass at the end of the last window, if there is one. -/
def lastExpiry : Option ℚ → SchedM PUnit
  | some lastEndTs => expireInBlackout lastEndTs
  | none => pure ⟨⟩

/-- The windows `ws` served in order, as the window loop does it. -/
def serveEach : List ContactWindow → List Bundle → Option ℚ → SchedM (List Bundle × Option ℚ)
  | [], pendingArrivals, lastEndTs => pure (pendingArrivals, lastEndTs)
  | w :: ws, pendingArrivals, _ => do
      let stillFuture ← admitArrivals sch pendingArrivals (w.endTs : WithTop ℚ)
      expireInBlackout w.startTs
      drainWindow sch w
      serveEach ws stillFuture (some w.endTs)

/-- Stepping with `next_after` from one end to the next visits the windows one by one. -/
theorem walkPlan_eq_serveEach : ∀ (ws pre : List ContactWindow) (fuel : ℕ) (bs : List Bundle)
    (lastEndTs : Option ℚ), sch.plan.windows = pre ++ ws → ws.length ≤ fuel →
    walkPlan sch fuel ws.head? bs lastEndTs = serveEach sch ws bs lastEndTs := by
  -- induction on the windows ahead; `pre` are those the walk has left behind
  intro ws
  induction ws with
  | nil =>
      intro pre fuel bs lastEndTs _ _
      cases fuel <;> rfl
  | cons w ws ih =>
      intro pre fuel bs lastEndTs hsplit hfuel
      cases fuel with
      | zero => simp at hfuel
      | succ fuel =>
          have hnext := sch.plan.nextAfter_endTs hsplit
          have hrest := fun still => ih (pre ++ [w]) fuel still (some w.endTs) (by simp [hsplit])
            (Nat.le_of_succ_le_succ hfuel)
          simp only [walkPlan, List.head?_cons, serveEach, hnext, hrest]

/-- The fuel of the loop suffices. -/
theorem walkPlan_start (bs : List Bundle) :
    walkPlan sch (sch.plan.windows.length + 1) (sch.plan.nextAfter ⊥) bs none =
      serveEach sch sch.plan.windows bs none := by
  rw [sch.plan.nextAfter_bot]
  exact walkPlan_eq_serveEach sch _ [] _ bs none rfl (Nat.le_succ _)

/-- Admitting the arrivals up to a cutoff handles them as events. -/
theorem admitArrivals_eq (bs : List Bundle) (cutoffTs : WithTop ℚ) :
    admitArrivals sch bs cutoffTs = ((arrivalsOf
      (bs.filter fun b => decide ((b.ingressTs : WithTop ℚ) ≤ cutoffTs))).forM
        (Event.handle sch) >>= fun _ =>
          pure (bs.filter fun b => decide (cutoffTs < (b.ingressTs : WithTop ℚ)))) := by
  simp only [admitArrivals, arrivalsOf, List.forM_eq_forM, List.forM_map, Event.handle]

theorem afterLastWindow_eq (bs : List Bundle) (lastEndTs : Option ℚ) :
    afterLastWindow sch bs lastEndTs =
      ((arrivalsOf bs).forM (Event.handle sch) >>= fun _ => lastExpiry lastEndTs) := by
  cases lastEndTs <;> simp [afterLastWindow, admitArrivals_eq, lastExpiry]

/-- The end of the last of the windows `ws`, if there is one. -/
def lastEndOf : List ContactWindow → Option ℚ → Option ℚ
  | [], lastEndTs => lastEndTs
  | w :: ws, _ => lastEndOf ws (some w.endTs)

theorem lastEndOf_none : ∀ ws : List ContactWindow,
    lastEndOf ws none = ws.getLast?.map ContactWindow.endTs := by
  have hsome : ∀ (ws : List ContactWindow) (w : ContactWindow),
      lastEndOf ws (some w.endTs) = (w :: ws).getLast?.map ContactWindow.endTs := by
    intro ws
    induction ws with
    | nil => exact fun w => rfl
    | cons v ws ih => exact fun w => (ih v).trans (by simp [List.getLast?_cons])
  intro ws
  cases ws with
  | nil => rfl
  | cons w ws => exact hsome ws w

theorem serveEach_eq : ∀ (ws : List ContactWindow) (bs : List Bundle) (lastEndTs : Option ℚ),
    (serveEach sch ws bs lastEndTs >>= fun walked =>
      afterLastWindow sch walked.1 walked.2 >>= fun _ => pure walked.2) =
      ((timeline ws bs).forM (Event.handle sch) >>= fun _ =>
        lastExpiry (lastEndOf ws lastEndTs) >>= fun _ => pure (lastEndOf ws lastEndTs)) := by
  intro ws
  induction ws with
  | nil =>
      intro bs lastEndTs
      simp [serveEach, afterLastWindow_eq, timeline, lastEndOf]
  | cons w ws ih =>
      intro bs lastEndTs
      have hrest := ih (bs.filter fun b => decide (w.endTs < b.ingressTs)) (some w.endTs)
      simp only [serveEach, admitArrivals_eq, timeline, lastEndOf, bind_assoc, pure_bind,
        List.forM_eq_forM, List.forM_append, List.forM_cons, WithTop.coe_le_coe,
        WithTop.coe_lt_coe] at hrest ⊢
      simp only [hrest, Event.handle, bind_assoc]

/-- A run up to its final sweep: every event of the timeline, then the last expiry pass. -/
theorem serveContacts_eq (bs : List Bundle) :
    serveContacts sch bs = ((timeline sch.plan.windows bs).forM (Event.handle sch) >>= fun _ =>
      lastExpiry sch.plan.lastEnd >>= fun _ => pure sch.plan.lastEnd) := by
  rw [serveContacts, walkPlan_start, serveEach_eq, lastEndOf_none]
  rfl

/-- A run is its loud check, its timeline, the last expiry pass and the final sweep. -/
theorem run_eq (now : ℚ) (bs : List Bundle) :
    run sch now bs = (checkExpirations bs >>= fun _ =>
      (timeline sch.plan.windows bs).forM (Event.handle sch) >>= fun _ =>
        lastExpiry sch.plan.lastEnd >>= fun _ => finalSweep now sch.plan.lastEnd) := by
  simp only [run, serveContacts_eq, bind_assoc, pure_bind]

end Loop

end Gateway
end LunaBridge
