import LunaBridge.Foundation.RoundRobin
import LunaBridge.Live.Conservation
import LunaBridge.Live.Heads
import Mathlib.Data.List.MinMax

/-!
# Fairness — the live gateway's round robin over whole runs

The deficits and the visiting order of a `LiveState` are a wheel of flows, and every call turns it
by moves of deficit round robin (`Turns`): emergencies, expiry, evictions and a third class that
comes and goes do not disturb it.  The bounds of the library on credits and on the service of two
flows are then bounds on the gateway (`wfq_is_fair`).
-/

namespace LunaBridge
namespace LinkController

open Foundation.Machine Foundation.Python Foundation.RoundRobin Foundation.Trace Gateway

/-! ## The wheel of a state -/

/-- The classes as flows. -/
def LiveState.wheel (s : LiveState) : Wheel TrafficClass := ⟨s.deficit, s.rr⟩

/-- What a class saves up in a turn. -/
def wfqSaving (c : TrafficClass) : ℚ := wfqQuantum * wfqWeight c

/-- The class holds a bundle that has not expired. -/
def Waits (gw : LiveGateway) (now : ℚ) (s : LiveState) (c : TrafficClass) : Prop :=
  ∃ b ∈ s.snapshot c, now - b.t ≤ gw.L c

/-- Every bundle is in the queue of its class. -/
def Filed (s : LiveState) : Prop := ∀ c, ∀ b ∈ s.q c, b.cls = c

/-- The bytes of class `c` among some bundles. -/
def bytesOfClass (c : TrafficClass) (bs : List LiveBundle) : ℚ :=
  ((bs.filter fun b => decide (b.cls = c)).map fun b => (b.n : ℚ)).sum

/-- The largest size of class `c` among some bundles. -/
def largest (c : TrafficClass) (bs : List LiveBundle) : ℕ :=
  ((bs.filter fun b => decide (b.cls = c)).map LiveBundle.n).foldr max 0

theorem wfqWeight_pos {c : TrafficClass} (hc : c ∈ wfqWeightClasses) : 0 < wfqWeight c := by
  revert hc
  cases c <;> decide

theorem bytesOfClass_append (c : TrafficClass) (as bs : List LiveBundle) :
    bytesOfClass c (as ++ bs) = bytesOfClass c as + bytesOfClass c bs := by
  simp [bytesOfClass, List.filter_append]

theorem le_largest {b : LiveBundle} {bs : List LiveBundle} (hb : b ∈ bs) :
    b.n ≤ largest b.cls bs := by
  have hmem : b.n ∈ (bs.filter fun a => decide (a.cls = b.cls)).map LiveBundle.n :=
    List.mem_map_of_mem (List.mem_filter.2 ⟨hb, by simp⟩)
  exact List.le_max_of_le hmem le_rfl

theorem largest_mono (c : TrafficClass) {as bs : List LiveBundle} (h : ∀ a ∈ as, a ∈ bs) :
    largest c as ≤ largest c bs := by
  refine List.max_le_of_forall_le _ _ fun n hn => ?_
  obtain ⟨a, ha, rfl⟩ := List.mem_map.1 hn
  have hcls := of_decide_eq_true (List.mem_filter.1 ha).2
  exact hcls ▸ le_largest (h a (List.mem_of_mem_filter ha))

theorem Filed.thinned {s s' : LiveState} (h : Filed s) (hthin : Thinned s s') : Filed s' :=
  fun c b hb => h c b ((hthin.queues c).subset hb)

/-- What is queued after an arrival was queued before or is the arrival. -/
theorem mem_enqueued {a b : LiveBundle} {c : TrafficClass} {s : LiveState}
    (ha : a ∈ (s.enqueued b).q c) : a ∈ s.q c ∨ a = b ∧ b.cls = c := by
  rw [LiveState.enqueued_q] at ha
  rcases List.mem_append.1 ha with ha | ha
  · exact Or.inl ha
  · split at ha
    · next hc => exact Or.inr ⟨List.mem_singleton.1 ha, hc⟩
    · cases ha

theorem Filed.enqueued {s : LiveState} (h : Filed s) (b : LiveBundle) : Filed (s.enqueued b) := by
  intro c a ha
  rcases mem_enqueued ha with ha | ⟨rfl, hc⟩
  · exact h c a ha
  · exact hc

section Waiting

variable {gw : LiveGateway} {now : ℚ} {c c' : TrafficClass} {s s' : LiveState}

theorem waits_iff : Waits gw now s c ↔ ∃ b ∈ s.q c, s.gone b = false ∧ now - b.t ≤ gw.L c := by
  simp [Waits, LiveState.snapshot, and_assoc]

/-- Looking at heads does not make anybody wait in vain. -/
theorem Peeked.waits (h : Peeked gw now c s s') (hfiled : Filed s) (hwaits : Waits gw now s c') :
    Waits gw now s' c' := by
  obtain ⟨b, hb, hgone, halive⟩ := waits_iff.1 hwaits
  have hcls := hfiled c' b hb
  refine waits_iff.2 ⟨b, ?_, ?_, halive⟩
  · by_cases hc : c' = c
    · -- it is not part of the spent front
      subst hc
      have hspent : gw.spent now c' s b = false := by
        simp [LiveGateway.spent, hgone, halive]
      rw [h.queue_self]
      rw [← List.takeWhile_append_dropWhile (p := gw.spent now c' s) (l := s.q c')] at hb
      refine (List.mem_append.1 hb).resolve_left fun hfront => ?_
      exact absurd (List.mem_takeWhile_imp hfront) (by simp [hspent])
    · rwa [h.queue_of_ne hc]
  · -- it was not marked, for whoever is marked has expired
    rw [Bool.eq_false_iff]
    intro hmarked
    rcases h.gone b hmarked with hgone' | ⟨hmem, hexp⟩
    · simp [hgone] at hgone'
    · rw [← hfiled c b hmem, hcls] at hexp
      linarith

/-- Heads have been looked at: the wheel has not turned, and whoever waited still does. -/
structure Looked (gw : LiveGateway) (now : ℚ) (s s' : LiveState) : Prop where
  thinned : Thinned s s'
  deficit : s'.deficit = s.deficit
  rr : s'.rr = s.rr
  waits : ∀ c, Waits gw now s c → Waits gw now s' c

theorem Looked.trans {s'' : LiveState} (h : Looked gw now s s') (h' : Looked gw now s' s'') :
    Looked gw now s s'' where
  thinned := h.thinned.trans h'.thinned
  deficit := h'.deficit.trans h.deficit
  rr := h'.rr.trans h.rr
  waits := fun c hwaits => h'.waits c (h.waits c hwaits)

theorem Peeked.looked (h : Peeked gw now c s s') (hfiled : Filed s) : Looked gw now s s' where
  thinned := h.thinned
  deficit := h.deficit
  rr := h.rr
  waits := fun _ hwaits => h.waits hfiled hwaits

/-- Whoever waits is seen. -/
theorem Waits.head (h : Waits gw now s c) : (s.q c).head? ≠ none := by
  obtain ⟨b, hb, -⟩ := waits_iff.1 h
  intro hnone
  rw [List.head?_eq_none_iff] at hnone
  rw [hnone] at hb
  cases hb

end Waiting

/-! ## Turning the wheel -/

/-- By some moves of the round robin, `next` comes to return `r`. -/
structure Turns (gw : LiveGateway) (now : ℚ) (r : Option LiveBundle)
    (moves : List (Move TrafficClass)) (s s' : LiveState) : Prop where
  run : Run (Step wfqSaving) moves s.wheel s'.wheel
  sizes : ∀ M : TrafficClass → ℚ, (∀ c, ∀ b ∈ s.q c, (b.n : ℚ) ≤ M c) →
    ∀ m ∈ moves, m.Within M
  served : ∀ c ∈ wfqWeightClasses, Foundation.RoundRobin.served c moves = bytesOfClass c r.toList
  spares : ∀ c ∈ s.rr, Waits gw now s c → ∀ m ∈ moves, m.Spares c
  thinned : Thinned s s'

section Moves

variable {gw : LiveGateway} {now : ℚ} {c : TrafficClass} {cs : List TrafficClass}
  {r : Option LiveBundle} {moves : List (Move TrafficClass)} {s s₁ s' : LiveState}

/-- Nothing is moved. -/
theorem Turns.still (hthin : Thinned s s') (hdeficit : s'.deficit = s.deficit)
    (hrr : s'.rr = s.rr)
    (hr : ∀ c ∈ wfqWeightClasses, bytesOfClass c r.toList = 0) : Turns gw now r [] s s' where
  run := by
    rw [LiveState.wheel, LiveState.wheel, hdeficit, hrr]
    exact .nil _
  sizes := nofun
  served := fun c hc => (hr c hc).symm
  spares := fun _ _ _ _ hm => absurd hm List.not_mem_nil
  thinned := hthin

/-- Heads are looked at first. -/
theorem Turns.looked (h : Turns gw now r moves s₁ s') (hlook : Looked gw now s s₁) :
    Turns gw now r moves s s' where
  run := by
    have hwheel : s₁.wheel = s.wheel := by
      rw [LiveState.wheel, LiveState.wheel, hlook.deficit, hlook.rr]
    exact hwheel ▸ h.run
  sizes := fun M hM => h.sizes M fun c b hb => hM c b ((hlook.thinned.queues c).subset hb)
  served := h.served
  spares := fun c hc hwaits => h.spares c (hlook.rr ▸ hc) (hlook.waits c hwaits)
  thinned := hlook.thinned.trans h.thinned

/-- A visit that sends nothing is made first. -/
theorem Turns.visit {m : Move TrafficClass} (h : Turns gw now r moves s₁ s')
    (hstep : Step wfqSaving m s.wheel s₁.wheel) (hq : s₁.q = s.q) (hgone : s₁.gone = s.gone)
    (hsize : ∀ M : TrafficClass → ℚ, (∀ c, ∀ b ∈ s.q c, (b.n : ℚ) ≤ M c) → m.Within M)
    (hsent : ∀ c, m.sent c = 0) (hspares : ∀ c, Waits gw now s c → m.Spares c) :
    Turns gw now r (m :: moves) s s' where
  run := .cons hstep h.run
  sizes := by
    intro M hM m' hm'
    rcases List.mem_cons.1 hm' with rfl | hm'
    · exact hsize M hM
    · exact h.sizes M (by rwa [hq]) m' hm'
  served := fun c hc => by rw [served_cons, hsent, zero_add, h.served c hc]
  spares := by
    intro c hc hwaits m' hm'
    rcases List.mem_cons.1 hm' with rfl | hm'
    · exact hspares c hwaits
    · refine h.spares c (hstep.perm.mem_iff.2 hc) ?_ m' hm'
      rw [waits_iff] at hwaits ⊢
      rwa [hq, hgone]
  thinned := Thinned.trans ⟨fun c => hq ▸ List.Sublist.refl _, hstep.perm⟩ h.thinned

/-- A head that the deficit pays for is sent. -/
theorem Turns.sent {b : LiveBundle} {credit : TrafficClass → ℚ} {order : List TrafficClass}
    (hstep : Step wfqSaving (.send c b.n) s.wheel ⟨credit, order⟩) (hdeficit : s'.deficit = credit)
    (hrr : s'.rr = order) (hb : b ∈ s.q c) (hcls : b.cls = c) (hthin : Thinned s s') :
    Turns gw now (some b) [.send c b.n] s s' where
  run := by
    have hwheel : s'.wheel = ⟨credit, order⟩ := by rw [LiveState.wheel, hdeficit, hrr]
    exact hwheel ▸ .cons hstep (.nil _)
  sizes := by
    intro M hM m hm
    rw [List.mem_singleton.1 hm]
    exact ⟨Nat.cast_nonneg _, hM c b hb⟩
  served := by
    intro c' _
    by_cases hc : c = c' <;> simp [Move.sent, bytesOfClass, hcls, hc]
  spares := by
    intro c' _ _ m hm
    rw [List.mem_singleton.1 hm]
    trivial
  thinned := hthin

/-- The round robin turns the wheel until the deficit of some class pays for its head. -/
theorem wfqRounds_turns (gw : LiveGateway) (now : ℚ) : ∀ (visits : ℕ) (s : LiveState), Filed s →
    s.rr ≠ [] → Returns (gw.wfqRounds now visits) s fun r s' =>
      ∃ moves, Turns gw now r moves s s' := by
  intro visits
  induction visits with
  | zero =>
      exact fun s _ _ => Returns.pure ⟨[], .still (Thinned.refl s) rfl rfl fun _ _ => rfl⟩
  | succ visits ih =>
      intro s hfiled hrr
      refine Returns.get_bind ?_
      cases hturn : s.rr with
      | nil => exact absurd hturn hrr
      | cons c cs =>
          refine (head_peeks gw c now s).bind fun r s₁ h₁ => ?_
          rcases h₁ with ⟨hpeek, hr⟩
          have hfiled₁ := hfiled.thinned hpeek.thinned
          have hfront : s₁.wheel.order = c :: cs := hpeek.rr.trans hturn
          have hturned : ∀ deficit,
              Filed { s₁ with deficit := deficit, rr := cs ++ [c] } := fun _ => hfiled₁
          cases r with
          | none =>
              -- the class is idle, so nobody waits in it
              have hstep : Step wfqSaving (.idle c) s₁.wheel
                  ⟨Function.update s₁.deficit c 0, cs ++ [c]⟩ := .idle hfront
              refine Returns.modify_bind (Returns.modify_bind ?_)
              refine (ih _ (hturned _) (by simp)).mono fun r' s' h' => ?_
              obtain ⟨moves, hmoves⟩ := h'
              refine ⟨.idle c :: moves, (hmoves.visit hstep rfl rfl (fun _ _ => trivial)
                (fun _ => rfl) (fun c' hwaits => ?_)).looked (hpeek.looked hfiled)⟩
              rintro rfl
              exact hwaits.head hr.symm
          | some b =>
              have hb : b ∈ s₁.q c := List.mem_of_head? hr.symm
              refine Returns.get_bind ?_
              split
              · -- the deficit pays for the head, which is taken
                next hpays =>
                have hstep : Step wfqSaving (.send c b.n) s₁.wheel
                    ⟨Function.update s₁.deficit c (s₁.deficit c - b.n), s₁.rr⟩ :=
                  .send hfront hpays
                have htake := take_thins (c := c) (b := b)
                  (s := { s₁ with
                    deficit := Function.update s₁.deficit c (s₁.deficit c - b.n) }) hr.symm
                refine Returns.modify_bind (htake.bind fun taken s' h' => Returns.pure ?_)
                rcases h' with ⟨rfl, hthin, hdeficit, hrr'⟩
                have hsent : Turns gw now (some taken) [.send c taken.n] s₁ s' :=
                  .sent hstep hdeficit hrr' hb (hfiled₁ c taken hb) ⟨hthin.queues, hthin.turns⟩
                exact ⟨_, hsent.looked (hpeek.looked hfiled)⟩
              · -- the class saves up a quantum and the turn passes on
                next hshort =>
                have hstep : Step wfqSaving (.save c b.n) s₁.wheel
                    ⟨Function.update s₁.deficit c (s₁.deficit c + wfqQuantum * wfqWeight c),
                      cs ++ [c]⟩ := .save hfront (not_le.1 hshort)
                refine Returns.modify_bind (Returns.modify_bind ?_)
                refine (ih _ (hturned _) (by simp)).mono fun r' s' h' => ?_
                obtain ⟨moves, hmoves⟩ := h'
                exact ⟨.save c b.n :: moves, (hmoves.visit hstep rfl rfl
                  (fun M hM => ⟨Nat.cast_nonneg _, hM c b hb⟩) (fun _ => rfl)
                  (fun _ _ => trivial)).looked (hpeek.looked hfiled)⟩

/-- `backlogged` looks at the head of every class. -/
theorem backlogged_looks (gw : LiveGateway) (now : ℚ) : ∀ (cs : List TrafficClass) (s : LiveState),
    Filed s → Returns (gw.backlogged now cs) s fun waiting s' => Looked gw now s s' ∧
      (waiting = [] → ∀ c ∈ cs, ¬ Waits gw now s c) := by
  intro cs
  induction cs with
  | nil =>
      intro s _
      exact Returns.pure ⟨⟨Thinned.refl s, rfl, rfl, fun _ h => h⟩, fun _ _ hc => nomatch hc⟩
  | cons c cs ih =>
      intro s hfiled
      refine (head_peeks gw c now s).bind fun r s₁ h₁ => ?_
      rcases h₁ with ⟨hpeek, hr⟩
      have hlook := hpeek.looked hfiled
      refine (ih s₁ (hfiled.thinned hpeek.thinned)).bind fun rest s' h' => Returns.pure ?_
      refine ⟨hlook.trans h'.1, fun hnone c' hc' hwaits => ?_⟩
      have hwaits₁ := hlook.waits c' hwaits
      cases r with
      | none =>
          rcases List.mem_cons.1 hc' with rfl | hc'
          · exact hwaits₁.head hr.symm
          · exact h'.2 hnone c' hc' hwaits₁
      | some b => cases hnone

/-- Where nobody waits all deficits are forfeited. -/
theorem Turns.forfeit (hlook : Looked gw now s s₁) (hrr : s.rr.Perm wfqWeightClasses)
    (hnone : ∀ c ∈ s.rr, ¬ Waits gw now s c) :
    Turns gw now none [.forfeit] s { s₁ with
      deficit := fun c => if c ∈ wfqWeightClasses then 0 else s₁.deficit c } where
  run := by
    have horder : s₁.rr = s.rr := hlook.rr
    have hstep : Step wfqSaving .forfeit s.wheel
        ⟨fun c => if c ∈ wfqWeightClasses then 0 else s₁.deficit c, s.rr⟩ :=
      .forfeit fun c hc => if_pos (hrr.mem_iff.1 hc)
    rw [LiveState.wheel, LiveState.wheel, horder]
    exact .cons hstep (.nil _)
  sizes := by
    intro M _ m hm
    rw [List.mem_singleton.1 hm]
    trivial
  served := fun c _ => by simp [Move.sent, bytesOfClass]
  spares := fun c hc hwaits => absurd hwaits (hnone c hc)
  thinned := ⟨hlook.thinned.queues, hlook.thinned.turns⟩

theorem wfqNext_turns (gw : LiveGateway) (now : ℚ) {s : LiveState} (hfiled : Filed s)
    (hrr : s.rr.Perm wfqWeightClasses) :
    Returns (gw.wfqNext now) s fun r s' => ∃ moves, Turns gw now r moves s s' := by
  refine Returns.get_bind ((backlogged_looks gw now s.rr s hfiled).bind fun waiting s₁ h₁ => ?_)
  rcases h₁ with ⟨hlook, hnone⟩
  split
  · next hempty =>
    exact Returns.modify_bind (Returns.pure ⟨[.forfeit], .forfeit hlook hrr (hnone hempty)⟩)
  · have hturns : s₁.rr ≠ [] := by
      obtain ⟨c, cs, hturn⟩ := exists_turn hrr
      rw [hlook.rr, hturn.front]
      exact List.cons_ne_nil c cs
    refine (wfqRounds_turns gw now 10000 s₁ (hfiled.thinned hlook.thinned) hturns).mono
      fun r s' h' => ?_
    obtain ⟨moves, hmoves⟩ := h'
    exact ⟨moves, hmoves.looked hlook⟩

/-- An EMERGENCY is not part of the round robin. -/
theorem Turns.preempt {b : LiveBundle} (hlook : Looked gw now s s₁) (hcls : b.cls = .emergency)
    (hthin : Thinned s₁ s') (hdeficit : s'.deficit = s₁.deficit) (hrr : s'.rr = s₁.rr) :
    Turns gw now (some b) [] s s' := by
  refine Turns.looked (.still hthin hdeficit hrr fun c hc => ?_) hlook
  have hne : b.cls ≠ c := by
    rintro rfl
    rw [hcls] at hc
    revert hc
    decide
  simp [bytesOfClass, hne]

/-- Under WFQ every call of `next` turns the wheel. -/
theorem next_turns (hpolicy : gw.policy = .wfq) (now : ℚ) {s : LiveState} (hfiled : Filed s)
    (hrr : s.rr.Perm wfqWeightClasses) :
    Returns (gw.next now) s fun r s' => ∃ moves, Turns gw now r moves s s' := by
  rw [LiveGateway.next, if_neg (by simp [hpolicy]), if_neg (by simp [hpolicy])]
  refine (head_peeks gw .emergency now s).bind fun r s₁ h₁ => ?_
  rcases h₁ with ⟨hpeek, hr⟩
  have hlook := hpeek.looked hfiled
  cases r with
  | some b =>
      rw [Option.isSome_some, if_pos rfl]
      refine (take_thins hr.symm).bind fun taken s' h' => Returns.pure ⟨[], ?_⟩
      rcases h' with ⟨rfl, hthin, hdeficit, hrr'⟩
      have hcls := hfiled.thinned hpeek.thinned .emergency taken (List.mem_of_head? hr.symm)
      exact .preempt hlook hcls hthin hdeficit hrr'
  | none =>
      rw [Option.isSome_none, if_neg Bool.false_ne_true]
      refine (wfqNext_turns gw now (hfiled.thinned hpeek.thinned)
        (hlook.rr ▸ hrr)).mono fun r s' h' => ?_
      obtain ⟨moves, hmoves⟩ := h'
      exact ⟨moves, hmoves.looked hlook⟩

end Moves

/-! ## Whole runs -/

/-- What holds of the wheel once the bundles `admitted` have been admitted. -/
structure Steady (admitted : List LiveBundle) (s : LiveState) : Prop where
  filed : Filed s
  turns : s.rr.Perm wfqWeightClasses
  known : ∀ c, ∀ b ∈ s.q c, b ∈ admitted
  credit : Bounded wfqSaving (fun c => (largest c admitted : ℚ)) s.wheel

/-- Class `c` holds a bundle that has not expired whenever `next` is called. -/
def Backlogged (gw : LiveGateway) (c : TrafficClass) (calls : List LiveCall) (s : LiveState) :
    Prop :=
  ∀ front now back, calls = front ++ .next now :: back →
    ∀ answers t, gw.serve front s = .ok answers t → Waits gw now t c

section Runs

variable {gw : LiveGateway} {admitted : List LiveBundle} {s : LiveState}

theorem LiveState.initial_steady : Steady [] .initial where
  filed := nofun
  turns := List.Perm.refl _
  known := nofun
  credit := by
    intro c hc
    have hpos : 0 < wfqSaving c := mul_pos (by decide) (wfqWeight_pos hc)
    exact ⟨le_rfl, by simpa [largest, LiveState.wheel, LiveState.initial] using hpos⟩

theorem Steady.pays (h : Steady admitted s) : Pays wfqSaving s.wheel := fun _ hc =>
  mul_pos (by decide) (wfqWeight_pos (h.turns.mem_iff.1 hc))

/-- The bundles queued are no larger than the largest ones admitted. -/
theorem Steady.largest (h : Steady admitted s) (c : TrafficClass) :
    ∀ b ∈ s.q c, (b.n : ℚ) ≤ largest c admitted := by
  intro b hb
  have hcls := h.filed c b hb
  exact_mod_cast hcls ▸ le_largest (h.known c b hb)

/-- Bundles may leave the queues. -/
theorem Steady.shed {s' : LiveState} (h : Steady admitted s) {event : LogEvent} {now : ℚ}
    (hshed : Shed event now s s') : Steady admitted s' where
  filed := h.filed.thinned hshed.thinned
  turns := hshed.rr ▸ h.turns
  known := fun c b hb => h.known c b ((hshed.queues c).subset hb)
  credit := by
    have hwheel : s'.wheel = s.wheel := by
      rw [LiveState.wheel, LiveState.wheel, hshed.deficit, hshed.rr]
    exact hwheel ▸ h.credit

/-- A bundle may be admitted. -/
theorem Steady.enqueued (h : Steady admitted s) (b : LiveBundle) :
    Steady (admitted ++ [b]) (s.enqueued b) where
  filed := h.filed.enqueued b
  turns := h.turns
  known := by
    intro c a ha
    rcases mem_enqueued ha with ha | ⟨rfl, -⟩
    · exact List.mem_append_left _ (h.known c a ha)
    · exact List.mem_append_right _ (List.mem_singleton_self a)
  credit := h.credit.mono fun c => by
    exact_mod_cast largest_mono c fun a ha => List.mem_append_left _ ha

/-- The wheel may turn. -/
theorem Steady.turned {now : ℚ} {r : Option LiveBundle} {moves : List (Move TrafficClass)}
    {s' : LiveState} (h : Steady admitted s) (hturns : Turns gw now r moves s s') :
    Steady admitted s' where
  filed := h.filed.thinned hturns.thinned
  turns := hturns.thinned.turns.trans h.turns
  known := fun c b hb => h.known c b ((hturns.thinned.queues c).subset hb)
  credit := credit_bounds (fun _ => Nat.cast_nonneg _) hturns.run
    (hturns.sizes _ h.largest) h.pays h.credit

/-- One call turns the wheel by some moves, and takes no credit from a class that waits. -/
theorem Steady.exec (hpolicy : gw.policy = .wfq) (h : Steady admitted s) (call : LiveCall) :
    Returns (call.exec gw) s fun answer s' =>
      Steady (admitted ++ (LiveCall.admitted? (call, answer)).toList) s' ∧
      ∃ moves, Run (Step wfqSaving) moves s.wheel s'.wheel ∧
        (∀ c ∈ wfqWeightClasses,
          Foundation.RoundRobin.served c moves = bytesOfClass c answer.popped?.toList) ∧
        ∀ c ∈ wfqWeightClasses, (∀ now, call = .next now → Waits gw now s c) →
          ∀ m ∈ moves, m.Spares c := by
  cases call with
  | admitBundle b now =>
      refine (admit_sheds gw b now s).bind fun accepted s' h' => Returns.pure ?_
      obtain ⟨s₁, s₂, hpurged, hevicted, rfl⟩ := h'
      have hsteady := (h.shed hpurged).shed hevicted
      have hwheel : s₂.wheel = s.wheel := by
        rw [LiveState.wheel, LiveState.wheel, hevicted.deficit, hevicted.rr, hpurged.deficit,
          hpurged.rr]
      cases accepted with
      | true =>
          exact ⟨hsteady.enqueued b, [], hwheel ▸ .nil _, fun _ _ => rfl, nofun⟩
      | false =>
          refine ⟨?_, [], hwheel ▸ .nil _, fun _ _ => rfl, nofun⟩
          simp only [LiveCall.admitted?, Option.toList_none, List.append_nil]
          exact ⟨hsteady.filed, hsteady.turns, hsteady.known, hsteady.credit⟩
  | next now =>
      refine (next_turns hpolicy now h.filed h.turns).bind fun r s' h' => Returns.pure ?_
      obtain ⟨moves, hmoves⟩ := h'
      refine ⟨?_, moves, hmoves.run, hmoves.served, fun c hc hwaits => ?_⟩
      · simpa [LiveCall.admitted?] using h.turned hmoves
      · exact hmoves.spares c (h.turns.mem_iff.2 hc) (hwaits now rfl)

/-- Any number of calls. -/
theorem Steady.serve (hpolicy : gw.policy = .wfq) : ∀ (calls : List LiveCall)
    (admitted : List LiveBundle) (s : LiveState), Steady admitted s →
      Returns (gw.serve calls) s fun answers s' =>
        Steady (admitted ++ admittedBy calls answers) s' ∧
        ∃ moves, Run (Step wfqSaving) moves s.wheel s'.wheel ∧
          (∀ c ∈ wfqWeightClasses,
            Foundation.RoundRobin.served c moves = bytesOfClass c (returnedBy answers)) ∧
          ∀ c ∈ wfqWeightClasses, Backlogged gw c calls s → ∀ m ∈ moves, m.Spares c := by
  intro calls
  induction calls with
  | nil =>
      intro admitted s h
      refine Returns.pure ⟨?_, [], .nil _, fun _ _ => rfl, nofun⟩
      simpa [admittedBy] using h
  | cons call calls ih =>
      intro admitted s h
      obtain ⟨answer, s₁, hexec, hsteady₁, moves₁, hrun₁, hserved₁, hspares₁⟩ :=
        h.exec hpolicy call
      obtain ⟨answers, s', hserve, hsteady, moves, hrun, hserved, hspares⟩ := ih _ s₁ hsteady₁
      refine ⟨answer :: answers, s', ?_, ?_, moves₁ ++ moves, hrun₁.append hrun,
        fun c hc => ?_, fun c hc hback m hm => ?_⟩
      · exact (bind_ok hexec).trans ((bind_ok hserve).trans rfl)
      · rwa [admittedBy_cons, ← List.append_assoc]
      · have hsplit : returnedBy (answer :: answers) =
            answer.popped?.toList ++ returnedBy answers := by
          cases hout : answer.popped? <;> simp [returnedBy, hout]
        rw [served_append, hserved₁ c hc, hserved c hc, hsplit, bytesOfClass_append]
      · rcases List.mem_append.1 hm with hm | hm
        · refine hspares₁ c hc (fun now hcall => ?_) m hm
          exact hback [] now calls (by rw [hcall, List.nil_append]) [] s rfl
        · refine hspares c hc (fun front now back hsplit answers₀ t hfront => ?_) m hm
          refine hback (call :: front) now back (by rw [hsplit, List.cons_append])
            (answer :: answers₀) t ?_
          exact (bind_ok hexec).trans ((bind_ok hfront).trans rfl)

end Runs

/-- Under WFQ, in every reachable state the deficit of a class is non-negative and less than the
largest bundle admitted of it and a quantum; and over every segment of a run in which two classes
hold unexpired bundles whenever `next` is called, `next` returns bytes of both in proportion to
their weights, up to three quanta and the largest bundle of each. -/
theorem wfq_serves_fairly {gw : LiveGateway} (hpolicy : gw.policy = .wfq)
    (calls segment : List LiveCall) :
    ∃ answers s answers' s', gw.serve calls .initial = .ok answers s ∧
      gw.serve segment s = .ok answers' s' ∧
      (∀ c ∈ wfqWeightClasses, 0 ≤ s.deficit c ∧
        s.deficit c < largest c (admittedBy calls answers) + wfqQuantum * wfqWeight c) ∧
      ∀ i ∈ wfqWeightClasses, ∀ j ∈ wfqWeightClasses,
        Backlogged gw i segment s → Backlogged gw j segment s →
          |bytesOfClass i (returnedBy answers') / wfqWeight i -
              bytesOfClass j (returnedBy answers') / wfqWeight j| ≤
            3 * wfqQuantum +
            largest i (admittedBy calls answers ++ admittedBy segment answers') / wfqWeight i +
            largest j (admittedBy calls answers ++ admittedBy segment answers') / wfqWeight j := by
  obtain ⟨answers, s, hserve, hsteady, -⟩ := LiveState.initial_steady.serve hpolicy calls
  rw [List.nil_append] at hsteady
  obtain ⟨answers', s', hserve', hsteady', moves, hrun, hserved, hspares⟩ :=
    hsteady.serve hpolicy segment
  refine ⟨answers, s, answers', s', hserve, hserve',
    fun c hc => hsteady.credit c (hsteady.turns.mem_iff.2 hc), fun i hi j hj hwaitsᵢ hwaitsⱼ => ?_⟩
  rw [← hserved i hi, ← hserved j hj]
  have hposᵢ := wfqWeight_pos hi
  have hposⱼ := wfqWeight_pos hj
  by_cases hij : i = j
  · subst hij
    rw [sub_self, abs_zero]
    have hquantum : 0 ≤ wfqQuantum := by decide
    positivity
  · have hseats : Seats i j s.wheel :=
      ⟨hsteady.turns.nodup_iff.2 wfqWeightClasses_nodup, hsteady.turns.mem_iff.2 hi,
        hsteady.turns.mem_iff.2 hj⟩
    have hquantum : ∀ c, wfqSaving c = wfqQuantum * wfqWeight c := fun _ => rfl
    have hpos : (0 : ℚ) ≤ wfqQuantum := by decide
    have hcredit : Bounded wfqSaving (fun c => (largest c (admittedBy calls answers ++
        admittedBy segment answers') : ℚ)) s.wheel := hsteady.credit.mono fun c => by
      exact_mod_cast largest_mono c fun a ha => List.mem_append_left _ ha
    have hclose := served_close hquantum hpos hij hposᵢ hposⱼ hrun hseats (hspares i hi hwaitsᵢ)
      (hspares j hj hwaitsⱼ) hcredit hsteady'.credit
    exact hclose

/-- Two telemetry bundles and two of science wait while the gateway drains. -/
def Small.segment : List LiveCall :=
  [.admitBundle { ref := 4, cls := .telemetry, n := 300, t := 16 } 16,
    .admitBundle { ref := 5, cls := .scienceBulk, n := 200, t := 17 } 17,
    .admitBundle { ref := 6, cls := .telemetry, n := 100, t := 18 } 18,
    .admitBundle { ref := 7, cls := .scienceBulk, n := 400, t := 19 } 19, .next 20, .next 20]

theorem wfq_serves_fairly_small :
    ∃ answers s answers' s', (Small.gateway .wfq).serve Small.calls .initial = .ok answers s ∧
      (Small.gateway .wfq).serve Small.segment s = .ok answers' s' ∧
      (∀ c ∈ wfqWeightClasses, 0 ≤ s.deficit c ∧
        s.deficit c < largest c (admittedBy Small.calls answers) + wfqQuantum * wfqWeight c) ∧
      ∀ i ∈ wfqWeightClasses, ∀ j ∈ wfqWeightClasses,
        Backlogged (Small.gateway .wfq) i Small.segment s →
        Backlogged (Small.gateway .wfq) j Small.segment s →
          |bytesOfClass i (returnedBy answers') / wfqWeight i -
              bytesOfClass j (returnedBy answers') / wfqWeight j| ≤
            3 * wfqQuantum +
              largest i (admittedBy Small.calls answers ++ admittedBy Small.segment answers') /
                wfqWeight i +
              largest j (admittedBy Small.calls answers ++ admittedBy Small.segment answers') /
                wfqWeight j :=
  wfq_serves_fairly rfl Small.calls Small.segment

end LinkController
end LunaBridge
