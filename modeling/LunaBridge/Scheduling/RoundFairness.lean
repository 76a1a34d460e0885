import LunaBridge.Scheduling.Deficits
import LunaBridge.Scheduling.WorkConserving

/-!
# RoundFairness — how evenly the round robin serves two classes

What a backlogged class is credited in a round is its weight times an amount that is the same for
all classes.  What it sends is what it has been credited, less the change of its deficit.  So over
any number of rounds the service of two backlogged classes, each divided by the class's weight,
differs by what their deficits can account for: less than one largest bundle of each.
-/

namespace LunaBridge
namespace Gateway

open Foundation.Machine Foundation.GreedyFill

/-! ## The conservation law -/

/-- Since `l₀` and `s₀` each backlogged class has been credited its weight times `credits`, and has
sent what its deficit does not show. -/
structure Balanced (order : List TrafficClass) (l₀ : RoundLocals) (s₀ : SchedulerState)
    (credits : ℚ) (l : RoundLocals) (s : SchedulerState) : Prop where
  sublist : ∀ tc, (l.byClass tc).Sublist (l₀.byClass tc)
  balance : ∀ tc ∈ order, l.byClass tc ≠ [] →
    s.deficit tc - load Bundle.bits (l.byClass tc) =
      s₀.deficit tc - load Bundle.bits (l₀.byClass tc) + (classSpecs tc).queueBudget * credits

/-- What two visits to the deficit of a class have in common: it is not negative, and unless nothing
has happened yet, it does not cover a head that fits. -/
structure Level (order : List TrafficClass) (l₀ : RoundLocals) (s₀ : SchedulerState)
    (l : RoundLocals) (s : SchedulerState) : Prop where
  credit : ∀ tc, 0 ≤ s₀.deficit tc → 0 ≤ s.deficit tc
  short : (l = l₀ ∧ s = s₀) ∨ ∀ tc ∈ order, ∀ b ∈ (l.byClass tc).head?,
    b.bits ≤ l.remainingBits → s.deficit tc < b.bits

section Loop

variable {w : ContactWindow} {order : List TrafficClass} {tc : TrafficClass} {skip : Bool}
  {l₀ l l' : RoundLocals} {s₀ s s' : SchedulerState} {credits : ℚ}

theorem Balanced.refl : Balanced order l₀ s₀ 0 l₀ s₀ :=
  ⟨fun _ => List.Sublist.refl _, fun _ _ _ => by rw [mul_zero, add_zero]⟩

/-- A round credits the classes that stay backlogged in proportion to their weights. -/
theorem Balanced.round (h : Balanced order l₀ s₀ credits l s)
    (hround : Round w skip order l s l' s') :
    Balanced order l₀ s₀ (credits + l.remainingBits / weightTotal order l) l' s' := by
  refine ⟨fun tc => (hround.sublist tc).trans (h.sublist tc), fun tc htc hne => ?_⟩
  have hbefore := h.balance tc htc (hround.ne_nil hne)
  calc s'.deficit tc - load Bundle.bits (l'.byClass tc)
      _ = s.deficit tc + quantum l.remainingBits (weightTotal order l) tc -
            load Bundle.bits (l.byClass tc) := (hround.account htc hne).balance hne
      _ = s₀.deficit tc - load Bundle.bits (l₀.byClass tc) +
            (classSpecs tc).queueBudget * credits +
            quantum l.remainingBits (weightTotal order l) tc := by linarith
      _ = s₀.deficit tc - load Bundle.bits (l₀.byClass tc) + (classSpecs tc).queueBudget *
            (credits + l.remainingBits / weightTotal order l) := by
        rw [quantum]
        ring

theorem Level.round (h : Level order l₀ s₀ l s) (hround : Round w false order l s l' s') :
    Level order l₀ s₀ l' s' := by
  refine ⟨fun tc hcredit => hround.credit (h.credit tc hcredit), .inr fun tc htc b hb hfit => ?_⟩
  refine hround.short htc ?_ hfit
  cases hqueue : l'.byClass tc with
  | nil =>
      rw [hqueue] at hb
      cases hb
  | cons c queue =>
      rw [hqueue] at hb
      cases hb
      simp [tried]

/-- Both hold after any number of rounds. -/
theorem drrLoop_balanced (horder : order.Nodup) (m rnd : ℕ) (hready : Ready order l₀ s₀) :
    Returns (drrLoop w false order m rnd l₀) s₀ fun l s =>
      Level order l₀ s₀ l s ∧ ∃ credits, Balanced order l₀ s₀ credits l s := by
  refine (drrLoop_induction horder
    (I := fun l s => Level order l₀ s₀ l s ∧ ∃ credits, Balanced order l₀ s₀ credits l s)
    (fun l s l' s' _ h hround => ?_) m rnd l₀ s₀ hready ?_).mono fun l s h => h.2
  · obtain ⟨hlevel, credits, hbalanced⟩ := h
    exact ⟨hlevel.round hround, _, hbalanced.round hround⟩
  · exact ⟨⟨fun _ => id, .inl ⟨rfl, rfl⟩⟩, 0, .refl⟩

/-- The bits a class has sent are its credits and what its deficit has lost. -/
theorem Balanced.sent (h : Balanced order l₀ s₀ credits l s) (htc : tc ∈ order)
    (hne : l.byClass tc ≠ []) :
    (load Bundle.bits (l₀.byClass tc) - load Bundle.bits (l.byClass tc)) /
        (classSpecs tc).queueBudget =
      credits + (s₀.deficit tc - s.deficit tc) / (classSpecs tc).queueBudget := by
  have hbalance := h.balance tc htc hne
  have hpos := classSpecs_queueBudget_pos tc
  rw [div_eq_iff hpos.ne', add_mul, div_mul_cancel₀ _ hpos.ne']
  linarith

end Loop

/-! ## One window -/

section Window

variable {w : ContactWindow} {bs : List Bundle} {s s₁ s₂ s' : SchedulerState} {l : RoundLocals}
  {tc : TrafficClass} {credits : ℚ}

/-- What has been delivered of a class is missing from its queue. -/
theorem Reconciled.load_delivered (h : Reconciled w bs l s') (htc : tc ∈ wfqClasses) :
    load Bundle.bits (s'.toBuffer.deliveredOf (classQueue bs tc)) =
      load Bundle.bits (classQueue bs tc) - load Bundle.bits (l.byClass tc) := by
  have hundelivered := congrArg (load Bundle.bits) (h.undelivered tc htc)
  have hsplit : load Bundle.bits (_ ++ _) = load Bundle.bits (classQueue bs tc) := load_perm
    (List.filter_append_perm (fun b => decide ((s'.records b).terminalState = .delivered)) _)
  rw [load_append, hundelivered] at hsplit
  exact eq_sub_of_add_eq hsplit

/-- What a class has been sent, by its weight, is off its credits by less than a largest bundle. -/
theorem RoundRobinStart.sent_close (h : RoundRobinStart w bs s s₁ s₂)
    (hlevel : Level (rotation s₁.rotationIndex) (roundStart w bs) s₂ l s')
    (hbalanced : Balanced (rotation s₁.rotationIndex) (roundStart w bs) s₂ credits l s')
    (hrec : Reconciled w bs l s') (htc : tc ∈ wfqClasses)
    (hcredit : 0 ≤ s.deficit tc) (hlt : s.deficit tc < largestBits bs tc)
    (hfit : ∃ b ∈ (l.byClass tc).head?, b.bits ≤ l.remainingBits) :
    |load Bundle.bits (s'.toBuffer.deliveredOf (classQueue bs tc)) / (classSpecs tc).queueBudget -
      credits| < largestBits bs tc / (classSpecs tc).queueBudget := by
  obtain ⟨b, hb, hfit⟩ := hfit
  have hmem : b ∈ l.byClass tc := List.mem_of_mem_head? hb
  have hqueued : b ∈ classQueue bs tc := (hbalanced.sublist tc).subset hmem
  have hpos := classSpecs_queueBudget_pos tc
  have htc' : tc ∈ rotation s₁.rotationIndex := mem_rotation.2 (mem_wfqClasses.1 htc)
  -- the deficit that the class starts with
  have hstart : s₂.deficit tc = s.deficit tc := by
    rw [h.deficit tc htc, if_neg (List.ne_nil_of_mem hqueued)]
  have hnonneg : 0 ≤ s'.deficit tc := hlevel.credit tc (hstart ▸ hcredit)
  -- the deficit that it has now
  have hnow : s'.deficit tc < largestBits bs tc := by
    rcases hlevel.short with ⟨-, rfl⟩ | hshort
    · rwa [hstart]
    · obtain ⟨hbs, hclass⟩ := mem_classQueue.1 hqueued
      exact (hshort tc htc' b hb hfit).trans_le (hclass ▸ bits_le_largestBits hbs)
  have hsent := hbalanced.sent htc' (List.ne_nil_of_mem hmem)
  rw [hrec.load_delivered htc, show classQueue bs tc = (roundStart w bs).byClass tc from rfl, hsent,
    add_sub_cancel_left, abs_div, abs_of_pos hpos, hstart]
  refine div_lt_div_of_pos_right ?_ hpos
  rw [abs_lt]
  constructor <;> linarith

end Window

/-- In the first `m` rounds of a window, two classes that still have a head that fits have been sent
their weights' worth of bits, up to less than a largest bundle of each. -/
theorem wfq_shares_fairly {w : ContactWindow} {bs : List Bundle} {s : SchedulerState}
    (hbs : Serviceable s.toBuffer bs) (hsizes : ∀ b ∈ bs, 0 < b.sizeBytes)
    {i j : TrafficClass} (hi : i ∈ wfqClasses) (hj : j ∈ wfqClasses)
    (hstart : ∀ tc, tc = i ∨ tc = j → 0 ≤ s.deficit tc ∧ s.deficit tc < largestBits bs tc)
    {m : ℕ} (hm : m ≤ maxRounds) :
    ∃ s₁ s₂ l s' l' s₃, RoundRobinStart w bs s s₁ s₂ ∧
      drrLoop w false (rotation s₁.rotationIndex) m 0 (roundStart w bs) s₂ = .ok l s' ∧
      drrLoop w false (rotation s₁.rotationIndex) (maxRounds - m) m l s' = .ok l' s₃ ∧
      drainWfq bs w false s =
        .ok ⟨⟩ { s₃ with rotationIndex := (s₃.rotationIndex + 1) % wfqClasses.length } ∧
      ((∀ tc, tc = i ∨ tc = j → ∃ b ∈ (l.byClass tc).head?, b.bits ≤ l.remainingBits) →
        |load Bundle.bits (s'.toBuffer.deliveredOf (classQueue bs i)) / (classSpecs i).queueBudget -
            load Bundle.bits (s'.toBuffer.deliveredOf (classQueue bs j)) /
              (classSpecs j).queueBudget| <
          largestBits bs i / (classSpecs i).queueBudget +
            largestBits bs j / (classSpecs j).queueBudget) := by
  obtain ⟨s₁, s₂, hopen⟩ := exists_roundRobinStart (w := w) hbs hsizes
  have horder := rotation_nodup s₁.rotationIndex
  obtain ⟨l, s', hrounds, ⟨hlevel, credits, hbalanced⟩, hrec⟩ :=
    (drrLoop_balanced horder m 0 hopen.ready).and (hopen.reconciled hbs false m)
  -- the rounds that follow these
  obtain ⟨l', s₃, hall, -⟩ := drrLoop_spec false horder maxRounds 0 _ s₂ hopen.ready
  have hlater := hall
  rw [← Nat.add_sub_cancel' hm, drrLoop_add, bind_ok hrounds, Nat.zero_add] at hlater
  refine ⟨s₁, s₂, l, s', l', s₃, hopen, hrounds, hlater, hopen.drainWfq_eq hall, fun hfit => ?_⟩
  have hclose : ∀ tc, tc = i ∨ tc = j → tc ∈ wfqClasses →
      |load Bundle.bits (s'.toBuffer.deliveredOf (classQueue bs tc)) /
        (classSpecs tc).queueBudget - credits| <
          largestBits bs tc / (classSpecs tc).queueBudget := fun tc htc hmem =>
    hopen.sent_close hlevel hbalanced hrec hmem (hstart tc htc).1 (hstart tc htc).2 (hfit tc htc)
  have hclosei := abs_lt.1 (hclose i (.inl rfl) hi)
  have hclosej := abs_lt.1 (hclose j (.inr rfl) hj)
  rw [abs_lt]
  constructor <;> linarith [hclosei.1, hclosei.2, hclosej.1, hclosej.2]

/-- Two bundles of 2400 bits in each of two classes, for a window of 8000 bits. -/
def Small.duel : List Bundle :=
  [Small.bundle "science 1" .scienceBulk 300 0 100, Small.bundle "science 2" .scienceBulk 300 1 100,
    Small.bundle "media 1" .media 300 2 100, Small.bundle "media 2" .media 300 3 100]

/-- After the first round each class has a bundle left, and there is room for it. -/
theorem Small.duel_fits {s₁ s₂ s' : SchedulerState} {l : RoundLocals}
    (h : RoundRobinStart Small.window Small.duel (SchedulerState.fresh fun _ => {}) s₁ s₂)
    (hround : drrLoop Small.window false (rotation s₁.rotationIndex) 1 0
      (roundStart Small.window Small.duel) s₂ = .ok l s') :
    ∀ tc, tc = .scienceBulk ∨ tc = .media →
      ∃ b ∈ (l.byClass tc).head?, b.bits ≤ l.remainingBits := by
  have hrun : (Foundation.Machine.outcome ((do
      let _ ← transmitLoop Small.window "rank0" false (classQueue Small.duel .emergency)
        Small.window.rawBitBudget
      let s ← get
      resetIdle (classQueue Small.duel) (rotation s.rotationIndex)
      drrLoop Small.window false (rotation s.rotationIndex) 1 0
        (roundStart Small.window Small.duel)) (SchedulerState.fresh fun _ => {}))).map (fun p =>
      [TrafficClass.scienceBulk, .media].all fun tc =>
        (p.1.byClass tc).head?.any fun b => decide (b.bits ≤ p.1.remainingBits)) =
        some true := by
    decide +kernel
  rw [bind_ok h.emergency, run_get_bind, bind_ok h.reset, hround] at hrun
  have hall := List.all_eq_true.1 (Option.some.inj hrun)
  intro tc htc
  have hany := hall tc (by simpa using htc)
  rw [Option.any_eq_true] at hany
  obtain ⟨b, hb, hfit⟩ := hany
  exact ⟨b, hb, of_decide_eq_true hfit⟩

/-- One round of the drain of `Small.duel`. -/
theorem wfq_shares_fairly_small :
    ∃ s₁ s₂ l s' l' s₃,
      RoundRobinStart Small.window Small.duel (SchedulerState.fresh fun _ => {}) s₁ s₂ ∧
      drrLoop Small.window false (rotation s₁.rotationIndex) 1 0
        (roundStart Small.window Small.duel) s₂ = .ok l s' ∧
      drrLoop Small.window false (rotation s₁.rotationIndex) (maxRounds - 1) 1 l s' = .ok l' s₃ ∧
      drainWfq Small.duel Small.window false (SchedulerState.fresh fun _ => {}) =
        .ok ⟨⟩ { s₃ with rotationIndex := (s₃.rotationIndex + 1) % wfqClasses.length } ∧
      |load Bundle.bits (s'.toBuffer.deliveredOf (classQueue Small.duel .scienceBulk)) /
          (classSpecs .scienceBulk).queueBudget -
        load Bundle.bits (s'.toBuffer.deliveredOf (classQueue Small.duel .media)) /
          (classSpecs .media).queueBudget| <
      largestBits Small.duel .scienceBulk / (classSpecs .scienceBulk).queueBudget +
        largestBits Small.duel .media / (classSpecs .media).queueBudget := by
  have hbs : Serviceable (SchedulerState.fresh fun _ => {}).toBuffer Small.duel :=
    ⟨by decide +kernel, fun _ _ => rfl⟩
  have hstart : ∀ tc, tc = .scienceBulk ∨ tc = .media →
      0 ≤ (SchedulerState.fresh fun _ => {}).deficit tc ∧
        (SchedulerState.fresh fun _ => {}).deficit tc < largestBits Small.duel tc := by
    intro tc htc
    refine ⟨le_rfl, ?_⟩
    rcases htc with rfl | rfl <;> decide +kernel
  obtain ⟨s₁, s₂, l, s', l', s₃, hopen, hround, hlater, hdrain, hshares⟩ :=
    wfq_shares_fairly (w := Small.window) hbs (by decide +kernel) (by decide) (by decide) hstart
      (show 1 ≤ maxRounds by decide)
  exact ⟨s₁, s₂, l, s', l', s₃, hopen, hround, hlater, hdrain,
    hshares (Small.duel_fits hopen hround)⟩

end Gateway
end LunaBridge
