import LunaBridge.Scheduling.Budget
import LunaBridge.Scheduling.Rounds

/-!
# WorkConserving — when the round robin leaves bits of a window unused

Each round shares out all the bits that are left, so the bits left less the deficit of a class
shrink by a twelfth or more.  A class that could still send has more bits left than deficit, and at
least one byte to send: it does not stay in that position for long, and the loop ends by its own
conditions.
-/

namespace LunaBridge
namespace Gateway

open Foundation.Machine Foundation.Selection Foundation.GreedyFill Foundation.StableSort

/-! ## The loop's own conditions -/

/-- The loop's own conditions to end: no bits are left, or no head fits them. -/
def RoundLocals.Spent (order : List TrafficClass) (l : RoundLocals) : Prop :=
  ¬ 0 < l.remainingBits ∨ ¬ someHeadFits l (backlogged order l.byClass) = true

section Loop

variable {w : ContactWindow} {order : List TrafficClass} {skip : Bool} {tc : TrafficClass}
  {l l' : RoundLocals} {s s' : SchedulerState}

theorem drrLoop_of_spent (h : l.Spent order) (left rnd : ℕ) :
    drrLoop w skip order left rnd l = pure l := by
  cases left with
  | zero => rfl
  | succ left =>
      unfold drrLoop
      rcases h with hpos | hfit
      · rw [if_neg hpos]
      · rw [if_neg hfit]
        split <;> rfl

/-- The rounds of the loop, cut in two. -/
theorem drrLoop_add (m more : ℕ) : ∀ (rnd : ℕ) (l : RoundLocals),
    drrLoop w skip order (m + more) rnd l =
      drrLoop w skip order m rnd l >>= drrLoop w skip order more (rnd + m) := by
  induction m with
  | zero =>
      intro rnd l
      rw [Nat.zero_add, drrLoop, pure_bind, Nat.add_zero]
  | succ m ih =>
      intro rnd l
      by_cases hspent : l.Spent order
      · rw [drrLoop_of_spent hspent, drrLoop_of_spent hspent, pure_bind, drrLoop_of_spent hspent]
      · rw [RoundLocals.Spent, not_or, not_not, not_not] at hspent
        have hnext : rnd + 1 + m = rnd + (m + 1) := by omega
        rw [Nat.add_right_comm, drrLoop, drrLoop, if_pos hspent.1, if_pos hspent.1, if_pos hspent.2,
          if_pos hspent.2, bind_assoc]
        refine congrArg (roundOver w skip rnd _ _ _ l >>= ·) (funext fun l₁ => ?_)
        rw [ih, hnext]

/-- A loop that has ended by its own conditions does not need the rounds it had left. -/
theorem drrLoop_add_of_spent (more : ℕ) {left rnd : ℕ} {l : RoundLocals} {s : SchedulerState}
    (h : drrLoop w skip order left rnd l s = .ok l' s') (hspent : l'.Spent order) :
    drrLoop w skip order (left + more) rnd l s = .ok l' s' := by
  rw [drrLoop_add, bind_ok h, drrLoop_of_spent hspent]
  rfl

/-- Some head fits: it is the first of a queue. -/
theorem someHeadFits_iff : someHeadFits l (backlogged order l.byClass) = true ↔
    ∃ tc ∈ order, ∃ b ∈ (l.byClass tc).head?, b.bits ≤ l.remainingBits := by
  rw [someHeadFits, List.any_eq_true]
  constructor
  · rintro ⟨tc, htc, hfit⟩
    refine ⟨tc, (mem_backlogged.1 htc).1, ?_⟩
    cases hqueue : l.byClass tc with
    | nil => exact absurd hqueue (mem_backlogged.1 htc).2
    | cons b queue =>
        rw [hqueue] at hfit
        exact ⟨b, rfl, of_decide_eq_true hfit⟩
  · rintro ⟨tc, htc, b, hb, hfit⟩
    cases hqueue : l.byClass tc with
    | nil =>
        rw [hqueue] at hb
        cases hb
    | cons c queue =>
        rw [hqueue] at hb
        cases hb
        refine ⟨tc, mem_backlogged.2 ⟨htc, by simp [hqueue]⟩, ?_⟩
        simpa [hqueue] using hfit

/-- Once the loop's own conditions hold, no head fits the bits left. -/
theorem RoundLocals.Spent.lt_bits (h : l.Spent order) (hready : Ready order l s)
    (htc : tc ∈ order) {b : Bundle} (hb : b ∈ (l.byClass tc).head?) :
    l.remainingBits < b.bits := by
  rcases h with hpos | hfit
  · -- a bundle has a byte at least
    have hmem : b ∈ l.byClass tc := List.mem_of_mem_head? hb
    have hsize := hready.sizes b ((l.sublist_queued htc).subset hmem)
    have hbits : (0 : ℚ) < b.sizeBytes := by exact_mod_cast hsize
    rw [Bundle.bits]
    linarith
  · by_contra hle
    exact hfit (someHeadFits_iff.2 ⟨tc, htc, b, hb, not_lt.1 hle⟩)

end Loop

/-! ## How long the loop runs -/

/-- What the class is worth waiting for: no class's deficit is less than the bits left by more than
the bound. -/
structure Closing (order : List TrafficClass) (bound : ℚ) (l : RoundLocals) (s : SchedulerState) :
    Prop where
  credit : ∀ tc ∈ order, 0 ≤ s.deficit tc
  close : ∀ tc ∈ order, l.byClass tc ≠ [] → l.remainingBits - s.deficit tc ≤ bound

section Potential

variable {w : ContactWindow} {order : List TrafficClass} {skip : Bool} {tc : TrafficClass}
  {l l' : RoundLocals} {s s' : SchedulerState} {bound : ℚ}

/-- The classes of a visiting order weigh twelve. -/
theorem weightTotal_le {rotationIndex : ℕ} :
    weightTotal (rotation rotationIndex) l ≤ 12 := by
  have hsub : (backlogged (rotation rotationIndex) l.byClass).Sublist (rotation rotationIndex) :=
    List.filter_sublist
  have hall : ((rotation rotationIndex).map fun tc => (classSpecs tc).queueBudget).sum = 12 := by
    rw [((rotation_perm rotationIndex).map _).sum_eq]
    norm_num [wfqClasses, classSpecs]
  rw [← hall, weightTotal]
  exact (hsub.map _).sum_le_sum (by simp [fun tc => (classSpecs_queueBudget_pos tc).le])

/-- A share is a twelfth of the budget at least. -/
theorem le_quantum {budget wTotal : ℚ} (hbudget : 0 ≤ budget) (hw : 0 < wTotal)
    (hle : wTotal ≤ 12) (tc : TrafficClass) : budget / 12 ≤ quantum budget wTotal tc := by
  have hone : 1 ≤ (classSpecs tc).queueBudget := by cases tc <;> norm_num [classSpecs]
  rw [quantum, div_eq_mul_one_div]
  refine mul_le_mul_of_nonneg_left ?_ hbudget
  exact div_le_div₀ (by linarith) hone hw hle

/-- A head that fits takes a byte of the bits left. -/
theorem byte_le_of_headFits (hready : Ready order l s)
    (hfit : someHeadFits l (backlogged order l.byClass) = true) : 8 ≤ l.remainingBits := by
  obtain ⟨tc, htc, b, hb, hle⟩ := someHeadFits_iff.1 hfit
  have hsize := hready.sizes b ((l.sublist_queued htc).subset (List.mem_of_mem_head? hb))
  have hbyte : (1 : ℚ) ≤ b.sizeBytes := by exact_mod_cast hsize
  rw [Bundle.bits] at hle
  linarith

/-- A round brings the deficit of a class closer to the bits left, by a twelfth of them. -/
theorem Round.closer (h : Round w skip order l s l' s') (hw : weightTotal order l ≤ 12)
    (htc : tc ∈ order) (hne : l'.byClass tc ≠ []) :
    l'.remainingBits - s'.deficit tc ≤
      l.remainingBits - s.deficit tc - l.remainingBits / 12 := by
  have hacc := h.account htc hne
  have hbalance := hacc.balance hne
  have hspends := hacc.spends
  have hpos : 0 < weightTotal order l := queueBudget_sum_pos (backlogged_ne_nil h.headFits)
  have hshare := le_quantum h.left_pos.le hpos hw tc
  linarith

/-- So the bound shrinks by a twelfth. -/
theorem Round.closing (h : Round w skip order l s l' s') (hw : weightTotal order l ≤ 12)
    (hclosing : Closing order bound l s) :
    Closing order (bound * (11 / 12)) l' s' := by
  refine ⟨fun tc htc => h.credit (hclosing.credit tc htc), fun tc htc hne => ?_⟩
  have hcloser := h.closer hw htc hne
  have hcredit := hclosing.credit tc htc
  have hclose := hclosing.close tc htc (h.ne_nil hne)
  have hleft := h.left_pos
  rcases le_total bound l.remainingBits with hle | hle <;> linarith

/-- When the bound has come down to less than a twelfth of a byte, no head fits after the next
round: its class would be left with the bits of a byte, or with a deficit that covers it. -/
theorem Round.spent (h : Round w skip order l s l' s') (hready : Ready order l s)
    (hw : weightTotal order l ≤ 12) (hclosing : Closing order bound l s) (hbound : bound < 2 / 3) :
    l'.Spent order := by
  right
  intro hfit
  obtain ⟨tc, htc, b, hb, hle⟩ := someHeadFits_iff.1 hfit
  have hmem : b ∈ l'.byClass tc := List.mem_of_mem_head? hb
  have hne : l'.byClass tc ≠ [] := List.ne_nil_of_mem hmem
  have hcloser := h.closer hw htc hne
  have hclose := hclosing.close tc htc (h.ne_nil hne)
  have hbyte := byte_le_of_headFits hready h.headFits
  have hshort := h.short htc (b := b) ?_ hle
  · linarith
  · -- a head is tried in either kind of turn
    cases skip with
    | true => exact hmem
    | false =>
        cases hqueue : l'.byClass tc with
        | nil => exact absurd hqueue hne
        | cons c queue =>
            rw [hqueue] at hb
            cases hb
            simp [tried]

/-- The loop ends by its own conditions after as many rounds as it takes to bring the bound down to
less than a twelfth of a byte, and one. -/
theorem drrLoop_spent (horder : order.Nodup) (hw : ∀ l, weightTotal order l ≤ 12) :
    ∀ (left rnd : ℕ) (bound : ℚ) (l : RoundLocals) (s : SchedulerState), Ready order l s →
      Closing order bound l s → bound * (11 / 12) ^ left < 2 / 3 →
        Returns (drrLoop w skip order (left + 1) rnd l) s fun l' s' =>
          Ready order l' s' ∧ l'.Spent order := by
  intro left
  induction left with
  | zero =>
      intro rnd bound l s hready hclosing hsmall
      rw [pow_zero, mul_one] at hsmall
      by_cases hspent : l.Spent order
      · rw [drrLoop_of_spent hspent]
        exact Returns.pure ⟨hready, hspent⟩
      · rw [RoundLocals.Spent, not_or, not_not, not_not] at hspent
        rw [drrLoop, if_pos hspent.1, if_pos hspent.2]
        refine (roundOver_round skip rnd horder hready hspent.1 hspent.2).bind fun l₁ s₁ h₁ => ?_
        exact Returns.pure ⟨h₁.ready hready, h₁.spent hready (hw l) hclosing hsmall⟩
  | succ left ih =>
      intro rnd bound l s hready hclosing hsmall
      by_cases hspent : l.Spent order
      · rw [drrLoop_of_spent hspent]
        exact Returns.pure ⟨hready, hspent⟩
      · rw [RoundLocals.Spent, not_or, not_not, not_not] at hspent
        rw [drrLoop, if_pos hspent.1, if_pos hspent.2]
        refine (roundOver_round skip rnd horder hready hspent.1 hspent.2).bind fun l₁ s₁ h₁ => ?_
        refine ih (rnd + 1) (bound * (11 / 12)) l₁ s₁ (h₁.ready hready)
          (h₁.closing (hw l) hclosing) ?_
        rwa [mul_assoc, ← pow_succ']

end Potential

/-! ## One window -/

/-- The state in which the round robin of a window starts: EMERGENCY has been sent and the idle
classes have lost their deficit. -/
structure RoundRobinStart (w : ContactWindow) (bs : List Bundle) (s s₁ s₂ : SchedulerState) :
    Prop where
  emergency : transmitLoop w "rank0" false (classQueue bs .emergency) w.rawBitBudget s =
    .ok (roundStart w bs).remainingBits s₁
  reset : resetIdle (classQueue bs) (rotation s₁.rotationIndex) s₁ = .ok ⟨⟩ s₂
  rotationIndex : s₁.rotationIndex = s.rotationIndex
  ready : Ready (rotation s₁.rotationIndex) (roundStart w bs) s₂
  deficit : ∀ tc ∈ wfqClasses, s₂.deficit tc = if classQueue bs tc = [] then 0 else s.deficit tc
  buffer : s₂.toBuffer = s.toBuffer.settle (Lifecycle.delivered w) (preempted w bs)

theorem resetIdle_deficit (byClass : TrafficClass → List Bundle) :
    ∀ (tcs : List TrafficClass) (s : SchedulerState),
      Returns (resetIdle byClass tcs) s fun _ s' =>
        ∀ tc, s'.deficit tc = if tc ∈ tcs ∧ byClass tc = [] then 0 else s.deficit tc := by
  intro tcs
  induction tcs with
  | nil => exact fun s => Returns.pure (by simp)
  | cons u tcs ih =>
      intro s
      unfold resetIdle
      split
      · next hidle =>
          refine (setDeficit_spec u 0 s).bind fun _ s₁ h₁ => (ih s₁).mono fun _ s' h' tc => ?_
          rw [h' tc, h₁]
          by_cases hu : tc = u
          · subst hu
            simp [hidle]
          · simp [hu]
      · next hbusy =>
          refine (ih s).mono fun _ s' h' tc => ?_
          rw [h' tc]
          by_cases hu : tc = u
          · subst hu
            simp [hbusy]
          · simp [hu]

theorem mem_wfqClasses {tc : TrafficClass} : tc ∈ wfqClasses ↔ tc ≠ .emergency := by
  cases tc <;> simp [wfqClasses]

section Window

variable {w : ContactWindow} {bs : List Bundle} {s s₁ s₂ : SchedulerState}

theorem exists_roundRobinStart (hbs : Serviceable s.toBuffer bs)
    (hsizes : ∀ b ∈ bs, 0 < b.sizeBytes) : ∃ s₁ s₂, RoundRobinStart w bs s s₁ s₂ := by
  have hemerg : Serviceable s.toBuffer (classQueue bs .emergency) :=
    (hbs.perm (classQueue_perm hbs.nodup 0)).sublist (List.sublist_append_left _ _)
  obtain ⟨_, s₁, hfirst, rfl, h₁⟩ :=
    transmitLoop_spec w "rank0" false _ w.rawBitBudget s hemerg
  obtain ⟨_, s₂, hreset, ⟨hbuffer, -⟩, hdef⟩ :=
    (resetIdle_spec (classQueue bs) (rotation s₁.rotationIndex) s₁).and
      (resetIdle_deficit (classQueue bs) (rotation s₁.rotationIndex) s₁)
  have hbuffer₂ := hbuffer.trans h₁.buffer
  refine ⟨s₁, s₂, hfirst, hreset, h₁.rotationIndex, ready_roundStart hbs hsizes _ hbuffer₂,
    fun tc htc => ?_, hbuffer₂⟩
  rw [hdef tc, h₁.deficit]
  simp [mem_rotation, mem_wfqClasses.1 htc]

/-- The drain is its round robin and one step of the rotation. -/
theorem RoundRobinStart.drainWfq_eq (h : RoundRobinStart w bs s s₁ s₂) {skip : Bool}
    {l' : RoundLocals} {s₃ : SchedulerState}
    (hloop : drrLoop w skip (rotation s₁.rotationIndex) maxRounds 0 (roundStart w bs) s₂ =
      .ok l' s₃) :
    drainWfq bs w skip s =
      .ok ⟨⟩ { s₃ with rotationIndex := (s₃.rotationIndex + 1) % wfqClasses.length } := by
  unfold drainWfq
  rw [bind_ok h.emergency]
  refine (run_get_bind _ _).trans ?_
  rw [bind_ok h.reset]
  exact bind_ok hloop

/-- Without debts the round robin starts at most the window's budget away from its end. -/
theorem RoundRobinStart.closing (h : RoundRobinStart w bs s s₁ s₂)
    (hsizes : ∀ b ∈ bs, 0 < b.sizeBytes) (hcredit : ∀ tc ∈ wfqClasses, 0 ≤ s.deficit tc) :
    Closing (rotation s₁.rotationIndex) w.rawBitBudget (roundStart w bs) s₂ := by
  have hdef : ∀ tc ∈ rotation s₁.rotationIndex, 0 ≤ s₂.deficit tc := by
    intro tc htc
    have htc' : tc ∈ wfqClasses := (rotation_perm _).subset htc
    rw [h.deficit tc htc']
    split
    · exact le_rfl
    · exact hcredit tc htc'
  refine ⟨hdef, fun tc htc _ => ?_⟩
  have hspent : 0 ≤ load Bundle.bits (preempted w bs) :=
    load_nonneg fun b hb => Bundle.bits_nonneg (hsizes b (mem_preempted hb).1)
  have hcredit₂ := hdef tc htc
  show w.rawBitBudget - load Bundle.bits (preempted w bs) - s₂.deficit tc ≤ w.rawBitBudget
  linarith

/-- The rounds that budgets of so many bits need. -/
theorem budget_small {budget : ℚ} {doublings : ℕ} (hbudget : budget ≤ 2 ^ doublings) :
    budget * (11 / 12) ^ (8 * (doublings + 1)) < 2 / 3 := by
  have height : ((11 : ℚ) / 12) ^ 8 ≤ 1 / 2 := by norm_num
  have hpow : ((11 : ℚ) / 12) ^ (8 * (doublings + 1)) ≤ (1 / 2) ^ (doublings + 1) := by
    rw [pow_mul]
    exact pow_le_pow_left₀ (by positivity) height _
  have hhalf : (2 : ℚ) ^ doublings * (1 / 2) ^ (doublings + 1) = 1 / 2 := by
    rw [pow_succ, ← mul_assoc, ← mul_pow]
    norm_num
  calc budget * (11 / 12) ^ (8 * (doublings + 1))
      _ ≤ 2 ^ doublings * (11 / 12) ^ (8 * (doublings + 1)) :=
        mul_le_mul_of_nonneg_right hbudget (by positivity)
      _ ≤ 2 ^ doublings * (1 / 2) ^ (doublings + 1) :=
        mul_le_mul_of_nonneg_left hpow (by positivity)
      _ = 1 / 2 := hhalf
      _ < 2 / 3 := by norm_num

/-- With non-negative deficits the loop of a window ends by its own conditions, within eight rounds
for every doubling of the budget. -/
theorem RoundRobinStart.drrLoop_spent (h : RoundRobinStart w bs s s₁ s₂) (skip : Bool)
    (hsizes : ∀ b ∈ bs, 0 < b.sizeBytes) (hcredit : ∀ tc ∈ wfqClasses, 0 ≤ s.deficit tc)
    {doublings : ℕ} (hbudget : w.rawBitBudget ≤ 2 ^ doublings) :
    Returns (drrLoop w skip (rotation s₁.rotationIndex) (8 * (doublings + 1) + 1) 0
      (roundStart w bs)) s₂ fun l' s' => Ready (rotation s₁.rotationIndex) l' s' ∧
        l'.Spent (rotation s₁.rotationIndex) :=
  Gateway.drrLoop_spent (rotation_nodup _) (fun _ => weightTotal_le) _ 0 w.rawBitBudget _ s₂
    h.ready (h.closing hsizes hcredit) (budget_small hbudget)

/-- What the loop of a window has left queued is what has not been delivered, and the bits it has
left are those the delivered bundles have not taken. -/
structure Reconciled (w : ContactWindow) (bs : List Bundle) (l' : RoundLocals)
    (s' : SchedulerState) : Prop where
  undelivered : ∀ tc ∈ wfqClasses, (classQueue bs tc).filter
    (fun b => !decide ((s'.records b).terminalState = .delivered)) = l'.byClass tc
  left : w.rawBitBudget - load Bundle.bits (s'.toBuffer.deliveredOf bs) = l'.remainingBits

theorem classQueue_nodup (hbs : bs.Nodup) (tc : TrafficClass) : (classQueue bs tc).Nodup :=
  (sortBy_perm _ _).nodup_iff.2 (hbs.filter _)

/-- What the rounds send is delivered, and so is what preempted them. -/
theorem RoundRobinStart.delivered_perm (h : RoundRobinStart w bs s s₁ s₂)
    (hbs : Serviceable s.toBuffer bs) {sent : List Bundle} {l' : RoundLocals} {s' : SchedulerState}
    (hprog : Progress w (rotation s₁.rotationIndex) (roundStart w bs) s₂ sent l' s') :
    (s'.toBuffer.deliveredOf bs).Perm (preempted w bs ++ sent) := by
  have hqueued : ∀ b ∈ sent, b ∈ (roundStart w bs).queued (rotation s₁.rotationIndex) := fun b hb =>
    hprog.perm.symm.subset (List.mem_append_left _ hb)
  have hsep : ∀ b ∈ preempted w bs, b ∉ sent := fun b hb hb' =>
    preempted_notMem_queued hb (hqueued b hb')
  have hbuffer : s'.toBuffer =
      s.toBuffer.settle (Lifecycle.delivered w) (preempted w bs ++ sent) := by
    rw [hprog.buffer, h.buffer]
    exact Buffer.settle_settle _ hsep
  have hpre : (preempted w bs).Nodup :=
    (classQueue_nodup hbs.nodup _).sublist (greedyFill_sublist _ _ _ _)
  have hsent : sent.Nodup :=
    (List.nodup_append.1 (hprog.perm.nodup_iff.1 h.ready.serviceable.nodup)).1
  refine (List.perm_ext_iff_of_nodup (hbs.nodup.filter _) (List.nodup_append.2
    ⟨hpre, hsent, fun a ha b hb heq => hsep a ha (heq ▸ hb)⟩)).2 fun b => ?_
  refine (?_ : b ∈ s'.toBuffer.deliveredOf bs ↔ _)
  rw [hbuffer, hbs.mem_deliveredOf fun _ ha => ha]
  refine ⟨fun hb => hb.2, fun hb => ⟨?_, hb⟩⟩
  rcases List.mem_append.1 hb with hb | hb
  · exact (mem_preempted hb).1
  · exact (classQueue_perm hbs.nodup s₁.rotationIndex).subset
      (List.mem_append_right _ (hqueued b hb))

/-- Of the bundles queued for the rounds, those sent have been delivered. -/
theorem RoundRobinStart.delivered_iff (h : RoundRobinStart w bs s s₁ s₂)
    (hbs : Serviceable s.toBuffer bs) {sent : List Bundle} {l' : RoundLocals} {s' : SchedulerState}
    (hprog : Progress w (rotation s₁.rotationIndex) (roundStart w bs) s₂ sent l' s') {b : Bundle}
    (hb : b ∈ bs) (hqueued : b ∈ (roundStart w bs).queued (rotation s₁.rotationIndex)) :
    (s'.records b).terminalState = .delivered ↔ b ∈ sent := by
  have hmem : b ∈ s'.toBuffer.deliveredOf bs ↔ (s'.records b).terminalState = .delivered := by
    simp [Buffer.deliveredOf, hb]
  rw [← hmem, (h.delivered_perm hbs hprog).mem_iff, List.mem_append]
  constructor
  · rintro (hpre | hsent)
    · exact absurd hqueued (preempted_notMem_queued hpre)
    · exact hsent
  · exact Or.inr

theorem RoundRobinStart.reconciled (h : RoundRobinStart w bs s s₁ s₂)
    (hbs : Serviceable s.toBuffer bs) (skip : Bool) (left : ℕ) :
    Returns (drrLoop w skip (rotation s₁.rotationIndex) left 0 (roundStart w bs)) s₂
      fun l' s' => Reconciled w bs l' s' := by
  have horder := rotation_nodup s₁.rotationIndex
  refine ((drrLoop_spec skip horder left 0 _ s₂ h.ready).and (drrLoop_induction horder
    (I := fun l _ => ∀ tc, (l.byClass tc).Sublist (classQueue bs tc))
    (fun _ _ _ _ _ hI hround tc => (hround.sublist tc).trans (hI tc)) left 0 _ s₂ h.ready
    fun tc => List.Sublist.refl _)).mono fun l' s' h' => ?_
  obtain ⟨⟨⟨sent, hprog⟩, -⟩, -, hsub⟩ := h'
  have hnodup := List.nodup_append.1 (hprog.perm.nodup_iff.1 h.ready.serviceable.nodup)
  refine ⟨fun tc htc => ?_, ?_⟩
  · refine (eq_filter_of_sublist (classQueue_nodup hbs.nodup tc) (hsub tc) fun b hb => ?_).symm
    obtain ⟨hbbs, hclass⟩ := mem_classQueue.1 hb
    have htc' : tc ∈ rotation s₁.rotationIndex := mem_rotation.2 (mem_wfqClasses.1 htc)
    have hstart : b ∈ (roundStart w bs).queued (rotation s₁.rotationIndex) :=
      ((roundStart w bs).sublist_queued htc').subset hb
    -- a bundle of this class has been sent or is still in this queue
    rw [Bool.not_eq_true', decide_eq_false_iff_not, h.delivered_iff hbs hprog hbbs hstart]
    constructor
    · intro hleft hmem
      exact hnodup.2.2 b hmem b ((l'.sublist_queued htc').subset hleft) rfl
    · intro hnot
      have hleft := (List.mem_append.1 (hprog.perm.subset hstart)).resolve_left hnot
      obtain ⟨u, -, hu⟩ := List.mem_flatMap.1 hleft
      have hclass' := (mem_classQueue.1 ((hsub u).subset hu)).2
      rwa [← hclass, hclass']
  · rw [load_perm (h.delivered_perm hbs hprog), load_append, hprog.left]
    simp only [roundStart]
    ring

end Window

/-- Under WFQ the loop of a window leaves by its own conditions, long before its defensive bound,
and then no class's first undelivered bundle fits the bits the window has left. -/
theorem wfq_is_work_conserving {w : ContactWindow} {bs : List Bundle} {s : SchedulerState}
    (hbs : Serviceable s.toBuffer bs) (hsizes : ∀ b ∈ bs, 0 < b.sizeBytes)
    (hcredit : ∀ tc ∈ wfqClasses, 0 ≤ s.deficit tc) (hbudget : w.rawBitBudget ≤ 2 ^ 64) :
    ∃ s₁ s₂ l' s₃ s', RoundRobinStart w bs s s₁ s₂ ∧
      drrLoop w false (rotation s₁.rotationIndex) maxRounds 0 (roundStart w bs) s₂ = .ok l' s₃ ∧
      (∃ rounds ≤ 10000,
        drrLoop w false (rotation s₁.rotationIndex) rounds 0 (roundStart w bs) s₂ = .ok l' s₃) ∧
      l'.Spent (rotation s₁.rotationIndex) ∧ drainWfq bs w false s = .ok ⟨⟩ s' ∧
      ∀ tc ∈ wfqClasses, ∀ b ∈ ((classQueue bs tc).filter fun b =>
          !decide ((s'.records b).terminalState = .delivered)).head?,
        w.rawBitBudget - load Bundle.bits (s'.toBuffer.deliveredOf bs) < b.bits := by
  obtain ⟨s₁, s₂, hstart⟩ := exists_roundRobinStart (w := w) hbs hsizes
  obtain ⟨l', s₃, hloop, ⟨hready, hspent⟩, hacc⟩ :=
    (hstart.drrLoop_spent false hsizes hcredit hbudget).and
      (hstart.reconciled hbs false (8 * (64 + 1) + 1))
  -- the rounds that were not needed make no difference
  have hmax := drrLoop_add_of_spent (maxRounds - 521) hloop hspent
  refine ⟨s₁, s₂, l', s₃, _, hstart, hmax, ⟨_, by norm_num, hloop⟩, hspent,
    hstart.drainWfq_eq hmax, fun tc htc b hb => ?_⟩
  refine hacc.left.trans_lt (hspent.lt_bits hready (mem_rotation.2 (mem_wfqClasses.1 htc)) ?_)
  rw [← hacc.undelivered tc htc]
  exact hb

theorem wfq_is_work_conserving_small :
    ∃ s₁ s₂ l' s₃ s', RoundRobinStart Small.window [Small.early, Small.doomed]
        (SchedulerState.fresh fun _ => {}) s₁ s₂ ∧
      drrLoop Small.window false (rotation s₁.rotationIndex) maxRounds 0
        (roundStart Small.window [Small.early, Small.doomed]) s₂ = .ok l' s₃ ∧
      (∃ rounds ≤ 10000, drrLoop Small.window false (rotation s₁.rotationIndex) rounds 0
        (roundStart Small.window [Small.early, Small.doomed]) s₂ = .ok l' s₃) ∧
      l'.Spent (rotation s₁.rotationIndex) ∧
      drainWfq [Small.early, Small.doomed] Small.window false
        (SchedulerState.fresh fun _ => {}) = .ok ⟨⟩ s' ∧
      ∀ tc ∈ wfqClasses, ∀ b ∈ ((classQueue [Small.early, Small.doomed] tc).filter fun b =>
          !decide ((s'.records b).terminalState = .delivered)).head?,
        Small.window.rawBitBudget -
          load Bundle.bits (s'.toBuffer.deliveredOf [Small.early, Small.doomed]) < b.bits :=
  wfq_is_work_conserving ⟨by decide +kernel, fun _ _ => rfl⟩ (by decide +kernel)
    (fun _ _ => le_rfl) (by norm_num [ContactWindow.rawBitBudget, ContactWindow.durationS,
      Small.window])

end Gateway
end LunaBridge
