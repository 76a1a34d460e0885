import LunaBridge.Scheduling.RoundState

/-!
# IdleSplits — how a window with skip-over may come to idle

A turn with skip-over tries every bundle of its class, but the loop asks only about heads whether to
go on.  It idles when all heads are too large and a bundle behind one of them is not.  Whether it
can come to that is a question about the queues and the credits it starts with: how the queues may
be split into what is sent and what is left (`IdleSplit`).  A window whose queues have no such split
leaves nothing that fits.
-/

namespace LunaBridge
namespace Gateway

open Foundation.Machine Foundation.Selection Foundation.GreedyFill Foundation.StableSort

namespace RoundState

variable (p : RoundState) (left : TrafficClass → List Bundle) (tc : TrafficClass)

/-- The bits of class `tc` that have been sent when of its queue `left` is left. -/
def sentBits : ℚ :=
  load Bundle.bits (without (p.locals.byClass tc) (left tc))

/-- The bits the window has left then. -/
def bitsAfter : ℚ :=
  p.locals.remainingBits - (wfqClasses.map (p.sentBits left)).sum

/-- What class `tc` has to its credit in its next turn: its share of the bits left comes on top. -/
def nextCredit : ℚ :=
  p.credit tc + quantum p.locals.remainingBits (weightTotal wfqClasses p.locals) tc

/-- Where the rounds of a window start, when its EMERGENCY bundles have been sent: idle classes have
lost their deficit. -/
def start (w : ContactWindow) (bs : List Bundle) (s : SchedulerState) : RoundState where
  locals := roundStart w bs
  credit := fun tc =>
    if tc ∈ wfqClasses ∧ classQueue bs tc = [] then 0 else s.deficit tc

end RoundState

section Splits

variable {p : RoundState} {left : TrafficClass → List Bundle} {tc : TrafficClass}

/-- A queue weighs what is sent of it and what is left. -/
theorem load_byClass_eq (hnodup : (p.locals.byClass tc).Nodup)
    (hsub : (left tc).Sublist (p.locals.byClass tc)) :
    load Bundle.bits (p.locals.byClass tc) = p.sentBits left tc + load Bundle.bits (left tc) := by
  rw [load_perm (perm_append_without hnodup (hnodup.sublist hsub) fun b hb => hsub.subset hb),
    load_append, add_comm]
  rfl

/-- The queues of the classes visited weigh as much in every order. -/
theorem load_queued_eq {order : List TrafficClass} (horder : order.Perm wfqClasses)
    (l : RoundLocals) : load Bundle.bits (l.queued order) =
      (wfqClasses.map fun tc => load Bundle.bits (l.byClass tc)).sum := by
  rw [← (horder.map fun tc => load Bundle.bits (l.byClass tc)).sum_eq, RoundLocals.queued]
  clear horder
  induction order with
  | nil => rfl
  | cons tc order ih => rw [List.flatMap_cons, load_append, ih, List.map_cons, List.sum_cons]

theorem weightTotal_eq {order : List TrafficClass} (horder : order.Perm wfqClasses)
    (l : RoundLocals) : weightTotal order l = weightTotal wfqClasses l :=
  ((horder.filter _).map _).sum_eq

/-- A split leaves the bits that what it leaves queued does not account for. -/
theorem bitsAfter_eq (hnodup : ∀ tc ∈ wfqClasses, (p.locals.byClass tc).Nodup)
    (hsub : ∀ tc ∈ wfqClasses, (left tc).Sublist (p.locals.byClass tc)) :
    p.bitsAfter left = p.locals.remainingBits -
      ((wfqClasses.map fun tc => load Bundle.bits (p.locals.byClass tc)).sum -
        (wfqClasses.map fun tc => load Bundle.bits (left tc)).sum) := by
  have hsplit : (wfqClasses.map fun tc => load Bundle.bits (p.locals.byClass tc)).sum =
      (wfqClasses.map (p.sentBits left)).sum +
        (wfqClasses.map fun tc => load Bundle.bits (left tc)).sum := by
    rw [← List.sum_map_add]
    exact congrArg List.sum (List.map_congr_left fun tc htc =>
      load_byClass_eq (hnodup tc htc) (hsub tc htc))
  rw [RoundState.bitsAfter, hsplit]
  ring

namespace RoundState

end RoundState

end Splits

/-! ## The rounds -/

/-- Where the loop stands that has started at `p`: what it has sent is smaller than what it has
overtaken; and unless it has not begun, the deficits are the credits of the first turns at least,
less what has been sent, and do not cover what is left and fits. -/
structure Trail (p : RoundState) (l : RoundLocals) (s : SchedulerState) : Prop where
  passedOver : ∀ tc, PassedOver (p.locals.byClass tc) (l.byClass tc)
  bits : l.remainingBits = p.bitsAfter l.byClass
  unpaid : (l = p.locals ∧ s.deficit = p.credit) ∨ ∀ tc ∈ wfqClasses, l.byClass tc ≠ [] →
    p.nextCredit tc ≤ s.deficit tc + p.sentBits l.byClass tc ∧
    ∀ b ∈ l.byClass tc, b.bits ≤ l.remainingBits → s.deficit tc < b.bits

section Rounds

variable {w : ContactWindow} {order : List TrafficClass} {p : RoundState} {l l' : RoundLocals}
  {s s' : SchedulerState}

theorem sentBits_self (tc : TrafficClass) : p.sentBits p.locals.byClass tc = 0 := by
  have hnone : without (p.locals.byClass tc) (p.locals.byClass tc) = [] :=
    List.filter_eq_nil_iff.2 (by simp)
  rw [RoundState.sentBits, hnone, load_nil]

theorem Trail.start (l : RoundLocals) (s : SchedulerState) : Trail ⟨l, s.deficit⟩ l s := by
  refine ⟨fun _ => .refl _, ?_, Or.inl ⟨rfl, rfl⟩⟩
  have hnone : wfqClasses.map (RoundState.sentBits ⟨l, s.deficit⟩ l.byClass) =
      wfqClasses.map fun _ => (0 : ℚ) :=
    List.map_congr_left fun tc _ => sentBits_self (p := ⟨l, s.deficit⟩) tc
  rw [RoundState.bitsAfter, hnone]
  simp

/-- A round goes on from there. -/
theorem Trail.round (horder : order.Perm wfqClasses)
    (hnodup : ∀ tc, (p.locals.byClass tc).Nodup) (h : Trail p l s)
    (hround : Round w true order l s l' s') : Trail p l' s' := by
  have hpassed : ∀ tc, PassedOver (p.locals.byClass tc) (l'.byClass tc) := fun tc =>
    (h.passedOver tc).trans (hnodup tc) (hround.passedOver tc)
  have hload : ∀ (left : TrafficClass → List Bundle),
      (∀ tc, (left tc).Sublist (p.locals.byClass tc)) → ∀ tc,
      load Bundle.bits (p.locals.byClass tc) =
        p.sentBits left tc + load Bundle.bits (left tc) := fun left hsub tc =>
    load_byClass_eq (hnodup tc) (hsub tc)
  have hsub := fun tc => (h.passedOver tc).sublist
  have hsub' := fun tc => (hpassed tc).sublist
  refine ⟨hpassed, ?_, ?_⟩
  · -- the bits left shrink with the queues
    obtain ⟨sent, hprog⟩ := hround.progress
    have hqueued : load Bundle.bits _ = _ := load_perm hprog.perm
    have hbits := h.bits
    have hleft := hprog.left
    rw [load_append, load_queued_eq horder, load_queued_eq horder] at hqueued
    rw [bitsAfter_eq (fun tc _ => hnodup tc) fun tc _ => hsub tc] at hbits
    rw [bitsAfter_eq (fun tc _ => hnodup tc) fun tc _ => hsub' tc]
    linarith
  · right
    intro tc htc hne
    have htc' : tc ∈ order := horder.symm.subset htc
    refine ⟨?_, fun b hb hfit => hround.short htc' hb hfit⟩
    have hbalance := (hround.account htc' hne).balance hne
    have hsent' := hload l'.byClass hsub' tc
    rw [weightTotal_eq horder] at hbalance
    rcases h.unpaid with ⟨rfl, hcredit⟩ | hlater
    · -- the first round
      rw [RoundState.nextCredit, ← hcredit]
      linarith
    · have hpast := (hlater tc htc (hround.ne_nil hne)).1
      have hsent := hload l.byClass hsub tc
      have hpos : 0 < weightTotal order l :=
        queueBudget_sum_pos (backlogged_ne_nil hround.headFits)
      rw [weightTotal_eq horder] at hpos
      have hquantum := quantum_nonneg hround.left_pos.le hpos tc
      linarith

end Rounds

/-! ## A window -/

section Window

variable {w : ContactWindow} {bs : List Bundle} {s s₁ s₂ : SchedulerState}

/-- The round robin starts in the state that the window, the queues and the deficits make. -/
theorem RoundRobinStart.roundState (h : RoundRobinStart w bs s s₁ s₂)
    (hbs : Serviceable s.toBuffer bs) :
    (⟨roundStart w bs, s₂.deficit⟩ : RoundState) = RoundState.start w bs s := by
  have hemerg : Serviceable s.toBuffer (classQueue bs .emergency) :=
    (hbs.perm (classQueue_perm hbs.nodup 0)).sublist (List.sublist_append_left _ _)
  have hfirst := ((transmitLoop_spec w "rank0" false _ w.rawBitBudget s hemerg).ensures _ _
    h.emergency).2.deficit
  have hreset := (resetIdle_deficit (classQueue bs) (rotation s₁.rotationIndex) s₁).ensures _ _
    h.reset
  rw [RoundState.start, RoundState.mk.injEq]
  refine ⟨rfl, funext fun tc => ?_⟩
  simp only [hreset tc, hfirst, (rotation_perm _).mem_iff]

/-- Some rounds on, the loop is where so many rounds in bits lead. -/
theorem RoundRobinStart.rounds (h : RoundRobinStart w bs s s₁ s₂)
    (hbs : Serviceable s.toBuffer bs) (n : ℕ) :
    Returns (drrLoop w true (rotation s₁.rotationIndex) n 0 (roundStart w bs)) s₂ fun l t =>
      Ready (rotation s₁.rotationIndex) l t ∧
      (∀ tc, (l.byClass tc).Sublist (classQueue bs tc)) ∧
      (⟨l, t.deficit⟩ : RoundState) =
        (RoundState.round (rotation s.rotationIndex))^[n] (RoundState.start w bs s) := by
  have horder := rotation_nodup s₁.rotationIndex
  refine ((drrLoop_induction horder
    (I := fun l _ => ∀ tc, (l.byClass tc).Sublist (classQueue bs tc))
    (fun _ _ _ _ _ hI hround tc => (hround.sublist tc).trans (hI tc)) n 0 _ s₂ h.ready
    fun tc => List.Sublist.refl _).and (drrLoop_roundState horder n 0 _ s₂ h.ready)).mono
      fun l t h' => ?_
  obtain ⟨⟨hready, hsub⟩, hstate⟩ := h'
  rw [h.roundState hbs, h.rotationIndex] at hstate
  exact ⟨hready, hsub, hstate⟩

end Window

end Gateway
end LunaBridge
