import LunaBridge.Scheduling.WorkConserving
import Mathlib.Algebra.Order.Group.MinMax

/-!
# RoundState — the rounds with skip-over as a computation on bits

A turn with skip-over walks its queue once and sends what the credit of the class and the bits left
pay for: it is a greedy fill of the smaller of the two.  So where the loop stands after some rounds
(`RoundState`) depends on the sizes and the credits it starts with, and on nothing else.
-/

namespace LunaBridge
namespace Gateway

open Foundation.Machine Foundation.Selection Foundation.GreedyFill

/-- Where the rounds stand: the bits left and the queues, and what each class has to its credit. -/
structure RoundState where
  locals : RoundLocals
  credit : TrafficClass → ℚ

namespace RoundState

/-- What class `tc` sends in a turn that is worth `share` to it. -/
def paidFor (share : TrafficClass → ℚ) (tc : TrafficClass) (p : RoundState) : List Bundle :=
  greedyFill Bundle.bits false (min (p.credit tc + share tc) p.locals.remainingBits)
    (p.locals.byClass tc)

/-- What it keeps queued. -/
def unpaidFor (share : TrafficClass → ℚ) (tc : TrafficClass) (p : RoundState) : List Bundle :=
  without (p.locals.byClass tc) (p.paidFor share tc)

/-- A turn of class `tc`. -/
def turn (share : TrafficClass → ℚ) (p : RoundState) (tc : TrafficClass) : RoundState where
  locals :=
    { remainingBits := p.locals.remainingBits - load Bundle.bits (p.paidFor share tc)
      byClass := Function.update p.locals.byClass tc (p.unpaidFor share tc) }
  credit := Function.update p.credit tc
    (if p.unpaidFor share tc = [] then 0
    else p.credit tc + share tc - load Bundle.bits (p.paidFor share tc))

/-- A round, in which every backlogged class gets its share of the bits left; none when no head
fits them. -/
def round (order : List TrafficClass) (p : RoundState) : RoundState :=
  if 0 < p.locals.remainingBits ∧
      someHeadFits p.locals (backlogged order p.locals.byClass) = true then
    (backlogged order p.locals.byClass).foldl
      (turn (quantum p.locals.remainingBits (weightTotal order p.locals))) p
  else
    p

theorem round_of_spent {order : List TrafficClass} {p : RoundState} (h : p.locals.Spent order) :
    p.round order = p :=
  if_neg (not_and_or.2 h)

end RoundState

section Turns

variable {w : ContactWindow} {order : List TrafficClass} {tc : TrafficClass} {rnd : ℕ}
  {l : RoundLocals} {s : SchedulerState}

/-- A turn with skip-over is a greedy fill. -/
theorem skipTurn_fill (w : ContactWindow) (tc : TrafficClass) (rnd : ℕ) :
    ∀ (queue : List Bundle) (d r : ℚ) (s : SchedulerState), s.deficit tc = d →
      Serviceable s.toBuffer queue → Returns (skipTurn w tc rnd queue r) s fun out s' =>
        out = (without queue (greedyFill Bundle.bits false (min d r) queue),
          r - load Bundle.bits (greedyFill Bundle.bits false (min d r) queue)) ∧
        s'.deficit = Function.update s.deficit tc
          (d - load Bundle.bits (greedyFill Bundle.bits false (min d r) queue)) := by
  intro queue
  induction queue with
  | nil =>
      rintro d r s rfl _
      exact Returns.pure (by simp [greedyFill, without])
  | cons b queue ih =>
      rintro d r s rfl hbs
      have hnotMem : b ∉ queue := hbs.head_notMem
      refine Returns.get_bind ?_
      by_cases hfit : b.bits ≤ s.deficit tc ∧ b.bits ≤ r
      · rw [if_pos hfit, greedyFill, if_pos (le_min hfit.1 hfit.2), ← min_sub_sub_right]
        refine charge_and_send w tc (hbs.pending b (by simp)) fun s₁ h₁ => ?_
        have hself : s₁.deficit tc = s.deficit tc - b.bits := by
          rw [h₁.deficit]
          exact Function.update_self _ _ _
        refine (ih _ _ s₁ hself (h₁.buffer ▸ hbs.tail)).mono fun out s' h' => ?_
        obtain ⟨hout, hdef⟩ := h'
        refine ⟨?_, ?_⟩
        · rw [hout, without_cons_cons hnotMem, load_cons, sub_sub]
        · rw [hdef, h₁.deficit, Function.update_idem, load_cons, sub_sub]
      · rw [if_neg hfit, greedyFill, if_neg fun hle => hfit (le_min_iff.1 hle)]
        -- logged or not, the bundle stays and the scan goes on
        have hrest : ∀ s₁, Became s s.toBuffer s₁ →
            Returns (skipTurn w tc rnd queue r >>= fun p => pure (b :: p.1, p.2)) s₁
              fun out s' =>
                out = (without (b :: queue)
                  (greedyFill Bundle.bits false (min (s.deficit tc) r) queue),
                  r - load Bundle.bits
                    (greedyFill Bundle.bits false (min (s.deficit tc) r) queue)) ∧
                s'.deficit = Function.update s.deficit tc (s.deficit tc - load Bundle.bits
                  (greedyFill Bundle.bits false (min (s.deficit tc) r) queue)) := by
          intro s₁ h₁
          have hbs₁ : Serviceable s₁.toBuffer queue := by
            rw [h₁.buffer]
            exact hbs.sublist (List.sublist_cons_self b queue)
          refine (ih _ r s₁ (congrFun h₁.deficit tc) hbs₁).bind fun out s' h' => Returns.pure ?_
          obtain ⟨hout, hdef⟩ := h'
          refine ⟨?_, hdef.trans (by rw [h₁.deficit])⟩
          rw [hout, without_cons_of_notMem fun hmem =>
            hnotMem ((greedyFill_sublist _ _ _ _).subset hmem)]
        split
        · exact (defer_spec w b _ s).bind fun _ s₁ h₁ => hrest s₁ h₁
        · exact hrest s (Became.refl s)

/-- A turn leaves the loop where the turn in bits leaves it. -/
theorem classTurn_roundState {budget wTotal : ℚ} (hw : wTotal ≠ 0)
    (hbs : Serviceable s.toBuffer (l.byClass tc)) :
    Returns (classTurn w true rnd budget wTotal tc l) s fun l' s' =>
      (⟨l', s'.deficit⟩ : RoundState) =
        RoundState.turn (quantum budget wTotal) ⟨l, s.deficit⟩ tc := by
  unfold classTurn
  rw [if_neg hw]
  refine Returns.get_bind ((setDeficit_spec tc _ s).bind fun _ s₀ h₀ => ?_)
  subst h₀
  refine Returns.bind (skipTurn_fill w tc rnd _ _ _ _ (Function.update_self ..) ?_)
    fun out s₁ h₁ => ?_
  · exact hbs
  obtain ⟨rfl, hdef⟩ := h₁
  have hdef' : s₁.deficit = Function.update s.deficit tc (s.deficit tc + quantum budget wTotal tc -
      load Bundle.bits (RoundState.paidFor (quantum budget wTotal) tc ⟨l, s.deficit⟩)) :=
    hdef.trans (Function.update_idem ..)
  show Returns (if RoundState.unpaidFor (quantum budget wTotal) tc ⟨l, s.deficit⟩ = [] then _
    else _) s₁ _
  split
  · next hempty =>
      refine (setDeficit_spec tc 0 s₁).bind fun _ s' h' => Returns.pure ?_
      rw [h', RoundState.turn, if_pos hempty, hdef', Function.update_idem]
      rfl
  · next hne =>
      refine Returns.pure ?_
      rw [RoundState.turn, if_neg hne, hdef']
      rfl

/-- So does a round. -/
theorem roundOver_roundState {budget wTotal : ℚ} (horder : order.Nodup) (hbudget : 0 ≤ budget)
    (hw : 0 < wTotal) :
    ∀ (tcs : List TrafficClass), (∀ tc ∈ tcs, tc ∈ order) →
      ∀ (l : RoundLocals) (s : SchedulerState), Ready order l s →
      Returns (roundOver w true rnd budget wTotal tcs l) s fun l' s' =>
        (⟨l', s'.deficit⟩ : RoundState) =
          tcs.foldl (RoundState.turn (quantum budget wTotal)) ⟨l, s.deficit⟩ := by
  intro tcs
  induction tcs with
  | nil => exact fun _ l s _ => Returns.pure rfl
  | cons tc tcs ih =>
      intro hsub l s hready
      have htc := hsub tc (by simp)
      have hserv := hready.serviceable.sublist (l.sublist_queued htc)
      refine ((classTurn_roundState hw.ne' hserv).and
        (classTurn_spec true rnd horder hbudget hw htc hready)).bind fun l₁ s₁ h₁ => ?_
      obtain ⟨hturn, hvisited⟩ := h₁
      obtain ⟨sent, hprog⟩ := hvisited.progress
      rw [List.foldl_cons, ← hturn]
      exact ih (fun u hu => hsub u (List.mem_cons_of_mem _ hu)) l₁ s₁ (hprog.ready hready)

/-- So do the rounds of the loop; those it does not run would change nothing. -/
theorem drrLoop_roundState (horder : order.Nodup) :
    ∀ (left rnd : ℕ) (l : RoundLocals) (s : SchedulerState), Ready order l s →
      Returns (drrLoop w true order left rnd l) s fun l' s' =>
        (⟨l', s'.deficit⟩ : RoundState) = (RoundState.round order)^[left] ⟨l, s.deficit⟩ := by
  intro left
  induction left with
  | zero => exact fun rnd l s _ => Returns.pure rfl
  | succ left ih =>
      intro rnd l s hready
      rw [Function.iterate_succ_apply]
      by_cases hspent : l.Spent order
      · rw [drrLoop_of_spent hspent]
        have hfix : RoundState.round order ⟨l, s.deficit⟩ = ⟨l, s.deficit⟩ :=
          RoundState.round_of_spent hspent
        exact Returns.pure (by rw [hfix, Function.iterate_fixed hfix])
      · rw [RoundLocals.Spent, not_or, not_not, not_not] at hspent
        have hw : 0 < weightTotal order l := queueBudget_sum_pos (backlogged_ne_nil hspent.2)
        have hsub : ∀ tc ∈ backlogged order l.byClass, tc ∈ order := fun tc htc =>
          (mem_backlogged.1 htc).1
        rw [drrLoop, if_pos hspent.1, if_pos hspent.2]
        refine ((roundOver_roundState horder hspent.1.le hw _ hsub l s hready).and
          (roundOver_round true rnd horder hready hspent.1 hspent.2)).bind fun l₁ s₁ h₁ => ?_
        have hround : RoundState.round order ⟨l, s.deficit⟩ = ⟨l₁, s₁.deficit⟩ :=
          (if_pos hspent).trans h₁.1.symm
        rw [hround]
        exact ih (rnd + 1) l₁ s₁ (h₁.2.ready hready)

end Turns

end Gateway
end LunaBridge
