import LunaBridge.Scheduling.Transmission
import Mathlib.Data.List.Flatten

/-!
# RoundRobin — the deficit round robin of the WFQ drains

Turn, round and loop are described by what they send.  Whatever the deficits are, a loop moves
some bundles from the class queues to the link and never overspends (`Progress`).  If moreover the
budget covers everything queued, each round empties at least one class (`exists_le_share`:
somebody's part of the budget covers its queue), so the loop ends with all queues empty long
before its defensive bound.
-/

namespace LunaBridge
namespace Gateway

open Foundation.Machine Foundation.Selection Foundation.GreedyFill

theorem setDeficit_spec (tc : TrafficClass) (value : ℚ) (s : SchedulerState) :
    Returns (setDeficit tc value) s fun _ s' =>
      s' = { s with deficit := Function.update s.deficit tc value } :=
  Returns.modify rfl

theorem Bundle.bits_nonneg {b : Bundle} (h : 0 < b.sizeBytes) : 0 ≤ b.bits := by
  have : (0 : ℚ) < b.sizeBytes := by exact_mod_cast h
  rw [Bundle.bits]
  linarith

/-- Where a whole queue fits, its head does. -/
theorem bits_le_of_load_le {b : Bundle} {queue : List Bundle} {x : ℚ}
    (hpos : ∀ c ∈ queue, 0 < c.sizeBytes) (h : load Bundle.bits (b :: queue) ≤ x) : b.bits ≤ x := by
  have htail : 0 ≤ load Bundle.bits queue := load_nonneg fun c hc => Bundle.bits_nonneg (hpos c hc)
  rw [load_cons] at h
  linarith

/-- No class is in debt. -/
def SchedulerState.InCredit (s : SchedulerState) : Prop := ∀ u, 0 ≤ s.deficit u

theorem SchedulerState.InCredit.update {s : SchedulerState} (hs : s.InCredit) (tc : TrafficClass)
    {value : ℚ} (hvalue : 0 ≤ value) :
    ({ s with deficit := Function.update s.deficit tc value } : SchedulerState).InCredit := by
  intro u
  by_cases hu : u = tc
  · simpa [hu] using hvalue
  · simpa [hu] using hs u

/-! ## One turn -/

/-- In its turn a class sent `sent` and keeps `out.1` queued, with `out.2` bits left. -/
structure Turned (w : ContactWindow) (tc : TrafficClass) (queue : List Bundle) (r : ℚ)
    (s : SchedulerState) (sent : List Bundle) (out : List Bundle × ℚ) (s' : SchedulerState) :
    Prop where
  perm : queue.Perm (sent ++ out.1)
  left : out.2 = r - load Bundle.bits sent
  buffer : s'.toBuffer = s.toBuffer.settle (Lifecycle.delivered w) sent
  rotationIndex : s'.rotationIndex = s.rotationIndex
  inBudget : 0 ≤ r → 0 ≤ out.2
  deficit_self : 0 ≤ s.deficit tc → 0 ≤ s'.deficit tc
  deficit_other : ∀ u, u ≠ tc → s'.deficit u = s.deficit u
  emptied : load Bundle.bits queue ≤ s.deficit tc → load Bundle.bits queue ≤ r → out.1 = []

namespace Turned

variable {w : ContactWindow} {tc : TrafficClass} {b : Bundle} {queue sent : List Bundle} {r : ℚ}
  {s s₁ s' : SchedulerState} {out : List Bundle × ℚ}

/-- A turn that ends at once. -/
theorem stop (h : Became s s.toBuffer s')
    (hstop : load Bundle.bits queue ≤ s.deficit tc → load Bundle.bits queue ≤ r → queue = []) :
    Turned w tc queue r s [] (queue, r) s' where
  perm := List.Perm.refl _
  left := by simp
  buffer := h.buffer.trans (by simp)
  rotationIndex := h.rotationIndex
  inBudget := id
  deficit_self := by simp [h.deficit]
  deficit_other := fun u _ => by rw [h.deficit]
  emptied := hstop

/-- A turn that sends `b` and goes on with the rest of the queue. -/
theorem send (hbs : Serviceable s.toBuffer (b :: queue)) (hdef : b.bits ≤ s.deficit tc)
    (hr : b.bits ≤ r)
    (hsend : Became { s with deficit := Function.update s.deficit tc (s.deficit tc - b.bits) }
      (s.toBuffer.settle (Lifecycle.delivered w) [b]) s₁)
    (h : Turned w tc queue (r - b.bits) s₁ sent out s') :
    Turned w tc (b :: queue) r s (b :: sent) out s' := by
  have hself : s₁.deficit tc = s.deficit tc - b.bits := by
    rw [hsend.deficit]
    exact Function.update_self _ _ _
  refine ⟨h.perm.cons b, ?_, ?_, h.rotationIndex.trans hsend.rotationIndex, ?_, ?_, ?_, ?_⟩
  · rw [h.left, load_cons]
    ring
  · rw [h.buffer, hsend.buffer, Buffer.settle_settle]
    · rfl
    · intro u hu hmem
      rw [List.mem_singleton.1 hu] at hmem
      exact hbs.head_notMem (h.perm.symm.subset (List.mem_append_left _ hmem))
  · exact fun _ => h.inBudget (by linarith)
  · exact fun _ => h.deficit_self (by linarith)
  · intro u hu
    rw [h.deficit_other u hu, hsend.deficit]
    exact Function.update_of_ne hu _ _
  · intro hdef' hr'
    rw [load_cons] at hdef' hr'
    exact h.emptied (by linarith) (by linarith)

/-- A turn that passes over `b` and goes on with the rest of the queue. -/
theorem keep (hpos : ∀ c ∈ queue, 0 < c.sizeBytes)
    (hnofit : ¬ (b.bits ≤ s.deficit tc ∧ b.bits ≤ r)) (hkeep : Became s s.toBuffer s₁)
    (h : Turned w tc queue r s₁ sent out s') :
    Turned w tc (b :: queue) r s sent (b :: out.1, out.2) s' := by
  refine ⟨(h.perm.cons b).trans List.perm_middle.symm, h.left, ?_,
    h.rotationIndex.trans hkeep.rotationIndex, h.inBudget, ?_, ?_, ?_⟩
  · rw [h.buffer, hkeep.buffer]
  · rw [← hkeep.deficit]
    exact h.deficit_self
  · intro u hu
    rw [h.deficit_other u hu, hkeep.deficit]
  · intro hdef hr
    exact absurd ⟨bits_le_of_load_le hpos hdef, bits_le_of_load_le hpos hr⟩ hnofit

end Turned

section Turns

variable (w : ContactWindow) (tc : TrafficClass) (rnd : ℕ)

/-- Charging the deficit and sending, as both kinds of turn do before they go on with `f`. -/
theorem charge_and_send {α : Type} {b : Bundle} {reason : String} {value : ℚ} {s : SchedulerState}
    {f : PUnit → SchedM α} {Q : α → SchedulerState → Prop}
    (hb : (s.records b).terminalState = .pending)
    (hrest : ∀ s₁, Became { s with deficit := Function.update s.deficit tc value }
      (s.toBuffer.settle (Lifecycle.delivered w) [b]) s₁ → Returns (f ⟨⟩) s₁ Q) :
    Returns (setDeficit tc value >>= fun _ => transmit w b reason >>= f) s Q := by
  refine (setDeficit_spec tc value s).bind fun _ s₀ h₀ => ?_
  have hb₀ : (s₀.records b).terminalState = .pending := by rwa [h₀]
  refine (transmit_spec w reason hb₀).bind fun _ s₁ h₁ => hrest s₁ ?_
  rwa [h₀] at h₁

theorem headTurn_spec : ∀ (queue : List Bundle) (r : ℚ) (s : SchedulerState),
    Serviceable s.toBuffer queue → (∀ b ∈ queue, 0 < b.sizeBytes) →
    Returns (headTurn w tc rnd queue r) s fun out s' =>
      ∃ sent, Turned w tc queue r s sent out s' := by
  intro queue
  induction queue with
  | nil => exact fun r s _ _ => Returns.pure ⟨[], .stop (Became.refl s) fun _ _ => rfl⟩
  | cons b queue ih =>
      intro r s hbs hpos
      have hpos' : ∀ c ∈ queue, 0 < c.sizeBytes := fun c hc => hpos c (List.mem_cons_of_mem _ hc)
      refine Returns.get_bind ?_
      by_cases hfit : b.bits ≤ s.deficit tc ∧ b.bits ≤ r
      · rw [if_pos hfit]
        refine charge_and_send w tc (hbs.pending b (by simp)) fun s₁ h₁ => ?_
        refine (ih _ s₁ (h₁.buffer ▸ hbs.tail) hpos').mono fun out s' h' => ?_
        rcases h' with ⟨sent, h'⟩
        exact ⟨b :: sent, .send hbs hfit.1 hfit.2 h₁ h'⟩
      · rw [if_neg hfit]
        have hstop : load Bundle.bits (b :: queue) ≤ s.deficit tc →
            load Bundle.bits (b :: queue) ≤ r → b :: queue = [] := fun hdef hr =>
          absurd ⟨bits_le_of_load_le hpos' hdef, bits_le_of_load_le hpos' hr⟩ hfit
        split
        · exact (defer_spec w b _ s).bind fun _ s₁ h₁ => Returns.pure ⟨[], .stop h₁ hstop⟩
        · exact Returns.pure ⟨[], .stop (Became.refl s) hstop⟩

theorem skipTurn_spec : ∀ (queue : List Bundle) (r : ℚ) (s : SchedulerState),
    Serviceable s.toBuffer queue → (∀ b ∈ queue, 0 < b.sizeBytes) →
    Returns (skipTurn w tc rnd queue r) s fun out s' =>
      ∃ sent, Turned w tc queue r s sent out s' := by
  intro queue
  induction queue with
  | nil => exact fun r s _ _ => Returns.pure ⟨[], .stop (Became.refl s) fun _ _ => rfl⟩
  | cons b queue ih =>
      intro r s hbs hpos
      have hpos' : ∀ c ∈ queue, 0 < c.sizeBytes := fun c hc => hpos c (List.mem_cons_of_mem _ hc)
      refine Returns.get_bind ?_
      by_cases hfit : b.bits ≤ s.deficit tc ∧ b.bits ≤ r
      · rw [if_pos hfit]
        refine charge_and_send w tc (hbs.pending b (by simp)) fun s₁ h₁ => ?_
        refine (ih _ s₁ (h₁.buffer ▸ hbs.tail) hpos').mono fun out s' h' => ?_
        rcases h' with ⟨sent, h'⟩
        exact ⟨b :: sent, .send hbs hfit.1 hfit.2 h₁ h'⟩
      · rw [if_neg hfit]
        -- logged or not, the bundle stays and the scan goes on
        have hrest : ∀ s₁, Became s s.toBuffer s₁ →
            Returns (skipTurn w tc rnd queue r >>= fun p => pure (b :: p.1, p.2)) s₁
              fun out s' => ∃ sent, Turned w tc (b :: queue) r s sent out s' := by
          intro s₁ h₁
          have hbs₁ : Serviceable s₁.toBuffer queue := by
            rw [h₁.buffer]
            exact hbs.sublist (List.sublist_cons_self b queue)
          refine (ih r s₁ hbs₁ hpos').bind fun out s' h' => ?_
          rcases h' with ⟨sent, h'⟩
          exact Returns.pure ⟨sent, .keep hpos' hfit h₁ h'⟩
        split
        · exact (defer_spec w b _ s).bind fun _ s₁ h₁ => hrest s₁ h₁
        · exact hrest s (Became.refl s)

end Turns

/-! ## Progress of the class queues -/

/-- Everything queued, class by class. -/
def RoundLocals.queued (order : List TrafficClass) (l : RoundLocals) : List Bundle :=
  order.flatMap l.byClass

/-- What the loop relies on: the queued bundles may be sent, and no bits are overspent. -/
structure Ready (order : List TrafficClass) (l : RoundLocals) (s : SchedulerState) : Prop where
  serviceable : Serviceable s.toBuffer (l.queued order)
  sizes : ∀ b ∈ l.queued order, 0 < b.sizeBytes
  inBudget : 0 ≤ l.remainingBits

/-- Between `(l, s)` and `(l', s')` exactly the bundles `sent` have gone out. -/
structure Progress (w : ContactWindow) (order : List TrafficClass) (l : RoundLocals)
    (s : SchedulerState) (sent : List Bundle) (l' : RoundLocals) (s' : SchedulerState) :
    Prop where
  perm : (l.queued order).Perm (sent ++ l'.queued order)
  left : l'.remainingBits = l.remainingBits - load Bundle.bits sent
  buffer : s'.toBuffer = s.toBuffer.settle (Lifecycle.delivered w) sent
  rotationIndex : s'.rotationIndex = s.rotationIndex
  inBudget : 0 ≤ l'.remainingBits
  credit : s.InCredit → s'.InCredit

namespace Progress

variable {w : ContactWindow} {order : List TrafficClass} {l l₁ l' : RoundLocals}
  {s s₁ s' : SchedulerState} {sent sent₁ sent' : List Bundle}

theorem refl (hready : Ready order l s) : Progress w order l s [] l s where
  perm := List.Perm.refl _
  left := by simp
  buffer := by simp
  rotationIndex := rfl
  inBudget := hready.inBudget
  credit := id

theorem trans (hready : Ready order l s) (h : Progress w order l s sent l₁ s₁)
    (h' : Progress w order l₁ s₁ sent' l' s') : Progress w order l s (sent ++ sent') l' s' where
  perm := by
    rw [List.append_assoc]
    exact h.perm.trans (h'.perm.append_left sent)
  left := by
    rw [h'.left, h.left, load_append]
    ring
  buffer := by
    rw [h'.buffer, h.buffer]
    apply Buffer.settle_settle
    intro u hu hu'
    have hnd := h.perm.nodup_iff.1 hready.serviceable.nodup
    exact (List.nodup_append.1 hnd).2.2 u hu u
      (h'.perm.symm.subset (List.mem_append_left _ hu')) rfl
  rotationIndex := h'.rotationIndex.trans h.rotationIndex
  inBudget := h'.inBudget
  credit := fun hs => h'.credit (h.credit hs)

/-- Clearing a deficit changes nothing else. -/
theorem reset (h : Progress w order l s sent l' s') (tc : TrafficClass) :
    Progress w order l s sent l' { s' with deficit := Function.update s'.deficit tc 0 } where
  perm := h.perm
  left := h.left
  buffer := h.buffer
  rotationIndex := h.rotationIndex
  inBudget := h.inBudget
  credit := fun hs => (h.credit hs).update tc le_rfl

/-- Nothing joins the queues. -/
theorem queued_subset (h : Progress w order l s sent l' s') :
    ∀ b ∈ l'.queued order, b ∈ l.queued order :=
  fun _ hb => h.perm.symm.subset (List.mem_append_right _ hb)

/-- What is still queued may still be sent. -/
theorem ready (hready : Ready order l s) (h : Progress w order l s sent l' s') :
    Ready order l' s' := by
  have hserv := hready.serviceable.perm h.perm.symm
  refine ⟨?_, fun b hb => hready.sizes b (h.queued_subset b hb), h.inBudget⟩
  rw [h.buffer]
  refine (hserv.sublist (List.sublist_append_right _ _)).settle fun v hv hv' => ?_
  exact (List.nodup_append.1 hserv.nodup).2.2 v hv v hv' rfl

/-- A budget that covers everything queued goes on doing so. -/
theorem ample (h : Progress w order l s sent l' s')
    (hl : load Bundle.bits (l.queued order) ≤ l.remainingBits) :
    load Bundle.bits (l'.queued order) ≤ l'.remainingBits := by
  rw [load_perm h.perm, load_append] at hl
  rw [h.left]
  linarith

end Progress

theorem RoundLocals.sublist_queued {order : List TrafficClass} {tc : TrafficClass}
    (htc : tc ∈ order) (l : RoundLocals) : (l.byClass tc).Sublist (l.queued order) :=
  List.sublist_flatten_of_mem (List.mem_map.2 ⟨tc, htc, rfl⟩)

theorem Ready.load_byClass_le {order : List TrafficClass} {l : RoundLocals} {s : SchedulerState}
    {tc : TrafficClass} (h : Ready order l s) (htc : tc ∈ order) :
    load Bundle.bits (l.byClass tc) ≤ load Bundle.bits (l.queued order) :=
  load_le_of_subperm (l.sublist_queued htc).subperm
    fun b hb => Bundle.bits_nonneg (h.sizes b hb)

/-! ## Rounds -/

/-- A class's part of the round's budget. -/
def quantum (budget wTotal : ℚ) (tc : TrafficClass) : ℚ :=
  budget * ((classSpecs tc).queueBudget / wTotal)

theorem quantum_nonneg {budget wTotal : ℚ} (hbudget : 0 ≤ budget) (hw : 0 < wTotal)
    (tc : TrafficClass) : 0 ≤ quantum budget wTotal tc :=
  mul_nonneg hbudget (div_pos (classSpecs_queueBudget_pos tc) hw).le

/-- The classes `tcs` have had a turn each, worth `share` bits to a class. -/
structure Visited (w : ContactWindow) (order : List TrafficClass) (share : TrafficClass → ℚ)
    (tcs : List TrafficClass) (l : RoundLocals) (s : SchedulerState) (l' : RoundLocals)
    (s' : SchedulerState) : Prop where
  progress : ∃ sent, Progress w order l s sent l' s'
  frame : ∀ u, u ∉ tcs → l'.byClass u = l.byClass u
  emptied : s.InCredit → load Bundle.bits (l.queued order) ≤ l.remainingBits →
    ∀ tc ∈ tcs, load Bundle.bits (l.byClass tc) ≤ share tc → l'.byClass tc = []

namespace Visited

variable {w : ContactWindow} {order tcs : List TrafficClass} {share : TrafficClass → ℚ}
  {tc : TrafficClass} {l l₁ l' : RoundLocals} {s s₁ s' : SchedulerState}

theorem nil (hready : Ready order l s) : Visited w order share [] l s l s where
  progress := ⟨[], .refl hready⟩
  frame := fun _ _ => rfl
  emptied := by simp

/-- Clearing a deficit after the last turn. -/
theorem reset (h : Visited w order share tcs l s l' s') (tc : TrafficClass) :
    Visited w order share tcs l s l'
      { s' with deficit := Function.update s'.deficit tc 0 } where
  progress := h.progress.imp fun _ hprog => hprog.reset tc
  frame := h.frame
  emptied := h.emptied

/-- A turn, then the rest of the round. -/
theorem cons (hready : Ready order l s) (htc : tc ∉ tcs) (h : Visited w order share [tc] l s l₁ s₁)
    (h' : Visited w order share tcs l₁ s₁ l' s') :
    Visited w order share (tc :: tcs) l s l' s' := by
  rcases h.progress with ⟨sent, hprog⟩
  rcases h'.progress with ⟨sent', hprog'⟩
  refine ⟨⟨sent ++ sent', hprog.trans hready hprog'⟩, ?_, ?_⟩
  · intro u hu
    rw [List.mem_cons, not_or] at hu
    rw [h'.frame u hu.2, h.frame u (by simpa using hu.1)]
  · intro hcredit hample u hu hshare
    rcases List.mem_cons.1 hu with rfl | hu'
    · -- emptied in its own turn, and no later turn refills a queue
      rw [h'.frame u htc]
      exact h.emptied hcredit hample u (by simp) hshare
    · have hne : u ≠ tc := fun hEq => htc (hEq ▸ hu')
      refine h'.emptied (hprog.credit hcredit) (hprog.ample hample) u hu' ?_
      rwa [h.frame u (by simpa using hne)]

end Visited

section Rounds

variable {w : ContactWindow} {order : List TrafficClass} {tc : TrafficClass}

/-- A turn of `tc`, its share paid out beforehand, is a visit to `tc`. -/
theorem Turned.visited {share : TrafficClass → ℚ} {l : RoundLocals} {s s' : SchedulerState}
    {sent : List Bundle} {out : List Bundle × ℚ} (horder : order.Nodup) (htc : tc ∈ order)
    (hready : Ready order l s) (hshare : 0 ≤ share tc)
    (h : Turned w tc (l.byClass tc) l.remainingBits
      { s with deficit := Function.update s.deficit tc (s.deficit tc + share tc) } sent out s') :
    Visited w order share [tc] l s ⟨out.2, Function.update l.byClass tc out.1⟩ s' := by
  have hcredit : s.InCredit → s'.InCredit := by
    intro hs u
    have hpaid := hs.update tc (add_nonneg (hs tc) hshare)
    by_cases hu : u = tc
    · subst hu
      exact h.deficit_self (hpaid u)
    · rw [h.deficit_other u hu]
      exact hpaid u
  refine ⟨⟨sent, flatMap_update_perm horder htc h.perm, h.left, h.buffer, h.rotationIndex,
    h.inBudget hready.inBudget, hcredit⟩, ?_, ?_⟩
  · intro u hu
    exact Function.update_of_ne (by simpa using hu) _ _
  · intro hs hample u hu hfits
    rw [List.mem_singleton.1 hu] at hfits ⊢
    -- out of debt, the class may spend its whole share
    have hdeficit : load Bundle.bits (l.byClass tc) ≤
        Function.update s.deficit tc (s.deficit tc + share tc) tc := by
      have hself := hs tc
      rw [Function.update_self]
      linarith
    exact (Function.update_self _ _ _).trans
      (h.emptied hdeficit ((hready.load_byClass_le htc).trans hample))

variable (skip : Bool) (rnd : ℕ) {budget wTotal : ℚ}

theorem classTurn_spec (horder : order.Nodup) (hbudget : 0 ≤ budget) (hw : 0 < wTotal)
    (htc : tc ∈ order) {l : RoundLocals} {s : SchedulerState} (hready : Ready order l s) :
    Returns (classTurn w skip rnd budget wTotal tc l) s
      (Visited w order (quantum budget wTotal) [tc] l s) := by
  unfold classTurn
  rw [if_neg hw.ne']
  refine Returns.get_bind ((setDeficit_spec tc _ s).bind fun _ s₀ h₀ => ?_)
  subst h₀
  have hserv := hready.serviceable.sublist (l.sublist_queued htc)
  have hsizes : ∀ b ∈ l.byClass tc, 0 < b.sizeBytes := fun b hb =>
    hready.sizes b ((l.sublist_queued htc).subset hb)
  -- what follows the turn of either kind
  have hfinish : ∀ out s₁ sent, Turned w tc (l.byClass tc) l.remainingBits
      { s with
        deficit := Function.update s.deficit tc (s.deficit tc + quantum budget wTotal tc) }
      sent out s₁ →
      Returns (if out.1 = [] then do
          setDeficit tc 0
          pure ⟨out.2, Function.update l.byClass tc out.1⟩
        else pure ⟨out.2, Function.update l.byClass tc out.1⟩) s₁
        (Visited w order (quantum budget wTotal) [tc] l s) := by
    intro out s₁ sent h₁
    have hvisited := h₁.visited horder htc hready (quantum_nonneg hbudget hw tc)
    split
    · refine (setDeficit_spec tc 0 s₁).bind fun _ s' h' => Returns.pure ?_
      subst h'
      exact hvisited.reset tc
    · exact Returns.pure hvisited
  cases skip
  · refine Returns.bind (headTurn_spec w tc rnd _ _ _ ?_ hsizes) fun out s₁ h₁ => ?_
    · exact hserv
    · exact h₁.elim (hfinish out s₁)
  · refine Returns.bind (skipTurn_spec w tc rnd _ _ _ ?_ hsizes) fun out s₁ h₁ => ?_
    · exact hserv
    · exact h₁.elim (hfinish out s₁)

theorem roundOver_spec (horder : order.Nodup) (hbudget : 0 ≤ budget) (hw : 0 < wTotal) :
    ∀ (tcs : List TrafficClass), tcs.Nodup → (∀ tc ∈ tcs, tc ∈ order) →
      ∀ (l : RoundLocals) (s : SchedulerState), Ready order l s →
      Returns (roundOver w skip rnd budget wTotal tcs l) s
        (Visited w order (quantum budget wTotal) tcs l s) := by
  intro tcs
  induction tcs with
  | nil => exact fun _ _ l s hready => Returns.pure (.nil hready)
  | cons tc tcs ih =>
      intro hnd hsub l s hready
      rcases List.nodup_cons.1 hnd with ⟨htc, hnd'⟩
      refine (classTurn_spec skip rnd horder hbudget hw (hsub tc (by simp)) hready).bind
        fun l₁ s₁ h₁ => ?_
      rcases h₁.progress with ⟨sent, hprog⟩
      refine (ih hnd' (fun u hu => hsub u (List.mem_cons_of_mem _ hu)) l₁ s₁
        (hprog.ready hready)).mono fun l' s' h' => ?_
      exact Visited.cons hready htc h₁ h'

end Rounds

/-! ## The loop -/

section Loop

variable {w : ContactWindow} {order : List TrafficClass} (skip : Bool)

theorem mem_backlogged {byClass : TrafficClass → List Bundle} {tc : TrafficClass} :
    tc ∈ backlogged order byClass ↔ tc ∈ order ∧ byClass tc ≠ [] := by
  simp [backlogged]

/-- A round is started only when some class is backlogged. -/
theorem backlogged_ne_nil {l : RoundLocals}
    (hfit : someHeadFits l (backlogged order l.byClass) = true) :
    backlogged order l.byClass ≠ [] := by
  intro hnil
  rw [hnil] at hfit
  cases hfit

/-- Their weights can be divided by. -/
theorem queueBudget_sum_pos {tcs : List TrafficClass} (hne : tcs ≠ []) :
    0 < (tcs.map fun tc => (classSpecs tc).queueBudget).sum :=
  List.sum_pos _ (by simp [classSpecs_queueBudget_pos]) (by simpa using hne)

/-- The queues of the backlogged classes are part of everything queued. -/
theorem Ready.load_backlogged_le {l : RoundLocals} {s : SchedulerState} (hready : Ready order l s) :
    load (fun tc => load Bundle.bits (l.byClass tc)) (backlogged order l.byClass) ≤
      load Bundle.bits (l.queued order) := by
  have hflat : ∀ tcs : List TrafficClass, load (fun tc => load Bundle.bits (l.byClass tc)) tcs =
      load Bundle.bits (tcs.flatMap l.byClass) := by
    intro tcs
    induction tcs with
    | nil => rfl
    | cons tc tcs ih => simp [ih]
  rw [hflat]
  exact load_le_of_subperm (List.filter_sublist.flatMap _).subperm
    fun b hb => Bundle.bits_nonneg (hready.sizes b hb)

/-- A round whose budget covers everything queued empties one of the backlogged queues. -/
theorem Visited.length_backlogged_lt {l l' : RoundLocals} {s s' : SchedulerState}
    (hready : Ready order l s)
    (h : Visited w order (quantum l.remainingBits
      ((backlogged order l.byClass).map fun u => (classSpecs u).queueBudget).sum)
      (backlogged order l.byClass) l s l' s')
    (hcredit : s.InCredit) (hample : load Bundle.bits (l.queued order) ≤ l.remainingBits)
    (hne : backlogged order l.byClass ≠ []) :
    (backlogged order l'.byClass).length < (backlogged order l.byClass).length := by
  obtain ⟨tc, htc, hshare⟩ := exists_le_share hne
    (fun tc _ => classSpecs_queueBudget_pos tc) (hready.load_backlogged_le.trans hample)
  have hempty := h.emptied hcredit hample tc htc hshare
  have hsub : (backlogged order l'.byClass).Sublist (backlogged order l.byClass) := by
    refine List.monotone_filter_right order fun u hu => ?_
    by_contra hidle
    have hu' : u ∉ backlogged order l.byClass := fun hmem => by
      simp [(mem_backlogged.1 hmem).2] at hidle
    rw [h.frame u hu'] at hu
    exact hidle hu
  refine lt_of_le_of_ne hsub.length_le fun hlen => ?_
  have hmem := (hsub.eq_of_length hlen).symm ▸ htc
  exact (mem_backlogged.1 hmem).2 hempty

/-- With no class backlogged nothing is queued. -/
theorem queued_eq_nil {l : RoundLocals} (h : backlogged order l.byClass = []) :
    l.queued order = [] := by
  rw [RoundLocals.queued, List.flatMap_eq_nil_iff]
  intro tc htc
  by_contra hne
  have hmem := mem_backlogged.2 ⟨htc, hne⟩
  rw [h] at hmem
  cases hmem

/-- When the budget covers everything queued, some head fits as long as anything is queued. -/
theorem backlogged_of_no_head {l : RoundLocals} {s : SchedulerState} (hready : Ready order l s)
    (hample : load Bundle.bits (l.queued order) ≤ l.remainingBits)
    (hfit : ¬ someHeadFits l (backlogged order l.byClass) = true) :
    backlogged order l.byClass = [] := by
  by_contra hne
  obtain ⟨tc, htc⟩ := List.exists_mem_of_ne_nil _ hne
  rcases mem_backlogged.1 htc with ⟨htco, hq⟩
  apply hfit
  refine List.any_eq_true.2 ⟨tc, htc, ?_⟩
  have hload := (hready.load_byClass_le htco).trans hample
  cases hqueue : l.byClass tc with
  | nil => exact absurd hqueue hq
  | cons head queue =>
      have hsizes : ∀ b ∈ queue, 0 < b.sizeBytes := fun b hb =>
        hready.sizes b ((l.sublist_queued htco).subset (by simp [hqueue, hb]))
      rw [hqueue] at hload
      exact decide_eq_true (bits_le_of_load_le hsizes hload)

/-- The loop makes progress whatever the deficits are; started with a budget that covers everything
queued, non-negative deficits and a round for every backlogged class, it sends everything. -/
theorem drrLoop_spec (horder : order.Nodup) :
    ∀ (left rnd : ℕ) (l : RoundLocals) (s : SchedulerState), Ready order l s →
      Returns (drrLoop w skip order left rnd l) s fun l' s' =>
        (∃ sent, Progress w order l s sent l' s') ∧
        (s.InCredit → load Bundle.bits (l.queued order) ≤ l.remainingBits →
          (backlogged order l.byClass).length ≤ left → l'.queued order = []) := by
  intro left
  induction left with
  | zero =>
      intro rnd l s hready
      refine Returns.pure ⟨⟨[], .refl hready⟩, fun _ _ hlen => queued_eq_nil ?_⟩
      exact List.eq_nil_of_length_eq_zero (Nat.le_zero.1 hlen)
  | succ left ih =>
      intro rnd l s hready
      unfold drrLoop
      by_cases hpos : 0 < l.remainingBits
      · rw [if_pos hpos]
        by_cases hfit : someHeadFits l (backlogged order l.byClass) = true
        · rw [if_pos hfit]
          have hne := backlogged_ne_nil hfit
          have hw := queueBudget_sum_pos hne
          refine (roundOver_spec skip rnd horder hpos.le hw _ (horder.filter _)
            (fun tc htc => (mem_backlogged.1 htc).1) l s hready).bind fun l₁ s₁ h₁ => ?_
          rcases h₁.progress with ⟨sent, hprog⟩
          refine (ih (rnd + 1) l₁ s₁ (hprog.ready hready)).mono fun l' s' h' => ?_
          rcases h' with ⟨⟨sent', hprog'⟩, hdone⟩
          refine ⟨⟨sent ++ sent', hprog.trans hready hprog'⟩, fun hcredit hample hlen => ?_⟩
          refine hdone (hprog.credit hcredit) (hprog.ample hample) ?_
          -- one class fewer is backlogged, and one round fewer is left
          have hfewer := h₁.length_backlogged_lt hready hcredit hample hne
          omega
        · rw [if_neg hfit]
          refine Returns.pure ⟨⟨[], .refl hready⟩, fun _ hample _ => ?_⟩
          exact queued_eq_nil (backlogged_of_no_head hready hample hfit)
      · -- nothing is left of the budget, so nothing was queued
        rw [if_neg hpos]
        refine Returns.pure ⟨⟨[], .refl hready⟩, fun _ hample _ => ?_⟩
        rw [load_bits] at hample
        have hbytes : (totalBytes (l.queued order) : ℚ) ≤ 0 := by linarith
        have hzero : totalBytes (l.queued order) = 0 :=
          le_antisymm (by exact_mod_cast hbytes) (totalBytes_nonneg hready.sizes)
        exact (totalBytes_eq_zero_iff hready.sizes).1 hzero

end Loop

end Gateway
end LunaBridge
