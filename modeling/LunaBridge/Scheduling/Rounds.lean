import LunaBridge.Scheduling.Drain
import Mathlib.Tactic.NormNum

/-!
# Rounds — what a class is credited, what it sends, and how many rounds there are

The account of a class over the turns of a round: its deficit grows by its share and shrinks by the
bits it sends, and a bundle it could still have sent into the bits left exceeds the deficit it ends
with.  In both variants of the round robin the bits left less the deficit of a class shrink by a
twelfth in every round, so the loop ends by its own conditions long before its defensive bound.
-/

namespace LunaBridge
namespace Gateway

open Foundation.Machine Foundation.Selection Foundation.GreedyFill

/-! ## One turn -/

/-- The bundles of its queue a class tries before its turn ends: with skip-over all of them, else
only the head. -/
def tried (skip : Bool) (queue : List Bundle) : List Bundle :=
  if skip then queue else queue.take 1

theorem tried_subset {skip : Bool} {queue : List Bundle} : ∀ b ∈ tried skip queue, b ∈ queue := by
  intro b hb
  cases skip with
  | true => exact hb
  | false => exact List.mem_of_mem_take hb

/-- Of a queue, `left` is still there: what has been sent is smaller than whatever of it it has
overtaken. -/
structure PassedOver (queue left : List Bundle) : Prop where
  sublist : left.Sublist queue
  smaller : ∀ a ∈ left, ∀ b ∈ queue, b ∉ left → [a, b].Sublist queue → b.bits < a.bits

namespace PassedOver

variable {b : Bundle} {queue left left' : List Bundle}

theorem refl (queue : List Bundle) : PassedOver queue queue :=
  ⟨List.Sublist.refl _, fun _ _ _ hb hnot _ => absurd hb hnot⟩

/-- A turn, and the turns after it. -/
theorem trans (hnodup : queue.Nodup) (h : PassedOver queue left) (h' : PassedOver left left') :
    PassedOver queue left' := by
  refine ⟨h'.sublist.trans h.sublist, fun a ha b hb hnot hpair => ?_⟩
  have ha' := h'.sublist.subset ha
  by_cases hleft : b ∈ left
  · exact h'.smaller a ha b hleft hnot (pair_sublist_of_mem hnodup hpair h.sublist ha' hleft)
  · exact h.smaller a ha' b hb hleft hpair

/-- The first of the queue goes: it has overtaken nobody. -/
theorem send (hnodup : (b :: queue).Nodup) (h : PassedOver queue left) :
    PassedOver (b :: queue) left := by
  refine ⟨h.sublist.cons b, fun a ha c hc hnot hpair => ?_⟩
  have hab : a ≠ b := fun heq => (List.nodup_cons.1 hnodup).1 (heq ▸ h.sublist.subset ha)
  have hpair' := hpair.of_cons_of_ne hab
  exact h.smaller a ha c (hpair'.subset (by simp)) hnot hpair'

/-- The first of the queue stays, and is larger than what is sent. -/
theorem keep (h : PassedOver queue left)
    (hlarger : ∀ c ∈ queue, c ∉ left → c.bits < b.bits) : PassedOver (b :: queue) (b :: left) := by
  refine ⟨h.sublist.cons_cons b, fun a ha c hc hnot hpair => ?_⟩
  have hcb : c ≠ b := fun heq => hnot (heq ▸ List.mem_cons_self)
  have hc' : c ∈ queue := (List.mem_cons.1 hc).resolve_left hcb
  have hnot' : c ∉ left := fun hmem => hnot (List.mem_cons_of_mem _ hmem)
  by_cases hab : a = b
  · exact hab ▸ hlarger c hc' hnot'
  · have ha' : a ∈ left := (List.mem_cons.1 ha).resolve_left hab
    exact h.smaller a ha' c hc' hnot' (hpair.of_cons_of_ne hab)

end PassedOver

/-- A turn that left `out.1` queued and `out.2` bits: deficit and bits cover each bundle that was
sent, the deficit has paid for the bits, and does not cover what was tried and would still fit. -/
structure Charged (skip : Bool) (tc : TrafficClass) (queue : List Bundle) (r : ℚ)
    (s : SchedulerState) (out : List Bundle × ℚ) (s' : SchedulerState) : Prop where
  passedOver : PassedOver queue out.1
  covered : ∀ c ∈ queue, c ∉ out.1 → c.bits ≤ s.deficit tc ∧ c.bits ≤ r
  paid : s'.deficit tc - out.2 = s.deficit tc - r
  left_le : out.2 ≤ r
  short : ∀ b ∈ tried skip out.1, b.bits ≤ out.2 → s'.deficit tc < b.bits

section Turns

variable {w : ContactWindow} {tc : TrafficClass} {rnd : ℕ} {b : Bundle} {queue : List Bundle}
  {r : ℚ} {s s₁ s' : SchedulerState} {out : List Bundle × ℚ} {skip : Bool}

/-- A turn that sends `b` and goes on with the rest of the queue. -/
theorem Charged.send (hnodup : (b :: queue).Nodup) (hb : 0 ≤ b.bits)
    (hfit : b.bits ≤ s.deficit tc ∧ b.bits ≤ r)
    (hdef : s₁.deficit tc = s.deficit tc - b.bits)
    (h : Charged skip tc queue (r - b.bits) s₁ out s') :
    Charged skip tc (b :: queue) r s out s' where
  passedOver := h.passedOver.send hnodup
  covered := by
    intro c hc hnot
    rcases List.mem_cons.1 hc with rfl | hc'
    · exact hfit
    · obtain ⟨hcdef, hcr⟩ := h.covered c hc' hnot
      rw [hdef] at hcdef
      constructor <;> linarith
  paid := by
    rw [h.paid, hdef]
    ring
  left_le := h.left_le.trans (by linarith)
  short := h.short

/-- A turn that ends at once: its head exceeds the deficit or the bits left. -/
theorem Charged.stop (hnofit : ∀ b ∈ queue.head?, ¬ (b.bits ≤ s.deficit tc ∧ b.bits ≤ r))
    (hdef : s'.deficit tc = s.deficit tc) : Charged false tc queue r s (queue, r) s' where
  passedOver := .refl queue
  covered := fun _ hc hnot => absurd hc hnot
  paid := by rw [hdef]
  left_le := le_rfl
  short := by
    intro b hb hfit
    rw [hdef]
    by_contra hcovered
    have hhead : b ∈ queue.head? := by
      cases queue with
      | nil => cases hb
      | cons a queue => simpa [tried, eq_comm] using hb
    exact hnofit b hhead ⟨not_lt.1 hcovered, hfit⟩

theorem headTurn_charged (w : ContactWindow) (tc : TrafficClass) (rnd : ℕ) :
    ∀ (queue : List Bundle) (r : ℚ) (s : SchedulerState), Serviceable s.toBuffer queue →
      (∀ b ∈ queue, 0 < b.sizeBytes) →
      Returns (headTurn w tc rnd queue r) s fun out s' => Charged false tc queue r s out s' := by
  intro queue
  induction queue with
  | nil => exact fun r s _ _ => Returns.pure (.stop (by simp) rfl)
  | cons b queue ih =>
      intro r s hbs hpos
      refine Returns.get_bind ?_
      by_cases hfit : b.bits ≤ s.deficit tc ∧ b.bits ≤ r
      · rw [if_pos hfit]
        refine charge_and_send w tc (hbs.pending b (by simp)) fun s₁ h₁ => ?_
        refine (ih _ s₁ (h₁.buffer ▸ hbs.tail) fun c hc =>
          hpos c (List.mem_cons_of_mem _ hc)).mono fun out s' h' => ?_
        refine h'.send hbs.nodup (Bundle.bits_nonneg (hpos b (by simp))) hfit ?_
        rw [h₁.deficit]
        exact Function.update_self _ _ _
      · rw [if_neg hfit]
        have hhead : ∀ c ∈ (b :: queue).head?, ¬ (c.bits ≤ s.deficit tc ∧ c.bits ≤ r) := by
          rintro c ⟨⟩
          exact hfit
        split
        · exact (defer_spec w b _ s).bind fun _ s₁ h₁ =>
            Returns.pure (.stop hhead (congrFun h₁.deficit tc))
        · exact Returns.pure (.stop hhead rfl)

/-- A turn that passes over `b`: whatever it sends later, the deficit will not grow, nor will the
bits left. -/
theorem Charged.keep (hnofit : ¬ (b.bits ≤ s.deficit tc ∧ b.bits ≤ r))
    (hdef : s₁.deficit tc = s.deficit tc) (h : Charged true tc queue r s₁ out s') :
    Charged true tc (b :: queue) r s (b :: out.1, out.2) s' where
  passedOver := by
    refine h.passedOver.keep fun c hc hnot => ?_
    -- deficit and bits cover `c`, so they would cover a smaller `b`
    obtain ⟨hcdef, hcr⟩ := h.covered c hc hnot
    rw [hdef] at hcdef
    by_contra hle
    exact hnofit ⟨(not_lt.1 hle).trans hcdef, (not_lt.1 hle).trans hcr⟩
  covered := by
    intro c hc hnot
    rcases List.mem_cons.1 hc with rfl | hc'
    · exact absurd List.mem_cons_self hnot
    · rw [← hdef]
      exact h.covered c hc' fun hmem => hnot (List.mem_cons_of_mem _ hmem)
  paid := by rw [h.paid, hdef]
  left_le := h.left_le
  short := by
    intro c hc hfit
    rcases List.mem_cons.1 (show c ∈ b :: out.1 from hc) with rfl | hc
    · have hpaid := h.paid
      have hleft := h.left_le
      have hlt : s.deficit tc < c.bits := by
        by_contra hcovered
        exact hnofit ⟨not_lt.1 hcovered, hfit.trans hleft⟩
      rw [hdef] at hpaid
      linarith
    · exact h.short c hc hfit

theorem skipTurn_charged (w : ContactWindow) (tc : TrafficClass) (rnd : ℕ) :
    ∀ (queue : List Bundle) (r : ℚ) (s : SchedulerState), Serviceable s.toBuffer queue →
      (∀ b ∈ queue, 0 < b.sizeBytes) →
      Returns (skipTurn w tc rnd queue r) s fun out s' => Charged true tc queue r s out s' := by
  intro queue
  induction queue with
  | nil =>
      exact fun r s _ _ => Returns.pure ⟨.refl _, by simp, rfl, le_rfl, by simp [tried]⟩
  | cons b queue ih =>
      intro r s hbs hpos
      have hpos' : ∀ c ∈ queue, 0 < c.sizeBytes := fun c hc => hpos c (List.mem_cons_of_mem _ hc)
      refine Returns.get_bind ?_
      by_cases hfit : b.bits ≤ s.deficit tc ∧ b.bits ≤ r
      · rw [if_pos hfit]
        refine charge_and_send w tc (hbs.pending b (by simp)) fun s₁ h₁ => ?_
        refine (ih _ s₁ (h₁.buffer ▸ hbs.tail) hpos').mono fun out s' h' => ?_
        refine h'.send hbs.nodup (Bundle.bits_nonneg (hpos b (by simp))) hfit ?_
        rw [h₁.deficit]
        exact Function.update_self _ _ _
      · rw [if_neg hfit]
        -- logged or not, the bundle stays and the scan goes on
        have hrest : ∀ s₁, Became s s.toBuffer s₁ →
            Returns (skipTurn w tc rnd queue r >>= fun p => pure (b :: p.1, p.2)) s₁
              fun out s' => Charged true tc (b :: queue) r s out s' := by
          intro s₁ h₁
          have hbs₁ : Serviceable s₁.toBuffer queue := by
            rw [h₁.buffer]
            exact hbs.sublist (List.sublist_cons_self b queue)
          refine (ih r s₁ hbs₁ hpos').bind fun out s' h' => ?_
          exact Returns.pure (h'.keep hfit (congrFun h₁.deficit tc))
        split
        · exact (defer_spec w b _ s).bind fun _ s₁ h₁ => hrest s₁ h₁
        · exact hrest s (Became.refl s)

end Turns

/-! ## One round -/

/-- The account of class `tc` over a turn worth `share`. -/
structure Account (skip : Bool) (share : ℚ) (tc : TrafficClass) (l : RoundLocals)
    (s : SchedulerState) (l' : RoundLocals) (s' : SchedulerState) : Prop where
  passedOver : PassedOver (l.byClass tc) (l'.byClass tc)
  balance : l'.byClass tc ≠ [] → s'.deficit tc - load Bundle.bits (l'.byClass tc) =
    s.deficit tc + share - load Bundle.bits (l.byClass tc)
  spends : load Bundle.bits (l.byClass tc) - load Bundle.bits (l'.byClass tc) ≤
    l.remainingBits - l'.remainingBits
  credit : 0 ≤ s.deficit tc → 0 ≤ s'.deficit tc
  short : ∀ b ∈ tried skip (l'.byClass tc), b.bits ≤ l'.remainingBits → s'.deficit tc < b.bits

/-- The accounts of the classes `tcs`, which have had a turn each; nothing has changed for the
others. -/
structure Accounts (skip : Bool) (share : TrafficClass → ℚ) (tcs : List TrafficClass)
    (l : RoundLocals) (s : SchedulerState) (l' : RoundLocals) (s' : SchedulerState) : Prop where
  left_le : l'.remainingBits ≤ l.remainingBits
  account : ∀ tc ∈ tcs, Account skip (share tc) tc l s l' s'
  byClass : ∀ u, u ∉ tcs → l'.byClass u = l.byClass u
  deficit : ∀ u, u ∉ tcs → s'.deficit u = s.deficit u

namespace Accounts

variable {skip : Bool} {share : TrafficClass → ℚ} {tc : TrafficClass} {tcs : List TrafficClass}
  {l l₁ l' : RoundLocals} {s s₁ s' : SchedulerState}

theorem nil : Accounts skip share [] l s l s :=
  ⟨le_rfl, by simp, fun _ _ => rfl, fun _ _ => rfl⟩

/-- A turn, then the rest of the round. -/
theorem cons (htc : tc ∉ tcs) (h : Accounts skip share [tc] l s l₁ s₁)
    (h' : Accounts skip share tcs l₁ s₁ l' s') : Accounts skip share (tc :: tcs) l s l' s' := by
  refine ⟨h'.left_le.trans h.left_le, fun u hu => ?_, fun u hu => ?_, fun u hu => ?_⟩
  · have hleft := h.left_le
    have hleft' := h'.left_le
    rcases List.mem_cons.1 hu with rfl | hu'
    · -- the later turns are those of other classes
      have hacc := h.account u (by simp)
      have hqueue := h'.byClass u htc
      have hdef := h'.deficit u htc
      refine ⟨hqueue ▸ hacc.passedOver, ?_, ?_, hdef ▸ hacc.credit, ?_⟩
      · rw [hqueue, hdef]
        exact hacc.balance
      · have hspends := hacc.spends
        rw [hqueue]
        linarith
      · rw [hqueue, hdef]
        exact fun b hb hfit => hacc.short b hb (hfit.trans hleft')
    · have hne : u ∉ [tc] := fun hmem => htc (List.mem_singleton.1 hmem ▸ hu')
      have hacc := h'.account u hu'
      have hqueue := h.byClass u hne
      have hdef := h.deficit u hne
      refine ⟨hqueue ▸ hacc.passedOver, ?_, ?_, hdef ▸ hacc.credit, hacc.short⟩
      · rw [← hqueue, ← hdef]
        exact hacc.balance
      · have hspends := hacc.spends
        rw [← hqueue]
        linarith
  · rw [List.mem_cons, not_or] at hu
    rw [h'.byClass u hu.2, h.byClass u (by simpa using hu.1)]
  · rw [List.mem_cons, not_or] at hu
    rw [h'.deficit u hu.2, h.deficit u (by simpa using hu.1)]

end Accounts

section Rounds

variable {w : ContactWindow} {order : List TrafficClass} {tc : TrafficClass} {rnd : ℕ}
  {budget wTotal : ℚ} {l : RoundLocals} {s : SchedulerState}

/-- A turn of `tc`, its share paid out beforehand, is on the account of `tc`. -/
theorem Charged.account {skip : Bool} {share : ℚ} (hshare : 0 ≤ share) {sent : List Bundle}
    {out : List Bundle × ℚ} {l' : RoundLocals} {s₀ s₁ s' : SchedulerState}
    (hcredited : s₀.deficit tc = s.deficit tc + share)
    (hturned : Turned w tc (l.byClass tc) l.remainingBits s₀ sent out s₁)
    (hcharged : Charged skip tc (l.byClass tc) l.remainingBits s₀ out s₁)
    (hqueue : l'.byClass tc = out.1) (hleft : l'.remainingBits = out.2)
    (hdef : s'.deficit tc = if out.1 = [] then 0 else s₁.deficit tc) :
    Account skip share tc l s l' s' := by
  have hpaid := hcharged.paid
  have hload : load Bundle.bits (l.byClass tc) = load Bundle.bits (sent ++ out.1) :=
    load_perm hturned.perm
  rw [load_append] at hload
  have hspent := hturned.left
  refine ⟨?_, fun hne => ?_, ?_, fun hcredit => ?_, fun b hb hfit => ?_⟩
  · rw [hqueue]
    exact hcharged.passedOver
  · rw [hqueue] at hne ⊢
    rw [hdef, if_neg hne]
    linarith
  · rw [hqueue, hleft]
    linarith
  · rw [hdef]
    split
    · exact le_rfl
    · refine hturned.deficit_self ?_
      rw [hcredited]
      exact add_nonneg hcredit hshare
  · rw [hqueue] at hb
    rw [hleft] at hfit
    rw [hdef, if_neg (List.ne_nil_of_mem (tried_subset b hb))]
    exact hcharged.short b hb hfit

/-- When one class has had its turn, the accounts are that class's. -/
theorem Charged.accounts {skip : Bool} {share : TrafficClass → ℚ} (hshare : 0 ≤ share tc)
    {sent : List Bundle} {out : List Bundle × ℚ} {s₀ s₁ s' : SchedulerState}
    (hcredited : s₀.deficit = Function.update s.deficit tc (s.deficit tc + share tc))
    (hturned : Turned w tc (l.byClass tc) l.remainingBits s₀ sent out s₁)
    (hcharged : Charged skip tc (l.byClass tc) l.remainingBits s₀ out s₁)
    (hdef : s'.deficit tc = if out.1 = [] then 0 else s₁.deficit tc)
    (hothers : ∀ u, u ≠ tc → s'.deficit u = s₁.deficit u) :
    Accounts skip share [tc] l s ⟨out.2, Function.update l.byClass tc out.1⟩ s' := by
  refine ⟨hcharged.left_le, fun u hu => ?_, fun u hu => ?_, fun u hu => ?_⟩
  · obtain rfl := List.mem_singleton.1 hu
    refine hcharged.account hshare ?_ hturned (Function.update_self ..) rfl hdef
    rw [hcredited]
    exact Function.update_self ..
  · exact Function.update_of_ne (by simpa using hu) _ _
  · have hne : u ≠ tc := by simpa using hu
    rw [hothers u hne, hturned.deficit_other u hne, hcredited]
    exact Function.update_of_ne hne _ _

theorem classTurn_accounts (skip : Bool) (hbudget : 0 ≤ budget) (hw : 0 < wTotal)
    (htc : tc ∈ order) (hready : Ready order l s) :
    Returns (classTurn w skip rnd budget wTotal tc l) s fun l' s' =>
      Accounts skip (quantum budget wTotal) [tc] l s l' s' := by
  unfold classTurn
  rw [if_neg hw.ne']
  refine Returns.get_bind ((setDeficit_spec tc _ s).bind fun _ s₀ h₀ => ?_)
  subst h₀
  have hserv := hready.serviceable.sublist (l.sublist_queued htc)
  have hsizes : ∀ b ∈ l.byClass tc, 0 < b.sizeBytes := fun b hb =>
    hready.sizes b ((l.sublist_queued htc).subset hb)
  have hshare := quantum_nonneg hbudget hw tc
  -- what follows the turn of either kind
  have hfinish : ∀ out s₁ sent,
      Turned w tc (l.byClass tc) l.remainingBits { s with
        deficit := Function.update s.deficit tc (s.deficit tc + quantum budget wTotal tc) }
        sent out s₁ →
      Charged skip tc (l.byClass tc) l.remainingBits { s with
        deficit := Function.update s.deficit tc (s.deficit tc + quantum budget wTotal tc) }
        out s₁ →
      Returns (if out.1 = [] then do
          setDeficit tc 0
          pure ⟨out.2, Function.update l.byClass tc out.1⟩
        else pure ⟨out.2, Function.update l.byClass tc out.1⟩) s₁ fun l' s' =>
          Accounts skip (quantum budget wTotal) [tc] l s l' s' := by
    intro out s₁ sent hturned hcharged
    split
    · next hempty =>
        refine (setDeficit_spec tc 0 s₁).bind fun _ s' h' => Returns.pure ?_
        subst h'
        refine hcharged.accounts hshare rfl hturned ?_ fun u hu => Function.update_of_ne hu _ _
        rw [if_pos hempty]
        exact Function.update_self ..
    · next hne =>
        refine Returns.pure (hcharged.accounts hshare rfl hturned ?_ fun _ _ => rfl)
        rw [if_neg hne]
  cases skip
  · refine Returns.bind ((headTurn_spec w tc rnd _ _ _ ?_ hsizes).and
      (headTurn_charged w tc rnd _ _ _ ?_ hsizes)) fun out s₁ h₁ => ?_
    · exact hserv
    · exact hserv
    · obtain ⟨⟨sent, hturned⟩, hcharged⟩ := h₁
      exact hfinish out s₁ sent hturned hcharged
  · refine Returns.bind ((skipTurn_spec w tc rnd _ _ _ ?_ hsizes).and
      (skipTurn_charged w tc rnd _ _ _ ?_ hsizes)) fun out s₁ h₁ => ?_
    · exact hserv
    · exact hserv
    · obtain ⟨⟨sent, hturned⟩, hcharged⟩ := h₁
      exact hfinish out s₁ sent hturned hcharged

theorem roundOver_accounts (skip : Bool) (horder : order.Nodup) (hbudget : 0 ≤ budget)
    (hw : 0 < wTotal) :
    ∀ (tcs : List TrafficClass), tcs.Nodup → (∀ tc ∈ tcs, tc ∈ order) →
      ∀ (l : RoundLocals) (s : SchedulerState), Ready order l s →
      Returns (roundOver w skip rnd budget wTotal tcs l) s fun l' s' =>
        Accounts skip (quantum budget wTotal) tcs l s l' s' := by
  intro tcs
  induction tcs with
  | nil => exact fun _ _ l s _ => Returns.pure .nil
  | cons tc tcs ih =>
      intro hnd hsub l s hready
      rcases List.nodup_cons.1 hnd with ⟨htc, hnd'⟩
      refine ((classTurn_accounts skip hbudget hw (hsub tc (by simp)) hready).and
        (classTurn_spec skip rnd horder hbudget hw (hsub tc (by simp)) hready)).bind
          fun l₁ s₁ h₁ => ?_
      obtain ⟨sent, hprog⟩ := h₁.2.progress
      refine (ih hnd' (fun u hu => hsub u (List.mem_cons_of_mem _ hu)) l₁ s₁
        (hprog.ready hready)).mono fun l' s' h' => ?_
      exact Accounts.cons htc h₁.1 h'

end Rounds

/-! ## What a round does for a class -/

/-- The weights of the backlogged classes. -/
def weightTotal (order : List TrafficClass) (l : RoundLocals) : ℚ :=
  ((backlogged order l.byClass).map fun tc => (classSpecs tc).queueBudget).sum

/-- One round of the loop, run because some head fits the bits left. -/
structure Round (w : ContactWindow) (skip : Bool) (order : List TrafficClass) (l : RoundLocals)
    (s : SchedulerState) (l' : RoundLocals) (s' : SchedulerState) : Prop where
  left_pos : 0 < l.remainingBits
  headFits : someHeadFits l (backlogged order l.byClass) = true
  progress : ∃ sent, Progress w order l s sent l' s'
  accounts : Accounts skip (quantum l.remainingBits (weightTotal order l))
    (backlogged order l.byClass) l s l' s'

theorem roundOver_round {w : ContactWindow} {order : List TrafficClass} (skip : Bool) (rnd : ℕ)
    (horder : order.Nodup) {l : RoundLocals} {s : SchedulerState} (hready : Ready order l s)
    (hpos : 0 < l.remainingBits)
    (hfit : someHeadFits l (backlogged order l.byClass) = true) :
    Returns (roundOver w skip rnd l.remainingBits (weightTotal order l)
      (backlogged order l.byClass) l) s (Round w skip order l s) := by
  have hw : 0 < weightTotal order l := queueBudget_sum_pos (backlogged_ne_nil hfit)
  have hsub : ∀ tc ∈ backlogged order l.byClass, tc ∈ order := fun tc htc =>
    (mem_backlogged.1 htc).1
  refine ((roundOver_spec skip rnd horder hpos.le hw _ (horder.filter _) hsub l s hready).and
    (roundOver_accounts skip horder hpos.le hw _ (horder.filter _) hsub l s hready)).mono
      fun l' s' h => ?_
  exact ⟨hpos, hfit, h.1.progress, h.2⟩

namespace Round

variable {w : ContactWindow} {skip : Bool} {order : List TrafficClass} {tc : TrafficClass}
  {l l' : RoundLocals} {s s' : SchedulerState}

theorem ready (h : Round w skip order l s l' s') (hready : Ready order l s) :
    Ready order l' s' := by
  obtain ⟨sent, hprog⟩ := h.progress
  exact hprog.ready hready

theorem passedOver (h : Round w skip order l s l' s') (tc : TrafficClass) :
    PassedOver (l.byClass tc) (l'.byClass tc) := by
  by_cases htc : tc ∈ backlogged order l.byClass
  · exact (h.accounts.account tc htc).passedOver
  · rw [h.accounts.byClass tc htc]
    exact .refl _

/-- Queues only shrink. -/
theorem sublist (h : Round w skip order l s l' s') (tc : TrafficClass) :
    (l'.byClass tc).Sublist (l.byClass tc) :=
  (h.passedOver tc).sublist

theorem ne_nil (h : Round w skip order l s l' s') (hne : l'.byClass tc ≠ []) :
    l.byClass tc ≠ [] := by
  intro hnil
  have hsub := h.sublist tc
  rw [hnil] at hsub
  exact hne (List.sublist_nil.1 hsub)

theorem account (h : Round w skip order l s l' s') (htc : tc ∈ order) (hne : l'.byClass tc ≠ []) :
    Account skip (quantum l.remainingBits (weightTotal order l) tc) tc l s l' s' :=
  h.accounts.account tc (mem_backlogged.2 ⟨htc, h.ne_nil hne⟩)

theorem credit (h : Round w skip order l s l' s') (hcredit : 0 ≤ s.deficit tc) :
    0 ≤ s'.deficit tc := by
  by_cases htc : tc ∈ backlogged order l.byClass
  · exact (h.accounts.account tc htc).credit hcredit
  · rwa [h.accounts.deficit tc htc]

theorem short (h : Round w skip order l s l' s') (htc : tc ∈ order) {b : Bundle}
    (hb : b ∈ tried skip (l'.byClass tc)) (hfit : b.bits ≤ l'.remainingBits) :
    s'.deficit tc < b.bits :=
  (h.account htc (List.ne_nil_of_mem (tried_subset b hb))).short b hb hfit

end Round

/-- To follow the loop: what every round keeps holds of the locals and the state it ends with. -/
theorem drrLoop_induction {w : ContactWindow} {order : List TrafficClass} {skip : Bool}
    (horder : order.Nodup) {I : RoundLocals → SchedulerState → Prop}
    (hround : ∀ l s l' s', Ready order l s → I l s → Round w skip order l s l' s' → I l' s') :
    ∀ (left rnd : ℕ) (l : RoundLocals) (s : SchedulerState), Ready order l s → I l s →
      Returns (drrLoop w skip order left rnd l) s fun l' s' => Ready order l' s' ∧ I l' s' := by
  intro left
  induction left with
  | zero => exact fun rnd l s hready hI => Returns.pure ⟨hready, hI⟩
  | succ left ih =>
      intro rnd l s hready hI
      unfold drrLoop
      by_cases hpos : 0 < l.remainingBits
      · rw [if_pos hpos]
        by_cases hfit : someHeadFits l (backlogged order l.byClass) = true
        · rw [if_pos hfit]
          refine (roundOver_round skip rnd horder hready hpos hfit).bind fun l₁ s₁ h₁ => ?_
          exact ih (rnd + 1) l₁ s₁ (h₁.ready hready) (hround l s l₁ s₁ hready hI h₁)
        · rw [if_neg hfit]
          exact Returns.pure ⟨hready, hI⟩
      · rw [if_neg hpos]
        exact Returns.pure ⟨hready, hI⟩

end Gateway
end LunaBridge
