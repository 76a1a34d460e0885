import LunaBridge.Foundation.Trace
import Mathlib.Algebra.Order.Ring.Rat
import Mathlib.Data.List.Nodup
import Mathlib.Logic.Function.Basic
import Mathlib.Tactic.FieldSimp
import Mathlib.Tactic.Linarith
import Mathlib.Tactic.Ring

/-!
# RoundRobin — deficit round robin, visit by visit

A wheel of flows takes turns in a fixed cyclic order.  The flow in front sends while its credit pays
for what it has at its head; when it does not, it saves up a quantum in proportion to its weight and
the turn passes on; an idle flow loses its credit.  Credits stay within a quantum of the largest
item (`credit_bounds`), and two flows that are never idle are served in proportion to their weights
up to a bounded difference (`served_close`), whatever the other flows do.
-/

namespace Foundation
namespace RoundRobin

open Trace

variable {ι : Type} [DecidableEq ι]

/-- The credit of every flow, and the order in which they take turns. -/
@[ext] structure Wheel (ι : Type) where
  credit : ι → ℚ
  order : List ι

/-- What a flow may do. -/
inductive Move (ι : Type)
  | send (i : ι) (size : ℚ)
  | save (i : ι) (size : ℚ)
  | idle (i : ι)
  | forfeit

/-- One move of a wheel whose flow `i` saves `quantum i` at a time. -/
inductive Step (quantum : ι → ℚ) : Move ι → Wheel ι → Wheel ι → Prop
  | send {i : ι} {rest : List ι} {size : ℚ} {w : Wheel ι} (hfront : w.order = i :: rest)
      (hpays : size ≤ w.credit i) :
      Step quantum (.send i size) w
        ⟨Function.update w.credit i (w.credit i - size), w.order⟩
  | save {i : ι} {rest : List ι} {size : ℚ} {w : Wheel ι} (hfront : w.order = i :: rest)
      (hshort : w.credit i < size) :
      Step quantum (.save i size) w
        ⟨Function.update w.credit i (w.credit i + quantum i), rest ++ [i]⟩
  | idle {i : ι} {rest : List ι} {w : Wheel ι} (hfront : w.order = i :: rest) :
      Step quantum (.idle i) w ⟨Function.update w.credit i 0, rest ++ [i]⟩
  | forfeit {w : Wheel ι} {credit : ι → ℚ} (hnone : ∀ i ∈ w.order, credit i = 0) :
      Step quantum .forfeit w ⟨credit, w.order⟩

/-- What `i` has sent. -/
def Move.sent (i : ι) : Move ι → ℚ
  | .send j size => if j = i then size else 0
  | _ => 0

/-- What `i` has sent in some moves. -/
def served (i : ι) (moves : List (Move ι)) : ℚ := (moves.map (Move.sent i)).sum

@[simp] theorem served_nil (i : ι) : served i ([] : List (Move ι)) = 0 := rfl

@[simp] theorem served_cons (i : ι) (m : Move ι) (moves : List (Move ι)) :
    served i (m :: moves) = m.sent i + served i moves := by
  simp [served]

@[simp] theorem served_append (i : ι) (ms ms' : List (Move ι)) :
    served i (ms ++ ms') = served i ms + served i ms' := by
  simp [served]

/-! ## Credits -/

/-- The items of a move are no larger than `M` allows its flow. -/
def Move.Within (M : ι → ℚ) : Move ι → Prop
  | .send i size => 0 ≤ size ∧ size ≤ M i
  | .save i size => 0 ≤ size ∧ size ≤ M i
  | _ => True

/-- The credit of every flow in turn is that of a flow whose items are at most `M`. -/
def Bounded (quantum M : ι → ℚ) (w : Wheel ι) : Prop :=
  ∀ i ∈ w.order, 0 ≤ w.credit i ∧ w.credit i < M i + quantum i

/-- Every flow in turn saves something. -/
def Pays (quantum : ι → ℚ) (w : Wheel ι) : Prop := ∀ i ∈ w.order, 0 < quantum i

section Bounds

variable {quantum M : ι → ℚ}

/-- The flows in turn stay the same. -/
theorem Step.perm {m : Move ι} {w w' : Wheel ι} (h : Step quantum m w w') :
    w'.order.Perm w.order := by
  cases h with
  | send => exact List.Perm.refl _
  | save hfront => exact hfront ▸ List.perm_append_singleton _ _
  | idle hfront => exact hfront ▸ List.perm_append_singleton _ _
  | forfeit => exact List.Perm.refl _

theorem Pays.step {m : Move ι} {w w' : Wheel ι} (h : Pays quantum w) (hstep : Step quantum m w w') :
    Pays quantum w' :=
  fun i hi => h i (hstep.perm.mem_iff.1 hi)

omit [DecidableEq ι] in
/-- Larger items allow larger credits. -/
theorem Bounded.mono {M' : ι → ℚ} {w : Wheel ι} (h : Bounded quantum M w) (hM : ∀ i, M i ≤ M' i) :
    Bounded quantum M' w :=
  fun i hi => ⟨(h i hi).1, (h i hi).2.trans_le (by linarith [hM i])⟩

/-- A credit that changes, in a turn or in place, has to be within bounds. -/
theorem Bounded.update {w : Wheel ι} (h : Bounded quantum M w) {i : ι} {credit : ℚ}
    (hcredit : 0 ≤ credit ∧ credit < M i + quantum i) {order : List ι}
    (horder : order.Perm w.order) :
    Bounded quantum M ⟨Function.update w.credit i credit, order⟩ := by
  intro j hj
  by_cases hji : j = i
  · subst hji
    simpa only [Function.update_self] using hcredit
  · simpa only [Function.update_of_ne hji] using h j (horder.mem_iff.1 hj)

/-- One move keeps the credits within bounds. -/
theorem Bounded.step (hM : ∀ i, 0 ≤ M i) {m : Move ι} {w w' : Wheel ι} (hpays : Pays quantum w)
    (h : Bounded quantum M w) (hwithin : m.Within M) (hstep : Step quantum m w w') :
    Bounded quantum M w' := by
  have hzero : ∀ i ∈ w.order, (0 : ℚ) ≤ 0 ∧ 0 < M i + quantum i := fun i hi =>
    ⟨le_rfl, by linarith [hM i, hpays i hi]⟩
  have hperm := hstep.perm
  cases hstep with
  | @send i rest size _ hfront hcovers =>
      have hi := h i (hfront ▸ List.mem_cons_self ..)
      exact h.update ⟨sub_nonneg.2 hcovers, by linarith [hi.2, hwithin.1]⟩ hperm
  | @save i rest size _ hfront hshort =>
      have hmem : i ∈ w.order := hfront ▸ List.mem_cons_self ..
      exact h.update ⟨by linarith [(h i hmem).1, hpays i hmem], by linarith [hwithin.2]⟩ hperm
  | @idle i rest _ hfront =>
      exact h.update (hzero i (hfront ▸ List.mem_cons_self ..)) hperm
  | forfeit hnone =>
      intro i hi
      simpa only [hnone i hi] using hzero i hi

/-- So does any number of moves. -/
theorem credit_bounds (hM : ∀ i, 0 ≤ M i) {moves : List (Move ι)} {w w' : Wheel ι}
    (hrun : Run (Step quantum) moves w w') (hwithin : ∀ m ∈ moves, m.Within M)
    (hpays : Pays quantum w) (h : Bounded quantum M w) :
    Bounded quantum M w' := by
  have hend := hrun.invariant
    (I := fun ms w => (∀ m ∈ ms, Move.Within M m) ∧ Pays quantum w ∧ Bounded quantum M w)
    (fun m ms _ _ hI hstep => ⟨fun m' hm' => hI.1 m' (List.mem_cons_of_mem _ hm'),
      hI.2.1.step hstep, hI.2.2.step hM hI.2.1 (hI.1 m (by simp)) hstep⟩) ⟨hwithin, hpays, h⟩
  exact hend.2.2

end Bounds

/-! ## Fairness -/

/-- Whether the turn of `j` comes before that of `i`, as a number. -/
def ahead (i j : ι) (order : List ι) : ℚ := if order.idxOf j < order.idxOf i then 1 else 0

theorem ahead_nonneg (i j : ι) (order : List ι) : 0 ≤ ahead i j order := by
  unfold ahead
  split <;> norm_num

theorem ahead_le_one (i j : ι) (order : List ι) : ahead i j order ≤ 1 := by
  unfold ahead
  split <;> norm_num

/-- After the turn of `k` the order of two other flows is as before; `k` itself comes last. -/
theorem ahead_rotate {i j k : ι} {rest : List ι} (hij : i ≠ j) (hi : i ∈ k :: rest)
    (hj : j ∈ k :: rest) (hnd : (k :: rest).Nodup) :
    ahead i j (rest ++ [k]) = ahead i j (k :: rest) + (if k = i then 1 else 0) -
      (if k = j then 1 else 0) := by
  have hk : k ∉ rest := (List.nodup_cons.1 hnd).1
  have hback : ∀ l, l ∈ rest → (rest ++ [k]).idxOf l = rest.idxOf l := fun l hl =>
    List.idxOf_append_of_mem hl
  have hlast : (rest ++ [k]).idxOf k = rest.length := by
    rw [List.idxOf_append_of_notMem hk]
    simp
  have hfront : ∀ l, k ≠ l → (k :: rest).idxOf l = rest.idxOf l + 1 := fun l hl =>
    List.idxOf_cons_ne _ hl
  unfold ahead
  by_cases hki : k = i
  · subst hki
    have hj' : j ∈ rest := (List.mem_cons.1 hj).resolve_left hij.symm
    have hlt := List.idxOf_lt_length_of_mem hj'
    rw [hback j hj', hlast, List.idxOf_cons_self, if_pos hlt]
    simp [hij]
  · have hi' : i ∈ rest := (List.mem_cons.1 hi).resolve_left (Ne.symm hki)
    by_cases hkj : k = j
    · subst hkj
      have hlt := List.idxOf_lt_length_of_mem hi'
      rw [hback i hi', hlast, List.idxOf_cons_self, hfront i hki, if_neg (by omega)]
      simp [hki]
    · have hj' : j ∈ rest := (List.mem_cons.1 hj).resolve_left (Ne.symm hkj)
      rw [hback i hi', hback j hj', hfront i hki, hfront j hkj]
      simp [hki, hkj]

variable {quantum weight : ι → ℚ} {Q : ℚ}

/-- How far `i` is ahead of `j` in credit for its weight, corrected by whose turn comes first. -/
def lag (weight : ι → ℚ) (Q : ℚ) (i j : ι) (w : Wheel ι) : ℚ :=
  w.credit i / weight i - w.credit j / weight j - Q * ahead i j w.order

/-- The move does not take away the credit of `i`, who is not idle. -/
def Move.Spares (i : ι) : Move ι → Prop
  | .idle k => k ≠ i
  | .forfeit => False
  | _ => True

/-- The order of a wheel is a list of distinct flows with `i` and `j` among them. -/
structure Seats (i j : ι) (w : Wheel ι) : Prop where
  nodup : w.order.Nodup
  left : i ∈ w.order
  right : j ∈ w.order

theorem Seats.step {i j : ι} {m : Move ι} {w w' : Wheel ι} (h : Seats i j w)
    (hstep : Step quantum m w w') : Seats i j w' where
  nodup := hstep.perm.nodup_iff.2 h.nodup
  left := hstep.perm.mem_iff.2 h.left
  right := hstep.perm.mem_iff.2 h.right

theorem Seats.run {i j : ι} {moves : List (Move ι)} {w w' : Wheel ι} (h : Seats i j w)
    (hrun : Run (Step quantum) moves w w') : Seats i j w' :=
  hrun.invariant (I := fun _ w => Seats i j w) (fun _ _ _ _ h hstep => h.step hstep) h

/-- What two flows that keep their credit are served, for their weights, comes out of their lag. -/
theorem lag_step (hquantum : ∀ k, quantum k = Q * weight k) {i j : ι} (hij : i ≠ j)
    (hi : 0 < weight i) (hj : 0 < weight j) {m : Move ι} {w w' : Wheel ι} (hseats : Seats i j w)
    (hsparesᵢ : m.Spares i) (hsparesⱼ : m.Spares j) (hstep : Step quantum m w w') :
    m.sent i / weight i - m.sent j / weight j + lag weight Q i j w' = lag weight Q i j w := by
  have hi' := hi.ne'
  have hj' := hj.ne'
  cases hstep with
  | @send k rest size _ hfront hpays =>
      by_cases hki : k = i
      · subst hki
        simp only [lag, Move.sent, if_true, if_neg hij, Function.update_self,
          Function.update_of_ne hij.symm]
        field_simp
        ring
      · by_cases hkj : k = j
        · subst hkj
          simp only [lag, Move.sent, if_true, if_neg hij.symm, Function.update_self,
            Function.update_of_ne hij]
          field_simp
          ring
        · simp [lag, Move.sent, hki, hkj, Function.update_of_ne (Ne.symm hki),
            Function.update_of_ne (Ne.symm hkj)]
  | @save k rest size _ hfront hshort =>
      have horder := ahead_rotate hij (hfront ▸ hseats.left) (hfront ▸ hseats.right)
        (hfront ▸ hseats.nodup)
      by_cases hki : k = i
      · subst hki
        simp only [lag, Move.sent, horder, hfront, hquantum, if_true, if_neg hij,
          Function.update_self, Function.update_of_ne hij.symm]
        field_simp
        ring
      · by_cases hkj : k = j
        · subst hkj
          simp only [lag, Move.sent, horder, hfront, hquantum, if_true, if_neg hki,
            Function.update_self, Function.update_of_ne hij]
          field_simp
          ring
        · simp [lag, Move.sent, horder, hfront, hki, hkj, Function.update_of_ne (Ne.symm hki),
            Function.update_of_ne (Ne.symm hkj)]
  | @idle k rest _ hfront =>
      have horder := ahead_rotate hij (hfront ▸ hseats.left) (hfront ▸ hseats.right)
        (hfront ▸ hseats.nodup)
      have hki : k ≠ i := hsparesᵢ
      have hkj : k ≠ j := hsparesⱼ
      simp [lag, Move.sent, horder, hfront, hki, hkj, Function.update_of_ne (Ne.symm hki),
        Function.update_of_ne (Ne.symm hkj)]
  | forfeit => exact absurd hsparesᵢ id

/-- Over any number of moves as well. -/
theorem lag_run (hquantum : ∀ k, quantum k = Q * weight k) {i j : ι} (hij : i ≠ j)
    (hi : 0 < weight i) (hj : 0 < weight j) {moves : List (Move ι)} {w w' : Wheel ι}
    (hrun : Run (Step quantum) moves w w') (hseats : Seats i j w)
    (hsparesᵢ : ∀ m ∈ moves, m.Spares i) (hsparesⱼ : ∀ m ∈ moves, m.Spares j) :
    served i moves / weight i - served j moves / weight j + lag weight Q i j w' =
      lag weight Q i j w := by
  induction hrun with
  | nil w => simp
  | cons head tail ih =>
      have hone := lag_step hquantum hij hi hj hseats (hsparesᵢ _ (by simp))
        (hsparesⱼ _ (by simp)) head
      have hrest := ih (hseats.step head) (fun m hm => hsparesᵢ m (List.mem_cons_of_mem _ hm))
        fun m hm => hsparesⱼ m (List.mem_cons_of_mem _ hm)
      rw [served_cons, served_cons, add_div, add_div]
      linarith

/-- Two flows that are never idle are served alike for their weights, up to three quanta and one
item of each. -/
theorem served_close (hquantum : ∀ k, quantum k = Q * weight k) (hQ : 0 ≤ Q) {M : ι → ℚ} {i j : ι}
    (hij : i ≠ j) (hi : 0 < weight i) (hj : 0 < weight j) {moves : List (Move ι)} {w w' : Wheel ι}
    (hrun : Run (Step quantum) moves w w') (hseats : Seats i j w)
    (hsparesᵢ : ∀ m ∈ moves, m.Spares i) (hsparesⱼ : ∀ m ∈ moves, m.Spares j)
    (hbefore : Bounded quantum M w) (hafter : Bounded quantum M w') :
    |served i moves / weight i - served j moves / weight j| ≤
      3 * Q + M i / weight i + M j / weight j := by
  have hlag := lag_run hquantum hij hi hj hrun hseats hsparesᵢ hsparesⱼ
  -- a credit is worth at most a quantum and an item, for its weight
  have hworth : ∀ k, 0 < weight k → ∀ v : Wheel ι, Bounded quantum M v → k ∈ v.order →
      0 ≤ v.credit k / weight k ∧ v.credit k / weight k ≤ M k / weight k + Q := by
    intro k hk v hv hmem
    refine ⟨div_nonneg (hv k hmem).1 hk.le, ?_⟩
    rw [div_add' _ _ _ hk.ne']
    refine div_le_div_of_nonneg_right ?_ hk.le
    have hle := (hv k hmem).2.le
    rwa [hquantum k] at hle
  have hseats' := hseats.run hrun
  have hi₁ := hworth i hi w hbefore hseats.left
  have hi₂ := hworth i hi w' hafter hseats'.left
  have hj₁ := hworth j hj w hbefore hseats.right
  have hj₂ := hworth j hj w' hafter hseats'.right
  have ha₁ := mul_nonneg hQ (ahead_nonneg i j w.order)
  have ha₂ := mul_nonneg hQ (ahead_nonneg i j w'.order)
  have hb₁ := mul_le_of_le_one_right hQ (ahead_le_one i j w.order)
  have hb₂ := mul_le_of_le_one_right hQ (ahead_le_one i j w'.order)
  simp only [lag] at hlag
  rw [abs_le]
  constructor <;> linarith

end RoundRobin
end Foundation
