import LunaBridge.Foundation.GreedyFill

/-!
# LargerBudget — what a larger budget does to a skip-over walk

A larger budget may admit a heavy element early that then stands in the way of lighter ones behind
it, so a greedy walk with more budget need not take everything it took with less.
`LeavesHeavier kept xs` describes the selections some budget leads to, and
`greedyFill_larger_iff` says by them which lists are safe: those where every budget that takes
the wanted elements takes them as well when it grows.
-/

namespace Foundation
namespace GreedyFill

variable {α : Type} (weight : α → ℚ)

/-- `kept` is a selection from a list that leaves out only what is heavier than everything kept
behind it. -/
inductive LeavesHeavier : List α → List α → Prop
  | nil : LeavesHeavier [] []
  | keep (x : α) {kept xs : List α} (rest : LeavesHeavier kept xs) :
      LeavesHeavier (x :: kept) (x :: xs)
  | leave {x : α} {kept xs : List α} (heavier : load weight kept < weight x)
      (rest : LeavesHeavier kept xs) : LeavesHeavier kept (x :: xs)

variable {weight} {kept xs : List α}

theorem LeavesHeavier.sublist (h : LeavesHeavier weight kept xs) : kept.Sublist xs := by
  induction h with
  | nil => exact List.Sublist.refl _
  | keep x _ ih => exact ih.cons_cons x
  | leave _ _ ih => exact ih.cons _

/-- A walk leaves out only what is heavier than everything it takes afterwards. -/
theorem leavesHeavier_greedyFill {r : ℚ} (hr : 0 ≤ r) (xs : List α) :
    LeavesHeavier weight (greedyFill weight false r xs) xs := by
  induction xs generalizing r with
  | nil => exact .nil
  | cons x xs ih =>
      by_cases hx : weight x ≤ r
      · simp only [greedyFill, hx, if_true]
        exact .keep x (ih (sub_nonneg.2 hx))
      · simp only [greedyFill, hx, if_false, Bool.false_eq_true]
        refine .leave ?_ (ih hr)
        calc load weight (greedyFill weight false r xs)
            _ ≤ r := load_greedyFill_le weight false hr xs
            _ < weight x := not_le.1 hx

/-- Conversely the budget that a selection of this kind takes up leads to it. -/
theorem LeavesHeavier.greedyFill_load (h : LeavesHeavier weight kept xs)
    (hpos : ∀ x ∈ xs, 0 ≤ weight x) : greedyFill weight false (load weight kept) xs = kept := by
  induction h with
  | nil => rfl
  | @keep x kept xs rest ih =>
      have htail : ∀ y ∈ xs, 0 ≤ weight y := fun y hy => hpos y (List.mem_cons_of_mem _ hy)
      have hkept : 0 ≤ load weight kept :=
        load_nonneg fun y hy => htail y (rest.sublist.subset hy)
      have hx : weight x ≤ load weight (x :: kept) := by
        rw [load_cons]
        linarith
      rw [greedyFill, if_pos hx, load_cons, add_sub_cancel_left, ih htail]
  | leave heavier _ ih =>
      rw [greedyFill, if_neg (not_le.2 heavier)]
      exact ih fun y hy => hpos y (List.mem_cons_of_mem _ hy)

/-- A proper part of a list of positive weights weighs less. -/
theorem load_lt_of_sublist (hsub : kept.Sublist xs) (hne : kept ≠ xs)
    (hpos : ∀ x ∈ xs, 0 < weight x) : load weight kept < load weight xs := by
  induction hsub with
  | slnil => exact absurd rfl hne
  | @cons kept xs x hsub _ =>
      have htail : ∀ y ∈ xs, 0 ≤ weight y := fun y hy => (hpos y (List.mem_cons_of_mem _ hy)).le
      have hle := load_le_of_subperm hsub.subperm htail
      have hx := hpos x (by simp)
      rw [load_cons]
      linarith
  | @cons_cons kept xs x hsub ih =>
      have hlt := ih (fun heq => hne (heq ▸ rfl)) fun y hy => hpos y (List.mem_cons_of_mem _ hy)
      rw [load_cons, load_cons]
      linarith

/-- A budget that covers all but the last element takes all but the last. -/
theorem greedyFill_butLast {front : List α} {last : α} {r : ℚ} (hpos : ∀ x ∈ front, 0 ≤ weight x)
    (hr : load weight front ≤ r) (hlast : r < load weight front + weight last) :
    greedyFill weight false r (front ++ [last]) = front := by
  have hout : ¬ weight last ≤ r - load weight front := by
    rw [not_le]
    linarith
  rw [greedyFill_append, greedyFill_eq_self false hpos hr, greedyFill, if_neg hout]
  exact List.append_nil front

/-- Let the last element be a wanted one.  The walks that take everything wanted stay so with any
larger budget exactly if no proper selection leaves out only what is heavier than everything it
keeps behind, and nothing wanted. -/
theorem greedyFill_larger_iff {wanted : α → Prop} {front : List α} {last : α}
    (hpos : ∀ x ∈ front ++ [last], 0 < weight x) (hwanted : wanted last) (hnew : last ∉ front) :
    (∀ r r', 0 < r → r ≤ r' →
      (∀ x ∈ front ++ [last], wanted x → x ∈ greedyFill weight false r (front ++ [last])) →
      ∀ x ∈ front ++ [last], wanted x → x ∈ greedyFill weight false r' (front ++ [last])) ↔
    ¬ ∃ kept, LeavesHeavier weight kept (front ++ [last]) ∧ kept ≠ front ++ [last] ∧
      ∀ x ∈ front ++ [last], wanted x → x ∈ kept := by
  have hlast : last ∈ front ++ [last] := List.mem_append_right _ List.mem_cons_self
  have hfront : ∀ x ∈ front, 0 ≤ weight x := fun x hx => (hpos x (List.mem_append_left _ hx)).le
  have hall : load weight (front ++ [last]) = load weight front + weight last := by simp
  have hposLast := hpos last hlast
  constructor
  · rintro hgrow ⟨kept, hkept, hne, htaken⟩
    have hfill := hkept.greedyFill_load fun x hx => (hpos x hx).le
    have hmem : last ∈ kept := htaken last hlast hwanted
    have hless := load_lt_of_sublist hkept.sublist hne hpos
    have hsome : 0 < load weight kept := by
      have hle := load_le_of_subperm (List.singleton_sublist.2 hmem).subperm
        fun x hx => (hpos x (hkept.sublist.subset hx)).le
      simp only [load_cons, load_nil] at hle
      linarith
    -- the budget of the selection is too small for all but the last element
    have hsmall : load weight kept ≤ load weight front := by
      by_contra hlarge
      refine hnew ?_
      rw [hall] at hless
      rw [← greedyFill_butLast hfront (not_le.1 hlarge).le hless, hfill]
      exact hmem
    -- and with just that budget the last element is left out
    have htake := hgrow _ (load weight front) hsome hsmall
      (fun x hx hw => by rw [hfill]; exact htaken x hx hw) last hlast hwanted
    rw [greedyFill_butLast hfront le_rfl (by linarith)] at htake
    exact hnew htake
  · intro hnone r r' hr hle htaken
    -- no selection being left, the smaller budget took everything
    have hfill : greedyFill weight false r (front ++ [last]) = front ++ [last] := by
      by_contra hne
      exact hnone ⟨_, leavesHeavier_greedyFill hr.le _, hne, htaken⟩
    have hcovered : load weight (front ++ [last]) ≤ r' := by
      rw [← hfill]
      exact (load_greedyFill_le weight false hr.le _).trans hle
    rw [greedyFill_eq_self false (fun x hx => (hpos x hx).le) hcovered]
    exact fun x hx _ => hx

end GreedyFill
end Foundation
