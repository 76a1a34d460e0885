import Mathlib.Algebra.BigOperators.Group.List.Basic
import Mathlib.Algebra.BigOperators.Ring.List
import Mathlib.Algebra.Order.BigOperators.Group.List
import Mathlib.Algebra.Order.Ring.Rat
import Mathlib.Tactic.Linarith

/-!
# GreedyFill — filling a budget from an ordered list

`greedyFill weight stop r xs` walks `xs` and takes every element whose weight still fits what is
left of the budget `r`.  With `stop := false` an element that does not fit is passed over, with
`stop := true` it ends the walk.
-/

namespace Foundation
namespace GreedyFill

variable {α : Type} (weight : α → ℚ)

/-- Total weight of a list. -/
def load (xs : List α) : ℚ := (xs.map weight).sum

@[simp] theorem load_nil : load weight ([] : List α) = 0 := rfl

@[simp] theorem load_cons (x : α) (xs : List α) :
    load weight (x :: xs) = weight x + load weight xs := by
  simp [load]

@[simp] theorem load_append (xs ys : List α) :
    load weight (xs ++ ys) = load weight xs + load weight ys := by
  simp [load]

variable {weight} in
theorem load_perm {xs ys : List α} (h : xs.Perm ys) : load weight xs = load weight ys :=
  (h.map weight).sum_eq

variable {weight} in
theorem load_nonneg {xs : List α} (h : ∀ x ∈ xs, 0 ≤ weight x) : 0 ≤ load weight xs :=
  List.sum_nonneg (by simpa using h)

variable {weight} in
/-- Loads of non-negative weights grow with the list, whatever the order of its elements. -/
theorem load_le_of_subperm {xs ys : List α} (hsub : xs.Subperm ys) (h : ∀ y ∈ ys, 0 ≤ weight y) :
    load weight xs ≤ load weight ys := by
  rcases hsub with ⟨zs, hperm, hsubl⟩
  rw [← load_perm hperm]
  exact (hsubl.map weight).sum_le_sum (by simpa using h)

variable {weight} in
theorem load_filter_or_le (p q : α → Bool) {xs : List α} (h : ∀ x ∈ xs, 0 ≤ weight x) :
    load weight (xs.filter fun x => p x || q x) ≤
      load weight (xs.filter p) + load weight (xs.filter q) := by
  induction xs with
  | nil => simp
  | cons x xs ih =>
      have hx := h x (by simp)
      have hrest := ih fun y hy => h y (List.mem_cons_of_mem _ hy)
      cases hp : p x <;> cases hq : q x <;>
        simp only [List.filter_cons, hp, hq, Bool.or_true, Bool.or_false, Bool.false_eq_true,
          if_true, if_false, load_cons] <;> linarith

variable {weight} in
/-- What falls into some slot weighs no more than the contents of the slots together. -/
theorem load_filter_any_le {σ : Type} (p : σ → α → Bool) (slots : List σ) {xs : List α}
    (h : ∀ x ∈ xs, 0 ≤ weight x) :
    load weight (xs.filter fun x => slots.any fun s => p s x) ≤
      (slots.map fun s => load weight (xs.filter (p s))).sum := by
  induction slots with
  | nil => simp
  | cons s slots ih =>
      simp only [List.any_cons, List.map_cons, List.sum_cons]
      calc load weight (xs.filter fun x => p s x || slots.any fun s => p s x)
          _ ≤ load weight (xs.filter (p s)) +
              load weight (xs.filter fun x => slots.any fun s => p s x) :=
            load_filter_or_le (p s) (fun x => slots.any fun s => p s x) h
          _ ≤ _ := add_le_add_right ih _

variable {weight} in
/-- When a budget `R` covers a demand and is shared out by positive shares, somebody's part covers
that one's demand. -/
theorem exists_le_share {share : α → ℚ} {xs : List α} {R : ℚ} (hne : xs ≠ [])
    (hshare : ∀ x ∈ xs, 0 < share x) (hR : load weight xs ≤ R) :
    ∃ x ∈ xs, weight x ≤ R * (share x / load share xs) := by
  by_contra hnone
  push Not at hnone
  have hpos : 0 < load share xs := by
    obtain ⟨x, hx⟩ := List.exists_mem_of_ne_nil xs hne
    exact List.sum_pos _ (by simpa using hshare) (by simpa using hne)
  have hlt : (xs.map fun x => R * (share x / load share xs)).sum < load weight xs :=
    List.sum_lt_sum_of_ne_nil hne _ _ hnone
  -- but the parts together are the budget, which covers the demand
  have hparts : (xs.map fun x => R * (share x / load share xs)).sum = R := by
    rw [List.sum_map_mul_left]
    simp only [div_eq_mul_inv, List.sum_map_mul_right]
    rw [← div_eq_mul_inv]
    show R * (load share xs / load share xs) = R
    rw [div_self hpos.ne', mul_one]
  linarith

/-- The elements a greedy walk with budget `r` takes. -/
def greedyFill (stop : Bool) : ℚ → List α → List α
  | _, [] => []
  | r, x :: xs =>
      if weight x ≤ r then
        x :: greedyFill stop (r - weight x) xs
      else if stop then
        []
      else
        greedyFill stop r xs

theorem greedyFill_sublist (stop : Bool) (r : ℚ) (xs : List α) :
    (greedyFill weight stop r xs).Sublist xs := by
  induction xs generalizing r with
  | nil => exact List.Sublist.refl _
  | cons x xs ih =>
      by_cases hx : weight x ≤ r
      · simpa [greedyFill, hx] using ih (r - weight x)
      · cases stop
        · simpa [greedyFill, hx] using (ih r).cons x
        · simp [greedyFill, hx]

/-- A walk over renamed elements of the same weights takes the same elements, renamed. -/
theorem greedyFill_map {β : Type} {weight' : β → ℚ} {f : α → β} (hf : ∀ x, weight' (f x) = weight x)
    (stop : Bool) (r : ℚ) (xs : List α) :
    greedyFill weight' stop r (xs.map f) = (greedyFill weight stop r xs).map f := by
  induction xs generalizing r with
  | nil => rfl
  | cons x xs ih =>
      rw [List.map_cons, greedyFill, greedyFill, hf, ih, ih]
      split
      · rfl
      · split <;> rfl

/-- A walk that ends at the first element that does not fit takes a prefix of its list. -/
theorem greedyFill_stop_isPrefix (r : ℚ) (xs : List α) :
    (greedyFill weight true r xs).IsPrefix xs := by
  induction xs generalizing r with
  | nil => exact List.prefix_refl _
  | cons x xs ih =>
      by_cases hx : weight x ≤ r
      · simpa [greedyFill, hx] using ih (r - weight x)
      · simp [greedyFill, hx]

/-- The walk never takes more than its budget. -/
theorem load_greedyFill_le (stop : Bool) {r : ℚ} (hr : 0 ≤ r) (xs : List α) :
    load weight (greedyFill weight stop r xs) ≤ r := by
  induction xs generalizing r with
  | nil => simpa [greedyFill] using hr
  | cons x xs ih =>
      by_cases hx : weight x ≤ r
      · have := ih (r := r - weight x) (by linarith)
        simp only [greedyFill, hx, if_true, load_cons]
        linarith
      · cases stop
        · simpa [greedyFill, hx] using ih hr
        · simpa [greedyFill, hx] using hr

variable {weight} in
/-- A budget that covers the whole list is spent on the whole list. -/
theorem greedyFill_eq_self (stop : Bool) {r : ℚ} {xs : List α} (h : ∀ x ∈ xs, 0 ≤ weight x)
    (hr : load weight xs ≤ r) : greedyFill weight stop r xs = xs := by
  induction xs generalizing r with
  | nil => rfl
  | cons x xs ih =>
      have htail : 0 ≤ load weight xs := load_nonneg fun y hy => h y (List.mem_cons_of_mem _ hy)
      rw [load_cons] at hr
      have hx : weight x ≤ r := by linarith
      have := ih (r := r - weight x) (fun y hy => h y (List.mem_cons_of_mem _ hy)) (by linarith)
      simp [greedyFill, hx, this]

variable {weight} in
/-- A budget too small for each element is spent on none. -/
theorem greedyFill_eq_nil (stop : Bool) {r : ℚ} {xs : List α} (h : ∀ x ∈ xs, r < weight x) :
    greedyFill weight stop r xs = [] := by
  induction xs with
  | nil => rfl
  | cons x xs ih =>
      obtain ⟨hx, hxs⟩ := List.forall_mem_cons.1 h
      rw [greedyFill, if_neg (not_le.2 hx), ih hxs, ite_self]

/-- A skip-over walk serves the front of its list as if nothing came behind it. -/
theorem greedyFill_append (r : ℚ) (xs ys : List α) :
    greedyFill weight false r (xs ++ ys) =
      greedyFill weight false r xs ++
        greedyFill weight false (r - load weight (greedyFill weight false r xs)) ys := by
  induction xs generalizing r with
  | nil => simp [greedyFill]
  | cons x xs ih =>
      by_cases hx : weight x ≤ r
      · simp [greedyFill, hx, ih, sub_sub]
      · simp [greedyFill, hx, ih]

variable {weight} in
/-- What a skip-over walk leaves behind did not fit beside what it had taken by then. -/
theorem lt_of_notMem_greedyFill {r : ℚ} {xs ys : List α} {x : α}
    (hx : x ∉ greedyFill weight false r (xs ++ x :: ys)) :
    r - load weight (greedyFill weight false r xs) < weight x := by
  by_contra hfit
  apply hx
  rw [greedyFill_append, greedyFill, if_pos (not_lt.1 hfit)]
  exact List.mem_append_right _ List.mem_cons_self

/-- If the front of the list is what `p` selects, a skip-over walk takes from it what it would take
without the rest. -/
theorem filter_greedyFill_append {p : α → Bool} {xs ys : List α} (r : ℚ)
    (hxs : ∀ x ∈ xs, p x = true) (hys : ∀ y ∈ ys, p y = false) :
    (greedyFill weight false r (xs ++ ys)).filter p = greedyFill weight false r xs := by
  have hfront : ∀ x ∈ greedyFill weight false r xs, p x = true := fun x hx =>
    hxs x ((greedyFill_sublist weight false r xs).subset hx)
  have hback : ∀ r', (greedyFill weight false r' ys).filter p = [] := by
    intro r'
    refine List.filter_eq_nil_iff.2 fun y hy => ?_
    simp [hys y ((greedyFill_sublist weight false r' ys).subset hy)]
  rw [greedyFill_append, List.filter_append, hback, List.append_nil,
    List.filter_eq_self.2 hfront]

/-! ## Items of one weight -/

section Uniform

variable {weight} {c : ℚ}

/-- Once an item of the common weight does not fit, nothing more is taken. -/
theorem greedyFill_uniform_nil (stop : Bool) {r : ℚ} {xs : List α} (h : ∀ x ∈ xs, weight x = c)
    (hr : r < c) : greedyFill weight stop r xs = [] :=
  greedyFill_eq_nil stop fun x hx => (h x hx).symm ▸ hr

/-- With items of one weight the walk takes a prefix of its list. -/
theorem greedyFill_uniform_isPrefix (stop : Bool) (r : ℚ) {xs : List α}
    (h : ∀ x ∈ xs, weight x = c) : (greedyFill weight stop r xs).IsPrefix xs := by
  induction xs generalizing r with
  | nil => exact List.prefix_refl _
  | cons x xs ih =>
      have htail : ∀ y ∈ xs, weight y = c := fun y hy => h y (List.mem_cons_of_mem _ hy)
      by_cases hx : weight x ≤ r
      · simpa [greedyFill, hx] using ih (r - weight x) htail
      · have hlt : r < c := by
          rw [h x (by simp)] at hx
          exact not_le.1 hx
        rw [greedyFill_uniform_nil stop h hlt]
        exact List.nil_prefix

/-- With items of one weight, an item left behind means that no further item fits. -/
theorem greedyFill_uniform_full (stop : Bool) {r : ℚ} {xs : List α} (h : ∀ x ∈ xs, weight x = c)
    {x : α} (hx : x ∈ xs) (hout : x ∉ greedyFill weight stop r xs) :
    r < c * ((greedyFill weight stop r xs).length + 1) := by
  induction xs generalizing r with
  | nil => cases hx
  | cons y ys ih =>
      have htail : ∀ z ∈ ys, weight z = c := fun z hz => h z (List.mem_cons_of_mem _ hz)
      by_cases hy : weight y ≤ r
      · -- the first item is taken, so `x` is one of those behind it
        simp only [greedyFill, hy, if_true, List.mem_cons, not_or] at hout
        have hx' : x ∈ ys := by
          rcases List.mem_cons.1 hx with rfl | hx'
          · exact absurd rfl hout.1
          · exact hx'
        have hrest := ih (r := r - weight y) htail hx' hout.2
        have hyc : weight y = c := h y (by simp)
        simp only [greedyFill, hy, if_true, List.length_cons]
        push_cast
        linarith
      · -- the first item does not fit, and no other item is lighter
        have hlt : r < c := by
          rw [h y (by simp)] at hy
          exact not_le.1 hy
        rw [greedyFill_uniform_nil stop h hlt]
        simpa using hlt

end Uniform

end GreedyFill
end Foundation
