import Mathlib.Data.List.Sort
import Mathlib.Data.Prod.Lex

/-!
# StableSort — sorting a list by a key

`sortBy key xs` orders `xs` by a key in a linear order and keeps the order of the list between
elements with equal keys.  Stability is what makes sorting commute with filtering
(`filter_sortBy`), and what makes a sort by a lexicographic key list the elements below a
threshold of the first component before all others (`sortBy_eq_append`).
-/

namespace Foundation
namespace StableSort

variable {α κ : Type} [LinearOrder κ]

/-- Stable sort by `key`, smallest first. -/
def sortBy (key : α → κ) (xs : List α) : List α :=
  xs.insertionSort (fun a b => key a ≤ key b)

/-- Stable sort by `key`, largest first. -/
def sortByDesc (key : α → κ) (xs : List α) : List α :=
  xs.insertionSort (fun a b => key b ≤ key a)

section Basic

variable (key : α → κ)

theorem sortBy_perm (xs : List α) : (sortBy key xs).Perm xs :=
  List.perm_insertionSort _ xs

theorem sortByDesc_perm (xs : List α) : (sortByDesc key xs).Perm xs :=
  List.perm_insertionSort _ xs

@[simp] theorem mem_sortBy {xs : List α} {a : α} : a ∈ sortBy key xs ↔ a ∈ xs :=
  (sortBy_perm key xs).mem_iff

@[simp] theorem mem_sortByDesc {xs : List α} {a : α} : a ∈ sortByDesc key xs ↔ a ∈ xs :=
  (sortByDesc_perm key xs).mem_iff

/-- The relation a sort by `key` uses is total and transitive. -/
instance keyLE_isTotal : Std.Total (fun a b : α => key a ≤ key b) :=
  ⟨fun a b => le_total (key a) (key b)⟩

instance keyLE_isTrans : IsTrans α (fun a b => key a ≤ key b) :=
  ⟨fun _ _ _ hab hbc => le_trans hab hbc⟩

theorem sortBy_pairwise (xs : List α) :
    (sortBy key xs).Pairwise (fun a b => key a ≤ key b) :=
  List.pairwise_insertionSort _ xs

end Basic

/-- Sorting renamed elements by keys that stay the same is renaming the sorted elements. -/
theorem sortBy_map {β : Type} {key : α → κ} {key' : β → κ} {f : α → β}
    (hf : ∀ x, key' (f x) = key x) (xs : List α) :
    sortBy key' (xs.map f) = (sortBy key xs).map f := by
  refine (List.map_insertionSort _ _ f xs fun a _ b _ => ?_).symm
  rw [hf, hf]

/-! ## Stability -/

section Filter

variable (key : α → κ) (p : α → Bool)

private theorem filter_orderedInsert (a : α) :
    ∀ xs : List α, xs.Pairwise (fun a b => key a ≤ key b) →
      (xs.orderedInsert (fun a b => key a ≤ key b) a).filter p =
        if p a then (xs.filter p).orderedInsert (fun a b => key a ≤ key b) a else xs.filter p
  | [], _ => by
      cases h : p a <;> simp [h]
  | x :: xs, hxs => by
      have ih := filter_orderedInsert a xs hxs.of_cons
      have hhead := (List.pairwise_cons.1 hxs).1
      by_cases hax : key a ≤ key x
      · -- `a` goes in front of the whole list, hence in front of what is kept of it
        have hfront : ∀ ys : List α, (∀ y ∈ ys, key a ≤ key y) →
            ys.orderedInsert (fun a b => key a ≤ key b) a = a :: ys := by
          intro ys hys
          cases ys with
          | nil => rfl
          | cons y ys => simp [hys y (by simp)]
        have hall : ∀ y ∈ (x :: xs).filter p, key a ≤ key y := by
          intro y hy
          rcases List.mem_cons.1 (List.mem_of_mem_filter hy) with rfl | hy'
          · exact hax
          · exact le_trans hax (hhead y hy')
        rw [hfront _ hall]
        cases h : p a <;> simp [hax, h]
      · -- `a` goes somewhere behind `x`, whether `x` is kept or not
        cases hx : p x <;> cases h : p a <;> simp [hax, hx, h] at ih ⊢ <;> exact ih

/-- Sorting and then selecting is selecting and then sorting. -/
theorem filter_sortBy (xs : List α) :
    (sortBy key xs).filter p = sortBy key (xs.filter p) := by
  induction xs with
  | nil => rfl
  | cons x xs ih =>
      have hstep : (sortBy key (x :: xs)).filter p =
          if p x then ((sortBy key xs).filter p).orderedInsert (fun a b => key a ≤ key b) x
          else (sortBy key xs).filter p :=
        filter_orderedInsert key p x _ (sortBy_pairwise key xs)
      rw [hstep, ih]
      cases h : p x <;> simp [sortBy, h]

end Filter

/-- If `p` selects elements with keys below those of all others, sorting puts the selected ones,
sorted, in front of the others, sorted. -/
theorem sortBy_eq_append (key : α → κ) (p : α → Bool) (xs : List α)
    (h : ∀ a ∈ xs, ∀ b ∈ xs, p a = true → p b = false → key a < key b) :
    sortBy key xs = sortBy key (xs.filter p) ++ sortBy key (xs.filter (fun a => !p a)) := by
  -- a sorted list has what `p` selects in front
  have hsplit : ∀ ys : List α, ys.Pairwise (fun a b => key a ≤ key b) →
      (∀ a ∈ ys, ∀ b ∈ ys, p a = true → p b = false → key a < key b) →
      ys = ys.filter p ++ ys.filter (fun a => !p a) := by
    intro ys
    induction ys with
    | nil => simp
    | cons y ys ih =>
        intro hsort hsep
        have ih' := ih hsort.of_cons
          (fun a ha b hb => hsep a (List.mem_cons_of_mem _ ha) b (List.mem_cons_of_mem _ hb))
        cases hy : p y with
        | true => simpa [hy] using ih'
        | false =>
            -- nothing after `y` can be selected: its key would be below `key y`
            have hnone : ys.filter p = [] := by
              apply List.filter_eq_nil_iff.2
              intro a ha hpa
              have hle := (List.pairwise_cons.1 hsort).1 a ha
              exact absurd (hsep a (List.mem_cons_of_mem _ ha) y (by simp) hpa hy) (not_lt.2 hle)
            rw [hnone] at ih'
            simpa [hy, hnone] using ih'
  have hmem : ∀ a ∈ sortBy key xs, ∀ b ∈ sortBy key xs,
      p a = true → p b = false → key a < key b := by
    intro a ha b hb
    exact h a ((mem_sortBy key).1 ha) b ((mem_sortBy key).1 hb)
  have := hsplit _ (sortBy_pairwise key xs) hmem
  rwa [filter_sortBy, filter_sortBy] at this

/-- When no two elements share a key, the sorted list is a function of the elements alone. -/
theorem sortBy_eq_of_perm {key : α → κ} {xs ys : List α} (hperm : xs.Perm ys)
    (hinj : ∀ a ∈ xs, ∀ b ∈ xs, key a = key b → a = b) : sortBy key xs = sortBy key ys := by
  refine List.Perm.eq_of_pairwise (fun a b ha hb hab hba => ?_) (sortBy_pairwise key xs)
    (sortBy_pairwise key ys)
    (((sortBy_perm key xs).trans hperm).trans (sortBy_perm key ys).symm)
  have hb' : b ∈ xs := hperm.mem_iff.2 ((mem_sortBy key).1 hb)
  exact hinj a ((mem_sortBy key).1 ha) b hb' (le_antisymm hab hba)

/-- Sorting by keys that compare alike gives the same list. -/
theorem sortBy_congr {κ' : Type} [LinearOrder κ'] {key : α → κ} {key' : α → κ'} {xs : List α}
    (h : ∀ a ∈ xs, ∀ b ∈ xs, key a ≤ key b ↔ key' a ≤ key' b) :
    sortBy key xs = sortBy key' xs := by
  have := List.map_insertionSort (fun a b : α => key a ≤ key b) (fun a b : α => key' a ≤ key' b)
    id xs (by simpa using h)
  simpa [sortBy] using this

/-! ## What an insertion sort compares -/

section Congruence

variable {r r' : α → α → Prop} [DecidableRel r] [DecidableRel r']

theorem orderedInsert_congr {a : α} {xs : List α} (h : ∀ x ∈ xs, r a x ↔ r' a x) :
    xs.orderedInsert r a = xs.orderedInsert r' a := by
  induction xs with
  | nil => rfl
  | cons x xs ih =>
      have hhead := h x (by simp)
      by_cases hax : r a x
      · rw [List.orderedInsert_cons_of_le r xs hax,
          List.orderedInsert_cons_of_le r' xs (hhead.1 hax)]
      · rw [List.orderedInsert_of_not_le r xs hax,
          List.orderedInsert_of_not_le r' xs fun hax' => hax (hhead.2 hax'),
          ih fun y hy => h y (List.mem_cons_of_mem _ hy)]

/-- An element is only ever compared with those that were behind it. -/
theorem insertionSort_congr {xs : List α} (h : xs.Pairwise fun a b => r a b ↔ r' a b) :
    xs.insertionSort r = xs.insertionSort r' := by
  induction xs with
  | nil => rfl
  | cons x xs ih =>
      rw [List.pairwise_cons] at h
      rw [List.insertionSort_cons, List.insertionSort_cons, ih h.2]
      refine orderedInsert_congr fun y hy => h.1 y ?_
      exact (List.mem_insertionSort r').1 hy

end Congruence

/-- Sorting by one key, largest first, is sorting by another, if the keys order each element and
those behind it alike. -/
theorem sortByDesc_eq_sortBy {κ' : Type} [LinearOrder κ'] {key : α → κ} {key' : α → κ'}
    {xs : List α} (h : xs.Pairwise fun a b => key b ≤ key a ↔ key' a ≤ key' b) :
    sortByDesc key xs = sortBy key' xs :=
  insertionSort_congr h

end StableSort
end Foundation
