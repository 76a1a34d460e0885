import Mathlib.Data.List.Perm.Basic
import Mathlib.Data.List.Perm.Subperm
import Mathlib.Data.List.Nodup
import Mathlib.Data.List.TakeWhile
import Mathlib.Logic.Function.Basic

/-!
# Selection — taking some elements out of a list and rewriting what is stored about them

* `without xs vs` removes the elements of `vs` from `xs`;
* `overwrite f vs g` applies `f` to the values a table `g` holds for the elements of `vs`.

Both compose along disjoint selections, which is how a loop over `vs` that handles one element at
a time is summarised in one step.
-/

namespace Foundation
namespace Selection

variable {α β : Type} [DecidableEq α]

/-! ## Removing elements -/

/-- `xs` without the elements of `vs`, in order. -/
def without (xs vs : List α) : List α :=
  xs.filter fun x => decide (x ∉ vs)

@[simp] theorem mem_without {xs vs : List α} {x : α} : x ∈ without xs vs ↔ x ∈ xs ∧ x ∉ vs := by
  simp [without]

@[simp] theorem without_nil (xs : List α) : without xs [] = xs := by
  simp [without]

theorem without_sublist (xs vs : List α) : (without xs vs).Sublist xs :=
  List.filter_sublist

theorem without_without (xs us vs : List α) :
    without (without xs us) vs = without xs (us ++ vs) := by
  simp only [without, List.filter_filter]
  congr 1
  funext x
  simp [not_or, Bool.and_comm]

theorem filter_without (p : α → Bool) (xs vs : List α) :
    (without xs vs).filter p = without (xs.filter p) vs := by
  simp only [without, List.filter_filter]
  congr 1
  funext x
  simp [Bool.and_comm]

/-- Only the removed elements that satisfy `p` matter to the elements that satisfy `p`. -/
theorem without_filter_right (p : α → Bool) {xs : List α} (vs : List α)
    (h : ∀ x ∈ xs, p x = true) : without xs (vs.filter p) = without xs vs := by
  apply List.filter_congr
  intro x hx
  simp [h x hx]

theorem erase_eq_without {xs : List α} (h : xs.Nodup) (x : α) : xs.erase x = without xs [x] := by
  rw [h.erase_eq_filter]
  apply List.filter_congr
  intro y _
  simp only [List.mem_singleton, bne, Bool.beq_eq_decide_eq, decide_not]

/-- A duplicate-free list is a duplicate-free selection from it followed by the rest. -/
theorem perm_append_without {xs vs : List α} (hxs : xs.Nodup) (hvs : vs.Nodup)
    (hsub : ∀ v ∈ vs, v ∈ xs) : xs.Perm (vs ++ without xs vs) := by
  apply (List.perm_ext_iff_of_nodup hxs ?_).2
  · intro x
    by_cases hx : x ∈ vs
    · simp [hx, hsub x hx]
    · simp [hx]
  · refine List.nodup_append.2 ⟨hvs, hxs.filter _, ?_⟩
    intro v hv x hx hEq
    exact (mem_without.1 hx).2 (hEq ▸ hv)

omit [DecidableEq α] in
/-- A selection in the order of its list is what a predicate that tells it apart filters. -/
theorem eq_filter_of_sublist {xs ys : List α} {p : α → Bool} (hxs : xs.Nodup)
    (hsub : ys.Sublist xs) (hmem : ∀ x ∈ xs, x ∈ ys ↔ p x = true) : ys = xs.filter p := by
  have hall : ∀ y ∈ ys, p y = true := fun y hy => (hmem y (hsub.subset hy)).1 hy
  have hfront : ys.Sublist (xs.filter p) := by
    rw [← List.filter_eq_self.2 hall]
    exact hsub.filter p
  -- and the selection is as long
  refine hfront.eq_of_length_le (List.subperm_of_subset (hxs.filter p) fun x hx => ?_).length_le
  obtain ⟨hx, hpx⟩ := List.mem_filter.1 hx
  exact (hmem x hx).2 hpx

/-- Removing what `p` selects keeps what it does not. -/
theorem without_filter (p : α → Bool) (xs : List α) :
    without xs (xs.filter p) = xs.filter fun x => !p x := by
  apply List.filter_congr
  intro x hx
  simp [hx]

/-- Removing renamed elements, where no two of the elements share a name. -/
theorem without_map [DecidableEq β] {f : α → β} {xs vs : List α}
    (hf : ∀ x ∈ xs, ∀ v ∈ vs, f x = f v → x = v) :
    without (xs.map f) (vs.map f) = (without xs vs).map f := by
  rw [without, without, List.filter_map]
  refine congrArg (List.map f) (List.filter_congr fun x hx => ?_)
  rw [Function.comp_apply, decide_eq_decide, not_iff_not]
  constructor
  · intro hmem
    obtain ⟨v, hv, heq⟩ := List.mem_map.1 hmem
    exact hf x hx v hv heq.symm ▸ hv
  · exact List.mem_map_of_mem

/-- Removing the head along with others. -/
theorem without_cons_cons {x : α} {xs : List α} (h : x ∉ xs) (vs : List α) :
    without (x :: xs) (x :: vs) = without xs vs := by
  have hfirst : without (x :: xs) (x :: vs) = without xs (x :: vs) := by
    simp [without]
  rw [hfirst]
  refine List.filter_congr fun y hy => ?_
  have hne : y ≠ x := fun heq => h (heq ▸ hy)
  simp [hne]

/-- Removing others than the head. -/
theorem without_cons_of_notMem {x : α} {vs : List α} (h : x ∉ vs) (xs : List α) :
    without (x :: xs) vs = x :: without xs vs := by
  simp [without, h]

theorem without_cons_self {x : α} {xs : List α} (h : (x :: xs).Nodup) :
    without (x :: xs) [x] = xs := by
  rw [← erase_eq_without h, List.erase_cons_head]

theorem without_append_self {x : α} {xs : List α} (h : (xs ++ [x]).Nodup) :
    without (xs ++ [x]) [x] = xs := by
  have hx : x ∉ xs := fun hmem => (List.nodup_append.1 h).2.2 x hmem x (by simp) rfl
  rw [← erase_eq_without h, List.erase_append_right _ hx, List.erase_cons_head, List.append_nil]

omit [DecidableEq α] in
theorem of_mem_takeWhile {P : α → Prop} [DecidablePred P] {x : α} {xs : List α}
    (hx : x ∈ xs.takeWhile fun a => decide (P a)) : P x := by
  simpa using List.mem_takeWhile_imp hx

omit [DecidableEq α] in
/-- The front and the back of a list depend on the values of the predicate there only. -/
theorem takeWhile_dropWhile_congr {p q : α → Bool} {xs : List α} (h : ∀ x ∈ xs, p x = q x) :
    xs.takeWhile p = xs.takeWhile q ∧ xs.dropWhile p = xs.dropWhile q := by
  induction xs with
  | nil => exact ⟨rfl, rfl⟩
  | cons x xs ih =>
      rcases List.forall_mem_cons.1 h with ⟨hx, hxs⟩
      rw [List.takeWhile_cons, List.takeWhile_cons, List.dropWhile_cons, List.dropWhile_cons, hx,
        (ih hxs).1, (ih hxs).2]
      exact ⟨rfl, rfl⟩

omit [DecidableEq α] in
/-- Where `p` can only fail once and for all, the front that satisfies `p` is all that does. -/
theorem takeWhile_eq_filter {p : α → Bool} {xs : List α}
    (h : xs.Pairwise fun a b => p b = true → p a = true) : xs.takeWhile p = xs.filter p := by
  induction xs with
  | nil => rfl
  | cons x xs ih =>
      cases hx : p x with
      | true => simp [hx, ih h.of_cons]
      | false =>
          have hnone : xs.filter p = [] := List.filter_eq_nil_iff.2 fun y hy hpy => by
            simp [(List.pairwise_cons.1 h).1 y hy hpy] at hx
          simp [hx, hnone]

omit [DecidableEq α] in
theorem dropWhile_eq_filter {p : α → Bool} {xs : List α}
    (h : xs.Pairwise fun a b => p b = true → p a = true) :
    xs.dropWhile p = xs.filter fun x => !p x := by
  induction xs with
  | nil => rfl
  | cons x xs ih =>
      cases hx : p x with
      | true => simp [hx, ih h.of_cons]
      | false =>
          have hall : xs.filter (fun y => !p y) = xs := List.filter_eq_self.2 fun y hy => by
            cases hy' : p y with
            | true => simp [(List.pairwise_cons.1 h).1 y hy hy'] at hx
            | false => rfl
          simp [hx, hall]

omit [DecidableEq α] in
/-- Taking elements out of one of several queues takes them out of all of them together. -/
theorem flatMap_update_perm {ι : Type} [DecidableEq ι] {keys : List ι} {key : ι}
    {queues : ι → List α} {taken rest : List α} (hkeys : keys.Nodup) (hkey : key ∈ keys)
    (h : (queues key).Perm (taken ++ rest)) :
    (keys.flatMap queues).Perm (taken ++ keys.flatMap (Function.update queues key rest)) := by
  obtain ⟨front, back, rfl⟩ := List.append_of_mem hkey
  rw [List.nodup_middle, List.nodup_cons, List.mem_append, not_or] at hkeys
  -- the queues in front of `key` and behind it are as before
  have hother : ∀ keys' : List ι, key ∉ keys' →
      keys'.flatMap (Function.update queues key rest) = keys'.flatMap queues := by
    intro keys' hnot
    refine List.flatMap_congr fun k hk => Function.update_of_ne ?_ _ _
    rintro rfl
    exact hnot hk
  simp only [List.flatMap_append, List.flatMap_cons, Function.update_self, hother front hkeys.1.1,
    hother back hkeys.1.2]
  have hmid := ((h.append_right (back.flatMap queues)).append_left (front.flatMap queues))
  rw [List.append_assoc taken] at hmid
  exact hmid.trans (List.perm_append_comm_assoc _ _ _)

omit [DecidableEq α] in
/-- Sorting a duplicate-free list into queues by a label and concatenating the queues of `keys`
selects the elements whose label is among `keys`. -/
theorem flatMap_filter_perm {ι : Type} [DecidableEq ι] {keys : List ι} {xs : List α}
    (hkeys : keys.Nodup) (hxs : xs.Nodup) (label : α → ι) :
    (keys.flatMap fun k => xs.filter fun x => decide (label x = k)).Perm
      (xs.filter fun x => decide (label x ∈ keys)) := by
  apply (List.perm_ext_iff_of_nodup ?_ (hxs.filter _)).2
  · intro x
    simp only [List.mem_flatMap, List.mem_filter, decide_eq_true_eq]
    constructor
    · rintro ⟨k, hk, hx, rfl⟩
      exact ⟨hx, hk⟩
    · rintro ⟨hx, hk⟩
      exact ⟨label x, hk, hx, rfl⟩
  · refine List.nodup_flatMap.2 ⟨fun k _ => hxs.filter _, hkeys.imp fun {k k'} hne => ?_⟩
    intro x hx hx'
    simp only [List.mem_filter, decide_eq_true_eq] at hx hx'
    exact hne (hx.2.symm.trans hx'.2)

/-! ## The order of two elements -/

omit [DecidableEq α] in
/-- Two elements in order, the second of which is not at the back, are in order at the front. -/
theorem pair_sublist_left {a b : α} {xs ys : List α} (h : [a, b].Sublist (xs ++ ys))
    (hb : b ∉ ys) : [a, b].Sublist xs := by
  obtain ⟨us, vs, hsplit, hus, hvs⟩ := List.sublist_append_iff.1 h
  -- what of the two is at the back ends with `b`
  rcases List.eq_nil_or_concat vs with rfl | ⟨vs', v, rfl⟩
  · rw [hsplit, List.append_nil]
    exact hus
  · have hlast := congrArg List.getLast? hsplit
    simp only [List.concat_eq_append, ← List.append_assoc, List.getLast?_concat] at hlast
    have hv : v = b := by simpa using hlast.symm
    exact absurd (hvs.subset (by simp [hv])) hb

omit [DecidableEq α] in
/-- An element in front of `b` is among those a list has before `b`. -/
theorem mem_front_of_pair_sublist {a b : α} {xs : List α} (h : [a, b].Sublist xs) :
    ∃ front back, xs = front ++ b :: back ∧ a ∈ front := by
  obtain ⟨us, vs, rfl, hus, hvs⟩ := List.append_sublist_iff.1 (show ([a] ++ [b]).Sublist xs from h)
  obtain ⟨front, back, rfl⟩ := List.append_of_mem (List.singleton_sublist.1 hvs)
  exact ⟨us ++ front, back, by simp, List.mem_append_left _ (List.singleton_sublist.1 hus)⟩

omit [DecidableEq α] in
/-- Part of a duplicate-free list keeps two elements in order. -/
theorem pair_sublist_of_mem {a b : α} {xs ys : List α} (hxs : xs.Nodup)
    (h : [a, b].Sublist xs) (hys : ys.Sublist xs) (ha : a ∈ ys) (hb : b ∈ ys) :
    [a, b].Sublist ys := by
  induction hys with
  | slnil => exact h
  | @cons us vs x hsub ih =>
      -- both are in what is kept, so neither is the element that is left out
      have hx : x ∉ vs := (List.nodup_cons.1 hxs).1
      have hax : a ≠ x := fun heq => hx (heq ▸ hsub.subset ha)
      exact ih (List.nodup_cons.1 hxs).2 (h.of_cons_of_ne hax) ha hb
  | @cons_cons us vs x hsub ih =>
      have hx : x ∉ vs := (List.nodup_cons.1 hxs).1
      have hab : a ≠ b := by simpa using hxs.sublist h
      by_cases hax : a = x
      · subst hax
        have hb' : b ∈ us := (List.mem_cons.1 hb).resolve_left hab.symm
        exact (List.singleton_sublist.2 hb').cons_cons a
      · have hvs := h.of_cons_of_ne hax
        have hbx : b ≠ x := fun heq => hx (heq ▸ hvs.subset (by simp))
        have hus := ih (List.nodup_cons.1 hxs).2 hvs ((List.mem_cons.1 ha).resolve_left hax)
          ((List.mem_cons.1 hb).resolve_left hbx)
        exact hus.cons x

/-! ## Overwriting a table -/

/-- `g` with `f` applied to the values of the elements of `vs`. -/
def overwrite (f : β → β) (vs : List α) (g : α → β) : α → β :=
  fun a => if a ∈ vs then f (g a) else g a

theorem overwrite_of_mem {f : β → β} {vs : List α} {g : α → β} {a : α} (h : a ∈ vs) :
    overwrite f vs g a = f (g a) := by
  simp [overwrite, h]

theorem overwrite_of_notMem {f : β → β} {vs : List α} {g : α → β} {a : α} (h : a ∉ vs) :
    overwrite f vs g a = g a := by
  simp [overwrite, h]

@[simp] theorem overwrite_nil (f : β → β) (g : α → β) : overwrite f [] g = g := by
  funext a
  simp [overwrite]

/-- Writing one entry is overwriting a one-element selection. -/
theorem update_eq_overwrite (f : β → β) (g : α → β) (a : α) :
    Function.update g a (f (g a)) = overwrite f [a] g := by
  funext x
  by_cases hx : x = a
  · subst hx
    simp [overwrite]
  · simp [overwrite, hx]

/-- Selections handled one after the other are handled together, if no element is in both. -/
theorem overwrite_overwrite (f : β → β) {us vs : List α} (g : α → β)
    (h : ∀ u ∈ us, u ∉ vs) :
    overwrite f vs (overwrite f us g) = overwrite f (us ++ vs) g := by
  funext a
  by_cases hu : a ∈ us
  · simp [overwrite, hu, h a hu]
  · simp [overwrite, hu]

end Selection
end Foundation
