import Mathlib.Algebra.BigOperators.Group.List.Basic
import Mathlib.Algebra.Order.Group.Basic
import Mathlib.Tactic.Abel
import Mathlib.Tactic.Common

/-!
# PacedLink — a link that is busy for as long as each item takes

A paced link remembers from when on it is free, starts an item only then, and is busy until the
item's release.  `Paced` follows that instant through a run.  Whatever the clock did in between, no
item starts before the release of an earlier one (`Paced.pairwise`); and where a release leaves each
item its duration, inside any window all but the last take less time than the window is long
(`Spaced.sum_lt`).
-/

namespace Foundation
namespace PacedLink

section Link

variable {α R : Type} [LinearOrder R] (start release : α → R)

/-- The items start in this order on a link that is free from `free` on. -/
def Paced : R → List α → Prop
  | _, [] => True
  | free, x :: xs => free ≤ start x ∧ Paced (release x) xs

variable {start release} {free : R} {x : α} {xs : List α}

/-- An instant that no release falls behind is before every start. -/
theorem Paced.le_start (h : Paced start release free xs) {bound : R} (hfree : bound ≤ free)
    (hkeep : ∀ x ∈ xs, bound ≤ start x → bound ≤ release x) : ∀ x ∈ xs, bound ≤ start x := by
  induction xs generalizing free with
  | nil => exact nofun
  | cons x xs ih =>
      obtain ⟨hx, hxs⟩ := List.forall_mem_cons.1 hkeep
      have hstart := hfree.trans h.1
      exact List.forall_mem_cons.2 ⟨hstart, ih h.2 (hx hstart) hxs⟩

theorem Paced.pairwise (h : Paced start release free xs)
    (hkeep : ∀ x ∈ xs, ∀ y ∈ xs, release x ≤ start y → release x ≤ release y) :
    xs.Pairwise fun x y => release x ≤ start y := by
  induction xs generalizing free with
  | nil => exact List.Pairwise.nil
  | cons x xs ih =>
      refine List.pairwise_cons.2 ⟨h.2.le_start le_rfl fun y hy => ?_, ih h.2 fun y hy z hz => ?_⟩
      · exact hkeep x List.mem_cons_self y (List.mem_cons_of_mem _ hy)
      · exact hkeep y (List.mem_cons_of_mem _ hy) z (List.mem_cons_of_mem _ hz)

end Link

section Durations

variable {α R : Type} [AddCommGroup R] [LinearOrder R] [IsOrderedAddMonoid R]
  (start duration : α → R)

/-- No item starts before an earlier one has had its time. -/
def Spaced (xs : List α) : Prop := xs.Pairwise fun x y => start x + duration x ≤ start y

variable {start duration} {xs : List α}

/-- From the first start to the last there is time for all items but the last. -/
theorem Spaced.sum_le {last : α} (h : Spaced start duration (xs ++ [last])) (first : R)
    (hfirst : ∀ x ∈ xs ++ [last], first ≤ start x) :
    first + (xs.map duration).sum ≤ start last := by
  induction xs generalizing first with
  | nil => simpa using hfirst last (by simp)
  | cons x xs ih =>
      rw [List.cons_append] at h hfirst
      obtain ⟨hspace, hrest⟩ := List.pairwise_cons.1 h
      calc first + ((x :: xs).map duration).sum
          _ = first + duration x + (xs.map duration).sum := by
            rw [List.map_cons, List.sum_cons, add_assoc]
          _ ≤ start x + duration x + (xs.map duration).sum :=
            add_le_add_left (add_le_add_left (hfirst x (List.mem_cons_self ..)) _) _
          _ ≤ start last := ih hrest _ hspace

/-- Inside a window all items but the last take less time than the window is long. -/
theorem Spaced.sum_lt {last : α} {first close : R} (h : Spaced start duration (xs ++ [last]))
    (hfirst : ∀ x ∈ xs ++ [last], first ≤ start x) (hclose : start last < close) :
    (xs.map duration).sum < close - first :=
  lt_sub_iff_add_lt'.2 ((h.sum_le first hfirst).trans_lt hclose)

end Durations

end PacedLink
end Foundation
