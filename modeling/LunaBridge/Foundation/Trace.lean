import Mathlib.Data.List.Basic
import Mathlib.Tactic.Common

/-!
# Trace — runs of a labelled transition system along a list of labels

`Run Step es s s'` runs the labels `es` one after the other from `s` to `s'`.  The rules are the
invariant of one run, which may depend on the labels still to come, the relational invariant of two
runs of which the second leaves some labels out, and, for a system that keeps a log, which step
wrote an entry.
-/

namespace Foundation
namespace Trace

variable {ε σ τ : Type}

/-- The labels of a list, one step each. -/
inductive Run (Step : ε → σ → σ → Prop) : List ε → σ → σ → Prop
  | nil (s : σ) : Run Step [] s s
  | cons {e : ε} {es : List ε} {s s₁ s' : σ} (head : Step e s s₁) (tail : Run Step es s₁ s') :
      Run Step (e :: es) s s'

/-- Of two stages of a log, an entry of the later one is in the earlier one or came after it. -/
theorem written_or_later {α : Type} {log log' front : List α} {a : α} (hgrown : log <+: log')
    (ha : front ++ [a] <+: log') : front ++ [a] <+: log ∨ log <+: front := by
  rcases List.prefix_or_prefix_of_prefix hgrown ha with hle | hle
  · rcases List.prefix_concat_iff.1 hle with heq | hle'
    · exact Or.inl (heq ▸ List.prefix_refl _)
    · exact Or.inr hle'
  · exact Or.inl hle

namespace Run

variable {Step : ε → σ → σ → Prop} {Step' : ε → τ → τ → Prop}

theorem nil_iff {s s' : σ} : Run Step [] s s' ↔ s' = s := by
  constructor
  · rintro ⟨⟩
    rfl
  · rintro rfl
    exact .nil s'

theorem cons_iff {e : ε} {es : List ε} {s s' : σ} :
    Run Step (e :: es) s s' ↔ ∃ s₁, Step e s s₁ ∧ Run Step es s₁ s' := by
  constructor
  · rintro ⟨⟩
    exact ⟨_, ‹_›, ‹_›⟩
  · rintro ⟨s₁, head, tail⟩
    exact .cons head tail

/-- One run after the other. -/
protected theorem append {es es' : List ε} {s s₁ s' : σ} (h : Run Step es s s₁)
    (h' : Run Step es' s₁ s') : Run Step (es ++ es') s s' := by
  induction h with
  | nil s => exact h'
  | cons head _ ih => exact .cons head (ih h')

/-- What every step preserves holds at the end of a run. -/
theorem invariant {I : List ε → σ → Prop}
    (step : ∀ e es s s', I (e :: es) s → Step e s s' → I es s') {es : List ε} {s s' : σ}
    (h : Run Step es s s') (hI : I es s) : I [] s' := by
  induction h with
  | nil s => exact hI
  | cons head tail ih => exact ih (step _ _ _ _ hI head)

/-- With a log that only grows, an entry that the run has added was added by one of its steps. -/
theorem exists_writer {α : Type} (log : σ → List α) {I : List ε → σ → Prop}
    (step : ∀ e es s s', I (e :: es) s → Step e s s' → I es s' ∧ log s <+: log s')
    {es : List ε} {s s' : σ} (h : Run Step es s s') (hI : I es s) {front back : List α} {a : α}
    (hlog : log s' = front ++ a :: back) (hold : log s <+: front) :
    ∃ made e rest s₀ s₁, es = made ++ e :: rest ∧ Run Step made s s₀ ∧ I (e :: rest) s₀ ∧
      Step e s₀ s₁ ∧ log s₀ <+: front ∧ front ++ [a] <+: log s₁ := by
  induction h with
  | nil s =>
      -- nothing has been added
      have hlen := hold.length_le
      rw [hlog, List.length_append, List.length_cons] at hlen
      omega
  | @cons e es s s₁ s' head tail ih =>
      have hfirst := step e es s s₁ hI head
      have hgrown : log s₁ <+: log s' := by
        have hend := tail.invariant (I := fun es t => I es t ∧ log s₁ <+: log t)
          (fun _ _ _ _ hJ hstep => ⟨(step _ _ _ _ hJ.1 hstep).1,
            hJ.2.trans (step _ _ _ _ hJ.1 hstep).2⟩) ⟨hfirst.1, List.prefix_refl _⟩
        exact hend.2
      have hfront : front ++ [a] <+: log s' := ⟨back, by simp [hlog]⟩
      -- either the first step has written the entry already, or it is still to come
      rcases written_or_later hgrown hfront with hwritten | hnext
      · exact ⟨[], e, es, s, s₁, rfl, .nil s, hI, head, hold, hwritten⟩
      · obtain ⟨made, e', rest, s₀, s₂, rfl, hmade, hI₀, hstep, hbefore, hafter⟩ :=
          ih hfirst.1 hlog hnext
        exact ⟨e :: made, e', rest, s₀, s₂, rfl, .cons head hmade, hI₀, hstep, hbefore, hafter⟩

/-- Two runs, the second of which skips the labels outside `p`: a relation kept by every pair of
matching steps and by every step the second run skips relates the final states. -/
theorem relate {p : ε → Bool} {R : List ε → σ → τ → Prop}
    (both : ∀ e es s s' t t', p e = true → R (e :: es) s t → Step e s s' → Step' e t t' →
      R es s' t')
    (skip : ∀ e es s s' t, p e = false → R (e :: es) s t → Step e s s' → R es s' t)
    {es : List ε} {s s' : σ} {t t' : τ} (h : Run Step es s s')
    (h' : Run Step' (es.filter p) t t') (hR : R es s t) : R [] s' t' := by
  -- the second run moves along with the first one's labels
  induction h generalizing t with
  | nil s =>
      rw [List.filter_nil, nil_iff] at h'
      exact h' ▸ hR
  | @cons e es s s₁ s' head tail ih =>
      cases hp : p e with
      | true =>
          rw [List.filter_cons_of_pos hp, cons_iff] at h'
          rcases h' with ⟨t₁, head', tail'⟩
          exact ih tail' (both _ _ _ _ _ _ hp hR head head')
      | false =>
          rw [List.filter_cons_of_neg (by simp [hp])] at h'
          exact ih h' (skip _ _ _ _ _ hp hR head)

end Run

end Trace
end Foundation
