import LunaBridge.Gateway.ContactPlan
import Mathlib.Tactic.Linarith

/-!
# CeilingPilot — the delivery law on a compressed contact schedule

`compressedWindows` is the integer schedule the nodes are configured with, `closedForm` the
delivery ratio predicted for it, `predictOne` the prediction for one bundle.  The N6 bridge carries
copies of the three.
-/

namespace LunaBridge
namespace LinkController

open Foundation.Python

/-! ## The schedule and its closed form -/

/-- `compressed_windows`: the first `n` rows of the plan, as pairs of `start_sec` and `end_sec`,
shifted to start at zero, divided by `k` and rounded. -/
def compressedWindows (rows : List (ℚ × ℚ)) (n : ℕ) (k : ℚ) : Except PyError (List (ℤ × ℤ)) :=
  match rows.take n with
  | [] => .error .indexError
  | first :: rest =>
      if k = 0 then
        .error .zeroDivisionError
      else
        .ok ((first :: rest).map fun r =>
          (roundHalfEven ((r.1 - first.1) / k), roundHalfEven ((r.2 - first.1) / k)))

/-- `windows[-1][1] - windows[0][0]`. -/
def span (windows : List (ℤ × ℤ)) : Except PyError ℤ :=
  match windows.head?, windows.getLast? with
  | some first, some last => .ok (last.2 - first.1)
  | _, _ => .error .indexError

/-- The lengths of the gaps between consecutive windows. -/
def gaps (windows : List (ℤ × ℤ)) : List ℤ :=
  List.zipWith (fun w next => next.1 - w.2) windows windows.tail

/-- `closed_form`: the contact time, and of every gap as much as the lifetime covers, as a share
of the span. -/
def closedForm (windows : List (ℤ × ℤ)) (L : ℚ) : Except PyError ℚ :=
  match span windows with
  | .error e => .error e
  | .ok total =>
      if total = 0 then
        .error .zeroDivisionError
      else
        .ok ((((windows.map fun w => w.2 - w.1).sum : ℤ) +
          ((gaps windows).map fun g : ℤ => min L g).sum) / total)

/-! ## The prediction for one bundle -/

/-- `predict_one`: deliverable iff sent inside a contact, or the next contact opens before the
lifetime `L` runs out. -/
def predictOne (t : ℚ) : List (ℚ × ℚ) → ℚ → Bool
  | [], _ => false
  | (s, e) :: contacts, L =>
      if s ≤ t ∧ t < e then true
      else if t < s then decide (s - t < L)
      else predictOne t contacts L

/-- For a positive lifetime the predictor looks at one contact only, the first that ends after `t`,
and asks whether it opens in time. -/
theorem predictOne_eq_true_iff {t L : ℚ} (hL : 0 < L) :
    ∀ ws : List Gateway.ContactWindow,
      predictOne t (ws.map fun w => (w.startTs, w.endTs)) L = true ↔
        ∃ w, ws.find? (fun w => decide (t < w.endTs)) = some w ∧ w.startTs < t + L := by
  intro ws
  induction ws with
  | nil => simp [predictOne]
  | cons w ws ih =>
      by_cases hopen : t < w.endTs
      · -- `w` is the contact in question, whether it is open already or not
        have hfind : (w :: ws).find? (fun w => decide (t < w.endTs)) = some w := by simp [hopen]
        rw [hfind]
        by_cases hstarted : w.startTs ≤ t
        · have hbefore : w.startTs < t + L := by linarith
          simp [predictOne, hstarted, hopen, hbefore]
        · -- the wait for it counts against the lifetime
          have hwait : t < w.startTs := not_le.1 hstarted
          simp only [List.map_cons, predictOne, hstarted, false_and, if_false, hwait, if_true,
            decide_eq_true_eq, Option.some.injEq, exists_eq_left', sub_lt_iff_lt_add']
      · -- `w` is over, so it is neither the contact in question nor waited for
        have hfind : (w :: ws).find? (fun w => decide (t < w.endTs)) =
            ws.find? (fun w => decide (t < w.endTs)) := by simp [hopen]
        have hpast : ¬ t < w.startTs := fun hlt => hopen (hlt.trans w.start_lt_end)
        rw [hfind, ← ih]
        simp [predictOne, hopen, hpast]

end LinkController
end LunaBridge
