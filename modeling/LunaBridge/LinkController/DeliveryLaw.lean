import LunaBridge.Foundation.Sampling
import LunaBridge.LinkController.CeilingPilot
import Mathlib.Algebra.BigOperators.Ring.Finset

/-!
# DeliveryLaw — the closed form counts what the predictor predicts

Send instants lie halfway between the points of a grid that refines the seconds, so none of them
falls on a window boundary.  Between two boundaries the predictor is constant or has one threshold,
and the share of instants it accepts is the closed form.
-/

namespace LunaBridge
namespace LinkController

open Foundation.Python Foundation.Sampling

/-! ## The compressed schedule -/

/-- Windows in order; rounding may have collapsed a window or a gap. -/
structure Ordered (windows : List (ℤ × ℤ)) : Prop where
  start_le_end : ∀ w ∈ windows, w.1 ≤ w.2
  disjoint : windows.IsChain fun w next => w.2 ≤ next.1

namespace Ordered

variable {w : ℤ × ℤ} {windows : List (ℤ × ℤ)}

theorem of_cons (h : Ordered (w :: windows)) : Ordered windows :=
  ⟨fun v hv => h.start_le_end v (List.mem_cons_of_mem _ hv), h.disjoint.of_cons⟩

theorem head_le (h : Ordered (w :: windows)) : ∀ next ∈ windows.head?, w.2 ≤ next.1 := by
  cases windows with
  | nil => simp
  | cons v windows => simpa using h.disjoint.rel

end Ordered

/-- What `compressedWindows` returns, when it returns. -/
theorem compressedWindows_eq_ok {rows : List (ℚ × ℚ)} {n : ℕ} {k : ℚ} {windows : List (ℤ × ℤ)}
    (h : compressedWindows rows n k = .ok windows) :
    ∃ s0 : ℚ, (rows.take n).head?.map Prod.fst = some s0 ∧
      windows = (rows.take n).map fun r =>
        (roundHalfEven ((r.1 - s0) / k), roundHalfEven ((r.2 - s0) / k)) := by
  unfold compressedWindows at h
  split at h
  · cases h
  · next first rest hrows =>
      split at h
      · cases h
      · refine ⟨first.1, by rw [hrows]; rfl, ?_⟩
        rw [hrows]
        exact (Except.ok.inj h).symm

section Schedule

variable {rows : List (ℚ × ℚ)} {n : ℕ} {k : ℚ} {windows : List (ℤ × ℤ)}

/-- Rounding keeps the order of the plan. -/
theorem compressedWindows_ordered (hrows : ∀ r ∈ rows, r.1 < r.2)
    (hdisjoint : rows.IsChain fun r next => r.2 ≤ next.1) (hk : 0 < k)
    (h : compressedWindows rows n k = .ok windows) : Ordered windows := by
  obtain ⟨s0, -, rfl⟩ := compressedWindows_eq_ok h
  have hmono : ∀ x y : ℚ, x ≤ y →
      roundHalfEven ((x - s0) / k) ≤ roundHalfEven ((y - s0) / k) := fun x y hxy =>
    roundHalfEven_mono (div_le_div_of_nonneg_right (sub_le_sub_right hxy s0) hk.le)
  constructor
  · intro w hw
    obtain ⟨r, hr, rfl⟩ := List.mem_map.1 hw
    exact hmono _ _ (hrows r (List.mem_of_mem_take hr)).le
  · rw [List.isChain_map]
    exact (hdisjoint.take n).imp fun r next hle => hmono _ _ hle

theorem compressedWindows_head (h : compressedWindows rows n k = .ok windows) :
    windows.head?.map Prod.fst = some 0 := by
  obtain ⟨s0, hhead, rfl⟩ := compressedWindows_eq_ok h
  obtain ⟨r, hr, rfl⟩ := Option.map_eq_some_iff.1 hhead
  rw [List.head?_map, hr]
  simp

end Schedule

/-! ## Send instants -/

/-- The `j`-th send instant of `m` a second. -/
def sendInstant (m j : ℤ) : ℚ := (j + 1 / 2) / m

/-- What the predictor says about the `j`-th send instant. -/
def predicted (m : ℤ) (L : ℚ) (windows : List (ℤ × ℤ)) (j : ℤ) : Bool :=
  predictOne (sendInstant m j) (windows.map fun w => ((w.1 : ℚ), (w.2 : ℚ))) L

section Instants

variable {m : ℤ} (hm : 0 < m)
include hm

theorem sendInstant_lt_iff {j x : ℤ} : sendInstant m j < x ↔ j < m * x := by
  have hm' : (0 : ℚ) < m := by exact_mod_cast hm
  rw [sendInstant, div_lt_iff₀ hm']
  constructor
  · intro h
    have h' : (j : ℚ) < (m * x : ℤ) := by
      push_cast
      linarith
    exact_mod_cast h'
  · intro h
    have h' : (j : ℚ) + 1 ≤ (m * x : ℤ) := by exact_mod_cast h
    push_cast at h'
    linarith

/-- No instant is a whole number of seconds. -/
theorem lt_sendInstant_iff {j x : ℤ} : (x : ℚ) < sendInstant m j ↔ m * x ≤ j := by
  have hm' : (0 : ℚ) < m := by exact_mod_cast hm
  rw [sendInstant, lt_div_iff₀ hm']
  constructor
  · intro h
    have h' : ((m * x : ℤ) : ℚ) < j + 1 := by
      push_cast
      linarith
    exact Int.lt_add_one_iff.1 (by exact_mod_cast h')
  · intro h
    have h' : ((m * x : ℤ) : ℚ) ≤ j := by exact_mod_cast h
    push_cast at h'
    linarith

theorem le_sendInstant_iff {j x : ℤ} : (x : ℚ) ≤ sendInstant m j ↔ m * x ≤ j := by
  rw [← not_lt, sendInstant_lt_iff hm, not_lt]

end Instants

/-! ## Counting -/

/-- The seconds from `a` to the end of the last window in which sending succeeds. -/
def served (L : ℤ) : ℤ → List (ℤ × ℤ) → ℤ
  | _, [] => 0
  | a, w :: windows => min L (w.1 - a) + (w.2 - w.1) + served L w.2 windows

/-- The end of the last window, `a` if there is none. -/
def lastEnd : ℤ → List (ℤ × ℤ) → ℤ
  | a, [] => a
  | _, w :: windows => lastEnd w.2 windows

theorem Ordered.le_lastEnd {windows : List (ℤ × ℤ)} (h : Ordered windows) {a : ℤ}
    (ha : ∀ w ∈ windows.head?, a ≤ w.1) : a ≤ lastEnd a windows := by
  induction windows generalizing a with
  | nil => exact le_refl a
  | cons w windows ih =>
      calc a
          _ ≤ w.1 := ha w (by simp)
          _ ≤ w.2 := h.start_le_end w (by simp)
          _ ≤ lastEnd w.2 windows := ih h.of_cons h.head_le

section Count

variable {m L : ℤ}

/-- In a gap the instants less than a lifetime before the contact are accepted. -/
theorem tally_gap (hm : 0 < m) (hL : 0 < L) (w : ℤ × ℤ) (windows : List (ℤ × ℤ)) {a : ℤ}
    (ha : a ≤ w.1) :
    (tally (predicted m L (w :: windows)) (m * a) (m * w.1) : ℤ) = m * min L (w.1 - a) := by
  have hthreshold : ∀ j, m * a ≤ j → j < m * w.1 →
      (predicted m L (w :: windows) j = true ↔ m * (w.1 - min L (w.1 - a)) ≤ j) := by
    intro j hj hj'
    have hbefore : sendInstant m j < w.1 := (sendInstant_lt_iff hm).2 hj'
    have hmax : m * (w.1 - min L (w.1 - a)) ≤ j ↔ m * (w.1 - L) ≤ j := by
      rcases le_total L (w.1 - a) with hle | hle
      · rw [min_eq_left hle]
      · -- the whole gap is within a lifetime of the contact
        rw [min_eq_right hle, sub_sub_cancel]
        have hstart : m * (w.1 - L) ≤ m * a := Int.mul_le_mul_of_nonneg_left (by omega) hm.le
        exact ⟨fun _ => hstart.trans hj, fun _ => hj⟩
    rw [hmax, ← lt_sendInstant_iff hm, predicted, List.map_cons, predictOne,
      if_neg (fun h => absurd h.1 (not_le.2 hbefore)), if_pos hbefore, decide_eq_true_eq]
    push_cast
    exact sub_lt_comm
  have hmin : 0 ≤ min L (w.1 - a) := le_min hL.le (sub_nonneg.2 ha)
  have hlo : m * a ≤ m * (w.1 - min L (w.1 - a)) :=
    Int.mul_le_mul_of_nonneg_left (by omega) hm.le
  have hhi : m * (w.1 - min L (w.1 - a)) ≤ m * w.1 :=
    Int.mul_le_mul_of_nonneg_left (by omega) hm.le
  rw [tally_from hlo hhi hthreshold]
  ring

/-- In a contact every instant is accepted. -/
theorem tally_contact (hm : 0 < m) {w : ℤ × ℤ} (hw : w.1 ≤ w.2) (windows : List (ℤ × ℤ)) :
    (tally (predicted m L (w :: windows)) (m * w.1) (m * w.2) : ℤ) = m * (w.2 - w.1) := by
  have hall : ∀ j, m * w.1 ≤ j → j < m * w.2 →
      (predicted m L (w :: windows) j = true ↔ m * w.1 ≤ j) := by
    intro j hj hj'
    have hinside := (And.intro ((le_sendInstant_iff hm).2 hj) ((sendInstant_lt_iff hm).2 hj'))
    simp only [predicted, List.map_cons, predictOne, if_pos hinside, hj]
  have hhi : m * w.1 ≤ m * w.2 := Int.mul_le_mul_of_nonneg_left hw hm.le
  rw [tally_from (le_refl _) hhi hall]
  ring

/-- After a contact the predictor looks at the later ones only. -/
theorem predicted_after (hm : 0 < m) {w : ℤ × ℤ} (hw : w.1 ≤ w.2) (windows : List (ℤ × ℤ)) {j : ℤ}
    (hj : m * w.2 ≤ j) : predicted m L (w :: windows) j = predicted m L windows j := by
  have hend : (w.2 : ℚ) ≤ sendInstant m j := (le_sendInstant_iff hm).2 hj
  have hstart : (w.1 : ℚ) ≤ sendInstant m j := le_trans (by exact_mod_cast hw) hend
  simp only [predicted, List.map_cons, predictOne, not_lt.2 hend, not_lt.2 hstart, and_false,
    if_false]

/-- Gap by gap and contact by contact. -/
theorem tally_predicted (hm : 0 < m) (hL : 0 < L) {windows : List (ℤ × ℤ)} (h : Ordered windows)
    {a : ℤ} (ha : ∀ w ∈ windows.head?, a ≤ w.1) :
    (tally (predicted m L windows) (m * a) (m * lastEnd a windows) : ℤ) =
      m * served L a windows := by
  induction windows generalizing a with
  | nil => simp [lastEnd, served]
  | cons w windows ih =>
      have hstart : a ≤ w.1 := ha w (by simp)
      have hw : w.1 ≤ w.2 := h.start_le_end w (by simp)
      have hlater := h.of_cons.le_lastEnd h.head_le
      have hscale : ∀ {x y : ℤ}, x ≤ y → m * x ≤ m * y := fun hxy =>
        Int.mul_le_mul_of_nonneg_left hxy hm.le
      have hrest : tally (predicted m L (w :: windows)) (m * w.2) (m * lastEnd w.2 windows) =
          tally (predicted m L windows) (m * w.2) (m * lastEnd w.2 windows) :=
        tally_congr fun j hj _ => predicted_after hm hw windows hj
      rw [lastEnd, tally_split _ (hscale hstart) (hscale (hw.trans hlater)),
        tally_split _ (hscale hw) (hscale hlater), hrest]
      push_cast
      rw [tally_gap hm hL w windows hstart, tally_contact hm hw windows, ih h.of_cons h.head_le,
        served]
      ring

end Count

/-! ## The closed form -/

/-- The numerator of the closed form is the time in which sending succeeds. -/
theorem closedForm_numerator (L : ℤ) (w : ℤ × ℤ) (windows : List (ℤ × ℤ)) :
    (windows.map fun v => v.2 - v.1).sum + ((gaps (w :: windows)).map fun g => min L g).sum =
      served L w.2 windows := by
  induction windows generalizing w with
  | nil => rfl
  | cons v windows ih =>
      have hgaps : gaps (w :: v :: windows) = (v.1 - w.2) :: gaps (v :: windows) := rfl
      rw [hgaps, List.map_cons, List.map_cons, List.sum_cons, List.sum_cons, served, ← ih v]
      ring

theorem span_cons (w : ℤ × ℤ) (windows : List (ℤ × ℤ)) :
    span (w :: windows) = .ok (lastEnd w.2 windows - w.1) := by
  have hlast : ∀ (ws : List (ℤ × ℤ)) (v : ℤ × ℤ),
      (v :: ws).getLast?.map Prod.snd = some (lastEnd v.2 ws) := by
    intro ws
    induction ws with
    | nil => exact fun v => rfl
    | cons u ws ih => exact fun v => by rw [List.getLast?_cons_cons, ih u, lastEnd]
  obtain ⟨last, hget, hend⟩ := Option.map_eq_some_iff.1 (hlast windows w)
  simp [span, hget, hend]

theorem closedForm_cons {L : ℤ} (hL : 0 < L) (w : ℤ × ℤ) (windows : List (ℤ × ℤ)) {total : ℤ}
    (hspan : span (w :: windows) = .ok total) (hpos : 0 < total) :
    closedForm (w :: windows) L = .ok ((served L w.1 (w :: windows) : ℚ) / total) := by
  have hmin : ((gaps (w :: windows)).map fun g : ℤ => min (L : ℚ) g).sum =
      (((gaps (w :: windows)).map fun g => min L g).sum : ℤ) := by
    rw [Int.cast_list_sum, List.map_map]
    exact congrArg List.sum (List.map_congr_left fun g _ => Int.cast_min.symm)
  rw [closedForm, hspan]
  simp only [hpos.ne', if_false, hmin, ← Int.cast_add]
  have hnum := closedForm_numerator L w windows
  have hfirst : min L (w.1 - w.1) = 0 := by rw [sub_self, min_eq_right hL.le]
  rw [served, hfirst, ← hnum, List.map_cons, List.sum_cons]
  congr 3
  ring

/-- For the compressed schedule of a plan in order and every positive lifetime, the closed form is
the share of send instants for which the predictor says the bundle is delivered. -/
theorem closedForm_is_predicted_share {rows : List (ℚ × ℚ)} {n : ℕ} {k : ℚ}
    {windows : List (ℤ × ℤ)} {total : ℤ} (hrows : ∀ r ∈ rows, r.1 < r.2)
    (hdisjoint : rows.IsChain fun r next => r.2 ≤ next.1) (hk : 0 < k)
    (hwindows : compressedWindows rows n k = .ok windows) (hspan : span windows = .ok total)
    (hpos : 0 < total) :
    Ordered windows ∧ windows.head?.map Prod.fst = some 0 ∧
      ∀ L m : ℤ, 0 < L → 1 ≤ m → closedForm windows L =
        .ok ((tally (predicted m L windows) 0 (m * total) : ℚ) / (m * total)) := by
  have hordered := compressedWindows_ordered hrows hdisjoint hk hwindows
  have hhead := compressedWindows_head hwindows
  refine ⟨hordered, hhead, fun L m hL hm => ?_⟩
  cases windows with
  | nil => cases hhead
  | cons w windows =>
      have hstart : w.1 = 0 := by simpa using hhead
      have htotal : total = lastEnd 0 (w :: windows) := by
        rw [span_cons, hstart, sub_zero] at hspan
        exact (Except.ok.inj hspan).symm
      have hcount := tally_predicted hm hL hordered (a := 0) (by simp [hstart])
      rw [mul_zero, ← htotal] at hcount
      have hcount' : (tally (predicted m L (w :: windows)) 0 (m * total) : ℚ) =
          m * served L 0 (w :: windows) := by exact_mod_cast hcount
      have hm' : (m : ℚ) ≠ 0 := by exact_mod_cast (show 0 < m from hm).ne'
      rw [closedForm_cons hL w windows hspan hpos, hcount', hstart, mul_div_mul_left _ _ hm']

/-- Two contacts of ten seconds with a gap of five, at a sixtieth of the time. -/
theorem closedForm_is_predicted_share_small :
    Ordered [(0, 10), (15, 25)] ∧
      ([(0, 10), (15, 25)] : List (ℤ × ℤ)).head?.map Prod.fst = some 0 ∧
      ∀ L m : ℤ, 0 < L → 1 ≤ m → closedForm [(0, 10), (15, 25)] L =
        .ok ((tally (predicted m L [(0, 10), (15, 25)]) 0 (m * 25) : ℚ) / (m * (25 : ℤ))) :=
  closedForm_is_predicted_share (n := 2) (k := 60)
    (show ∀ r ∈ ([(100, 710), (1000, 1600), (3400, 4000)] : List (ℚ × ℚ)), r.1 < r.2 by
      decide +kernel)
    (by decide +kernel) (by norm_num) (by decide +kernel)
    (by decide +kernel) (by decide)

end LinkController
end LunaBridge
