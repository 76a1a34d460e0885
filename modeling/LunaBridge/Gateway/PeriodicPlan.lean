import LunaBridge.Gateway.Lookups
import Mathlib.Tactic.FieldSimp
import Mathlib.Tactic.Linarith
import Mathlib.Tactic.Ring

/-!
# PeriodicPlan — evenly spaced windows

`periodicContactPlan` opens a window every `periodS`.  Its windows are those of a `Train`, in which
the window that last opened by an instant is found by dividing: `Train.index`.  On exact rationals
the lookups of the plan do the same.
-/

namespace LunaBridge
namespace Gateway

open Foundation.Python Foundation.StableSort Foundation.Text

/-- `periodic_contact_plan`. -/
def periodicContactPlan (numWindows : ℤ) (periodS durationS linkRateBps : ℚ) (startTs : ℚ)
    (idPrefix : String) : Except PyError ContactPlan :=
  if periodS < durationS then
    .error (.valueError ("periodic_contact_plan: duration_s (" ++ floatText durationS ++
      ") must be <= period_s (" ++ floatText periodS ++ "), or windows would overlap."))
  else do
    -- `range` of a negative number is empty
    let windows ← (List.range numWindows.toNat).mapM fun i : ℕ =>
      ContactWindow.make (idPrefix ++ "-" ++ toString i) (startTs + i * periodS)
        (startTs + i * periodS + durationS) linkRateBps "relay-0"
    ContactPlan.make windows

/-! ## The windows -/

/-- Parameters for which no window overlaps the next. -/
structure Train where
  periodS : ℚ
  durationS : ℚ
  linkRateBps : ℚ
  startTs : ℚ
  idPrefix : String
  duration_pos : 0 < durationS
  duration_le : durationS ≤ periodS
  rate_pos : 0 < linkRateBps

namespace Train

variable (train : Train)

theorem period_pos : 0 < train.periodS := train.duration_pos.trans_le train.duration_le

/-- The instant at which window `i` opens. -/
def opens (i : ℕ) : ℚ := train.startTs + i * train.periodS

/-- Window `i`. -/
def window (i : ℕ) : ContactWindow where
  contactId := train.idPrefix ++ "-" ++ toString i
  startTs := train.opens i
  endTs := train.opens i + train.durationS
  linkRateBps := train.linkRateBps
  relayId := "relay-0"
  start_lt_end := lt_add_of_pos_right _ train.duration_pos
  rate_pos := train.rate_pos

theorem make_window (i : ℕ) :
    ContactWindow.make (train.idPrefix ++ "-" ++ toString i) (train.opens i)
      (train.opens i + train.durationS) train.linkRateBps "relay-0" = .ok (train.window i) := by
  have hend : ¬ train.opens i + train.durationS ≤ train.opens i :=
    not_le.2 (train.window i).start_lt_end
  rw [ContactWindow.make, dif_neg hend, dif_neg (not_le.2 train.rate_pos)]
  rfl

theorem mapM_make (is : List ℕ) :
    (is.mapM fun i : ℕ => ContactWindow.make (train.idPrefix ++ "-" ++ toString i)
      (train.startTs + i * train.periodS) (train.startTs + i * train.periodS + train.durationS)
      train.linkRateBps "relay-0") = .ok (is.map train.window) := by
  induction is with
  | nil => rfl
  | cons i is ih =>
      have hfirst := train.make_window i
      rw [opens] at hfirst
      rw [List.mapM_cons, ih, hfirst]
      rfl

/-- Between two openings lie at least as many periods as windows. -/
theorem ends_le_opens {i j : ℕ} (hij : i < j) :
    (train.window i).endTs ≤ (train.window j).startTs := by
  have hstep : (i : ℚ) + 1 ≤ j := by exact_mod_cast hij
  calc train.startTs + i * train.periodS + train.durationS
      _ ≤ train.startTs + i * train.periodS + train.periodS :=
        add_le_add_right train.duration_le _
      _ = train.startTs + (i + 1) * train.periodS := by ring
      _ ≤ train.startTs + j * train.periodS :=
        add_le_add_right (mul_le_mul_of_nonneg_right hstep train.period_pos.le) _

/-- The plan of the first `n` windows. -/
def plan (n : ℕ) : ContactPlan where
  windows := (List.range n).map train.window
  disjoint := List.pairwise_map.2
    (List.pairwise_lt_range.imp fun {_ _} hij => train.ends_le_opens hij)

/-- The windows come out of the generator in order, so the constructor accepts them as they are. -/
theorem make_windows (n : ℕ) :
    ContactPlan.make ((List.range n).map train.window) = .ok (train.plan n) := by
  have hsorted : sortBy ContactWindow.startTs ((List.range n).map train.window) =
      (List.range n).map train.window := by
    apply List.Pairwise.insertionSort_eq
    exact (train.plan n).pairwise_startTs.imp fun {_ _} hlt => hlt.le
  have hfirst := ContactPlan.firstOverlap_none_of_pairwise _ (train.plan n).disjoint
  rw [ContactPlan.make_eq_ok_of_firstOverlap (by rw [hsorted]; exact hfirst)]
  simp only [hsorted]
  rfl

theorem periodicContactPlan_eq (n : ℤ) :
    periodicContactPlan n train.periodS train.durationS train.linkRateBps train.startTs
      train.idPrefix = .ok (train.plan n.toNat) := by
  rw [periodicContactPlan, if_neg (not_lt.2 train.duration_le), train.mapM_make]
  exact train.make_windows _

/-! ## Finding a window by dividing -/

/-- The number of the last window to have opened by `ts`, if the train went on for ever both
ways. -/
def index (ts : ℚ) : ℤ := ⌊(ts - train.startTs) / train.periodS⌋

theorem opens_le_iff {i : ℕ} {ts : ℚ} : train.opens i ≤ ts ↔ (i : ℤ) ≤ train.index ts := by
  rw [index, Int.le_floor, le_div_iff₀ train.period_pos, opens, Int.cast_natCast,
    le_sub_iff_add_le']

theorem window_covers_iff {i : ℕ} {ts : ℚ} :
    (train.window i).covers ts = true ↔ train.opens i ≤ ts ∧ ts < train.opens i + train.durationS :=
  ContactWindow.covers_coe

/-- A window that covers `ts` is the last one to have opened. -/
theorem index_of_covers {i : ℕ} {ts : ℚ} (hcov : (train.window i).covers ts = true) :
    train.index ts = i := by
  obtain ⟨hopen, hend⟩ := train.window_covers_iff.1 hcov
  refine le_antisymm ?_ (train.opens_le_iff.1 hopen)
  have hnext : ¬ train.opens (i + 1) ≤ ts := by
    refine not_le.2 (lt_of_lt_of_le hend ?_)
    exact train.ends_le_opens (Nat.lt_succ_self i)
  rw [train.opens_le_iff] at hnext
  push_cast at hnext
  omega

variable {n : ℕ}

theorem plan_getElem? {i : ℕ} {w : ContactWindow} :
    (train.plan n).windows[i]? = some w ↔ i < n ∧ w = train.window i := by
  rw [plan, List.getElem?_map, Option.map_eq_some_iff]
  constructor
  · rintro ⟨j, hj, rfl⟩
    obtain ⟨hlt, rfl⟩ := List.getElem?_eq_some_iff.1 hj
    rw [List.getElem_range]
    exact ⟨by simpa using hlt, rfl⟩
  · rintro ⟨hi, rfl⟩
    exact ⟨i, List.getElem?_range hi, rfl⟩

theorem mem_plan {w : ContactWindow} :
    w ∈ (train.plan n).windows ↔ ∃ i, i < n ∧ train.window i = w := by
  simp [plan]

/-- The plan is up at `ts` iff the last window to have opened exists and has not closed yet. -/
theorem activeAt_plan (ts : ℚ) :
    (train.plan n).activeAt ts =
      if 0 ≤ train.index ts ∧ train.index ts < n ∧
          ts - train.startTs - train.index ts * train.periodS < train.durationS then
        (train.plan n).windows[(train.index ts).toNat]?
      else
        none := by
  split
  · next h =>
    -- the window exists and has not closed, so it covers `ts`
    obtain ⟨hnonneg, hlt, hopen⟩ := h
    obtain ⟨i, hi⟩ := Int.eq_ofNat_of_zero_le hnonneg
    rw [hi] at hlt hopen
    have hin : i < n := by exact_mod_cast hlt
    have hwindow : (train.plan n).windows[i]? = some (train.window i) :=
      train.plan_getElem?.2 ⟨hin, rfl⟩
    rw [hi, Int.toNat_natCast, hwindow]
    refine ContactPlan.activeAt_eq_some_iff.2 ⟨List.mem_of_getElem? hwindow, ?_⟩
    refine train.window_covers_iff.2 ⟨train.opens_le_iff.2 hi.ge, ?_⟩
    rw [Int.cast_natCast] at hopen
    rw [opens]
    linarith
  · next h =>
    -- any window that covered `ts` would pass the test
    refine ContactPlan.activeAt_eq_none_iff.2 fun w hw => ?_
    obtain ⟨i, hi, rfl⟩ := train.mem_plan.1 hw
    by_contra hcov
    have hcov' : (train.window i).covers ts = true := by simpa using hcov
    have hindex := train.index_of_covers hcov'
    refine h ?_
    rw [hindex]
    refine ⟨Int.natCast_nonneg i, by exact_mod_cast hi, ?_⟩
    have hend := (train.window_covers_iff.1 hcov').2
    rw [opens] at hend
    rw [Int.cast_natCast]
    linarith

theorem opens_mono {i j : ℕ} (hij : i ≤ j) : train.opens i ≤ train.opens j := by
  have hij' : (i : ℚ) ≤ j := by exact_mod_cast hij
  exact add_le_add_right (mul_le_mul_of_nonneg_right hij' train.period_pos.le) _

/-- First to open after `ts` is the window of least number that does. -/
theorem firstAfter_plan_iff {ts : ℚ} {w : ContactWindow} :
    ContactPlan.FirstAfter (train.plan n) ts w ↔
      ∃ i, (train.plan n).windows[i]? = some w ∧ ts < train.opens i ∧
        ∀ j < i, ¬ ts < train.opens j := by
  constructor
  · rintro ⟨hw, hlt, hleast⟩
    obtain ⟨i, hi, rfl⟩ := train.mem_plan.1 hw
    refine ⟨i, train.plan_getElem?.2 ⟨hi, rfl⟩, WithBot.coe_lt_coe.1 hlt, fun j hj hlater => ?_⟩
    have hle : train.opens i ≤ train.opens j :=
      hleast _ (train.mem_plan.2 ⟨j, hj.trans hi, rfl⟩) (WithBot.coe_lt_coe.2 hlater)
    have hclosed : train.opens j < train.opens i :=
      ((train.window j).start_lt_end).trans_le (train.ends_le_opens hj)
    exact absurd hle (not_le.2 hclosed)
  · rintro ⟨i, hi, hlt, hleast⟩
    obtain ⟨hin, rfl⟩ := train.plan_getElem?.1 hi
    refine ⟨List.mem_of_getElem? hi, WithBot.coe_lt_coe.2 hlt, fun v hv hlater => ?_⟩
    obtain ⟨j, -, rfl⟩ := train.mem_plan.1 hv
    have hij : i ≤ j := not_lt.1 fun hji => hleast j hji (WithBot.coe_lt_coe.1 hlater)
    exact train.opens_mono hij

end Train

/-- The generator makes exactly the windows asked for, and the lookups of the plan are division:
the window that covers an instant is the last one to have opened, if it has not closed yet, and
else the next one is the one of least number still to open. -/
theorem periodicContactPlan_divides (numWindows : ℤ)
    (periodS durationS linkRateBps startTs : ℚ) (idPrefix : String) (hnum : 0 ≤ numWindows)
    (hpos : 0 < durationS) (hle : durationS ≤ periodS) (hrate : 0 < linkRateBps) :
    ∃ plan,
      periodicContactPlan numWindows periodS durationS linkRateBps startTs idPrefix = .ok plan ∧
      (plan.windows.length : ℤ) = numWindows ∧
      (∀ (i : ℕ) (w : ContactWindow), plan.windows[i]? = some w →
        w.contactId = idPrefix ++ "-" ++ toString i ∧ w.startTs = startTs + i * periodS ∧
        w.endTs = startTs + i * periodS + durationS ∧ w.linkRateBps = linkRateBps) ∧
      ∀ ts : ℚ,
        (∀ i : ℤ, i = ⌊(ts - startTs) / periodS⌋ → plan.activeAt ts =
          if 0 ≤ i ∧ i < numWindows ∧ ts - startTs - i * periodS < durationS then
            plan.windows[i.toNat]?
          else
            none) ∧
        (∀ w, plan.nextAfter ts = some w ↔ plan.activeAt ts = some w ∨
          plan.activeAt ts = none ∧ ∃ i : ℕ, plan.windows[i]? = some w ∧
            ts < startTs + i * periodS ∧ ∀ j : ℕ, j < i → ¬ ts < startTs + j * periodS) ∧
        (plan.nextAfter ts = none ↔ plan.activeAt ts = none ∧
          ∀ i : ℕ, (i : ℤ) < numWindows → ¬ ts < startTs + i * periodS) := by
  obtain ⟨n, rfl⟩ := Int.eq_ofNat_of_zero_le hnum
  let train : Train := ⟨periodS, durationS, linkRateBps, startTs, idPrefix, hpos, hle, hrate⟩
  refine ⟨train.plan n, train.periodicContactPlan_eq n, by simp [Train.plan], ?_, fun ts => ?_⟩
  · intro i w hw
    obtain ⟨-, rfl⟩ := train.plan_getElem?.1 hw
    exact ⟨rfl, rfl, rfl, rfl⟩
  · refine ⟨?_, fun w => ?_, ?_⟩
    · rintro i rfl
      exact train.activeAt_plan ts
    · rw [ContactPlan.nextAfter_eq_some_iff, train.firstAfter_plan_iff]
      rfl
    · rw [ContactPlan.nextAfter_eq_none_iff]
      refine and_congr_right fun _ => ?_
      constructor
      · intro hall i hi
        have hopened := hall (train.window i)
          (train.mem_plan.2 ⟨i, by exact_mod_cast hi, rfl⟩)
        exact not_lt.2 (WithBot.coe_le_coe.1 hopened)
      · rintro hall w hw
        obtain ⟨i, hi, rfl⟩ := train.mem_plan.1 hw
        exact WithBot.coe_le_coe.2 (not_lt.1 (hall i (by exact_mod_cast hi)))

/-- Three windows of ten seconds, back to back. -/
theorem periodicContactPlan_divides_backToBack :
    ∃ plan, periodicContactPlan 3 10 10 1000 5 "periodic" = .ok plan ∧
      (plan.windows.length : ℤ) = 3 ∧
      (∀ (i : ℕ) (w : ContactWindow), plan.windows[i]? = some w →
        w.contactId = "periodic" ++ "-" ++ toString i ∧ w.startTs = 5 + i * 10 ∧
        w.endTs = 5 + i * 10 + 10 ∧ w.linkRateBps = 1000) ∧
      ∀ ts : ℚ,
        (∀ i : ℤ, i = ⌊(ts - 5) / 10⌋ → plan.activeAt ts =
          if 0 ≤ i ∧ i < 3 ∧ ts - 5 - i * 10 < 10 then plan.windows[i.toNat]? else none) ∧
        (∀ w, plan.nextAfter ts = some w ↔ plan.activeAt ts = some w ∨
          plan.activeAt ts = none ∧ ∃ i : ℕ, plan.windows[i]? = some w ∧
            ts < 5 + i * 10 ∧ ∀ j : ℕ, j < i → ¬ ts < 5 + j * 10) ∧
        (plan.nextAfter ts = none ↔ plan.activeAt ts = none ∧
          ∀ i : ℕ, (i : ℤ) < 3 → ¬ ts < 5 + i * 10) :=
  periodicContactPlan_divides 3 10 10 1000 5 "periodic" (by decide) (by decide +kernel)
    (by decide +kernel) (by decide +kernel)

end Gateway
end LunaBridge
