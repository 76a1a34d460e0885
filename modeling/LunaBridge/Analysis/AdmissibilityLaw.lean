import LunaBridge.Analysis.Admissibility
import LunaBridge.Foundation.Grid
import LunaBridge.Foundation.Rounding
import LunaBridge.Gateway.SweepHarness
import LunaBridge.Scheduling.Ample
import LunaBridge.Scheduling.EmergencyFirst
import LunaBridge.Scheduling.Tiers

/-!
# AdmissibilityLaw — how far the scheduler can be from the closed form

Between two ends of windows a bundle can be delivered if it arrives less than a lifetime before the
next window opens, so the bundles that can be delivered number as many steps as the numerator of the
closed form, up to one for each window.  The scheduler delivers no other bundles, and all of these
if the windows can carry them.  The bundles are whole bytes, so the rate they make up is the offered
one up to a byte in each step.
-/

namespace LunaBridge
namespace Analysis

open Gateway Foundation Foundation.Machine Foundation.Python Foundation.Sampling Foundation.Grid
open Foundation.GreedyFill Foundation.SlotAssignment Foundation.Text

/-! ## The bundles that can be delivered -/

/-- A bundle captured at `t` lives when the first of the windows that it can catch opens. -/
def deliverable (L : ℚ) (ws : List ContactWindow) (t : ℚ) : Bool :=
  match ws.find? fun w => decide (t < w.endTs) with
  | some w => decide (w.startTs < t + L)
  | none => false

/-- The time from `a` on in which sending succeeds: of every gap as much as the lifetime covers, and
the contacts. -/
def servedTime (L : ℚ) : ℚ → List ContactWindow → ℚ
  | _, [] => 0
  | a, w :: ws => min L (w.startTs - a) + w.durationS + servedTime L w.endTs ws

/-- The end of the last window, `a` if there is none. -/
def endOf : ℚ → List ContactWindow → ℚ
  | a, [] => a
  | _, w :: ws => endOf w.endTs ws

theorem le_endOf {ws : List ContactWindow}
    (hdisjoint : ws.Pairwise fun prev nxt => prev.endTs ≤ nxt.startTs) {a : ℚ}
    (ha : ∀ w ∈ ws.head?, a ≤ w.startTs) : a ≤ endOf a ws := by
  induction ws generalizing a with
  | nil => exact le_refl a
  | cons w ws ih =>
      have hrest := List.pairwise_cons.1 hdisjoint
      calc a
          _ ≤ w.startTs := ha w (by simp)
          _ ≤ w.endTs := w.start_lt_end.le
          _ ≤ endOf w.endTs ws :=
            ih hrest.2 fun v hv => hrest.1 v (List.mem_of_mem_head? hv)

theorem getLast?_endTs (ws : List ContactWindow) (w : ContactWindow) :
    (w :: ws).getLast?.map ContactWindow.endTs = some (endOf w.endTs ws) := by
  induction ws generalizing w with
  | nil => rfl
  | cons v ws ih => rw [List.getLast?_cons_cons, ih v, endOf]

section Law

variable {t0 dt L : ℚ}

/-- Up to the end of the next window it is a matter of when that window opens. -/
theorem deliverable_before {w : ContactWindow} {ws : List ContactWindow} {t : ℚ}
    (ht : t < w.endTs) : deliverable L (w :: ws) t = true ↔ w.startTs - L < t := by
  rw [deliverable, List.find?_cons_of_pos (by simpa using ht)]
  simp only [decide_eq_true_eq]
  exact sub_lt_iff_lt_add.symm

/-- After a window only the later ones count. -/
theorem deliverable_after {w : ContactWindow} {ws : List ContactWindow} {t : ℚ}
    (ht : w.endTs ≤ t) : deliverable L (w :: ws) t = deliverable L ws t := by
  rw [deliverable, deliverable, List.find?_cons_of_neg (by simpa using ht)]

/-- Window by window, the instants that can be served are as many as the steps that are, up to one
for each window. -/
theorem abs_tally_deliverable_sub_le (hdt : 0 < dt) (hL : 0 < L) {ws : List ContactWindow}
    (hdisjoint : ws.Pairwise fun prev nxt => prev.endTs ≤ nxt.startTs) {a : ℚ}
    (ha : ∀ w ∈ ws.head?, a ≤ w.startTs) :
    |(tally (fun i => deliverable L ws (instant t0 dt i)) (firstFrom t0 dt a)
      (firstFrom t0 dt (endOf a ws)) : ℚ) - servedTime L a ws / dt| ≤ ws.length := by
  induction ws generalizing a with
  | nil => simp [endOf, servedTime]
  | cons w ws ih =>
      have hrest := List.pairwise_cons.1 hdisjoint
      have hnext : ∀ v ∈ ws.head?, w.endTs ≤ v.startTs := fun v hv =>
        hrest.1 v (List.mem_of_mem_head? hv)
      have hstart : a ≤ w.startTs := ha w (by simp)
      have hend : a ≤ w.endTs := hstart.trans w.start_lt_end.le
      have hlater := ih hrest.2 hnext
      -- up to the end of this window the lifetime sets a threshold
      have hopens : w.startTs - L < w.endTs := by linarith [w.start_lt_end]
      have hhere : |(tally (fun i => deliverable L (w :: ws) (instant t0 dt i))
          (firstFrom t0 dt a) (firstFrom t0 dt w.endTs) : ℚ) -
            (w.endTs - max a (w.startTs - L)) / dt| ≤ 1 :=
        abs_tally_after_sub_le hdt hend hopens fun i _ hi => deliverable_before hi
      have hsteps : w.endTs - max a (w.startTs - L) = min L (w.startTs - a) + w.durationS := by
        rw [ContactWindow.durationS]
        rcases le_total L (w.startTs - a) with hle | hle
        · rw [min_eq_left hle, max_eq_right (by linarith)]
          ring
        · rw [min_eq_right hle, max_eq_left (by linarith)]
          ring
      have hsame : tally (fun i => deliverable L (w :: ws) (instant t0 dt i))
            (firstFrom t0 dt w.endTs) (firstFrom t0 dt (endOf w.endTs ws)) =
          tally (fun i => deliverable L ws (instant t0 dt i)) (firstFrom t0 dt w.endTs)
            (firstFrom t0 dt (endOf w.endTs ws)) :=
        tally_congr fun i hi _ => deliverable_after ((firstFrom_le_iff hdt).1 hi)
      rw [hsteps] at hhere
      rw [endOf, tally_split _ (firstFrom_mono hdt hend)
        (firstFrom_mono hdt (le_endOf hrest.2 hnext)), hsame]
      rw [abs_le] at hhere hlater ⊢
      rw [servedTime, add_div, List.length_cons]
      push_cast
      constructor <;> linarith

end Law

/-! ## The arrivals -/

/-- The bundles of a class from `t0` on, one every `dt` seconds. -/
def arrivals (cls : TrafficClass) (size : ℤ) (ttlS t0 dt : ℚ) (n : ℕ) : List Bundle :=
  (List.range n).map fun i => sustained cls size ttlS (i + 1) (instant t0 dt i)

section Arrivals

variable {cls : TrafficClass} {size : ℤ} {ttlS t0 dt endTs : ℚ} {n : ℕ}

/-- The instants of an integral schedule are doubles. -/
theorem isDouble_instant {t0 dt : ℤ} {n : ℕ} (ht : 0 ≤ t0) (hdt : 0 ≤ dt)
    (hlast : t0 + n * dt < 2 ^ 53) : ∀ i ≤ n, IsDouble ((t0 : ℚ) + (i : ℚ) * (dt : ℚ)) := by
  intro i hi
  have hsteps : (i : ℤ) * dt ≤ n * dt := mul_le_mul_of_nonneg_right (by exact_mod_cast hi) hdt
  have hpos : 0 ≤ t0 + i * dt := add_nonneg ht (mul_nonneg (Int.natCast_nonneg i) hdt)
  have hdouble : IsDouble ((t0 + i * dt : ℤ) : ℚ) := by
    refine isDouble_intCast ?_
    rw [abs_of_nonneg hpos]
    omega
  simpa using hdouble

/-- As long as no step is rounded the loop runs through the instants of the grid. -/
theorem arrivalLoop_eq (hdt : 0 < dt) : ∀ (n fuel seq : ℕ) (t : ℚ), n = ⌈(endTs - t) / dt⌉₊ →
    n ≤ fuel → (∀ i ≤ n, IsDouble (t + i * dt)) →
      arrivalLoop cls size ttlS dt endTs fuel seq t = .ok ((List.range n).map fun i =>
        sustained cls size ttlS (seq + i + 1) (t + i * dt)) := by
  intro n
  induction n with
  | zero =>
      intro fuel seq t hn _ _
      have hdone : (endTs - t) / dt ≤ 0 := Nat.ceil_eq_zero.1 hn.symm
      have hlate : ¬ t < endTs := by
        rw [div_le_iff₀ hdt, zero_mul] at hdone
        linarith
      cases fuel with
      | zero => rw [arrivalLoop, if_neg hlate]; rfl
      | succ fuel => rw [arrivalLoop, if_neg hlate]; rfl
  | succ n ih =>
      intro fuel seq t hn hfuel hexact
      obtain ⟨fuel, rfl⟩ := Nat.exists_eq_succ_of_ne_zero (show fuel ≠ 0 by omega)
      have hmore : 0 < (endTs - t) / dt := Nat.ceil_pos.1 (by omega)
      have hearly : t < endTs := by
        rw [lt_div_iff₀ hdt, zero_mul] at hmore
        linarith
      have hround : nearestDouble (t + dt) = t + dt := by
        have hdouble := hexact 1 (by omega)
        rw [Nat.cast_one, one_mul] at hdouble
        exact nearestDouble_of_isDouble hdouble
      have hnext : n = ⌈(endTs - (t + dt)) / dt⌉₊ := by
        have hstep : (endTs - (t + dt)) / dt = (endTs - t) / dt - 1 := by
          field_simp
          ring
        rw [hstep, Nat.ceil_sub_one, ← hn, Nat.add_sub_cancel]
      have hlater : ∀ i ≤ n, IsDouble (t + dt + i * dt) := by
        intro i hi
        have hdouble := hexact (i + 1) (by omega)
        rw [Nat.cast_succ] at hdouble
        convert hdouble using 1
        ring
      rw [arrivalLoop, if_pos hearly, hround, ih fuel (seq + 1) (t + dt) hnext (by omega) hlater,
        Bytes.ok_bind, List.range_succ_eq_map, List.map_cons, List.map_map]
      congr 2
      · simp
      · refine List.map_congr_left fun i _ => ?_
        simp only [Function.comp_apply, Nat.cast_succ]
        congr 1
        · omega
        · ring

/-- With steps of a tenth of a second, rounded, ten are less than a second. -/
example : (arrivalLoop .telemetry 1 5 (nearestDouble (1 / 10)) 1 20 0 0).toOption.map
    List.length = some 11 := by
  decide +kernel

theorem valid_arrivals (hsize : 0 < size) :
    Valid (arrivals cls size ttlS t0 dt n) (fun _ => {}) where
  distinct := by
    rw [arrivals, List.map_map]
    refine List.nodup_range.map fun i j hij => ?_
    exact Nat.succ_injective (decimal_injective (String.ofList_injective hij))
  sizes := List.forall_mem_map.2 fun _ _ => hsize
  lifetimes := List.forall_mem_map.2 fun _ _ => Option.some_ne_none _
  pending := fun _ _ => rfl

theorem totalBytes_arrivals : totalBytes (arrivals cls size ttlS t0 dt n) = n * size := by
  have hsizes : (arrivals cls size ttlS t0 dt n).map Bundle.sizeBytes = List.replicate n size := by
    refine List.eq_replicate_iff.2 ⟨by simp [arrivals], fun x hx => ?_⟩
    obtain ⟨b, hb, rfl⟩ := List.mem_map.1 hx
    obtain ⟨i, -, rfl⟩ := List.mem_map.1 hb
    rfl
  rw [totalBytes, hsizes, List.sum_replicate, nsmul_eq_mul]

/-- Counting arrivals by the instant of capture is counting instants. -/
theorem countP_arrivals (p : ℚ → Bool) :
    (arrivals cls size ttlS t0 dt n).countP (fun b => p b.ingressTs) =
      tally (fun i => p (instant t0 dt i)) 0 n := by
  rw [arrivals, List.countP_map, tally]
  simp only [sub_zero, Int.toNat_natCast, zero_add]
  rfl

end Arrivals

/-! ## What the scheduler delivers -/

section Scheduling

variable {sch : Scheduler} {bundles : List Bundle}

/-- A bundle that can use some window is deliverable. -/
theorem deliverable_of_usable {plan : ContactPlan} {b : Bundle} {w : ContactWindow} {L : ℚ}
    (hw : w ∈ plan.windows) (huse : Usable b w) (hlife : b.deadline = b.ingressTs + L) :
    deliverable L plan.windows b.ingressTs = true := by
  cases hfind : plan.windows.find? fun w => decide (b.ingressTs < w.endTs) with
  | none =>
      have hnone := List.find?_eq_none.1 hfind w hw
      simp [huse.1] at hnone
  | some v =>
      -- the first window that it can catch opens no later than `w`
      have hle : v.startTs ≤ w.startTs := by
        obtain ⟨-, front, back, heq, hfront⟩ := List.find?_eq_some_iff_append.1 hfind
        have hsorted := plan.pairwise_startTs
        rw [heq] at hw hsorted
        rcases List.mem_append.1 hw with hw | hw
        · have hnot := hfront w hw
          simp [huse.1] at hnot
        · rcases List.mem_cons.1 hw with rfl | hw
          · exact le_rfl
          · exact ((List.pairwise_cons.1 (List.pairwise_append.1 hsorted).2.1).1 w hw).le
      rw [deliverable, hfind, decide_eq_true_eq, ← hlife]
      exact hle.trans_lt huse.2

/-- The bundles that a run has delivered weigh no more than the windows carry together. -/
theorem run_within_budgets {s : SchedulerState} (now : ℚ) (h : Valid bundles s.records)
    (hs : s.Idle) :
    Returns (run sch now bundles) s fun _ s' =>
      (∀ b ∈ bundles, (s'.records b).terminalState = .delivered →
        ∃ w ∈ sch.plan.windows, Usable b w) ∧
      load Bundle.bits (bundles.filter fun b =>
        decide ((s'.records b).terminalState = .delivered)) ≤
          (sch.plan.windows.map ContactWindow.rawBitBudget).sum := by
  refine (run_assigns sch now h hs).mono ?_
  rintro _ s' ⟨A, hA, -, hplaced⟩
  have hslot : ∀ b ∈ bundles, (s'.records b).terminalState = .delivered →
      ∃ w ∈ sch.plan.windows, A b = some w := by
    intro b hb hdel
    have hmem : b ∈ placed bundles.toFinset A := hplaced ▸ mem_delivered.2 ⟨hb, hdel⟩
    obtain ⟨w, hw⟩ := Option.isSome_iff_exists.1 (Finset.mem_filter.1 hmem).2
    exact ⟨w, (hA.usable b w hw).2.1, hw⟩
  refine ⟨fun b hb hdel => ?_, ?_⟩
  · obtain ⟨w, hw, hbw⟩ := hslot b hb hdel
    exact ⟨w, hw, (hA.usable b w hbw).2.2⟩
  · have hbits : ∀ b ∈ bundles, 0 ≤ b.bits := fun b hb => Bundle.bits_nonneg (h.sizes b hb)
    calc load Bundle.bits (bundles.filter fun b =>
          decide ((s'.records b).terminalState = .delivered))
        _ ≤ load Bundle.bits (bundles.filter fun b =>
              sch.plan.windows.any fun w => decide (A b = some w)) := by
          refine load_le_of_subperm (List.subperm_of_subset (h.nodup.filter _) fun b hb => ?_)
            fun b hb => hbits b (List.mem_of_mem_filter hb)
          rcases List.mem_filter.1 hb with ⟨hmem, hdel⟩
          obtain ⟨w, hw, hbw⟩ := hslot b hmem (of_decide_eq_true hdel)
          exact List.mem_filter.2 ⟨hmem, List.any_eq_true.2 ⟨w, hw, decide_eq_true hbw⟩⟩
        _ ≤ (sch.plan.windows.map fun w =>
              load Bundle.bits (bundles.filter fun b => decide (A b = some w))).sum :=
          load_filter_any_le _ _ hbits
        _ ≤ (sch.plan.windows.map ContactWindow.rawBitBudget).sum :=
          List.sum_le_sum hA.inBudget

end Scheduling

/-! ## The closed form -/

/-- The windows can carry what arrives from the end of the window before to their own end. -/
def Carries (dt : ℚ) (size : ℤ) : ℚ → List ContactWindow → Prop
  | _, [] => True
  | a, w :: ws =>
      ((w.endTs - a) / dt + 1) * ((size : ℚ) * 8) ≤ w.rawBitBudget ∧ Carries dt size w.endTs ws

/-- The numerator of the closed form is the time in which sending succeeds. -/
theorem closedForm_numerator (L : ℚ) (w : ContactWindow) (ws : List ContactWindow) :
    (ws.map ContactWindow.durationS).sum + ((gapsOf (w :: ws)).map (min L)).sum =
      servedTime L w.endTs ws := by
  induction ws generalizing w with
  | nil => simp [gapsOf, servedTime]
  | cons v ws ih =>
      have hgaps : gapsOf (w :: v :: ws) = (v.startTs - w.endTs) :: gapsOf (v :: ws) := rfl
      rw [hgaps, List.map_cons, List.map_cons, List.sum_cons, List.sum_cons, servedTime, ← ih v]
      ring

/-- What `plan_stats` says of a plan. -/
theorem planStats_eq_ok {plan : ContactPlan} {st : PlanStats} (h : planStats plan = .ok st) :
    ∃ w ws, plan.windows = w :: ws ∧ st.span = endOf w.startTs (w :: ws) - w.startTs ∧
      (∀ L, 0 ≤ L → st.contact + ((gapsOf plan.windows).map (min L)).sum =
        servedTime L w.startTs (w :: ws)) ∧
      st.avgBhBps * st.span = (plan.windows.map ContactWindow.rawBitBudget).sum := by
  unfold planStats at h
  cases hwindows : plan.windows with
  | nil =>
      rw [hwindows] at h
      cases h
  | cons w ws =>
      obtain ⟨last, hget, hend⟩ := Option.map_eq_some_iff.1 (getLast?_endTs ws w)
      rw [hwindows, List.head?_cons, hget] at h
      have hspan : 0 < endOf w.endTs ws - w.startTs := by
        have hdisjoint := List.pairwise_cons.1 (hwindows ▸ plan.disjoint)
        have hle := le_endOf hdisjoint.2 fun v hv => hdisjoint.1 v (List.mem_of_mem_head? hv)
        linarith [w.start_lt_end]
      refine ⟨w, ws, rfl, ?_⟩
      cases hgaps : gapsOf (w :: ws) with
      | nil =>
          rw [hgaps] at h
          cases h
      | cons g gaps =>
          rw [hgaps] at h
          cases h
          refine ⟨by rw [hend]; rfl, fun L hL => ?_, ?_⟩
          · have hnum := closedForm_numerator L w ws
            rw [hgaps] at hnum
            rw [servedTime, sub_self, min_eq_right hL, ← hnum, List.map_cons, List.sum_cons]
            ring
          · rw [hend]
            exact div_mul_cancel₀ _ hspan.ne'

section Room

variable {cls : TrafficClass} {size : ℤ} {ttlS t0 dt : ℚ}

/-- The bundles that have a window as their first contact arrive between two instants so close that
it can carry them. -/
theorem Carries.room {a : ℚ} {ws : List ContactWindow} (h : Carries dt size a ws)
    (hdisjoint : ws.Pairwise fun prev nxt => prev.endTs ≤ nxt.startTs)
    (ha : ∀ w ∈ ws.head?, a ≤ w.startTs) :
    ∀ w ∈ ws, ∃ lo ≤ w.startTs,
      ((w.endTs - lo) / dt + 1) * ((size : ℚ) * 8) ≤ w.rawBitBudget ∧
      ∀ t, a ≤ t → ws.find? (fun w => decide (t < w.endTs)) = some w → lo ≤ t := by
  induction ws generalizing a with
  | nil => exact fun w hw => absurd hw List.not_mem_nil
  | cons v ws ih =>
      have hrest := List.pairwise_cons.1 hdisjoint
      intro w hw
      rcases List.mem_cons.1 hw with rfl | hw
      · exact ⟨a, ha w (by simp), h.1, fun t ht _ => ht⟩
      · obtain ⟨lo, hle, hcarry, hlo⟩ := ih h.2 hrest.2
          (fun u hu => hrest.1 u (List.mem_of_mem_head? hu)) w hw
        refine ⟨lo, hle, hcarry, fun t ht hfind => ?_⟩
        by_cases hearly : t < v.endTs
        · -- then `v` would be the first contact
          rw [List.find?_cons_of_pos (by simpa using hearly)] at hfind
          obtain rfl := Option.some.inj hfind
          exact absurd (hrest.1 v hw) (not_le.2 v.start_lt_end)
        · rw [List.find?_cons_of_neg (by simpa using hearly)] at hfind
          exact hlo t (not_lt.1 hearly) hfind

/-- With windows that carry the rate there is room for all arrivals. -/
theorem roomy_arrivals {sch : Scheduler} (hdt : 0 < dt) (hsize : 0 < size) {n : ℕ}
    (hcap : ((n * size : ℤ) : ℚ) ≤ sch.maxQueueBytes)
    (hstart : ∀ w ∈ sch.plan.windows.head?, t0 ≤ w.startTs)
    (h : Carries dt size t0 sch.plan.windows) :
    Roomy sch (arrivals cls size ttlS t0 dt n) := by
  refine ⟨by rwa [totalBytes_arrivals], fun w hw => ?_⟩
  obtain ⟨lo, hle, hcarry, hlo⟩ := h.room sch.plan.disjoint hstart w hw
  have hwaiting : (arrivals cls size ttlS t0 dt n).countP
        (fun b => decide (sch.plan.firstContact b = some w)) =
      tally (fun i => decide (sch.plan.windows.find?
        (fun v => decide (instant t0 dt i < v.endTs)) = some w)) 0 n :=
    countP_arrivals fun t =>
      decide (sch.plan.windows.find? (fun v => decide (t < v.endTs)) = some w)
  have hbetween : tally (fun i => decide (sch.plan.windows.find?
        (fun v => decide (instant t0 dt i < v.endTs)) = some w)) 0 n ≤
      (firstFrom t0 dt w.endTs - firstFrom t0 dt lo).toNat := by
    refine tally_le_of_between fun i hi _ hfind => ?_
    have hfirst := of_decide_eq_true hfind
    have hi' : (0 : ℚ) ≤ i := by exact_mod_cast hi
    have hlate : t0 ≤ instant t0 dt i := by
      rw [instant]
      linarith [mul_nonneg hi' hdt.le]
    have hend : instant t0 dt i < w.endTs := by simpa using List.find?_some hfirst
    exact ⟨(firstFrom_le_iff hdt).2 (hlo _ hlate hfirst), (lt_firstFrom_iff hdt).2 hend⟩
  have hsteps : (((firstFrom t0 dt w.endTs - firstFrom t0 dt lo).toNat : ℕ) : ℚ) ≤
      (w.endTs - lo) / dt + 1 := by
    have hmono : firstFrom t0 dt lo ≤ firstFrom t0 dt w.endTs :=
      firstFrom_mono hdt (hle.trans w.start_lt_end.le)
    calc (((firstFrom t0 dt w.endTs - firstFrom t0 dt lo).toNat : ℕ) : ℚ)
        _ = ((firstFrom t0 dt w.endTs - firstFrom t0 dt lo : ℤ) : ℚ) := by
          exact_mod_cast Int.toNat_of_nonneg (sub_nonneg.2 hmono)
        _ ≤ (w.endTs - lo) / dt + 1 := by
          push_cast
          exact firstFrom_sub_le t0 dt lo w.endTs
  have huniform : ∀ b ∈ (arrivals cls size ttlS t0 dt n).filter
      fun b => decide (sch.plan.firstContact b = some w), b.sizeBytes = size := by
    intro b hb
    obtain ⟨i, -, rfl⟩ := List.mem_map.1 (List.mem_of_mem_filter hb)
    rfl
  have hbits : (0 : ℚ) < (size : ℚ) * 8 := by
    have hsize' : (0 : ℚ) < size := by exact_mod_cast hsize
    linarith
  rw [load_uniform huniform, ← List.countP_eq_length_filter, hwaiting]
  calc (tally _ 0 n : ℚ) * ((size : ℚ) * 8)
      _ ≤ ((w.endTs - lo) / dt + 1) * ((size : ℚ) * 8) :=
        mul_le_mul_of_nonneg_right (le_trans (by exact_mod_cast hbetween) hsteps) hbits.le
      _ ≤ w.rawBitBudget := hcarry

end Room

/-! ## The law -/

/-- The scheduler that `run_class` makes. -/
def loneScheduler (plan : ContactPlan) : Scheduler where
  plan := plan
  maxQueueBytes := huge
  policy := .strictPriority
  maxQueueBytes_pos := by norm_num [huge]

theorem runClass_eq {plan : ContactPlan} {w : ContactWindow} {ws : List ContactWindow}
    (hwindows : plan.windows = w :: ws) {cls : TrafficClass} {ttlS dt : ℚ} (hdt : 0 < dt)
    {rateOverride : Option ℚ} {now : ℚ} {s : SchedulerState} {n fuel : ℕ}
    (hn : n = ⌈(endOf w.startTs (w :: ws) - w.startTs) / dt⌉₊) (hfuel : n ≤ fuel)
    (hexact : ∀ i ≤ n, IsDouble (w.startTs + i * dt))
    (hrun : run (loneScheduler plan) now
      (arrivals cls (bundleSize cls dt rateOverride) ttlS w.startTs dt n)
      (SchedulerState.fresh fun _ => {}) = .ok ⟨⟩ s) :
    runClass plan cls ttlS dt rateOverride now fuel =
      .ok (.of (arrivals cls (bundleSize cls dt rateOverride) ttlS w.startTs dt n) s.records) := by
  have hmake : Scheduler.make plan huge .strictPriority none true = .ok (loneScheduler plan) := by
    have hpos : ¬ huge ≤ 0 := by norm_num [huge]
    rw [Scheduler.make, dif_neg hpos]
    rfl
  have hlast : (w :: ws).getLast?.map ContactWindow.endTs = some (endOf w.startTs (w :: ws)) :=
    getLast?_endTs ws w
  obtain ⟨last, hget, hend⟩ := Option.map_eq_some_iff.1 hlast
  have hloop : arrivalLoop cls (bundleSize cls dt rateOverride) ttlS dt
      (endOf w.startTs (w :: ws)) fuel 0 w.startTs =
      .ok (arrivals cls (bundleSize cls dt rateOverride) ttlS w.startTs dt n) := by
    rw [arrivalLoop_eq hdt n fuel 0 w.startTs hn hfuel hexact]
    exact congrArg Except.ok (List.map_congr_left fun i _ => by simp [instant])
  rw [runClass, hwindows, List.head?_cons, hget]
  simp only [hend]
  rw [hloop, Bytes.ok_bind, hmake, Bytes.ok_bind, hrun]

/-! ### The rate of the bundles -/

section Rate

variable {cls : TrafficClass} {dt : ℚ} {rateOverride : Option ℚ}

/-- Rounding keeps what is between two whole numbers between them. -/
theorem nearestDouble_between {x : ℚ} {m n : ℤ} (hm : 0 ≤ m) (hmx : (m : ℚ) ≤ x)
    (hxn : x ≤ (n : ℚ)) (hn : n < 2 ^ 53) : (m : ℚ) ≤ nearestDouble x ∧ nearestDouble x ≤ n := by
  have hm' : (0 : ℚ) ≤ m := by exact_mod_cast hm
  have hmn : m ≤ n := by exact_mod_cast hmx.trans hxn
  have hdouble : ∀ k : ℤ, 0 ≤ k → k < 2 ^ 53 → nearestDouble (k : ℚ) = k := fun k hk hlt =>
    nearestDouble_of_isDouble (isDouble_intCast (by rwa [abs_of_nonneg hk]))
  constructor
  · calc (m : ℚ)
        _ = nearestDouble (m : ℚ) := (hdouble m hm (by omega)).symm
        _ ≤ nearestDouble x := nearestDouble_mono hm' hmx
  · calc nearestDouble x
        _ ≤ nearestDouble (n : ℚ) := nearestDouble_mono (hm'.trans hmx) hxn
        _ = n := hdouble n (hm.trans hmn) hn

/-- The bundles stand for what is offered in a step, up to a byte. -/
theorem abs_bundleSize_sub_lt (hpos : 0 < offeredRate cls rateOverride * dt)
    (hle : offeredRate cls rateOverride * dt ≤ 2 ^ 52) :
    |(bundleSize cls dt rateOverride : ℚ) - offeredRate cls rateOverride * dt| < 1 := by
  rw [bundleSize]
  generalize offeredRate cls rateOverride * dt = x at hpos hle
  have hceil : ⌈x⌉ < 2 ^ 53 := by
    have hle' : ⌈x⌉ ≤ 2 ^ 52 := Int.ceil_le.2 (by exact_mod_cast hle)
    omega
  have hfloor : 0 ≤ ⌊x⌋ := Int.floor_nonneg.2 hpos.le
  obtain ⟨hlow, hhigh⟩ := nearestDouble_between hfloor (Int.floor_le x) (Int.le_ceil x) hceil
  have hfloor' : (0 : ℚ) ≤ ⌊x⌋ := by exact_mod_cast hfloor
  rw [truncate, if_pos (hfloor'.trans hlow)]
  have hlow' : ⌊x⌋ ≤ ⌊nearestDouble x⌋ := Int.le_floor.2 hlow
  have hhigh' : ⌊nearestDouble x⌋ ≤ ⌈x⌉ := by
    exact_mod_cast (Int.floor_le (nearestDouble x)).trans hhigh
  have hceil_pos : 1 ≤ ⌈x⌉ := Int.one_le_ceil_iff.2 hpos
  have hbetween : ⌊x⌋ ≤ max 1 ⌊nearestDouble x⌋ ∧ max 1 ⌊nearestDouble x⌋ ≤ ⌈x⌉ :=
    ⟨hlow'.trans (le_max_right _ _), max_le hceil_pos hhigh'⟩
  have hleft : (⌊x⌋ : ℚ) ≤ (max 1 ⌊nearestDouble x⌋ : ℤ) := by exact_mod_cast hbetween.1
  have hright : ((max 1 ⌊nearestDouble x⌋ : ℤ) : ℚ) ≤ ⌈x⌉ := by exact_mod_cast hbetween.2
  rw [abs_lt]
  constructor
  · linarith [Int.lt_floor_add_one x]
  · linarith [Int.ceil_lt_add_one x]

/-- Two rates make for closed forms that are no further apart than the rates. -/
theorem min_div_le {p b x y : ℚ} (hp : 0 ≤ p) (hb : 0 ≤ b) (hx : 0 < x) (hy : 0 < y) :
    min p (b / x) ≤ min p (b / y) * max 1 (y / x) := by
  have hone : (1 : ℚ) ≤ max 1 (y / x) := le_max_left _ _
  rw [min_mul_of_nonneg _ _ (zero_le_one.trans hone)]
  refine min_le_min (le_mul_of_one_le_right hp hone) ?_
  calc b / x
      _ = b / y * (y / x) := by field_simp
      _ ≤ b / y * max 1 (y / x) :=
        mul_le_mul_of_nonneg_left (le_max_right _ _) (div_nonneg hb hy.le)

end Rate

theorem servedTime_bounds {L : ℚ} (hL : 0 ≤ L) {ws : List ContactWindow}
    (hdisjoint : ws.Pairwise fun prev nxt => prev.endTs ≤ nxt.startTs) {a : ℚ}
    (ha : ∀ w ∈ ws.head?, a ≤ w.startTs) :
    0 ≤ servedTime L a ws ∧ servedTime L a ws ≤ endOf a ws - a := by
  induction ws generalizing a with
  | nil => simp [servedTime, endOf]
  | cons w ws ih =>
      have hrest := List.pairwise_cons.1 hdisjoint
      obtain ⟨hpos, hle⟩ := ih hrest.2 fun v hv => hrest.1 v (List.mem_of_mem_head? hv)
      have hgap : 0 ≤ w.startTs - a := sub_nonneg.2 (ha w (by simp))
      have hmin : 0 ≤ min L (w.startTs - a) := le_min hL hgap
      have hmin' : min L (w.startTs - a) ≤ w.startTs - a := min_le_right _ _
      have hlength : 0 < w.durationS := sub_pos.2 w.start_lt_end
      rw [servedTime, endOf]
      constructor
      · linarith
      · rw [ContactWindow.durationS]
        linarith

section Shares

variable {D n T W dt span : ℚ}

/-- A count that exceeds its share by at most `W` steps. -/
theorem share_le (hdt : 0 < dt) (hspan : 0 < span) (hn : span / dt ≤ n) (hD : D ≤ T / dt + W)
    (hT : 0 ≤ T) (hW : 0 ≤ W) : D / n ≤ T / span + W * dt / span := by
  have hsteps : 0 < span / dt := div_pos hspan hdt
  calc D / n
      _ ≤ (T / dt + W) / n := div_le_div_of_nonneg_right hD (hsteps.trans_le hn).le
      _ ≤ (T / dt + W) / (span / dt) :=
        div_le_div_of_nonneg_left (add_nonneg (div_nonneg hT hdt.le) hW) hsteps hn
      _ = T / span + W * dt / span := by
        field_simp

/-- A count that falls short of its share by at most `W` steps. -/
theorem le_share (hdt : 0 < dt) (hspan : 0 < span) (hn₀ : 0 < n) (hn : n ≤ span / dt + 1)
    (hD₀ : 0 ≤ D) (hD : T / dt - W ≤ D) (hT : T ≤ span) (hW : 0 ≤ W) :
    T / span ≤ D / n + (W + 1) * dt / span := by
  rcases le_or_gt (T - W * dt) 0 with hfew | hmany
  · -- the share is no more than the error
    have hsmall : T / span ≤ (W + 1) * dt / span :=
      div_le_div_of_nonneg_right (by linarith) hspan.le
    linarith [div_nonneg hD₀ hn₀.le]
  · have hsteps : T / dt - W = (T - W * dt) / dt := by field_simp
    have hshare : (T - W * dt) / (span + dt) ≤ D / n := by
      calc (T - W * dt) / (span + dt)
          _ = ((T - W * dt) / dt) / (span / dt + 1) := by field_simp
          _ ≤ ((T - W * dt) / dt) / n :=
            div_le_div_of_nonneg_left (div_nonneg hmany.le hdt.le) hn₀ hn
          _ ≤ D / n := div_le_div_of_nonneg_right (hsteps ▸ hD) hn₀.le
    have hlonger : T / span - (W + 1) * dt / span ≤ (T - W * dt) / (span + dt) := by
      rw [← sub_div, div_le_div_iff₀ hspan (by linarith)]
      nlinarith [mul_nonneg hW hdt.le, mul_pos hdt hdt]
    linarith

end Shares

section Counts

variable {plan : ContactPlan} {w : ContactWindow} {ws : List ContactWindow} {cls : TrafficClass}
  {size : ℤ} {ttlS dt : ℚ} {n : ℕ}

/-- How many of the arrivals of the span are deliverable. -/
theorem abs_countP_deliverable_sub_le (hwindows : plan.windows = w :: ws) (hdt : 0 < dt)
    (httl : 0 < ttlS) (hn : n = ⌈(endOf w.startTs (w :: ws) - w.startTs) / dt⌉₊) :
    |((arrivals cls size ttlS w.startTs dt n).countP
        (fun b => deliverable ttlS plan.windows b.ingressTs) : ℚ) -
      servedTime ttlS w.startTs (w :: ws) / dt| ≤ plan.windows.length := by
  have hdisjoint := plan.disjoint
  rw [hwindows] at hdisjoint ⊢
  have hends := le_endOf (a := w.startTs) hdisjoint (by simp)
  have hlast : (n : ℤ) = firstFrom w.startTs dt (endOf w.startTs (w :: ws)) := by
    rw [hn, firstFrom]
    exact Int.natCast_ceil_eq_ceil (div_nonneg (sub_nonneg.2 hends) hdt.le)
  rw [countP_arrivals fun t => deliverable ttlS (w :: ws) t, hlast,
    ← firstFrom_self w.startTs dt]
  exact abs_tally_deliverable_sub_le hdt httl hdisjoint (by simp)

/-- What the run of a class comes to: it delivers only deliverable bundles and no more than the
windows carry, and all deliverable ones if there is room. -/
theorem run_arrivals (hwindows : plan.windows = w :: ws) (hdt : 0 < dt) (hsize : 0 < size)
    (now : ℚ) :
    Returns (run (loneScheduler plan) now (arrivals cls size ttlS w.startTs dt n))
      (SchedulerState.fresh fun _ => {}) fun _ s' =>
        let bundles := arrivals cls size ttlS w.startTs dt n
        let result := ClassRun.of bundles s'.records
        let served := bundles.countP fun b => deliverable ttlS plan.windows b.ingressTs
        (terminalStates.map result.cnt).sum = n ∧ result.cnt .delivered ≤ served ∧
        (result.cnt .delivered : ℚ) * (size * 8) ≤
          (plan.windows.map ContactWindow.rawBitBudget).sum ∧
        (((n * size : ℤ) : ℚ) ≤ huge → result.cnt .queueOverflow = 0 ∧
          (Carries dt size w.startTs plan.windows → result.cnt .delivered = served)) := by
  have hvalid : Valid (arrivals cls size ttlS w.startTs dt n) (fun _ => {}) :=
    valid_arrivals hsize
  have hidle := SchedulerState.fresh_idle fun _ => {}
  have hlife : ∀ b ∈ arrivals cls size ttlS w.startTs dt n,
      b.deadline = b.ingressTs + ttlS ∧ b.sizeBytes = size := by
    intro b hb
    obtain ⟨i, -, rfl⟩ := List.mem_map.1 hb
    exact ⟨rfl, rfl⟩
  have hdeliverable : ∀ b ∈ arrivals cls size ttlS w.startTs dt n,
      deliverable ttlS plan.windows b.ingressTs = true ↔
        ∃ v, plan.firstContact b = some v ∧ v.startTs < b.deadline := by
    intro b hb
    rw [deliverable, (hlife b hb).1]
    cases hfind : plan.windows.find? fun v => decide (b.ingressTs < v.endTs) <;>
      simp [ContactPlan.firstContact, hfind]
  have hwithin : Returns (run (loneScheduler plan) now _) (SchedulerState.fresh fun _ => {}) _ :=
    run_within_budgets now hvalid hidle
  have hroomy : ((n * size : ℤ) : ℚ) ≤ huge →
      Returns (run (loneScheduler plan) now (arrivals cls size ttlS w.startTs dt n))
        (SchedulerState.fresh fun _ => {}) _ := fun hcap =>
    (run_no_overflow now (by rw [totalBytes_arrivals]; exact hcap) hvalid hidle).imp
      fun hcarries : Carries dt size w.startTs plan.windows =>
        run_outcome now (roomy_arrivals hdt hsize hcap (by simp [loneScheduler, hwindows]) hcarries)
          hvalid hidle (SchedulerState.fresh_inCredit _)
  refine ((hwithin.and (run_fates (loneScheduler plan) now hvalid hidle)).imp hroomy).mono ?_
  rintro _ s' ⟨⟨⟨husable, hload⟩, hfates⟩, hroom⟩
  refine ⟨?_, ?_, ?_, fun hcap => ⟨?_, fun hcarries => ?_⟩⟩
  · -- every bundle is in one of the four states
    have hterminal : ∀ b ∈ arrivals cls size ttlS w.startTs dt n,
        (s'.records b).terminalState ∈ terminalStates := by
      intro b hb
      refine mem_terminalStates (decide_eq_true fun hpending => ?_)
      have := (hfates b hb).terminal
      simp [hpending] at this
    calc (terminalStates.map fun st => (arrivals cls size ttlS w.startTs dt n).countP fun b =>
          decide ((s'.records b).terminalState = st)).sum
        _ = (arrivals cls size ttlS w.startTs dt n).length :=
          sum_countP_eq_length (fun b => (s'.records b).terminalState) (by decide) hterminal
        _ = n := by simp [arrivals]
  · refine List.countP_mono_left fun b hb hdel => ?_
    obtain ⟨v, hv, huse⟩ := husable b hb (of_decide_eq_true hdel)
    exact deliverable_of_usable hv huse (hlife b hb).1
  · rw [load_uniform fun b hb => (hlife b (List.mem_of_mem_filter hb)).2,
      ← List.countP_eq_length_filter] at hload
    exact hload
  · exact List.countP_eq_zero.2 fun b hb hover =>
      (hroom hcap).1 b hb (of_decide_eq_true hover)
  · refine List.countP_congr fun b hb => ?_
    rw [decide_eq_true_eq, (hroom hcap).2 hcarries b hb, outcome_delivered_iff, hdeliverable b hb]
    rfl

end Counts

/-- The span is not empty, and the windows carry something. -/
theorem planStats_pos {plan : ContactPlan} {st : PlanStats} (hst : planStats plan = .ok st) :
    0 < st.span ∧ 0 ≤ st.avgBhBps := by
  obtain ⟨w, ws, hwindows, hspan, -, hbudget⟩ := planStats_eq_ok hst
  have hdisjoint := plan.disjoint
  rw [hwindows] at hdisjoint
  have hrest := List.pairwise_cons.1 hdisjoint
  have hends := le_endOf hrest.2 fun v hv => hrest.1 v (List.mem_of_mem_head? hv)
  have hpos : 0 < st.span := by
    rw [hspan, endOf]
    linarith [w.start_lt_end]
  have hcarried : 0 ≤ st.avgBhBps * st.span := by
    rw [hbudget]
    refine List.sum_nonneg fun x hx => ?_
    obtain ⟨v, -, rfl⟩ := List.mem_map.1 hx
    exact v.rawBitBudget_pos.le
  exact ⟨hpos, nonneg_of_mul_nonneg_left hcarried hpos⟩

/-- Two rates make for closed forms that are no further apart than the rates. -/
theorem closedFormP_le {plan : ContactPlan} {st : PlanStats} (hst : planStats plan = .ok st)
    {L x y cf cf' : ℚ} (hL : 0 ≤ L) (hx : 0 < x) (hy : 0 < y)
    (hcf : closedFormP plan st L x = .ok cf) (hcf' : closedFormP plan st L y = .ok cf') :
    cf ≤ cf' * max 1 (y / x) := by
  obtain ⟨hspan, hcarried⟩ := planStats_pos hst
  obtain ⟨w, ws, hwindows, -, hserved, -⟩ := planStats_eq_ok hst
  have hdisjoint := plan.disjoint
  rw [hwindows] at hdisjoint
  have hserved₀ := (servedTime_bounds hL hdisjoint (a := w.startTs) (by simp)).1
  rw [closedFormP, if_neg hx.ne'] at hcf
  rw [closedFormP, if_neg hy.ne'] at hcf'
  rw [← Except.ok.inj hcf, ← Except.ok.inj hcf']
  refine min_div_le ?_ hcarried hx hy
  rw [hserved L hL]
  exact div_nonneg hserved₀ hspan.le

/-- Whatever the plan, the class, its rate, its lifetime and the granularity, as long as no instant
of the grid is rounded: every bundle ends in one of the four states, and the delivered share exceeds
the closed form for the rate of the bundles by at most one step for each window.  If the bundles fit
the buffer none of them overflows, and if the windows can carry the rate the share falls short of
the closed form by at most one step more.  The rate of the bundles is the offered one up to a byte
in each step, and the closed form moves with it. -/
theorem scheduler_follows_closed_form {plan : ContactPlan} {st : PlanStats}
    (hst : planStats plan = .ok st) (cls : TrafficClass) {ttlS dt : ℚ} (httl : 0 < ttlS)
    (hdt : 0 < dt) (rateOverride : Option ℚ) (now : ℚ)
    (hexact : ∀ first ∈ plan.windows.head?, ∀ i ≤ ⌈st.span / dt⌉₊,
      IsDouble (first.startTs + i * dt))
    {fuel : ℕ} (hfuel : ⌈st.span / dt⌉₊ ≤ fuel) :
    let size := bundleSize cls dt rateOverride
    let offered := offeredRate cls rateOverride * dt
    ∃ result cf, runClass plan cls ttlS dt rateOverride now fuel = .ok result ∧
      closedFormP plan st ttlS (8 * size / dt) = .ok cf ∧ result.tot = ⌈st.span / dt⌉₊ ∧
      (terminalStates.map result.cnt).sum = result.tot ∧
      result.deliv ≤ cf + plan.windows.length * dt / st.span ∧
      (((result.tot * size : ℤ) : ℚ) ≤ huge → result.cnt .queueOverflow = 0 ∧
        ∀ first ∈ plan.windows.head?, Carries dt size first.startTs plan.windows →
          cf ≤ result.deliv + (plan.windows.length + 1) * dt / st.span) ∧
      (0 < offered → offered ≤ 2 ^ 52 → |(size : ℚ) - offered| < 1 ∧
        ∃ cf', closedFormP plan st ttlS (8 * offeredRate cls rateOverride) = .ok cf' ∧
          cf ≤ cf' * max 1 (offered / size) ∧ cf' ≤ cf * max 1 (size / offered)) := by
  intro size offered
  obtain ⟨hpos, hcarried⟩ := planStats_pos hst
  obtain ⟨w, ws, hwindows, hspan, hserved, hbudget⟩ := planStats_eq_ok hst
  have hsize : 0 < size := lt_of_lt_of_le one_pos (le_max_left _ _)
  have hsize' : (0 : ℚ) < size := by exact_mod_cast hsize
  have hdisjoint := plan.disjoint
  rw [hwindows] at hdisjoint
  obtain ⟨hT₀, hT⟩ := servedTime_bounds httl.le hdisjoint (a := w.startTs) (by simp)
  rw [← hspan] at hT
  have hcount : |((arrivals cls size ttlS w.startTs dt ⌈st.span / dt⌉₊).countP
      (fun b => deliverable ttlS plan.windows b.ingressTs) : ℚ) -
        servedTime ttlS w.startTs (w :: ws) / dt| ≤ plan.windows.length :=
    abs_countP_deliverable_sub_le hwindows hdt httl (by rw [hspan])
  have hrun : Returns (run (loneScheduler plan) now
      (arrivals cls size ttlS w.startTs dt ⌈st.span / dt⌉₊)) (SchedulerState.fresh fun _ => {}) _ :=
    run_arrivals hwindows hdt hsize now
  obtain ⟨_, s', hrun, hstates, hfew, hbits, hroom⟩ := hrun
  have hmore : 0 < st.span / dt := div_pos hpos hdt
  have hn₁ : st.span / dt ≤ (⌈st.span / dt⌉₊ : ℚ) := Nat.le_ceil _
  have hn₂ : (⌈st.span / dt⌉₊ : ℚ) ≤ st.span / dt + 1 := (Nat.ceil_lt_add_one hmore.le).le
  have hn₀ : 0 < (⌈st.span / dt⌉₊ : ℚ) := hmore.trans_le hn₁
  have htot : (ClassRun.of (arrivals cls size ttlS w.startTs dt ⌈st.span / dt⌉₊)
      s'.records).tot = ⌈st.span / dt⌉₊ := by simp [ClassRun.of, arrivals]
  have hdeliv : (ClassRun.of (arrivals cls size ttlS w.startTs dt ⌈st.span / dt⌉₊)
      s'.records).deliv = ((ClassRun.of (arrivals cls size ttlS w.startTs dt ⌈st.span / dt⌉₊)
        s'.records).cnt .delivered : ℚ) / (⌈st.span / dt⌉₊ : ℚ) := by
    have hne : ⌈st.span / dt⌉₊ ≠ 0 := by exact_mod_cast hn₀.ne'
    simp [ClassRun.of, arrivals, hne]
  have hrate : 0 < 8 * (size : ℚ) / dt := div_pos (by linarith) hdt
  have hclosed : ∀ x : ℚ, 0 < x → closedFormP plan st ttlS x = .ok (min
      ((st.contact + ((gapsOf plan.windows).map (min ttlS)).sum) / st.span)
        (st.avgBhBps / x)) := fun x hx => if_neg hx.ne'
  rw [abs_le] at hcount
  have hfew' := (Nat.cast_le (α := ℚ)).2 hfew
  refine ⟨_, _, runClass_eq hwindows hdt (n := ⌈st.span / dt⌉₊) (by rw [hspan]) hfuel
    (hexact w (by rw [hwindows]; rfl)) hrun, hclosed _ hrate, htot, hstates.trans htot.symm, ?_,
    fun hcap => ?_, fun hoffered hle => ⟨abs_bundleSize_sub_lt hoffered hle, ?_⟩⟩
  · rw [hdeliv, hserved ttlS httl.le]
    have herror : 0 ≤ (plan.windows.length : ℚ) * dt / st.span := by positivity
    rw [← min_add_add_right]
    refine le_min ?_ (le_trans ?_ (le_add_of_nonneg_right herror))
    · exact share_le hdt hpos hn₁ (by linarith) hT₀ (Nat.cast_nonneg _)
    · -- the windows carry no more than this share of what is offered
      rw [← hbudget] at hbits
      rw [div_le_div_iff₀ hn₀ hrate]
      calc _ = ((ClassRun.of (arrivals cls size ttlS w.startTs dt ⌈st.span / dt⌉₊)
            s'.records).cnt .delivered : ℚ) * (size * 8) / dt := by ring
        _ ≤ st.avgBhBps * st.span / dt := div_le_div_of_nonneg_right hbits hdt.le
        _ = st.avgBhBps * (st.span / dt) := by ring
        _ ≤ st.avgBhBps * (⌈st.span / dt⌉₊ : ℚ) := mul_le_mul_of_nonneg_left hn₁ hcarried
  · rw [htot] at hcap
    refine ⟨(hroom hcap).1, fun first hfirst hcarries => ?_⟩
    obtain rfl : w = first := by simpa [hwindows] using hfirst
    have hall := (hroom hcap).2 hcarries
    refine (min_le_left _ _).trans ?_
    rw [hdeliv, hserved ttlS httl.le, hall]
    exact le_share hdt hpos hn₀ hn₂ (Nat.cast_nonneg _) (by linarith) hT (Nat.cast_nonneg _)
  · -- both closed forms have the same share of the span
    have hsame : 8 * offeredRate cls rateOverride = 8 * offered / dt := by
      rw [mul_div_assoc, mul_div_cancel_right₀ _ hdt.ne']
    rw [hsame]
    have hrate' : 0 < 8 * offered / dt := div_pos (by linarith) hdt
    have hratio : ∀ a b : ℚ, 8 * a / dt / (8 * b / dt) = a / b := by
      intro a b
      field_simp
    refine ⟨_, hclosed _ hrate', ?_, ?_⟩
    · have hle := closedFormP_le hst httl.le hrate hrate' (hclosed _ hrate) (hclosed _ hrate')
      rwa [hratio] at hle
    · have hle := closedFormP_le hst httl.le hrate' hrate (hclosed _ hrate') (hclosed _ hrate)
      rwa [hratio] at hle

namespace Small

/-- Two contacts of ten seconds with a gap of ten. -/
def twoContacts : ContactPlan := Gateway.Small.farsighted.plan

theorem planStats_twoContacts : planStats twoContacts =
    .ok { n := 2, span := 30, contact := 20, duty := 2 / 3, gmax := 10, gmed := 10
          avgBhBps := 1600 / 3 } := by
  decide +kernel

end Small

/-- Ten bytes a second, on contacts that carry a hundred. -/
theorem scheduler_follows_closed_form_small :
    ∃ result cf, runClass Small.twoContacts .telemetry 5 1 (some 10) 0 30 = .ok result ∧
      closedFormP Small.twoContacts ⟨2, 30, 20, 2 / 3, 10, 10, 1600 / 3⟩ 5 (8 * (10 : ℤ) / 1) =
        .ok cf ∧
      result.tot = 30 ∧ result.deliv ≤ cf + 2 * 1 / 30 ∧ cf ≤ result.deliv + (2 + 1) * 1 / 30 := by
  have hsize : bundleSize .telemetry 1 (some 10) = 10 := by decide +kernel
  have hsteps : ⌈(30 : ℚ) / 1⌉₊ = 30 := by norm_num
  have hexact : ∀ first ∈ Small.twoContacts.windows.head?, ∀ i ≤ ⌈(30 : ℚ) / 1⌉₊,
      IsDouble (first.startTs + i * 1) := by
    rintro first ⟨⟩
    rw [hsteps]
    exact @isDouble_instant 10 1 30 (by norm_num) (by norm_num) (by norm_num)
  obtain ⟨result, cf, hrun, hclosed, htot, -, hle, hroom, -⟩ := scheduler_follows_closed_form
    Small.planStats_twoContacts .telemetry (by norm_num : (0 : ℚ) < 5) one_pos (some 10) 0 hexact
    hsteps.le
  rw [hsize] at hclosed hroom
  rw [hsteps] at htot
  have hfits : ((result.tot * 10 : ℤ) : ℚ) ≤ huge := by
    rw [htot]
    norm_num [huge]
  have hcarries : Carries 1 10 Gateway.Small.window.startTs Small.twoContacts.windows := by
    refine ⟨?_, ?_, trivial⟩ <;> decide +kernel
  exact ⟨result, cf, hrun, hclosed, htot, hle, (hroom hfits).2 Gateway.Small.window rfl hcarries⟩

end Analysis
end LunaBridge
