import LunaBridge.Gateway.ContactPlan

/-!
# Lookups — what the two binary searches of a plan find

A timestamp splits the windows of a plan into those that have `Started` and those still to come.
`activeAt` looks at the last of the former only, `nextAfter` at the first of the latter: since the
windows do not overlap, no other window could cover the timestamp or come sooner.
-/

namespace LunaBridge
namespace Gateway
namespace ContactPlan

variable {plan : ContactPlan} {ts : WithBot ℚ}

/-! ## The split -/

/-- The windows of the plan, cut where they stop having started by `ts`. -/
structure Split (plan : ContactPlan) (ts : WithBot ℚ) (started later : List ContactWindow) :
    Prop where
  windows : plan.windows = started ++ later
  started_le : ∀ v ∈ started, (v.startTs : WithBot ℚ) ≤ ts
  lt_later : ∀ v ∈ later, ts < (v.startTs : WithBot ℚ)

theorem exists_split (plan : ContactPlan) (ts : WithBot ℚ) :
    ∃ started later, Split plan ts started later := by
  have key : ∀ ws : List ContactWindow, ws.Pairwise (fun a b => a.startTs < b.startTs) →
      ∃ started later, ws = started ++ later ∧
        (∀ v ∈ started, (v.startTs : WithBot ℚ) ≤ ts) ∧
        ∀ v ∈ later, ts < (v.startTs : WithBot ℚ) := by
    intro ws
    induction ws with
    | nil => exact fun _ => ⟨[], [], rfl, by simp, by simp⟩
    | cons w ws ih =>
        intro hord
        obtain ⟨hhead, htail⟩ := List.pairwise_cons.1 hord
        by_cases hw : (w.startTs : WithBot ℚ) ≤ ts
        · obtain ⟨started, later, rfl, hstarted, hlater⟩ := ih htail
          refine ⟨w :: started, later, rfl, ?_, hlater⟩
          exact List.forall_mem_cons.2 ⟨hw, hstarted⟩
        · -- `w` is still to come, and so is everything behind it
          have hlt : ts < (w.startTs : WithBot ℚ) := not_le.1 hw
          refine ⟨[], w :: ws, rfl, by simp, List.forall_mem_cons.2 ⟨hlt, fun v hv => ?_⟩⟩
          exact hlt.trans (WithBot.coe_lt_coe.2 (hhead v hv))
  obtain ⟨started, later, hwindows, hstarted, hlater⟩ := key plan.windows plan.pairwise_startTs
  exact ⟨started, later, ⟨hwindows, hstarted, hlater⟩⟩

namespace Split

variable {started later : List ContactWindow}

theorem bisectRight_eq (h : Split plan ts started later) :
    Foundation.Python.bisectRight plan.starts ts = started.length :=
  bisectRight_starts h.windows h.started_le h.lt_later

theorem mem_windows (h : Split plan ts started later) {w : ContactWindow} :
    w ∈ plan.windows ↔ w ∈ started ∨ w ∈ later := by
  rw [h.windows, List.mem_append]

/-- A window that covers the timestamp has started. -/
theorem mem_started (h : Split plan ts started later) {w : ContactWindow} (hw : w ∈ plan.windows)
    (hcov : w.covers ts = true) : w ∈ started := by
  have hstart : (w.startTs : WithBot ℚ) ≤ ts := (of_decide_eq_true hcov).1
  rcases h.mem_windows.1 hw with hmem | hmem
  · exact hmem
  · exact absurd hstart (not_le.2 (h.lt_later w hmem))

/-- `active_at` looks at the last window that has started. -/
theorem activeAt_eq (h : Split plan ts started later) :
    plan.activeAt ts = started.getLast?.filter fun w => w.covers ts := by
  rw [activeAt, h.bisectRight_eq]
  rcases List.eq_nil_or_concat started with rfl | ⟨front, w, rfl⟩
  · rfl
  · rw [List.concat_eq_append] at h ⊢
    have hcand : plan.windows[front.length]? = some w := by simp [h.windows]
    rw [List.length_append, List.length_singleton, List.getLast?_concat]
    simp only [hcand, Option.filter_some]

/-- `next_after` looks on at the first window that has not. -/
theorem nextAfter_eq (h : Split plan ts started later) :
    plan.nextAfter ts = (plan.activeAt ts).or later.head? := by
  have hnext : plan.windows[started.length]? = later.head? := by
    rw [h.windows, List.getElem?_append_right le_rfl, Nat.sub_self, List.head?_eq_getElem?]
  rw [nextAfter, h.bisectRight_eq, hnext]
  cases plan.activeAt ts <;> rfl

/-- The only window that can cover the timestamp is the last one to have started: the others have
ended when it starts. -/
theorem getLast?_of_covers (h : Split plan ts started later) {w : ContactWindow}
    (hw : w ∈ plan.windows) (hcov : w.covers ts = true) : started.getLast? = some w := by
  have hmem := h.mem_started hw hcov
  rcases List.eq_nil_or_concat started with rfl | ⟨front, last, rfl⟩
  · cases hmem
  · rw [List.concat_eq_append] at h hmem ⊢
    rw [List.getLast?_concat]
    rcases List.mem_append.1 hmem with hfront | hlast
    · -- a window in front of the last one has ended where that one starts
      have hdisj := plan.disjoint
      rw [h.windows] at hdisj
      have hover : w.endTs ≤ last.startTs :=
        (List.pairwise_append.1 (List.pairwise_append.1 hdisj).1).2.2 w hfront last (by simp)
      have hlate : (w.endTs : WithBot ℚ) ≤ ts := by
        calc (w.endTs : WithBot ℚ)
            _ ≤ last.startTs := WithBot.coe_le_coe.2 hover
            _ ≤ ts := h.started_le last (by simp)
      exact absurd (of_decide_eq_true hcov).2 (not_lt.2 hlate)
    · rw [List.mem_singleton.1 hlast]

end Split

/-! ## active_at -/

theorem activeAt_eq_some_iff {w : ContactWindow} :
    plan.activeAt ts = some w ↔ w ∈ plan.windows ∧ w.covers ts = true := by
  obtain ⟨started, later, h⟩ := exists_split plan ts
  rw [h.activeAt_eq, Option.filter_eq_some_iff]
  constructor
  · rintro ⟨hlast, hcov⟩
    exact ⟨h.mem_windows.2 (.inl (List.mem_of_getLast? hlast)), hcov⟩
  · rintro ⟨hw, hcov⟩
    exact ⟨h.getLast?_of_covers hw hcov, hcov⟩

theorem activeAt_eq_none_iff :
    plan.activeAt ts = none ↔ ∀ w ∈ plan.windows, w.covers ts = false := by
  rw [Option.eq_none_iff_forall_ne_some]
  constructor
  · intro h w hw
    by_contra hcov
    exact h w (activeAt_eq_some_iff.2 ⟨hw, by simpa using hcov⟩)
  · intro h w hsome
    obtain ⟨hw, hcov⟩ := activeAt_eq_some_iff.1 hsome
    exact absurd hcov (by simp [h w hw])

/-! ## next_after -/

/-- `w` is the first window of the plan to start after `ts`. -/
def FirstAfter (plan : ContactPlan) (ts : WithBot ℚ) (w : ContactWindow) : Prop :=
  w ∈ plan.windows ∧ ts < (w.startTs : WithBot ℚ) ∧
    ∀ v ∈ plan.windows, ts < (v.startTs : WithBot ℚ) → w.startTs ≤ v.startTs

/-- The window at the head of the later ones starts first of them. -/
theorem Split.head?_later_iff {started later : List ContactWindow}
    (h : Split plan ts started later) {w : ContactWindow} :
    later.head? = some w ↔ FirstAfter plan ts w := by
  have hord := plan.pairwise_startTs
  rw [h.windows] at hord
  cases later with
  | nil =>
      refine iff_of_false (by simp) ?_
      rintro ⟨hw, hlt, -⟩
      rw [h.windows, List.append_nil] at hw
      exact absurd (h.started_le w hw) (not_le.2 hlt)
  | cons first later =>
      have hafter := (List.pairwise_cons.1 (List.pairwise_append.1 hord).2.1).1
      have hleast : FirstAfter plan ts first := by
        refine ⟨h.mem_windows.2 (.inr (by simp)), h.lt_later first (by simp), fun v hv hlt => ?_⟩
        rcases h.mem_windows.1 hv with hmem | hmem
        · exact absurd (h.started_le v hmem) (not_le.2 hlt)
        · rcases List.mem_cons.1 hmem with rfl | hmem
          · exact le_rfl
          · exact (hafter v hmem).le
      rw [List.head?_cons, Option.some.injEq]
      constructor
      · rintro rfl
        exact hleast
      · intro hw
        -- both start first, and no two windows start together
        have hstart : first.startTs = w.startTs :=
          le_antisymm (hleast.2.2 w hw.1 hw.2.1) (hw.2.2 first hleast.1 hleast.2.1)
        have hnodup : (plan.windows.map ContactWindow.startTs).Nodup :=
          List.pairwise_map.2 (plan.pairwise_startTs.imp fun {_ _} hlt => hlt.ne)
        exact List.inj_on_of_nodup_map hnodup hleast.1 hw.1 hstart

theorem nextAfter_eq_some_iff {w : ContactWindow} :
    plan.nextAfter ts = some w ↔
      plan.activeAt ts = some w ∨ plan.activeAt ts = none ∧ FirstAfter plan ts w := by
  obtain ⟨started, later, h⟩ := exists_split plan ts
  rw [h.nextAfter_eq, Option.or_eq_some_iff, h.head?_later_iff]

theorem nextAfter_eq_none_iff :
    plan.nextAfter ts = none ↔
      plan.activeAt ts = none ∧ ∀ w ∈ plan.windows, (w.startTs : WithBot ℚ) ≤ ts := by
  obtain ⟨started, later, h⟩ := exists_split plan ts
  rw [h.nextAfter_eq, Option.or_eq_none_iff, List.head?_eq_none_iff]
  refine and_congr_right fun _ => ?_
  constructor
  · rintro rfl w hw
    rw [h.windows, List.append_nil] at hw
    exact h.started_le w hw
  · intro hall
    refine List.eq_nil_iff_forall_not_mem.2 fun w hw => ?_
    exact absurd (hall w (h.mem_windows.2 (.inr hw))) (not_le.2 (h.lt_later w hw))

/-- At the end of a window its successor is next. -/
theorem nextAfter_endTs_getElem? {i : ℕ} {w : ContactWindow} (hw : plan.windows[i]? = some w) :
    plan.nextAfter w.endTs = plan.windows[i + 1]? := by
  obtain ⟨hi, rfl⟩ := List.getElem?_eq_some_iff.1 hw
  have hsplit : plan.windows =
      plan.windows.take i ++ plan.windows[i] :: plan.windows.drop (i + 1) := by
    rw [List.cons_getElem_drop_succ, List.take_append_drop]
  rw [nextAfter_endTs plan hsplit, List.head?_drop]

/-- Both binary searches find what scanning the whole plan would: the one window that covers the
timestamp, or else the one that starts first after it; and at the end of every window its
successor is next. -/
theorem lookups_scan (plan : ContactPlan) :
    (∀ ts : WithBot ℚ,
      (∀ w, plan.activeAt ts = some w ↔ w ∈ plan.windows ∧ w.covers ts = true ∧
        ∀ v ∈ plan.windows, v.covers ts = true → v = w) ∧
      (plan.activeAt ts = none ↔ ¬ ∃ w ∈ plan.windows, w.covers ts = true) ∧
      (∀ w, plan.nextAfter ts = some w ↔ plan.activeAt ts = some w ∨
        plan.activeAt ts = none ∧ w ∈ plan.windows ∧ ts < (w.startTs : WithBot ℚ) ∧
          ∀ v ∈ plan.windows, ts < (v.startTs : WithBot ℚ) → w.startTs ≤ v.startTs) ∧
      (plan.nextAfter ts = none ↔ plan.activeAt ts = none ∧
        ¬ ∃ w ∈ plan.windows, ts < (w.startTs : WithBot ℚ))) ∧
    ∀ i w, plan.windows[i]? = some w → plan.nextAfter w.endTs = plan.windows[i + 1]? := by
  refine ⟨fun ts => ⟨fun w => ?_, ?_, fun w => nextAfter_eq_some_iff, ?_⟩,
    fun i w hw => nextAfter_endTs_getElem? hw⟩
  · constructor
    · intro h
      obtain ⟨hw, hcov⟩ := activeAt_eq_some_iff.1 h
      refine ⟨hw, hcov, fun v hv hcov' => ?_⟩
      have hv' : plan.activeAt ts = some v := activeAt_eq_some_iff.2 ⟨hv, hcov'⟩
      exact Option.some.inj (hv'.symm.trans h)
    · rintro ⟨hw, hcov, -⟩
      exact activeAt_eq_some_iff.2 ⟨hw, hcov⟩
  · rw [activeAt_eq_none_iff]
    push Not
    exact forall₂_congr fun w _ => (Bool.not_eq_true _).symm.to_iff
  · rw [nextAfter_eq_none_iff]
    push Not
    rfl

end ContactPlan
end Gateway
end LunaBridge
