import LunaBridge.Scheduling.Run

/-!
# Tracking — following every bundle through a run

`Tracked Settled` follows every bundle from its arrival through the queue until its record is
settled, that is until `Settled` holds of it.  Each buffer operation keeps track, provided the
records it settles are ones `Settled` allows.
-/

namespace LunaBridge
namespace Gateway

open Foundation.Selection Foundation.StableSort

theorem Bundle.expirationTs_eq {b : Bundle} (h : b.expirationTs ≠ none) :
    b.expirationTs = some b.deadline := by
  rcases Option.ne_none_iff_exists'.1 h with ⟨e, he⟩
  simp [Bundle.deadline, he]

theorem Bundle.expiredBy_iff {b : Bundle} (h : b.expirationTs ≠ none) (t : ℚ) :
    b.expiredBy t = true ↔ b.deadline ≤ t := by
  simp [Bundle.expiredBy, Bundle.expirationTs_eq h]

/-- The expiry pass keeps only bundles that are still alive. -/
theorem alive_of_mem_expire {sch : Scheduler} {future : List Bundle} {β : Buffer} {b : Bundle}
    {t : ℚ} (h : β.WellFormed sch future) (hb : b ∈ (β.expire t).active) : t < b.deadline := by
  rcases mem_without.1 hb with ⟨hact, hkept⟩
  by_contra hdead
  refine hkept (List.mem_filter.2 ⟨hact, ?_⟩)
  exact (Bundle.expiredBy_iff (h.active_lifetime hact) t).2 (not_lt.1 hdead)

/-- What a contact may send is queued, arrives before the window closes and is alive when it
opens. -/
theorem of_mem_ready_expire {sch : Scheduler} {future : List Bundle} {β : Buffer} {b : Bundle}
    {w : ContactWindow} (h : β.WellFormed sch future) (hb : b ∈ (β.expire w.startTs).ready w) :
    b ∈ β.active ∧ b.ingressTs < w.endTs ∧ w.startTs < b.deadline := by
  rcases Buffer.mem_ready.1 hb with ⟨hact, harrived⟩
  exact ⟨(mem_without.1 hact).1, harrived, alive_of_mem_expire h hact⟩

/-! ## The invariant -/

/-- Where every bundle stands while the bundles of `future` have not been offered yet. -/
structure Tracked (Settled : Bundle → Lifecycle → Prop) (bundles : List Bundle)
    (records : Bundle → Lifecycle) (future : List Bundle) (β : Buffer) : Prop where
  awaited : ∀ b ∈ future, β.records b = records b
  queued : ∀ b ∈ β.active, β.records b = (records b).admitted b.ingressTs
  settled : ∀ b ∈ bundles, b ∉ future → b ∉ β.active → Settled b (β.records b)

namespace Tracked

variable {sch : Scheduler} {Settled : Bundle → Lifecycle → Prop} {bundles vs future : List Bundle}
  {records : Bundle → Lifecycle} {β : Buffer} {b : Bundle}

/-- Queued bundles may leave with a settled record. -/
theorem remove {f : Lifecycle → Lifecycle} (h : Tracked Settled bundles records future β)
    (hwf : β.WellFormed sch future) (hsub : ∀ v ∈ vs, v ∈ β.active)
    (hsettled : ∀ v ∈ vs, Settled v (f ((records v).admitted v.ingressTs))) :
    Tracked Settled bundles records future (β.remove f vs) := by
  have hkeep : ∀ c, c ∉ vs → (β.remove f vs).records c = β.records c := fun c hc =>
    overwrite_of_notMem hc
  refine ⟨fun c hc => ?_, fun c hc => ?_, fun c hcb hoff hact => ?_⟩
  · rw [hkeep c fun hv => hwf.future_notMem_active hc (hsub c hv)]
    exact h.awaited c hc
  · rcases mem_without.1 hc with ⟨hact, hv⟩
    rw [hkeep c hv]
    exact h.queued c hact
  · by_cases hv : c ∈ vs
    · have hrec : (β.remove f vs).records c = f (β.records c) := overwrite_of_mem hv
      rw [hrec, h.queued c (hsub c hv)]
      exact hsettled c hv
    · rw [hkeep c hv]
      exact h.settled c hcb hoff fun hact' => hact (mem_without.2 ⟨hact', hv⟩)

theorem drop (h : Tracked Settled bundles records (b :: future) β)
    (hwf : β.WellFormed sch (b :: future)) (hdrop : Settled b (records b).overflowed) :
    Tracked Settled bundles records future (β.drop b) := by
  have hb : b ∉ future := hwf.next_notMem_future
  have hact : b ∉ β.active := hwf.future_notMem_active (by simp)
  have hkeep : ∀ c, c ≠ b → (β.drop b).records c = β.records c := fun c hc =>
    overwrite_of_notMem (by simpa using hc)
  refine ⟨fun c hc => ?_, fun c hc => ?_, fun c hcb hoff hcact => ?_⟩
  · rw [hkeep c fun heq => hb (heq ▸ hc)]
    exact h.awaited c (List.mem_cons_of_mem _ hc)
  · rw [hkeep c fun heq => hact (heq ▸ hc)]
    exact h.queued c hc
  · -- the dropped bundle is settled now, the others were before
    by_cases hcb' : c = b
    · subst hcb'
      have hrec : (β.drop c).records c = (β.records c).overflowed := overwrite_of_mem (by simp)
      rw [hrec, h.awaited c (by simp)]
      exact hdrop
    · rw [hkeep c hcb']
      exact h.settled c hcb (by simp [hcb', hoff]) hcact

theorem accept (h : Tracked Settled bundles records (b :: future) β)
    (hwf : β.WellFormed sch (b :: future)) :
    Tracked Settled bundles records future (β.accept b) := by
  have hb : b ∉ future := hwf.next_notMem_future
  have hact : b ∉ β.active := hwf.future_notMem_active (by simp)
  have hkeep : ∀ c, c ≠ b → (β.accept b).records c = β.records c := fun c hc =>
    overwrite_of_notMem (by simpa using hc)
  refine ⟨fun c hc => ?_, fun c hc => ?_, fun c hcb hoff hcact => ?_⟩
  · rw [hkeep c fun heq => hb (heq ▸ hc)]
    exact h.awaited c (List.mem_cons_of_mem _ hc)
  · rcases List.mem_append.1 hc with hc | hc
    · rw [hkeep c fun heq => hact (heq ▸ hc)]
      exact h.queued c hc
    · obtain rfl := List.mem_singleton.1 hc
      have hrec : (β.accept c).records c = (β.records c).admitted c.ingressTs :=
        overwrite_of_mem (by simp)
      rw [hrec, h.awaited c (by simp)]
  · have hcb' : c ≠ b := by
      rintro rfl
      exact hcact (List.mem_append_right _ (by simp))
    rw [hkeep c hcb']
    exact h.settled c hcb (by simp [hcb', hoff]) fun hc => hcact (List.mem_append_left _ hc)

/-- An arrival is queued, with its victims settled, or settled itself. -/
theorem offer (h : Tracked Settled bundles records (b :: future) β)
    (hwf : β.WellFormed sch (b :: future)) (hdrop : Settled b (records b).overflowed)
    (hevict : ∀ v ∈ β.active, Settled v ((records v).admitted v.ingressTs).overflowed) :
    Tracked Settled bundles records future (β.offer sch b) := by
  unfold Buffer.offer
  cases hadm : sch.admission β.active b with
  | none => exact h.drop hwf hdrop
  | some vs =>
      rcases admission_victims hwf.active_nodup hadm with ⟨hvs, hsub⟩
      have hgone := h.remove (f := Lifecycle.overflowed) hwf (fun v hv => (hsub v hv).1)
        fun v hv => hevict v (hsub v hv).1
      exact hgone.accept (hwf.evict hvs fun v hv => (hsub v hv).1)

/-- Before the first event every bundle is awaited. -/
theorem start {s : SchedulerState} (hs : s.Idle) {ws : List ContactWindow} :
    Tracked Settled bundles s.records (offered (timeline ws bundles)) s.toBuffer := by
  refine ⟨fun _ _ => rfl, fun c hc => ?_, fun c hc hoff => ?_⟩
  · rw [hs.active] at hc
    cases hc
  · rw [offered_timeline, mem_sortBy] at hoff
    exact absurd hc hoff

/-- The last expiry pass and the sweep settle what is left in the queue. -/
theorem finish {lastEnd : Option ℚ} (h : Tracked Settled bundles records [] β)
    (hwf : β.WellFormed sch [])
    (hdead : ∀ c ∈ β.active, ∀ lastEndTs, lastEnd = some lastEndTs → c.deadline ≤ lastEndTs →
      Settled c ((records c).admitted c.ingressTs).expired)
    (hleft : ∀ c ∈ β.active, (∀ lastEndTs, lastEnd = some lastEndTs → lastEndTs < c.deadline) →
      Settled c ((records c).admitted c.ingressTs).unscheduled) :
    ∀ b ∈ bundles, Settled b ((β.lastExpire lastEnd).sweep.records b) := by
  -- after the last expiry pass only bundles that outlive the plan are queued
  have hlast : Tracked Settled bundles records [] (β.lastExpire lastEnd) ∧
      ∀ c ∈ (β.lastExpire lastEnd).active, c ∈ β.active ∧
        ∀ lastEndTs, lastEnd = some lastEndTs → lastEndTs < c.deadline := by
    cases lastEnd with
    | none => exact ⟨h, fun c hc => ⟨hc, nofun⟩⟩
    | some lastEndTs =>
        refine ⟨h.remove hwf (fun v hv => List.mem_of_mem_filter hv) fun v hv => ?_, ?_⟩
        · rcases List.mem_filter.1 hv with ⟨hact, hexp⟩
          exact hdead v hact lastEndTs rfl
            ((Bundle.expiredBy_iff (hwf.active_lifetime hact) lastEndTs).1 hexp)
        · rintro c hc
          refine ⟨(mem_without.1 hc).1, ?_⟩
          rintro _ ⟨⟩
          exact alive_of_mem_expire hwf hc
  intro b hb
  by_cases hact : b ∈ (β.lastExpire lastEnd).active
  · have hrec : (β.lastExpire lastEnd).sweep.records b =
        ((β.lastExpire lastEnd).records b).unscheduled := overwrite_of_mem hact
    rw [hrec, hlast.1.queued b hact]
    exact hleft b (hlast.2 b hact).1 (hlast.2 b hact).2
  · have hrec : (β.lastExpire lastEnd).sweep.records b =
        (β.lastExpire lastEnd).records b := overwrite_of_notMem hact
    rw [hrec]
    exact hlast.1.settled b hb (by simp) hact

end Tracked

end Gateway
end LunaBridge
