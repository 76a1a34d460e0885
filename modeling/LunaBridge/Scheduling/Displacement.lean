import LunaBridge.Scheduling.Overtaking
import LunaBridge.Scheduling.Reuse

/-!
# Displacement — who gives way to an arrival

`_try_admit` against its purpose: an arrival that cannot get in leaves everything as it is, and one
that can displaces as few queued bundles as the victim order allows.  Both are judged by the bytes
that are queued, while the code judges by its counter; the two agree in every run that starts with
the counter at zero.
-/

namespace LunaBridge
namespace Gateway

open Foundation.Machine Foundation.Selection Foundation.StableSort

/-! ## Shortest prefixes -/

/-- `vs` is the shortest prefix of `order` whose removal from `queued` bytes lets `size` bytes
in. -/
structure ShortestPrefix (sch : Scheduler) (size queued : ℤ) (order vs : List Bundle) : Prop where
  isPrefix : vs.IsPrefix order
  fits : sch.Fits (queued - totalBytes vs) size
  shortest : ∀ us : List Bundle, us.IsPrefix order → sch.Fits (queued - totalBytes us) size →
    vs.length ≤ us.length

/-- The needed victims are a shortest choice. -/
theorem neededVictims_length_le {sch : Scheduler} {size : ℤ} {us order : List Bundle}
    (hus : us.IsPrefix order) :
    ∀ {queued : ℤ}, sch.Fits (queued - totalBytes us) size →
      (neededVictims sch size queued order).length ≤ us.length := by
  obtain ⟨rest, rfl⟩ := hus
  induction us with
  | nil =>
      intro queued hfit
      rw [totalBytes_nil, sub_zero] at hfit
      simp [neededVictims_of_fits hfit]
  | cons u us ih =>
      intro queued hfit
      by_cases hroom : sch.Fits queued size
      · simp [neededVictims_of_fits hroom]
      · have hrest : sch.Fits (queued - u.sizeBytes - totalBytes us) size := by
          simpa [sub_sub] using hfit
        simpa [neededVictims, hroom] using ih hrest

/-- If giving up every candidate makes room, the needed victims are the shortest prefix that
does. -/
theorem neededVictims_shortest {sch : Scheduler} {size queued : ℤ} {order : List Bundle}
    (h : sch.Fits (queued - totalBytes order) size) :
    ShortestPrefix sch size queued order (neededVictims sch size queued order) :=
  ⟨neededVictims_isPrefix sch size queued order, fits_of_neededVictims h,
    fun _ hus hfit => neededVictims_length_le hus hfit⟩

/-! ## The two outcomes of an admission -/

/-- The arrival `b` is lost, and nothing else has changed. -/
structure Rejected (b : Bundle) (s s' : SchedulerState) : Prop where
  overflowed : (s'.records b).terminalState = .queueOverflow
  active : s'.active = s.active
  activeBytes : s'.activeBytes = s.activeBytes
  others : ∀ c, c ≠ b → s'.records c = s.records c

/-- The arrival `b` is queued behind the bundles that stay, and exactly `vs` have gone. -/
structure Admitted (b : Bundle) (vs : List Bundle) (s s' : SchedulerState) : Prop where
  pending : (s'.records b).terminalState = .pending
  stamped : (s'.records b).queueAdmissionTs = some b.ingressTs
  active : s'.active = without s.active vs ++ [b]
  activeBytes : s'.activeBytes = s.activeBytes - totalBytes vs + b.sizeBytes
  evicted : ∀ v ∈ vs, (s'.records v).terminalState = .queueOverflow
  others : ∀ c, c ≠ b → c ∉ vs → s'.records c = s.records c

/-- The call of `_try_admit` for `b` sacrifices no more than it has to. -/
structure DisplacesMinimally (sch : Scheduler) (b : Bundle) (s s' : SchedulerState) : Prop where
  /-- The bundles `b` may not displace leave it no room: it is lost, at no cost. -/
  rejected : ¬ sch.Fits (totalBytes (protectedFrom s.active b)) b.sizeBytes → Rejected b s s'
  /-- They leave room: `b` gets in, and the fewest victims have gone. -/
  admitted : sch.Fits (totalBytes (protectedFrom s.active b)) b.sizeBytes → ∃ vs,
    ShortestPrefix sch b.sizeBytes (totalBytes s.active)
      (victimOrder (candidates s.active b)) vs ∧ Admitted b vs s s'

section Outcomes

variable {sch : Scheduler} {b : Bundle} {s s' : SchedulerState}

/-- An arrival has one of the two outcomes only. -/
theorem Rejected.not_admitted {vs : List Bundle} (h : Rejected b s s') : ¬ Admitted b vs s s' := by
  intro hin
  have hover := h.overflowed
  rw [hin.pending] at hover
  cases hover

theorem Became.rejected (h : Became s (s.toBuffer.drop b) s') : Rejected b s s' := by
  have hbuffer := h.buffer
  refine ⟨?_, (congrArg Buffer.active hbuffer :), (congrArg Buffer.activeBytes hbuffer :),
    fun c hc => ?_⟩
  · rw [hbuffer]
    simp [Buffer.drop, overwrite, Lifecycle.overflowed]
  · rw [hbuffer]
    simp [Buffer.drop, overwrite, hc]

theorem Became.admitted {vs : List Bundle} (h : Became s ((s.toBuffer.evict vs).accept b) s')
    (hb : b ∉ vs) (hpend : (s.records b).terminalState = .pending) : Admitted b vs s s' := by
  have hbuffer := h.buffer
  have hrec : s'.records = (((s.toBuffer.evict vs).accept b).records) :=
    (congrArg Buffer.records hbuffer :)
  refine ⟨?_, ?_, (congrArg Buffer.active hbuffer :), (congrArg Buffer.activeBytes hbuffer :),
    fun v hv => ?_, fun c hc hcv => ?_⟩
  · rw [hrec]
    simpa [Buffer.accept, Buffer.evict, Buffer.remove, Buffer.settle, overwrite,
      Lifecycle.admitted, hb] using hpend
  · rw [hrec]
    simp [Buffer.accept, overwrite, Lifecycle.admitted]
  · have hvb : v ≠ b := fun heq => hb (heq ▸ hv)
    rw [hrec]
    simp [Buffer.accept, Buffer.evict, Buffer.remove, Buffer.settle, overwrite,
      Lifecycle.overflowed, hv, hvb]
  · rw [hrec]
    simp [Buffer.accept, Buffer.evict, Buffer.remove, Buffer.settle, overwrite, hc, hcv]

/-! ## By the counter -/

/-- Whoever fits the counter is admitted, and nobody goes. -/
theorem tryAdmit_of_fits (hpend : (s.records b).terminalState = .pending)
    (hfit : sch.Fits s.activeBytes b.sizeBytes) :
    Returns (tryAdmit sch b b.ingressTs) s fun _ s' => Admitted b [] s s' := by
  refine Returns.get_bind ?_
  rw [if_pos hfit]
  refine (admitOne_spec b s).mono fun _ s' h' => ?_
  have hnone : s.toBuffer.evict [] = s.toBuffer := Buffer.remove_nil _ _
  have hbecame : Became s ((s.toBuffer.evict []).accept b) s' := hnone.symm ▸ h'
  exact hbecame.admitted List.not_mem_nil hpend

/-- Without lower-priority bundles to evict, whoever does not fit the counter is lost. -/
theorem tryAdmit_of_no_candidates (hpend : (s.records b).terminalState = .pending)
    (hfull : ¬ sch.Fits s.activeBytes b.sizeBytes)
    (hnone : sch.admissionIsPriorityAware = true → candidates s.active b = []) :
    Returns (tryAdmit sch b b.ingressTs) s fun _ s' => Rejected b s s' := by
  refine Returns.get_bind ?_
  rw [if_neg hfull]
  by_cases haware : sch.admissionIsPriorityAware = true
  · have hevict : evictLowerPriorityToFit sch b b.ingressTs s = .ok false s := by
      simp [evictLowerPriorityToFit, hnone haware]
      rfl
    rw [if_pos haware]
    refine Returns.ok_bind hevict ?_
    exact (overflow_spec b.ingressTs hpend).mono fun _ s' h' => h'.rejected
  · rw [if_neg haware]
    exact (overflow_spec b.ingressTs hpend).mono fun _ s' h' => h'.rejected

/-! ## By the queue -/

/-- With an exact counter `_try_admit` sacrifices no more than it has to. -/
theorem tryAdmit_displaces_minimally {future : List Bundle}
    (haware : sch.admissionIsPriorityAware = true)
    (h : s.toBuffer.WellFormed sch (b :: future)) :
    Returns (tryAdmit sch b b.ingressTs) s fun _ s' => DisplacesMinimally sch b s s' := by
  refine (tryAdmit_spec h).mono fun _ s' h' => ?_
  have hbecame := h'.1
  have hadm := admission_of_aware haware (fun c hc => h.active_size_pos hc) b
  refine ⟨fun hfull => ?_, fun hroom => ?_⟩
  · rw [if_neg hfull] at hadm
    exact (hbecame.cast (by simp only [Buffer.offer, hadm])).rejected
  · rw [if_pos hroom] at hadm
    have hvictims := admission_victims h.active_nodup hadm
    have hperm : (victimOrder (candidates s.active b)).Perm (candidates s.active b) :=
      sortBy_perm _ _
    refine ⟨_, neededVictims_shortest ?_,
      (hbecame.cast (by simp only [Buffer.offer, hadm])).admitted ?_ (h.pending b (by simp))⟩
    · rwa [totalBytes_perm hperm, totalBytes_candidates]
    · exact fun hb => h.future_notMem_active (List.mem_cons_self) (hvictims.2 b hb).1

end Outcomes

/-! ## Whole runs -/

/-- In every run that starts in `s`, whatever its bundles, every call of `_try_admit` sacrifices no
more than it has to. -/
def AlwaysMinimal (sch : Scheduler) (s : SchedulerState) : Prop :=
  ∀ (records : Bundle → Lifecycle) (bundles : List Bundle), Valid bundles records →
    ∀ made b rest, sch.calls bundles = made ++ .tryAdmit b :: rest →
      ∃ s₁ s₂, made.forM (Call.exec sch) { s with records := records } = .ok ⟨⟩ s₁ ∧
        tryAdmit sch b b.ingressTs s₁ = .ok ⟨⟩ s₂ ∧ DisplacesMinimally sch b s₁ s₂

variable {sch : Scheduler} {s : SchedulerState}

/-- With the counter at zero, every call of every run finds an exact counter. -/
theorem alwaysMinimal_of_idle (haware : sch.admissionIsPriorityAware = true) (hs : s.Idle) :
    AlwaysMinimal sch s := by
  intro records bundles hvalid made b rest hsplit
  have hidle : SchedulerState.Idle { s with records := records } := ⟨hs.active, hs.activeBytes⟩
  have hstart := Valid.wellFormed hvalid hidle sch sch.plan.windows
  rw [← offeredBy_schedulerCalls, hsplit] at hstart
  rcases forM_exec_spec made (.tryAdmit b :: rest) _ hstart with ⟨_, s₁, hmade, hwf⟩
  rcases tryAdmit_displaces_minimally haware hwf with ⟨_, s₂, hadmit, hminimal⟩
  exact ⟨s₁, s₂, hmade, hadmit, hminimal⟩

/-- A MEDIA bundle of `size` bytes that arrives before the first window closes. -/
def probe (sch : Scheduler) (size : ℤ) : Bundle where
  bundleId := "probe"
  flowId := "probe"
  trafficClass := .media
  sizeBytes := size
  ingressTs := (sch.plan.windows.head?.map ContactWindow.endTs).getD 0
  expirationTs := some 0

theorem probe_valid {size : ℤ} (hsize : 0 < size) : Valid [probe sch size] (fun _ => {}) where
  distinct := List.nodup_singleton _
  sizes := by simpa [probe] using hsize
  lifetimes := by simp [probe]
  pending := fun _ _ => rfl

/-- Offering the probe is the first call of its run. -/
theorem calls_probe (sch : Scheduler) (size : ℤ) :
    ∃ rest, sch.calls [probe sch size] = .tryAdmit (probe sch size) :: rest := by
  rw [Scheduler.calls]
  cases hws : sch.plan.windows with
  | nil => exact ⟨_, rfl⟩
  | cons w ws => simp [timeline, arrivalsOf, sortBy, probe, hws, Event.calls]

/-- On an empty queue the probe gets in exactly if its size is at most the cap, by the queue, and
exactly if it fits on top of the counter, by the code. -/
theorem AlwaysMinimal.probe_agrees (hs : s.active = []) (h : AlwaysMinimal sch s) {size : ℤ}
    (hsize : 0 < size) : sch.Fits 0 size ↔ sch.Fits s.activeBytes size := by
  obtain ⟨rest, hcalls⟩ := calls_probe sch size
  rcases h _ _ (probe_valid hsize) [] _ rest hcalls with ⟨s₁, s₂, hmade, hcall, hminimal⟩
  cases hmade
  -- nobody is queued, so nobody is in the way and nobody can go
  have hroom : totalBytes (protectedFrom s.active (probe sch size)) = 0 := by
    simp [protectedFrom, hs]
  have hnone : candidates s.active (probe sch size) = [] := by
    simp [candidates, hs]
  constructor
  · intro hfits
    by_contra hfull
    obtain ⟨vs, _, hin⟩ := hminimal.admitted (by rw [hroom]; exact hfits)
    obtain ⟨_, s', hcall', hlost⟩ := tryAdmit_of_no_candidates (b := probe sch size)
      (s := { s with records := fun _ => {} }) rfl hfull fun _ => hnone
    rw [hcall] at hcall'
    cases hcall'
    exact hlost.not_admitted hin
  · intro hfits
    by_contra hfull
    have hlost := hminimal.rejected (by rw [hroom]; exact hfull)
    obtain ⟨_, s', hcall', hin⟩ := tryAdmit_of_fits (b := probe sch size)
      (s := { s with records := fun _ => {} }) rfl hfits
    rw [hcall] at hcall'
    cases hcall'
    exact hlost.not_admitted hin

/-- If admission is always minimal the counter is exact. -/
theorem AlwaysMinimal.activeBytes_eq_zero (hs : s.BetweenRuns sch) (h : AlwaysMinimal sch s) :
    s.activeBytes = 0 := by
  -- a counter off by at least one byte misjudges a bundle of about the size of the cap
  have hle := Int.floor_le sch.maxQueueBytes
  have hlt := Int.lt_floor_add_one sch.maxQueueBytes
  have hcap := hs.capacity
  have hpos := sch.maxQueueBytes_pos
  rcases lt_trichotomy s.activeBytes 0 with hneg | hzero | hpositive
  · -- too low: a bundle above the cap is let in
    have hnonneg : 0 ≤ ⌊sch.maxQueueBytes⌋ := Int.floor_nonneg.2 hpos.le
    have hagree : sch.Fits 0 (⌊sch.maxQueueBytes⌋ + 1) ↔
        sch.Fits s.activeBytes (⌊sch.maxQueueBytes⌋ + 1) := h.probe_agrees hs.active (by omega)
    have hfits : sch.Fits s.activeBytes (⌊sch.maxQueueBytes⌋ + 1) := by
      have hbelow : s.activeBytes + (⌊sch.maxQueueBytes⌋ + 1) ≤ ⌊sch.maxQueueBytes⌋ := by omega
      exact le_trans (by exact_mod_cast hbelow) hle
    have hcontra := hagree.2 hfits
    rw [Scheduler.Fits] at hcontra
    push_cast at hcontra
    linarith
  · exact hzero
  · -- too high: a bundle of the size of the cap is lost
    have hone : 1 ≤ ⌊sch.maxQueueBytes⌋ := by
      have hfloor := Int.le_floor.2 hcap
      omega
    have hagree : sch.Fits 0 ⌊sch.maxQueueBytes⌋ ↔
        sch.Fits s.activeBytes ⌊sch.maxQueueBytes⌋ := h.probe_agrees hs.active (by omega)
    have hfits : sch.Fits 0 ⌊sch.maxQueueBytes⌋ := by
      rw [Scheduler.Fits, zero_add]
      exact hle
    have hcontra := hagree.1 hfits
    have habove : ⌊sch.maxQueueBytes⌋ + 1 ≤ s.activeBytes + ⌊sch.maxQueueBytes⌋ := by omega
    have habove' : ((⌊sch.maxQueueBytes⌋ + 1 : ℤ) : ℚ) ≤
        ((s.activeBytes + ⌊sch.maxQueueBytes⌋ : ℤ) : ℚ) := by exact_mod_cast habove
    rw [Scheduler.Fits] at hcontra
    push_cast at hcontra habove'
    linarith

/-- Admission is minimal in every run exactly if the counter is zero when the runs
start, as it is on a new scheduler.  Without priority-aware admission the counter alone decides,
and nobody is ever evicted. -/
theorem alwaysMinimal_iff (hs : s.BetweenRuns sch) :
    (sch.admissionIsPriorityAware = true → (AlwaysMinimal sch s ↔ s.activeBytes = 0)) ∧
    (sch.admissionIsPriorityAware = false → ∀ (s₁ : SchedulerState) (b : Bundle),
      (s₁.records b).terminalState = .pending →
      ∃ s₂, tryAdmit sch b b.ingressTs s₁ = .ok ⟨⟩ s₂ ∧
        (sch.Fits s₁.activeBytes b.sizeBytes → Admitted b [] s₁ s₂) ∧
        (¬ sch.Fits s₁.activeBytes b.sizeBytes → Rejected b s₁ s₂)) := by
  refine ⟨fun haware => ⟨fun h => ?_, fun hzero => ?_⟩, fun hblind s₁ b hpend => ?_⟩
  · exact h.activeBytes_eq_zero hs
  · exact alwaysMinimal_of_idle haware ⟨hs.active, hzero⟩
  · by_cases hfit : sch.Fits s₁.activeBytes b.sizeBytes
    · rcases tryAdmit_of_fits hpend hfit with ⟨_, s₂, hrun, hin⟩
      exact ⟨s₂, hrun, fun _ => hin, fun hfull => absurd hfit hfull⟩
    · rcases tryAdmit_of_no_candidates hpend hfit (by simp [hblind]) with ⟨_, s₂, hrun, hlost⟩
      exact ⟨s₂, hrun, fun hfit' => absurd hfit' hfit, fun _ => hlost⟩

theorem alwaysMinimal_iff_small :
    AlwaysMinimal Small.scheduler (SchedulerState.fresh fun _ => {}) ↔
      (SchedulerState.fresh fun _ => {}).activeBytes = 0 :=
  (alwaysMinimal_iff ((SchedulerState.fresh_idle _).betweenRuns Small.scheduler)).1 rfl

/-- A first run leaves 2000 bytes on the counter.  The second run then loses a bundle on an empty
queue. -/
theorem leftover_bytes_reject_on_an_empty_queue :
    ∃ s' s'', run Small.scheduler 0 [Small.bulky "first"] (SchedulerState.fresh fun _ => {}) =
        .ok ⟨⟩ s' ∧ s'.active = [] ∧
      tryAdmit Small.scheduler (Small.bulky "second") (Small.bulky "second").ingressTs s' =
        .ok ⟨⟩ s'' ∧
      Small.scheduler.Fits (totalBytes (protectedFrom s'.active (Small.bulky "second")))
        (Small.bulky "second").sizeBytes ∧
      (s''.records (Small.bulky "second")).terminalState = .queueOverflow ∧
      ¬ DisplacesMinimally Small.scheduler (Small.bulky "second") s' s'' := by
  have hrun : (finalState (run Small.scheduler 0 [Small.bulky "first"]
      (SchedulerState.fresh fun _ => {}))).map (fun s => (s.active, s.activeBytes,
        (s.records (Small.bulky "second")).terminalState)) = some ([], 2000, .pending) := by
    decide +kernel
  obtain ⟨s', hrun', hfacts⟩ := finalState_map_eq_some hrun
  simp only [Prod.mk.injEq] at hfacts
  rcases hfacts with ⟨hactive, hbytes, hpend⟩
  have hfull : ¬ Small.scheduler.Fits s'.activeBytes (Small.bulky "second").sizeBytes := by
    rw [hbytes]
    decide +kernel
  have hroom : Small.scheduler.Fits (totalBytes (protectedFrom s'.active (Small.bulky "second")))
      (Small.bulky "second").sizeBytes := by
    rw [hactive]
    decide +kernel
  rcases tryAdmit_of_no_candidates hpend hfull (by simp [candidates, hactive]) with
    ⟨_, s'', hadmit, hlost⟩
  refine ⟨s', s'', hrun', hactive, hadmit, hroom, hlost.overflowed, fun hminimal => ?_⟩
  obtain ⟨vs, _, hin⟩ := hminimal.admitted hroom
  have hover := hlost.overflowed
  rw [hin.pending] at hover
  cases hover

end Gateway
end LunaBridge
