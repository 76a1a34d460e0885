import LunaBridge.Scheduling.Effect

/-!
# Admission — what `_try_admit` decides and does

`Scheduler.admission` is the decision in closed form: the arrival is admitted with a list of
victims, or dropped.  `tryAdmit_spec` shows that `_try_admit`, with its eviction loop, carries out
exactly this decision on a well-formed buffer.
-/

namespace LunaBridge
namespace Gateway

open Foundation.Machine Foundation.Selection Foundation.StableSort

/-! ## The victims that have to go -/

/-- The shortest prefix of `vs` whose removal from `queued` bytes lets `size` bytes in. -/
def neededVictims (sch : Scheduler) (size : ℤ) : ℤ → List Bundle → List Bundle
  | _, [] => []
  | queued, v :: vs =>
      if sch.Fits queued size then
        []
      else
        v :: neededVictims sch size (queued - v.sizeBytes) vs

section Victims

variable {sch : Scheduler} {size : ℤ}

theorem neededVictims_isPrefix (sch : Scheduler) (size queued : ℤ) (vs : List Bundle) :
    (neededVictims sch size queued vs).IsPrefix vs := by
  induction vs generalizing queued with
  | nil => exact List.prefix_refl _
  | cons v vs ih =>
      by_cases hfit : sch.Fits queued size
      · simp [neededVictims, hfit]
      · simpa [neededVictims, hfit] using ih (queued - v.sizeBytes)

/-- If giving up every candidate makes room, the needed ones make room. -/
theorem fits_of_neededVictims {queued : ℤ} {vs : List Bundle}
    (h : sch.Fits (queued - totalBytes vs) size) :
    sch.Fits (queued - totalBytes (neededVictims sch size queued vs)) size := by
  induction vs generalizing queued with
  | nil => simpa [neededVictims] using h
  | cons v vs ih =>
      by_cases hfit : sch.Fits queued size
      · simp [neededVictims, hfit]
      · have hrest : sch.Fits (queued - v.sizeBytes - totalBytes vs) size := by
          simpa [sub_sub] using h
        simpa [neededVictims, hfit, sub_sub] using ih hrest

/-- Bytes that are given up are not missed: less in the queue fits as well. -/
theorem Scheduler.Fits.mono {queued queued' : ℤ} (h : sch.Fits queued size)
    (hle : queued' ≤ queued) : sch.Fits queued' size := by
  refine le_trans ?_ h
  exact_mod_cast Int.add_le_add_right hle size

theorem neededVictims_of_fits {queued : ℤ} {vs : List Bundle} (h : sch.Fits queued size) :
    neededVictims sch size queued vs = [] := by
  cases vs with
  | nil => rfl
  | cons v vs => simp [neededVictims, h]

/-- The candidates at the back of the list only have to go if those in front do not suffice. -/
theorem neededVictims_append {queued : ℤ} {us vs : List Bundle}
    (hus : ∀ u ∈ us, 0 < u.sizeBytes) :
    neededVictims sch size queued (us ++ vs) =
      neededVictims sch size queued us ++
        neededVictims sch size (queued - totalBytes us) vs := by
  induction us generalizing queued with
  | nil => simp [neededVictims]
  | cons u us ih =>
      by_cases hfit : sch.Fits queued size
      · -- there is room already, and there is once the front has gone
        have hpos := totalBytes_nonneg hus
        have hless : sch.Fits (queued - totalBytes (u :: us)) size := hfit.mono (by omega)
        rw [neededVictims_of_fits hfit, neededVictims_of_fits hfit, neededVictims_of_fits hless]
        rfl
      · have hrest : neededVictims sch size (queued - u.sizeBytes) (us ++ vs) = _ :=
          ih fun c hc => hus c (List.mem_cons_of_mem _ hc)
        simp [neededVictims, hfit, hrest, sub_sub]

/-- The loop evicts one victim and goes on. -/
theorem evict_then {v : Bundle} {s : SchedulerState} {loop : SchedM PUnit} {ts : ℚ}
    {post : PUnit → SchedulerState → Prop} (hnd : s.active.Nodup) (hv : v ∈ s.active)
    (hpend : (s.records v).terminalState = .pending)
    (hloop : ∀ s', Became s (s.toBuffer.evict [v]) s' → Returns loop s' post) :
    Returns (do
      removeActive v
      addActiveBytes (-v.sizeBytes)
      mark v .queueOverflow ts
      log ts v .drop "evicted_by_priority" none
      loop) s post := by
  refine (removeActive_spec hv).bind fun _ s₁ h₁ => ?_
  refine (addActiveBytes_spec _ s₁).bind fun _ s₂ h₂ => ?_
  have hmark : Lifecycle.mark v (s₂.records v) .queueOverflow ts =
      .ok (Lifecycle.overflowed (s₂.records v)) := by
    rw [h₂.buffer, h₁.buffer]
    simp [Lifecycle.mark_pending hpend, Lifecycle.overflowed]
  refine (mark_spec hmark).bind fun _ s₃ h₃ => ?_
  refine (log_spec _ _ _ _ _ s₃).bind fun _ s₄ h₄ => hloop s₄ ?_
  refine (((h₁.trans h₂).trans h₃).trans h₄).cast ?_
  rw [h₃.buffer, h₂.buffer, h₁.buffer]
  ext1
  · exact erase_eq_without hnd v
  · simp [Buffer.evict, Buffer.remove, Buffer.settle, sub_eq_add_neg]
  · rfl

/-- The others stay as they are. -/
theorem evict_other {u v : Bundle} {β : Buffer} (hne : u ≠ v) (hu : u ∈ β.active) :
    u ∈ (β.evict [v]).active ∧ (β.evict [v]).records u = β.records u := by
  have huv : u ∉ [v] := fun hmem => hne (List.mem_singleton.1 hmem)
  exact ⟨mem_without.2 ⟨hu, huv⟩, overwrite_of_notMem huv⟩

/-- The eviction loop evicts exactly the needed victims. -/
theorem evictLoop_spec (sch : Scheduler) (incoming : Bundle) (ts : ℚ) :
    ∀ (vs : List Bundle) (s : SchedulerState), s.active.Nodup → vs.Nodup →
      (∀ v ∈ vs, v ∈ s.active) → (∀ v ∈ vs, (s.records v).terminalState = .pending) →
      Returns (evictLoop sch incoming ts vs) s fun _ s' =>
        Became s (s.toBuffer.evict (neededVictims sch incoming.sizeBytes s.activeBytes vs)) s' := by
  intro vs
  induction vs with
  | nil =>
      intro s _ _ _ _
      exact Returns.pure ((Became.refl s).cast (by simp [neededVictims, Buffer.evict]))
  | cons v vs ih =>
      intro s hnd hvs hsub hpend
      refine Returns.get_bind ?_
      by_cases hfit : sch.Fits s.activeBytes incoming.sizeBytes
      · rw [if_pos hfit]
        exact Returns.pure ((Became.refl s).cast (by simp [neededVictims, hfit, Buffer.evict]))
      · rw [if_neg hfit]
        rcases List.nodup_cons.1 hvs with ⟨hv, hvs'⟩
        refine evict_then hnd (hsub v (by simp)) (hpend v (by simp)) fun s₁ hone => ?_
        -- one victim has gone; the loop goes on with the others
        have hothers : ∀ u ∈ vs, u ∈ s₁.active ∧ s₁.records u = s.records u := by
          intro u hu
          rw [hone.buffer]
          exact evict_other (fun huv => hv (huv ▸ hu)) (hsub u (List.mem_cons_of_mem _ hu))
        have hnd₁ : s₁.active.Nodup := by
          rw [hone.buffer]
          exact hnd.filter _
        have hpend₁ : ∀ u ∈ vs, (s₁.records u).terminalState = .pending := fun u hu =>
          (hothers u hu).2 ▸ hpend u (List.mem_cons_of_mem _ hu)
        refine (ih s₁ hnd₁ hvs' (fun u hu => (hothers u hu).1) hpend₁).mono
          fun _ s' h' => (hone.trans h').cast ?_
        have hbytes : s₁.activeBytes = s.activeBytes - v.sizeBytes := by
          rw [hone.buffer]
          simp [Buffer.evict, Buffer.remove, Buffer.settle]
        have hprefix := (neededVictims_isPrefix sch incoming.sizeBytes
          (s.activeBytes - v.sizeBytes) vs).subset
        rw [hbytes, hone.buffer]
        simp only [neededVictims, hfit, if_false]
        exact Buffer.remove_remove s.toBuffer fun u hu hmem =>
          hv (List.mem_singleton.1 hu ▸ hprefix hmem)

end Victims

/-! ## The decision -/

/-- The queued bundles `b` may not displace. -/
def protectedFrom (active : List Bundle) (b : Bundle) : List Bundle :=
  active.filter fun c => decide (c.rank ≤ b.rank)

/-- What happens to the arrival `b`: `some vs` admits it once the victims `vs` have gone, `none`
drops it.  With priority-aware admission only the bundles of its own or higher priority stand in
its way. -/
def Scheduler.admission (sch : Scheduler) (active : List Bundle) (b : Bundle) :
    Option (List Bundle) :=
  if sch.Fits (totalBytes active) b.sizeBytes then
    some []
  else if sch.admissionIsPriorityAware = true ∧
      sch.Fits (totalBytes (protectedFrom active b)) b.sizeBytes then
    some (neededVictims sch b.sizeBytes (totalBytes active) (victimOrder (candidates active b)))
  else
    none

/-- The decision carried out on the buffer. -/
def Buffer.offer (sch : Scheduler) (b : Bundle) (β : Buffer) : Buffer :=
  match sch.admission β.active b with
  | some vs => (β.evict vs).accept b
  | none => β.drop b

theorem candidates_eq (active : List Bundle) (b : Bundle) :
    candidates active b = active.filter fun c => !decide (c.rank ≤ b.rank) := by
  apply List.filter_congr
  intro c _
  rw [← decide_not, decide_eq_decide, not_le]

/-- Giving up every candidate leaves the protected bundles. -/
theorem totalBytes_candidates (active : List Bundle) (b : Bundle) :
    totalBytes active - totalBytes (candidates active b) =
      totalBytes (protectedFrom active b) := by
  have h := totalBytes_filter_add (fun c => decide (c.rank ≤ b.rank)) active
  rw [candidates_eq, protectedFrom]
  omega

/-- The decision depends on the configuration only through the cap and the admission mode. -/
theorem admission_congr {sch sch' : Scheduler} (hcap : sch'.maxQueueBytes = sch.maxQueueBytes)
    (haware : sch'.admissionIsPriorityAware = sch.admissionIsPriorityAware) :
    sch'.admission = sch.admission := by
  have hfits : sch'.Fits = sch.Fits := by
    funext queued size
    rw [Scheduler.Fits, Scheduler.Fits, hcap]
  have hneeded : ∀ size queued vs,
      neededVictims sch' size queued vs = neededVictims sch size queued vs := by
    intro size queued vs
    induction vs generalizing queued with
    | nil => rfl
    | cons v vs ih => simp [neededVictims, hfits, ih]
  funext active b
  simp [Scheduler.admission, hfits, haware, hneeded]

/-- With priority-aware admission the protected bundles alone decide. -/
theorem admission_of_aware {sch : Scheduler} (haware : sch.admissionIsPriorityAware = true)
    {active : List Bundle} (hsizes : ∀ c ∈ active, 0 < c.sizeBytes) (b : Bundle) :
    sch.admission active b =
      if sch.Fits (totalBytes (protectedFrom active b)) b.sizeBytes then
        some (neededVictims sch b.sizeBytes (totalBytes active)
          (victimOrder (candidates active b)))
      else
        none := by
  unfold Scheduler.admission
  by_cases hfit : sch.Fits (totalBytes active) b.sizeBytes
  · -- with room for all of them there is room for the protected ones, and no victim is needed
    have hcand : 0 ≤ totalBytes (candidates active b) :=
      totalBytes_nonneg fun c hc => hsizes c (List.mem_of_mem_filter hc)
    have hprot : sch.Fits (totalBytes (protectedFrom active b)) b.sizeBytes := by
      refine hfit.mono ?_
      have := totalBytes_candidates active b
      omega
    rw [if_pos hfit, if_pos hprot, neededVictims_of_fits hfit]
  · rw [if_neg hfit]
    simp [haware]

/-- Victims are queued bundles of strictly lower priority, each listed once. -/
theorem admission_victims {sch : Scheduler} {active : List Bundle} {b : Bundle}
    {vs : List Bundle} (hnd : active.Nodup) (h : sch.admission active b = some vs) :
    vs.Nodup ∧ ∀ v ∈ vs, v ∈ active ∧ b.rank < v.rank := by
  have hneeded := neededVictims_isPrefix sch b.sizeBytes (totalBytes active)
    (victimOrder (candidates active b))
  unfold Scheduler.admission at h
  split at h
  · cases h
    simp
  · split at h
    · cases h
      have hperm : (victimOrder (candidates active b)).Perm (candidates active b) :=
        sortBy_perm _ _
      refine ⟨(hperm.nodup_iff.2 (hnd.filter _)).sublist hneeded.sublist, fun v hv => ?_⟩
      simpa [candidates] using hperm.subset (hneeded.subset hv)
    · cases h

/-- An admitted bundle fits once its victims have gone. -/
theorem admission_fits {sch : Scheduler} {active : List Bundle} {b : Bundle}
    {vs : List Bundle} (h : sch.admission active b = some vs) :
    sch.Fits (totalBytes active - totalBytes vs) b.sizeBytes := by
  unfold Scheduler.admission at h
  split at h
  · cases h
    simpa
  · split at h
    · rename_i hroom
      cases h
      -- giving up all candidates would make room, so the needed ones do
      apply fits_of_neededVictims
      have hperm : (victimOrder (candidates active b)).Perm (candidates active b) :=
        sortBy_perm _ _
      rw [totalBytes_perm hperm, totalBytes_candidates]
      exact hroom.2
    · cases h

namespace Buffer.WellFormed

variable {sch : Scheduler} {future : List Bundle} {β : Buffer} {b : Bundle}

theorem offer (h : β.WellFormed sch (b :: future)) : (β.offer sch b).WellFormed sch future := by
  unfold Buffer.offer
  cases hadm : sch.admission β.active b with
  | none => exact h.drop
  | some vs =>
      rcases admission_victims h.active_nodup hadm with ⟨hvs, hsub⟩
      apply (h.evict hvs fun v hv => (hsub v hv).1).accept
      have hfits := admission_fits hadm
      rwa [← h.bytes] at hfits

end Buffer.WellFormed

/-! ## Refinement -/

section Refinement

variable {sch : Scheduler} {future : List Bundle} {b : Bundle} {s : SchedulerState}

theorem admitOne_spec (b : Bundle) (s : SchedulerState) :
    Returns (admitOne b b.ingressTs) s fun _ s' => Became s (s.toBuffer.accept b) s' := by
  refine Returns.get_bind ((setRecord_spec b _ s).bind fun _ s₁ h₁ => ?_)
  refine (Returns.modify ⟨rfl, rfl, rfl⟩ :
    Returns _ s₁ fun _ s₂ => Became s₁ ⟨s₁.active ++ [b], s₁.activeBytes, s₁.records⟩ s₂).bind
      fun _ s₂ h₂ => ?_
  refine (addActiveBytes_spec _ s₂).mono fun _ s' h' => ((h₁.trans h₂).trans h').cast ?_
  rw [h₂.buffer, h₁.buffer]
  ext1
  · rfl
  · rfl
  · exact update_eq_overwrite (Lifecycle.admitted b.ingressTs) s.records b

theorem overflow_spec (t : ℚ) (h : (s.records b).terminalState = .pending) :
    Returns (overflow b t) s fun _ s' => Became s (s.toBuffer.drop b) s' := by
  have hmark : Lifecycle.mark b (s.records b) .queueOverflow t =
      .ok (Lifecycle.overflowed (s.records b)) := by
    simp [Lifecycle.mark_pending h, Lifecycle.overflowed]
  refine (mark_spec hmark).bind fun _ s₁ h₁ => ?_
  refine (log_spec _ _ _ _ _ s₁).mono fun _ s' h' => (h₁.trans h').cast ?_
  rw [h₁.buffer]
  rfl

/-- The feasibility test of the source, in terms of the protected bundles. -/
theorem infeasible_iff (hbytes : s.activeBytes = totalBytes s.active) :
    sch.maxQueueBytes - s.activeBytes + totalBytes (candidates s.active b) < b.sizeBytes ↔
      ¬ sch.Fits (totalBytes (protectedFrom s.active b)) b.sizeBytes := by
  have hcand := totalBytes_candidates s.active b
  rw [← hbytes] at hcand
  rw [Scheduler.Fits, not_le, ← hcand]
  push_cast
  constructor <;> intro hlt <;> linarith

/-- Without a candidate there is no more room than before. -/
theorem candidates_ne_nil (hbytes : s.activeBytes = totalBytes s.active)
    (hfull : ¬ sch.Fits s.activeBytes b.sizeBytes)
    (hroom : sch.Fits (totalBytes (protectedFrom s.active b)) b.sizeBytes) :
    candidates s.active b ≠ [] := by
  intro hnil
  have hcand := totalBytes_candidates s.active b
  rw [hnil, totalBytes_nil, sub_zero, ← hbytes] at hcand
  rw [← hcand] at hroom
  exact hfull hroom

/-- `_evict_lower_priority_to_fit` tells whether the protected bundles leave room, and if they do
it evicts the needed victims; otherwise nobody is evicted. -/
theorem evictLowerPriorityToFit_spec (t : ℚ) (h : s.toBuffer.WellFormed sch future)
    (hfull : ¬ sch.Fits s.activeBytes b.sizeBytes) :
    Returns (evictLowerPriorityToFit sch b t) s fun r s' =>
      r = decide (sch.Fits (totalBytes (protectedFrom s.active b)) b.sizeBytes) ∧
      Became s (if sch.Fits (totalBytes (protectedFrom s.active b)) b.sizeBytes then
        s.toBuffer.evict (neededVictims sch b.sizeBytes s.activeBytes
          (victimOrder (candidates s.active b))) else s.toBuffer) s' := by
  have hcand := totalBytes_candidates s.active b
  rw [← h.bytes] at hcand
  refine Returns.get_bind ?_
  by_cases hroom : sch.Fits (totalBytes (protectedFrom s.active b)) b.sizeBytes
  · rw [if_neg (candidates_ne_nil h.bytes hfull hroom),
      if_neg (fun hlt => (infeasible_iff h.bytes).1 hlt hroom), if_pos hroom]
    have hperm : (victimOrder (candidates s.active b)).Perm (candidates s.active b) :=
      sortBy_perm _ _
    have hmem : ∀ v ∈ victimOrder (candidates s.active b), v ∈ s.active := fun v hv =>
      List.mem_of_mem_filter (hperm.subset hv)
    refine (evictLoop_spec sch b t _ s h.active_nodup
      (hperm.nodup_iff.2 (h.active_nodup.filter _)) hmem
      (fun v hv => h.active_pending (hmem v hv))).bind fun _ s' h' => ?_
    refine Returns.get_bind (Returns.pure ⟨?_, h'⟩)
    -- the final test of the source succeeds: the needed victims suffice
    have hb : s'.activeBytes = s.activeBytes - totalBytes (neededVictims sch b.sizeBytes
        s.activeBytes (victimOrder (candidates s.active b))) := by
      rw [h'.buffer]
      rfl
    rw [decide_eq_decide, hb]
    refine iff_of_true (fits_of_neededVictims ?_) hroom
    rw [totalBytes_perm hperm, hcand]
    exact hroom
  · rw [if_neg hroom]
    split
    · exact Returns.pure ⟨by simp [hroom], Became.refl s⟩
    · rw [if_pos ((infeasible_iff h.bytes).2 hroom)]
      exact Returns.pure ⟨by simp [hroom], Became.refl s⟩

/-- `_try_admit` carries out the admission decision, raises nothing, and leaves a well-formed
buffer. -/
theorem tryAdmit_spec (h : s.toBuffer.WellFormed sch (b :: future)) :
    Returns (tryAdmit sch b b.ingressTs) s fun _ s' =>
      Became s (s.toBuffer.offer sch b) s' ∧ s'.toBuffer.WellFormed sch future := by
  suffices hrun : Returns (tryAdmit sch b b.ingressTs) s fun _ s' =>
      Became s (s.toBuffer.offer sch b) s' from
    hrun.mono fun _ s' h' => ⟨h', h'.buffer ▸ h.offer⟩
  have hpend : (s.records b).terminalState = .pending := h.pending b (by simp)
  refine Returns.get_bind ?_
  by_cases hfit : sch.Fits s.activeBytes b.sizeBytes
  · rw [if_pos hfit]
    refine (admitOne_spec b s).mono fun _ s' h' => h'.cast ?_
    rw [h.bytes] at hfit
    simp [Buffer.offer, Scheduler.admission, hfit, Buffer.evict]
  · rw [if_neg hfit]
    have hfit' : ¬ sch.Fits (totalBytes s.active) b.sizeBytes := by
      rwa [← h.bytes]
    by_cases haware : sch.admissionIsPriorityAware = true
    · rw [if_pos haware]
      refine (evictLowerPriorityToFit_spec b.ingressTs h hfit).bind fun _ s₁ h₁ => ?_
      rcases h₁ with ⟨rfl, h₁⟩
      by_cases hroom : sch.Fits (totalBytes (protectedFrom s.active b)) b.sizeBytes
      · -- room has been made by evicting the needed victims
        simp only [hroom, decide_true, if_true] at h₁ ⊢
        refine (admitOne_spec b s₁).mono fun _ s' h' => (h₁.trans h').cast ?_
        rw [h₁.buffer]
        simp [Buffer.offer, Scheduler.admission, hfit', haware, hroom, h.bytes]
      · -- no room could be made, and nobody has been evicted
        simp only [hroom, decide_false, if_false, Bool.false_eq_true] at h₁ ⊢
        refine (overflow_spec b.ingressTs (by rwa [h₁.buffer])).mono fun _ s' h' =>
          (h₁.trans h').cast ?_
        rw [h₁.buffer]
        simp [Buffer.offer, Scheduler.admission, hfit', hroom]
    · rw [if_neg haware]
      refine (overflow_spec b.ingressTs hpend).mono fun _ s' h' => h'.cast ?_
      simp [Buffer.offer, Scheduler.admission, hfit', haware]

end Refinement

end Gateway
end LunaBridge
