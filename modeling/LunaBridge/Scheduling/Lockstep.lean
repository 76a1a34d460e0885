import LunaBridge.Scheduling.Run

/-!
# Lockstep — two runs of the scheduler that see the same buffer

A relation on states is steady if related states have the same buffer, but for a fixed number of
bytes on the counter, and stay related when both are given the same change of the buffer, or the
same new entry in the log.  The programs for admission, expiry and the loud check keep the states of
two runs related by any steady relation.  Bytes on the counter are made up for by a smaller cap.
-/

namespace LunaBridge
namespace Gateway

open Foundation.Machine

/-- The buffer with `c` more bytes on its counter. -/
def Buffer.shift (c : ℤ) (β : Buffer) : Buffer := { β with activeBytes := β.activeBytes + c }

theorem Buffer.shift_zero (β : Buffer) : β.shift 0 = β := by
  rw [shift, add_zero]

/-- Related states have the same buffer, but for `c` bytes on the counter, and the same changes of
buffer and log keep them related. -/
structure Steady (c : ℤ) (R : SchedulerState → SchedulerState → Prop) : Prop where
  buffer : ∀ s t, R s t → s.toBuffer = t.toBuffer.shift c
  write : ∀ g : Buffer → Buffer, (∀ β, g (β.shift c) = (g β).shift c) →
    ∀ s t, R s t → R { s with toBuffer := g s.toBuffer } { t with toBuffer := g t.toBuffer }
  note : ∀ (d : SchedulingDecision) (s t : SchedulerState), R s t →
    R { s with decisions := s.decisions ++ [d] } { t with decisions := t.decisions ++ [d] }

/-- The program reads nothing of the state but the queue and the records. -/
def ReadsQueue {α : Type} (f : SchedulerState → SchedM α) : Prop :=
  ∀ s, f s = f { SchedulerState.fresh s.records with active := s.active }

/-- With `c` bytes on the counter `sch` works as `sch'` does without them. -/
structure Scheduler.MakesUpFor (c : ℤ) (sch sch' : Scheduler) : Prop where
  plan : sch.plan = sch'.plan
  policy : sch.policy = sch'.policy
  fifoSkipOver : sch.fifoSkipOver = sch'.fifoSkipOver
  aware : sch.admissionIsPriorityAware = sch'.admissionIsPriorityAware
  fits : ∀ queued size : ℤ, sch.Fits (queued + c) size ↔ sch'.Fits queued size

theorem Scheduler.makesUpFor_refl (sch : Scheduler) : sch.MakesUpFor 0 sch where
  plan := rfl
  policy := rfl
  fifoSkipOver := rfl
  aware := rfl
  fits := fun queued size => by rw [add_zero]

section Programs

variable {c : ℤ} {R : SchedulerState → SchedulerState → Prop} (hR : Steady c R) {α : Type}

include hR

theorem Steady.active {s t : SchedulerState} (hst : R s t) : s.active = t.active :=
  (congrArg Buffer.active (hR.buffer s t hst) :)

theorem Steady.activeBytes {s t : SchedulerState} (hst : R s t) :
    s.activeBytes = t.activeBytes + c :=
  congrArg Buffer.activeBytes (hR.buffer s t hst)

theorem Steady.records {s t : SchedulerState} (hst : R s t) : s.records = t.records :=
  (congrArg Buffer.records (hR.buffer s t hst) :)

/-- Reading only the queue and the records keeps two such states in step. -/
theorem lockstep_get {f : SchedulerState → SchedM α} (hread : ReadsQueue f)
    (h : ∀ s, Lockstep R (f s) (f s)) :
    Lockstep R (get >>= f) (get >>= f) := by
  refine lockstep_get_bind fun s t hst => ?_
  have heq : f s = f t := by
    rw [hread s, hread t, hR.active hst, hR.records hst]
  exact heq ▸ h s s t hst

/-- Changing only the buffer keeps them in step. -/
theorem lockstep_modify_buffer (g : Buffer → Buffer) (hg : ∀ β, g (β.shift c) = (g β).shift c) :
    Lockstep R
      (modify fun s : SchedulerState => { s with toBuffer := g s.toBuffer } : SchedM PUnit)
      (modify fun s : SchedulerState => { s with toBuffer := g s.toBuffer }) :=
  lockstep_modify (hR.write g hg)

theorem lockstep_log (ts : ℚ) (b : Bundle) (action : DecisionAction) (reason : String)
    (contactId : Option String) : Lockstep R
      (log ts b action reason contactId) (log ts b action reason contactId) :=
  lockstep_modify (hR.note _)

theorem lockstep_setRecord (b : Bundle) (r : Lifecycle) :
    Lockstep R (setRecord b r) (setRecord b r) :=
  lockstep_modify_buffer hR (fun β => { β with records := Function.update β.records b r })
    fun _ => rfl

theorem lockstep_addActiveBytes (delta : ℤ) :
    Lockstep R (addActiveBytes delta) (addActiveBytes delta) := by
  refine lockstep_modify_buffer hR (fun β => { β with activeBytes := β.activeBytes + delta })
    fun β => ?_
  simp only [Buffer.shift, add_right_comm]

theorem lockstep_mark (b : Bundle) (newState : TerminalState) (ts : ℚ) :
    Lockstep R (mark b newState ts) (mark b newState ts) := by
  refine lockstep_get hR (fun _ => rfl) fun s => ?_
  split
  · exact lockstep_setRecord hR b _
  · exact lockstep_throw _

theorem lockstep_removeActive (b : Bundle) :
    Lockstep R (removeActive b) (removeActive b) := by
  refine lockstep_get_bind fun s t hst => ?_
  have hactive := hR.active hst
  by_cases hb : b ∈ s.active
  · have hb' : b ∈ t.active := hactive ▸ hb
    simp only [hb, hb', if_true]
    exact .ok (hR.write (fun β => { β with active := β.active.erase b }) (fun _ => rfl) s t hst)
  · have hb' : b ∉ t.active := hactive ▸ hb
    simp only [hb, hb', if_false]
    exact .error hst

theorem lockstep_admitOne (b : Bundle) (ts : ℚ) :
    Lockstep R (admitOne b ts) (admitOne b ts) := by
  refine lockstep_get hR (fun _ => rfl) fun s => ?_
  refine lockstep_bind (lockstep_setRecord hR b _) fun _ => ?_
  refine lockstep_bind (lockstep_modify_buffer hR (fun β => { β with active := β.active ++ [b] })
    fun _ => rfl) fun _ => ?_
  exact lockstep_addActiveBytes hR _

theorem lockstep_overflow (b : Bundle) (ts : ℚ) :
    Lockstep R (overflow b ts) (overflow b ts) :=
  lockstep_bind (lockstep_mark hR b _ ts) fun _ => lockstep_log hR _ _ _ _ _

variable {sch sch' : Scheduler} (hsch : sch.MakesUpFor c sch')

include hsch

theorem Steady.fits_iff {s t : SchedulerState} (hst : R s t) (size : ℤ) :
    sch.Fits s.activeBytes size ↔ sch'.Fits t.activeBytes size := by
  rw [hR.activeBytes hst]
  exact hsch.fits t.activeBytes size

theorem lockstep_evictLoop (incoming : Bundle) (ts : ℚ) : ∀ vs : List Bundle,
    Lockstep R (evictLoop sch incoming ts vs) (evictLoop sch' incoming ts vs) := by
  intro vs
  induction vs with
  | nil => exact lockstep_pure _
  | cons v vs ih =>
      refine lockstep_get_bind fun s t hst => ?_
      simp only [hR.fits_iff hsch hst]
      split
      · exact lockstep_pure PUnit.unit s t hst
      · refine lockstep_bind (lockstep_removeActive hR v) (fun _ => ?_) s t hst
        refine lockstep_bind (lockstep_addActiveBytes hR _) fun _ => ?_
        refine lockstep_bind (lockstep_mark hR v _ ts) fun _ => ?_
        exact lockstep_bind (lockstep_log hR _ _ _ _ _) fun _ => ih

omit hR in
/-- Whether all candidates together make room is a question of fitting. -/
theorem lt_sizeBytes_iff (queued candidateBytes size : ℤ) :
    sch.maxQueueBytes - queued + candidateBytes < size ↔
      ¬ sch'.Fits (queued - c - candidateBytes) size := by
  have hshift : queued - candidateBytes = queued - c - candidateBytes + c := by ring
  rw [← hsch.fits, ← hshift, Scheduler.Fits, not_le]
  push_cast
  constructor <;> intro h <;> linarith

theorem lockstep_evictLowerPriorityToFit (incoming : Bundle) (ts : ℚ) :
    Lockstep R (evictLowerPriorityToFit sch incoming ts)
      (evictLowerPriorityToFit sch' incoming ts) := by
  refine lockstep_get_bind fun s t hst => ?_
  have hroom : sch.maxQueueBytes - s.activeBytes + totalBytes (candidates t.active incoming) <
      incoming.sizeBytes ↔ sch'.maxQueueBytes - t.activeBytes +
        totalBytes (candidates t.active incoming) < incoming.sizeBytes := by
    rw [lt_sizeBytes_iff hsch, lt_sizeBytes_iff sch'.makesUpFor_refl, hR.activeBytes hst,
      add_sub_cancel_right, sub_zero]
  simp only [hR.active hst, hroom]
  split
  · exact lockstep_pure false s t hst
  · split
    · exact lockstep_pure false s t hst
    · refine lockstep_bind (lockstep_evictLoop hR hsch incoming ts _) (fun _ => ?_) s t hst
      refine lockstep_get_bind fun s' t' hst' => ?_
      simp only [hR.fits_iff hsch hst']
      exact lockstep_pure _ s' t' hst'

theorem lockstep_tryAdmit (b : Bundle) (ts : ℚ) :
    Lockstep R (tryAdmit sch b ts) (tryAdmit sch' b ts) := by
  refine lockstep_get_bind fun s t hst => ?_
  simp only [hR.fits_iff hsch hst, hsch.aware]
  split
  · exact lockstep_admitOne hR b ts s t hst
  · split
    · refine lockstep_bind (lockstep_evictLowerPriorityToFit hR hsch b ts) (fun roomMade => ?_)
        s t hst
      split
      · exact lockstep_admitOne hR b ts
      · exact lockstep_overflow hR b ts
    · exact lockstep_overflow hR b ts s t hst

theorem lockstep_admitArrivals (bs : List Bundle) (cutoffTs : WithTop ℚ) :
    Lockstep R (admitArrivals sch bs cutoffTs) (admitArrivals sch' bs cutoffTs) :=
  lockstep_bind (lockstep_forM (fun b => lockstep_tryAdmit hR hsch b b.ingressTs) _)
    fun _ => lockstep_pure _

omit hsch

theorem lockstep_expireLoop (cutoffTs : ℚ) : ∀ bs : List Bundle,
    Lockstep R (expireLoop cutoffTs bs) (expireLoop cutoffTs bs) := by
  intro bs
  induction bs with
  | nil => exact lockstep_pure _
  | cons b bs ih =>
      refine lockstep_get hR (fun _ => rfl) fun s => ?_
      split
      · refine lockstep_bind (lockstep_mark hR b _ cutoffTs) fun _ => ?_
        refine lockstep_bind (lockstep_addActiveBytes hR _) fun _ => ?_
        exact lockstep_bind (lockstep_log hR _ _ _ _ _) fun _ => ih
      · exact lockstep_bind ih fun _ => lockstep_pure _

theorem lockstep_expireInBlackout (cutoffTs : ℚ) :
    Lockstep R (expireInBlackout cutoffTs) (expireInBlackout cutoffTs) := by
  refine lockstep_get hR (fun _ => rfl) fun s => ?_
  refine lockstep_bind (lockstep_expireLoop hR cutoffTs _) fun still => ?_
  exact lockstep_modify_buffer hR (fun β => { β with active := still }) fun _ => rfl

omit hR in
theorem lockstep_checkExpirations (bs : List Bundle) :
    Lockstep R (checkExpirations bs) (checkExpirations bs) := by
  refine lockstep_forM (fun b => ?_) bs
  split
  · exact lockstep_throw _
  · exact lockstep_pure _

end Programs

end Gateway
end LunaBridge
