import LunaBridge.Scheduling.Buffer

/-!
# Effect — what the elementary writes of the scheduler do to its buffer

`Became s β s'` is the frame condition of all admission, expiry and single-list drain code: the
buffer is now `β`, and of the rest of the state only the decision log may have changed.  One rule
for each elementary write, from which the loops are put together.
-/

namespace LunaBridge
namespace Gateway

open Foundation.Machine Foundation.Selection

/-- `s'` is `s` with its buffer replaced by `β`; only the decision log may differ otherwise. -/
structure Became (s : SchedulerState) (β : Buffer) (s' : SchedulerState) : Prop where
  buffer : s'.toBuffer = β
  deficit : s'.deficit = s.deficit
  rotationIndex : s'.rotationIndex = s.rotationIndex

namespace Became

variable {s s' s'' : SchedulerState} {β γ : Buffer}

theorem trans (h : Became s β s') (h' : Became s' γ s'') : Became s γ s'' :=
  ⟨h'.buffer, h'.deficit.trans h.deficit, h'.rotationIndex.trans h.rotationIndex⟩

theorem refl (s : SchedulerState) : Became s s.toBuffer s := ⟨rfl, rfl, rfl⟩

theorem cast (h : Became s β s') (heq : β = γ) : Became s γ s' := heq ▸ h

end Became

variable {b : Bundle} {s : SchedulerState}

theorem log_spec (ts : ℚ) (b : Bundle) (action : DecisionAction) (reason : String)
    (contactId : Option String) (s : SchedulerState) :
    Returns (log ts b action reason contactId) s fun _ s' => Became s s.toBuffer s' :=
  Returns.modify ⟨rfl, rfl, rfl⟩

theorem setRecord_spec (b : Bundle) (r : Lifecycle) (s : SchedulerState) :
    Returns (setRecord b r) s fun _ s' =>
      Became s ⟨s.active, s.activeBytes, Function.update s.records b r⟩ s' :=
  Returns.modify ⟨rfl, rfl, rfl⟩

theorem addActiveBytes_spec (delta : ℤ) (s : SchedulerState) :
    Returns (addActiveBytes delta) s fun _ s' =>
      Became s ⟨s.active, s.activeBytes + delta, s.records⟩ s' :=
  Returns.modify ⟨rfl, rfl, rfl⟩

theorem removeActive_spec (h : b ∈ s.active) :
    Returns (removeActive b) s fun _ s' =>
      Became s ⟨s.active.erase b, s.activeBytes, s.records⟩ s' :=
  ⟨⟨⟩, { s with active := s.active.erase b }, by simp [removeActive, h], rfl, rfl, rfl⟩

/-- Marking a pending bundle applies `f` to its record, where `f` is what `mark` computes. -/
theorem mark_spec {newState : TerminalState} {ts : ℚ} {f : Lifecycle → Lifecycle}
    (h : Lifecycle.mark b (s.records b) newState ts = .ok (f (s.records b))) :
    Returns (mark b newState ts) s fun _ s' =>
      Became s ⟨s.active, s.activeBytes, overwrite f [b] s.records⟩ s' := by
  refine Returns.get_bind ?_
  rw [h, ← update_eq_overwrite]
  exact setRecord_spec b _ s

theorem defer_spec (w : ContactWindow) (b : Bundle) (reason : String) (s : SchedulerState) :
    Returns (defer w b reason) s fun _ s' => Became s s.toBuffer s' :=
  log_spec _ _ _ _ _ s

/-- Sending one pending bundle raises nothing and settles it as delivered. -/
theorem transmit_spec (w : ContactWindow) (reason : String)
    (hb : (s.records b).terminalState = .pending) :
    Returns (transmit w b reason) s fun _ s' =>
      Became s (s.toBuffer.settle (Lifecycle.delivered w) [b]) s' := by
  -- the record as it stands when `mark` is called on it
  let r : Lifecycle :=
    { s.records b with transmissionTs := some w.startTs, contactId := some w.contactId }
  refine Returns.get_bind ((setRecord_spec b r s).bind fun _ s₁ h₁ => ?_)
  have hr : s₁.records b = r := by
    rw [h₁.buffer]
    exact Function.update_self b r s.records
  have hmark : Lifecycle.mark b (s₁.records b) .delivered w.startTs =
      .ok ((fun _ => Lifecycle.delivered w (s.records b)) (s₁.records b)) := by
    rw [hr, Lifecycle.mark_pending (r := r) hb (by decide)]
    simp [Lifecycle.delivered, r]
  refine (mark_spec (f := fun _ => Lifecycle.delivered w (s.records b)) hmark).bind
    fun _ s₂ h₂ => ?_
  refine (addActiveBytes_spec _ s₂).bind fun _ s₃ h₃ => ?_
  refine (log_spec _ _ _ _ _ s₃).mono fun _ s' h' => ?_
  refine (((h₁.trans h₂).trans h₃).trans h').cast ?_
  rw [h₃.buffer, h₂.buffer, h₁.buffer]
  ext1
  · rfl
  · simp [Buffer.settle, sub_eq_add_neg]
  · funext c
    by_cases hc : c = b
    · subst hc
      simp [Buffer.settle, overwrite]
    · simp [Buffer.settle, overwrite, hc]

end Gateway
end LunaBridge
