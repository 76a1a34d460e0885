import LunaBridge.Scheduling.Admission

/-!
# Transmission — the expiry pass and the greedy transmit loop

One spec lemma for each loop that settles bundles one by one: what it returns, and that it settles
exactly the bundles it picks.
-/

namespace LunaBridge
namespace Gateway

open Foundation.Machine Foundation.Selection Foundation.GreedyFill

/-- Bundles a loop may settle: distinct and pending. -/
structure Serviceable (β : Buffer) (bs : List Bundle) : Prop where
  nodup : bs.Nodup
  pending : ∀ b ∈ bs, (β.records b).terminalState = .pending

namespace Serviceable

variable {β : Buffer} {f : Lifecycle → Lifecycle} {vs bs : List Bundle}

theorem sublist {as : List Bundle} (h : Serviceable β bs) (hsub : as.Sublist bs) :
    Serviceable β as :=
  ⟨h.nodup.sublist hsub, fun b hb => h.pending b (hsub.subset hb)⟩

theorem perm {as : List Bundle} (h : Serviceable β bs) (hperm : as.Perm bs) : Serviceable β as :=
  ⟨hperm.nodup_iff.2 h.nodup, fun b hb => h.pending b (hperm.subset hb)⟩

/-- Settling other bundles changes nothing for `bs`. -/
theorem settle (h : Serviceable β bs) (hdisj : ∀ v ∈ vs, v ∉ bs) :
    Serviceable (β.settle f vs) bs := by
  refine ⟨h.nodup, fun b hb => ?_⟩
  show (overwrite f vs β.records b).terminalState = .pending
  rw [overwrite_of_notMem fun hv => hdisj b hv hb]
  exact h.pending b hb

theorem head_notMem {b : Bundle} (h : Serviceable β (b :: bs)) : b ∉ bs :=
  (List.nodup_cons.1 h.nodup).1

/-- The rest of a list once its head has been settled. -/
theorem tail {b : Bundle} (h : Serviceable β (b :: bs)) : Serviceable (β.settle f [b]) bs :=
  (h.sublist (List.sublist_cons_self b bs)).settle fun _ hv =>
    (List.mem_singleton.1 hv) ▸ h.head_notMem

end Serviceable

/-! ## Expiry -/

theorem expireLoop_spec (t : ℚ) :
    ∀ (bs : List Bundle) (s : SchedulerState), Serviceable s.toBuffer bs →
      Returns (expireLoop t bs) s fun stillActive s' =>
        stillActive = bs.filter (fun b => !b.expiredBy t) ∧
        Became s (s.toBuffer.settle Lifecycle.expired (bs.filter fun b => b.expiredBy t)) s' := by
  intro bs
  induction bs with
  | nil =>
      intro s _
      exact Returns.pure ⟨rfl, (Became.refl s).cast (by simp)⟩
  | cons b bs ih =>
      intro s hbs
      have hb := hbs.pending b (by simp)
      refine Returns.get_bind ?_
      by_cases hexp : b.expiredBy t = true
      · rw [if_pos ⟨hb, hexp⟩]
        have hmark : Lifecycle.mark b (s.records b) .ttlExpired t =
            .ok (Lifecycle.expired (s.records b)) := by
          simp [Lifecycle.mark_pending hb, Lifecycle.expired]
        refine (mark_spec hmark).bind fun _ s₁ h₁ => ?_
        refine (addActiveBytes_spec _ s₁).bind fun _ s₂ h₂ => ?_
        refine (log_spec _ _ _ _ _ s₂).bind fun _ s₃ h₃ => ?_
        -- the writes for one bundle, taken together
        have hone : Became s (s.toBuffer.settle Lifecycle.expired [b]) s₃ := by
          refine ((h₁.trans h₂).trans h₃).cast ?_
          rw [h₂.buffer, h₁.buffer]
          simp [Buffer.settle, sub_eq_add_neg]
        refine (ih s₃ (hone.buffer ▸ hbs.tail)).mono fun _ s' h' => ?_
        refine ⟨by simpa [hexp] using h'.1, (hone.trans h'.2).cast ?_⟩
        rw [hone.buffer, Buffer.settle_settle]
        · simp [hexp]
        · intro u hu hmem
          rw [List.mem_singleton.1 hu] at hmem
          exact hbs.head_notMem (List.mem_of_mem_filter hmem)
      · -- the bundle lives on and stays in front of the others that do
        rw [if_neg fun hc => hexp hc.2]
        refine (ih s (hbs.sublist (List.sublist_cons_self b bs))).bind fun _ s' h' => ?_
        refine Returns.pure ⟨?_, h'.2.cast (by simp [hexp])⟩
        rw [h'.1]
        simp [hexp]

/-- The expiry pass removes exactly the queued bundles whose lifetime is over. -/
theorem expireInBlackout_spec {sch : Scheduler} {future : List Bundle} {s : SchedulerState}
    (t : ℚ) (h : s.toBuffer.WellFormed sch future) :
    Returns (expireInBlackout t) s fun _ s' =>
      Became s (s.toBuffer.expire t) s' ∧ s'.toBuffer.WellFormed sch future := by
  have hserv : Serviceable s.toBuffer s.active := ⟨h.active_nodup, fun b hb => h.active_pending hb⟩
  refine Returns.get_bind ((expireLoop_spec t s.active s hserv).bind fun still s₁ h₁ => ?_)
  rcases h₁ with ⟨rfl, h₁⟩
  have hall : Became s (s.toBuffer.expire t)
      { s₁ with active := s.active.filter fun b => !b.expiredBy t } := by
    refine ⟨?_, h₁.deficit, h₁.rotationIndex⟩
    ext1
    · exact (s.toBuffer.expire_active t).symm
    · exact (congrArg Buffer.activeBytes h₁.buffer :)
    · exact (congrArg Buffer.records h₁.buffer :)
  exact Returns.modify ⟨hall, hall.buffer ▸ h.expire t⟩

/-! ## Transmission -/

/-- The greedy loop settles as delivered what `greedyFill` picks, and returns the bits left. -/
theorem transmitLoop_spec (w : ContactWindow) (reason : String) (stop : Bool) :
    ∀ (bs : List Bundle) (r : ℚ) (s : SchedulerState), Serviceable s.toBuffer bs →
      Returns (transmitLoop w reason stop bs r) s fun left s' =>
        left = r - load Bundle.bits (greedyFill Bundle.bits stop r bs) ∧
        Became s (s.toBuffer.settle (Lifecycle.delivered w)
          (greedyFill Bundle.bits stop r bs)) s' := by
  intro bs
  induction bs with
  | nil =>
      intro r s _
      exact Returns.pure ⟨by simp [greedyFill], (Became.refl s).cast (by simp [greedyFill])⟩
  | cons b bs ih =>
      intro r s hbs
      unfold transmitLoop
      by_cases hfit : b.bits ≤ r
      · simp only [if_pos hfit, greedyFill, load_cons]
        refine (transmit_spec w reason (hbs.pending b (by simp))).bind fun _ s₁ h₁ => ?_
        refine (ih (r - b.bits) s₁ (h₁.buffer ▸ hbs.tail)).mono fun _ s' h' => ?_
        refine ⟨by rw [h'.1]; ring, (h₁.trans h'.2).cast ?_⟩
        rw [h₁.buffer, Buffer.settle_settle]
        · rfl
        · intro u hu hmem
          rw [List.mem_singleton.1 hu] at hmem
          exact hbs.head_notMem ((greedyFill_sublist Bundle.bits stop _ bs).subset hmem)
      · -- the bundle is passed over, or ends the walk; either way only the log grows
        simp only [if_neg hfit, greedyFill]
        refine (defer_spec w b _ s).bind fun _ s₁ h₁ => ?_
        cases stop with
        | true => exact Returns.pure ⟨by simp, h₁.cast (by simp)⟩
        | false =>
            have hbs₁ : Serviceable s₁.toBuffer bs := by
              rw [h₁.buffer]
              exact hbs.sublist (List.sublist_cons_self b bs)
            refine (ih r s₁ hbs₁).mono fun _ s' h' => ⟨h'.1, (h₁.trans h'.2).cast ?_⟩
            rw [h₁.buffer]
            rfl

end Gateway
end LunaBridge
