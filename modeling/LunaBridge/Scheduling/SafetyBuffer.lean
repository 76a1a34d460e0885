import LunaBridge.Analysis.BufferSizing
import LunaBridge.Scheduling.Ample
import LunaBridge.Scheduling.Assignment
import LunaBridge.Scheduling.Noninterference

/-!
# SafetyBuffer — how much buffer delivers the protected bundles

All bundles wait for one contact that can carry them.  Then the bundles up to some rank are all
delivered exactly if the buffer holds them together: it suffices because they fare as if they were
alone, and it is needed because a contact sends no more than the buffer holds.
-/

namespace LunaBridge
namespace Gateway

open Foundation.Machine Foundation.Selection Foundation.GreedyFill Foundation.SlotAssignment

/-- All bundles have arrived when the only window opens, are still alive, and fit it. -/
structure AwaitsOneContact (plan : ContactPlan) (w : ContactWindow) (bundles : List Bundle) :
    Prop where
  windows : plan.windows = [w]
  arrived : ∀ b ∈ bundles, b.ingressTs ≤ w.startTs
  alive : ∀ b ∈ bundles, w.startTs < b.deadline
  inBudget : load Bundle.bits bundles ≤ w.rawBitBudget

section OneContact

variable {sch : Scheduler} {w : ContactWindow} {bundles : List Bundle}
  {records : Bundle → Lifecycle}

theorem AwaitsOneContact.sublist {bs : List Bundle} (h : AwaitsOneContact sch.plan w bundles)
    (hsizes : ∀ b ∈ bundles, 0 < b.sizeBytes) (hsub : bs.Sublist bundles) :
    AwaitsOneContact sch.plan w bs :=
  ⟨h.windows, fun b hb => h.arrived b (hsub.subset hb), fun b hb => h.alive b (hsub.subset hb),
    (load_le_of_subperm hsub.subperm fun b hb => Bundle.bits_nonneg (hsizes b hb)).trans h.inBudget⟩

/-- Bundles that the buffer holds together are all delivered. -/
theorem AwaitsOneContact.delivers (h : AwaitsOneContact sch.plan w bundles)
    (hvalid : Valid bundles records) (hcap : ((totalBytes bundles : ℤ) : ℚ) ≤ sch.maxQueueBytes)
    (now : ℚ) :
    Returns (run sch now bundles) (SchedulerState.fresh records) fun _ s' =>
      ∀ b ∈ bundles, (s'.records b).terminalState = .delivered := by
  have hroom : Roomy sch bundles := by
    refine roomy_of_budgets hvalid.sizes hcap fun v hv => ?_
    rw [h.windows, List.mem_singleton] at hv
    rw [← load_bits, hv]
    exact h.inBudget
  refine (run_outcome now hroom hvalid (SchedulerState.fresh_idle records)
    (SchedulerState.fresh_inCredit records)).mono fun _ s' hrec b hb => ?_
  rw [hrec b hb, outcome_delivered_iff]
  have harrived : b.ingressTs < w.endTs := (h.arrived b hb).trans_lt w.start_lt_end
  have honly : [w].Sublist sch.plan.windows := h.windows ▸ List.Sublist.refl _
  refine ⟨w, ContactPlan.firstContact_eq honly harrived fun v hv => ?_, h.alive b hb⟩
  exact h.windows ▸ (ContactPlan.firstContact_mem hv).1

/-- The bundles that the one contact has delivered were in the buffer together. -/
theorem AwaitsOneContact.holds (h : AwaitsOneContact sch.plan w bundles)
    (hvalid : Valid bundles records) (now : ℚ) :
    Returns (run sch now bundles) (SchedulerState.fresh records) fun _ s' =>
      ∀ bs : List Bundle, bs.Sublist bundles →
        (∀ b ∈ bs, (s'.records b).terminalState = .delivered) →
        ((totalBytes bs : ℤ) : ℚ) ≤ sch.maxQueueBytes := by
  refine (run_assigns sch now hvalid (SchedulerState.fresh_idle records)).mono ?_
  rintro _ s' ⟨A, hA, hbuffered, hplaced⟩ bs hsub hdel
  -- there is no other window they could have used
  have hused : ∀ b ∈ bs, b ∈ bundles.filter fun b => decide (A b = some w) := by
    intro b hb
    have hmem : b ∈ placed bundles.toFinset A :=
      hplaced ▸ mem_delivered.2 ⟨hsub.subset hb, hdel b hb⟩
    obtain ⟨v, hv⟩ := Option.isSome_iff_exists.1 (Finset.mem_filter.1 hmem).2
    have hvw := (hA.usable b v hv).2.1
    rw [h.windows, List.mem_singleton] at hvw
    simp [hsub.subset hb, hv, hvw]
  have hle := totalBytes_le_of_subset (hvalid.nodup.sublist hsub) (hvalid.nodup.filter _) hused
    fun b hb => hvalid.sizes b (List.mem_of_mem_filter hb)
  exact le_trans (by exact_mod_cast hle) (hbuffered w)

/-- Under STRICT_PRIORITY with priority-aware admission, all bundles up to rank `p` are delivered
exactly if the cap covers them. -/
theorem AwaitsOneContact.delivers_upTo_iff (h : AwaitsOneContact sch.plan w bundles)
    (hpolicy : sch.policy = .strictPriority) (haware : sch.admissionIsPriorityAware = true)
    (hvalid : Valid bundles records) (p : ℤ) (now : ℚ) :
    ∃ s', run sch now bundles (SchedulerState.fresh records) = .ok ⟨⟩ s' ∧
      ((∀ b ∈ bundles, b.rank ≤ p → (s'.records b).terminalState = .delivered) ↔
        ((totalBytes (bundles.filter (Bundle.upTo p)) : ℤ) : ℚ) ≤ sch.maxQueueBytes) := by
  have hsub : (bundles.filter (Bundle.upTo p)).Sublist bundles := List.filter_sublist
  have hpre := preempts_strictPriority hpolicy p
  obtain ⟨s', t', hrun, hrun', hsame⟩ := run_shadow ⟨rfl, rfl, haware, haware, hpre, hpre⟩ hvalid
    (SchedulerState.fresh_idle records) (SchedulerState.fresh_idle records) (fun _ _ => rfl) now now
  refine ⟨s', hrun, fun hdel => ?_, fun hcap b hb hrank => ?_⟩
  · -- delivered by one contact, they were in the buffer together
    rcases h.holds hvalid now with ⟨_, s'', hrun'', hholds⟩
    rw [hrun] at hrun''
    cases hrun''
    refine hholds _ hsub fun b hb => ?_
    rcases List.mem_filter.1 hb with ⟨hmem, hup⟩
    exact hdel b hmem (Bundle.upTo_eq_true.1 hup)
  · -- the others do not matter, and alone these bundles have room
    rcases (h.sublist hvalid.sizes hsub).delivers (hvalid.sublist hsub) hcap now with
      ⟨_, t'', hrun'', hdel⟩
    rw [hrun'] at hrun''
    cases hrun''
    rw [hsame b hrank]
    exact hdel b (List.mem_filter.2 ⟨hb, Bundle.upTo_eq_true.2 hrank⟩)

/-- In particular the safety guarantee holds exactly if the cap covers the protected bundles. -/
theorem AwaitsOneContact.allProtectedDelivered_iff (h : AwaitsOneContact sch.plan w bundles)
    (hpolicy : sch.policy = .strictPriority) (haware : sch.admissionIsPriorityAware = true)
    (hvalid : Valid bundles records) (now : ℚ) :
    ∃ s', run sch now bundles (SchedulerState.fresh records) = .ok ⟨⟩ s' ∧
      (Analysis.allProtectedDelivered bundles s'.records = true ↔
        ((totalBytes (Analysis.protectedBundles bundles) : ℤ) : ℚ) ≤ sch.maxQueueBytes) := by
  obtain ⟨s', hrun, hiff⟩ :=
    h.delivers_upTo_iff hpolicy haware hvalid Analysis.protectedMaxRank now
  exact ⟨s', hrun, Analysis.allProtectedDelivered_iff.trans hiff⟩

end OneContact

/-- The safety buffer: for bundles that await one contact it is the bytes of the protected ranks,
and for the trace of a profile these are the critical backlog, up to one bundle of each protected
class. -/
theorem safety_buffer_threshold :
    (∀ (sch : Scheduler) (w : ContactWindow) (p : ℤ) (now : ℚ) (bundles : List Bundle)
        (records : Bundle → Lifecycle), sch.policy = .strictPriority →
      sch.priorityAwareAdmission = some true → Valid bundles records →
      AwaitsOneContact sch.plan w bundles →
      ∃ s', run sch now bundles (SchedulerState.fresh records) = .ok ⟨⟩ s' ∧
        ((∀ b ∈ bundles, b.rank ≤ p → (s'.records b).terminalState = .delivered) ↔
          ((totalBytes (bundles.filter fun b => decide (b.rank ≤ p)) : ℤ) : ℚ) ≤
            sch.maxQueueBytes)) ∧
    ∀ (profile : List Analysis.ClassLoad) (gapS : ℚ) (sizing : Analysis.Sizing), 0 ≤ gapS →
      (∀ c ∈ profile, 0 < c.byteRate ∧ 0 < c.bundleSize) →
      Analysis.analytical profile gapS = .ok sizing →
      ∃ trace, Analysis.makeTrace profile gapS = .ok trace ∧
        sizing.critRate * gapS ≤ (totalBytes (trace.filter fun b =>
          decide (b.rank ≤ Analysis.protectedMaxRank)) : ℤ) ∧
        ((totalBytes (trace.filter fun b =>
          decide (b.rank ≤ Analysis.protectedMaxRank)) : ℤ) : ℚ) <
            sizing.critRate * gapS + Analysis.protectedSlack profile := by
  refine ⟨fun sch w p now bundles records hpolicy haware hvalid h => ?_,
    fun profile gapS sizing hgap hpos hsizing => Analysis.makeTrace_bytes hpos hgap hsizing⟩
  have haware' : sch.admissionIsPriorityAware = true := by
    simp [Scheduler.admissionIsPriorityAware, haware]
  exact h.delivers_upTo_iff hpolicy haware' hvalid p now

/-- A MEDIA bundle that leaves no room in a buffer of 900 bytes for the protected bundle that comes
after it. -/
def Small.inTheWay : List Bundle :=
  [Small.bundle "media" .media 850 0 100, Small.bundle "telemetry" .telemetry 100 1 100]

theorem Small.valid_inTheWay : Valid Small.inTheWay (fun _ => {}) where
  distinct := by decide +kernel
  sizes := by decide +kernel
  lifetimes := by decide +kernel
  pending := fun _ _ => rfl

/-- A buffer of 900 bytes with priority-aware admission. -/
def Small.tight : Scheduler :=
  { Small.scheduler with
    maxQueueBytes := 900
    priorityAwareAdmission := some true
    maxQueueBytes_pos := by norm_num }

/-- Two bundles that do not fit together, one of them protected; a profile with one protected
class. -/
theorem safety_buffer_threshold_small :
    (∃ s', run Small.tight 0 Small.inTheWay (SchedulerState.fresh fun _ => {}) = .ok ⟨⟩ s' ∧
      ((∀ b ∈ Small.inTheWay, b.rank ≤ 1 → (s'.records b).terminalState = .delivered) ↔
        ((totalBytes (Small.inTheWay.filter fun b => decide (b.rank ≤ 1)) : ℤ) : ℚ) ≤
          Small.tight.maxQueueBytes)) ∧
    ∃ trace, Analysis.makeTrace [⟨.telemetry, 10, 100⟩, ⟨.media, 50, 100⟩] 25 = .ok trace ∧
      (10 : ℚ) * 25 ≤ (totalBytes (trace.filter fun b =>
        decide (b.rank ≤ Analysis.protectedMaxRank)) : ℤ) ∧
      ((totalBytes (trace.filter fun b =>
        decide (b.rank ≤ Analysis.protectedMaxRank)) : ℤ) : ℚ) < (10 : ℚ) * 25 + 100 := by
  constructor
  · refine safety_buffer_threshold.1 Small.tight Small.window 1 0 Small.inTheWay (fun _ => {})
      rfl rfl Small.valid_inTheWay ⟨rfl, ?_, ?_, ?_⟩
    · decide +kernel
    · decide +kernel
    · decide +kernel
  · have hsizing : Analysis.analytical [⟨.telemetry, 10, 100⟩, ⟨.media, 50, 100⟩] 25 =
        .ok ⟨60, 10, 1500, 250, 6⟩ := by
      norm_num [Analysis.analytical, Analysis.sumRate, Analysis.protectedLoads,
        Analysis.isProtected, Analysis.protectedMaxRank, classSpecs]
    have := safety_buffer_threshold.2 _ 25 _ (by norm_num) (by decide +kernel) hsizing
    simpa [Analysis.protectedSlack, Analysis.protectedLoads, Analysis.isProtected,
      Analysis.protectedMaxRank, classSpecs] using this

end Gateway
end LunaBridge
