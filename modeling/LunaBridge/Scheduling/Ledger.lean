import LunaBridge.Foundation.AuditLog
import LunaBridge.Scheduling.Drain

/-!
# Ledger — the scheduler's writes to records and decision log

`Explains` says which log entry goes with which final record.  Every program of the scheduler is
shown to be a sequence of audited writes (`Audited`): marking a bundle and logging it are two
statements of the source, but no program returns between them.
-/

namespace LunaBridge
namespace Gateway

open Foundation.AuditLog Foundation.Machine Foundation.Selection Foundation.StableSort
open Foundation.GreedyFill

/-- What `_log` appends. -/
def decision (ts : ℚ) (b : Bundle) (action : DecisionAction) (reason : String)
    (contactId : Option String) : SchedulingDecision where
  ts := ts
  bundleId := b.bundleId
  trafficClass := b.trafficClass.value
  action := action
  reason := reason
  contactId := contactId

/-- The terminal entry that goes with a final record of `b`, whose record was `initial` at first. -/
inductive Explains (initial : Lifecycle) (b : Bundle) : Lifecycle → SchedulingDecision → Prop
  | delivered (w : ContactWindow) (reason : String) (r : Lifecycle) :
      Explains initial b (r.delivered w)
        (decision w.startTs b .transmit reason (some w.contactId))
  | expired (ts : ℚ) (r : Lifecycle) :
      Explains initial b r.expired (decision ts b .drop "ttl_expired" none)
  | evicted (ts : ℚ) {r : Lifecycle} (hqueued : r.queueAdmissionTs ≠ none) :
      Explains initial b r.overflowed (decision ts b .drop "evicted_by_priority" none)
  | overflowed (ts : ℚ) {r : Lifecycle} (hnew : r.queueAdmissionTs = initial.queueAdmissionTs) :
      Explains initial b r.overflowed (decision ts b .drop "queue_overflow" none)
  | unscheduled (ts : ℚ) (r : Lifecycle) :
      Explains initial b r.unscheduled (decision ts b .drop "never_scheduled" none)

/-- The decision log as an audit log: a record is open while it is pending, and every entry but a
deferral closes one. -/
def auditSchema (records : Bundle → Lifecycle) :
    Schema Bundle Lifecycle SchedulingDecision String where
  key := Bundle.bundleId
  about := SchedulingDecision.bundleId
  Open := fun r => r.terminalState = .pending
  Closing := fun e => e.action ≠ .defer
  Explains := fun b => Explains (records b) b

def SchedulerState.ledger (s : SchedulerState) : Ledger Bundle Lifecycle SchedulingDecision :=
  ⟨s.records, s.decisions⟩

/-- Whose records may be written: those of `bundles`, with `records` at first.  Only members of
`deferrable` may be deferred. -/
structure AuditScope where
  bundles : List Bundle
  records : Bundle → Lifecycle
  deferrable : List Bundle
  distinct : (bundles.map Bundle.bundleId).Nodup
  mem_bundles : ∀ b ∈ deferrable, b ∈ bundles

/-- From `s` to `s'` records and log have changed by audited writes. -/
def Audited (A : AuditScope) (s s' : SchedulerState) : Prop :=
  Writes (auditSchema A.records) A.bundles A.deferrable s.ledger s'.ledger

namespace Audited

variable {A : AuditScope} {s s' s'' : SchedulerState}

theorem quiet (h : s'.ledger = s.ledger) : Audited A s s' :=
  (congrArg (Writes _ _ _ s.ledger) h).mpr .refl

theorem trans (h : Audited A s s')
    (h' : Audited A s' s'') : Audited A s s'' :=
  Relation.ReflTransGen.trans h h'

theorem of_write {L : Ledger Bundle Lifecycle SchedulingDecision}
    (h : Write (auditSchema A.records) A.bundles A.deferrable s.ledger L)
    (hledger : s'.ledger = L) :
    Audited A s s' :=
  .single (hledger ▸ h)

end Audited

/-! ## The elementary writes -/

section Elementary

variable {b : Bundle} {s : SchedulerState}

theorem log_ledger (ts : ℚ) (b : Bundle) (action : DecisionAction) (reason : String)
    (contactId : Option String) (s : SchedulerState) :
    Ensures (log ts b action reason contactId) s fun _ s' => s'.ledger =
      ⟨s.ledger.records, s.ledger.entries ++ [decision ts b action reason contactId]⟩ :=
  Ensures.modify rfl

theorem setRecord_ledger (b : Bundle) (r : Lifecycle) (s : SchedulerState) :
    Ensures (setRecord b r) s fun _ s' => s'.ledger =
      ⟨Function.update s.ledger.records b r, s.ledger.entries⟩ :=
  Ensures.modify rfl

theorem addActiveBytes_ledger (delta : ℤ) (s : SchedulerState) :
    Ensures (addActiveBytes delta) s fun _ s' => s'.ledger = s.ledger :=
  Ensures.modify rfl

theorem setDeficit_ledger (tc : TrafficClass) (value : ℚ) (s : SchedulerState) :
    Ensures (setDeficit tc value) s fun _ s' => s'.ledger = s.ledger :=
  Ensures.modify rfl

theorem removeActive_ledger (b : Bundle) (s : SchedulerState) :
    Ensures (removeActive b) s fun _ s' => s'.ledger = s.ledger := by
  refine Ensures.get_bind ?_
  split
  · rintro _ _ ⟨⟩
    rfl
  · exact Ensures.throw _

/-- A record that `mark` accepts was pending, and is what `mark_pending` says afterwards. -/
theorem mark_ledger (newState : TerminalState) (ts : ℚ) (b : Bundle) (s : SchedulerState) :
    Ensures (mark b newState ts) s fun _ s' => (s.records b).terminalState = .pending ∧
      s'.ledger = ⟨Function.update s.ledger.records b { s.records b with
        deliveryTs := if newState = .delivered ∧ (s.records b).deliveryTs = none then some ts
          else (s.records b).deliveryTs
        terminalState := newState }, s.ledger.entries⟩ := by
  refine Ensures.get_bind ?_
  by_cases hpending : (s.records b).terminalState = .pending
  · by_cases hstate : newState = .pending
    · -- marking as pending raises
      simp only [Lifecycle.mark, hstate, if_true]
      exact Ensures.throw _
    · rw [Lifecycle.mark_pending hpending hstate]
      exact (setRecord_ledger b _ s).mono fun _ _ h => ⟨hpending, h⟩
  · obtain ⟨e, he⟩ : ∃ e, Lifecycle.mark b (s.records b) newState ts = .error e :=
      Lifecycle.mark_terminal hpending
    rw [he]
    exact Ensures.throw e

end Elementary

/-! ## Admission, expiry and the sweep -/

section Drops

variable (A : AuditScope) {b : Bundle} {s s' : SchedulerState}

/-- A bundle is marked with a terminal state other than delivered, and logged as dropped. -/
theorem Audited.drop {A : AuditScope} {newState : TerminalState} {ts : ℚ} {reason : String}
    (hb : b ∈ A.bundles)
    (hpending : (s.records b).terminalState = .pending) (hstate : newState ≠ .pending)
    (hexplains : Explains (A.records b) b { s.records b with terminalState := newState }
      (decision ts b .drop reason none))
    (hledger : s'.ledger = ⟨Function.update s.ledger.records b
      { s.records b with terminalState := newState },
      s.ledger.entries ++ [decision ts b .drop reason none]⟩) :
    Audited A s s' := by
  have hclosed : ¬ (auditSchema A.records).Open { s.records b with terminalState := newState } :=
    hstate
  have hclosing : (auditSchema A.records).Closing (decision ts b .drop reason none) := by
    rintro ⟨⟩
  exact .of_write (.close hb hpending hclosed rfl hclosing hexplains) hledger

/-- `mark`, for a state other than delivered, touches nothing but the state. -/
theorem mark_drop_ledger {newState : TerminalState} (hstate : newState ≠ .delivered) (ts : ℚ)
    (b : Bundle) (s : SchedulerState) :
    Ensures (mark b newState ts) s fun _ s' => (s.records b).terminalState = .pending ∧
      s'.ledger = ⟨Function.update s.ledger.records b
        { s.records b with terminalState := newState }, s.ledger.entries⟩ := by
  refine (mark_ledger newState ts b s).mono fun _ s' h => ⟨h.1, ?_⟩
  simpa [hstate] using h.2

theorem admitOne_audited (hb : b ∈ A.bundles) (hpending : (s.records b).terminalState = .pending)
    (ts : ℚ) : Ensures (admitOne b ts) s fun _ s' => Audited A s s' := by
  refine Ensures.get_bind ((setRecord_ledger b _ s).bind fun _ s₁ h₁ => ?_)
  -- the admission time is set while the record is open: no entry goes with it
  have hone : Audited A s s₁ := by
    refine .of_write (.amend (r := { s.records b with queueAdmissionTs := some ts }) hb ?_ ?_) h₁
    · exact hpending
    · exact hpending
  refine Ensures.bind (P := fun _ s₂ => s₂.ledger = s₁.ledger) (Ensures.modify rfl)
    fun _ s₂ h₂ => ?_
  exact (addActiveBytes_ledger _ s₂).mono fun _ s' h' => hone.trans (.quiet (h'.trans h₂))

/-- An arrival that has not been queued is dropped. -/
theorem overflow_audited (hb : b ∈ A.bundles)
    (hnew : (s.records b).queueAdmissionTs = (A.records b).queueAdmissionTs) (ts : ℚ) :
    Ensures (overflow b ts) s fun _ s' => Audited A s s' := by
  refine (mark_drop_ledger (by decide) ts b s).bind fun _ s₁ h₁ => ?_
  refine (log_ledger _ _ _ _ _ s₁).mono fun _ s' h' => ?_
  rw [h₁.2] at h'
  exact .drop hb h₁.1 (by decide) (.overflowed ts hnew) h'

/-- Victims have been queued; what is not among them keeps its record. -/
theorem evictLoop_audited (sch : Scheduler) (incoming : Bundle) (ts : ℚ) :
    ∀ (vs : List Bundle) (s : SchedulerState), (∀ v ∈ vs, v ∈ A.bundles) →
      (∀ v ∈ vs, (s.records v).queueAdmissionTs ≠ none) →
      Ensures (evictLoop sch incoming ts vs) s fun _ s' =>
        Audited A s s' ∧ ∀ c, c ∉ vs → s'.records c = s.records c := by
  intro vs
  induction vs with
  | nil => exact fun s _ _ => Ensures.pure ⟨.quiet rfl, fun _ _ => rfl⟩
  | cons v vs ih =>
      intro s hvs hqueued
      refine Ensures.get_bind ?_
      split
      · exact Ensures.pure ⟨.quiet rfl, fun _ _ => rfl⟩
      · refine (removeActive_ledger v s).bind fun _ s₁ h₁ => ?_
        refine (addActiveBytes_ledger _ s₁).bind fun _ s₂ h₂ => ?_
        refine (mark_drop_ledger (by decide) ts v s₂).bind fun _ s₃ h₃ => ?_
        refine (log_ledger _ _ _ _ _ s₃).bind fun _ s₄ h₄ => ?_
        -- the four statements together evict `v`
        have hsame : s₂.records = s.records := congrArg Ledger.records (h₂.trans h₁)
        rw [h₃.2, h₂, h₁, hsame] at h₄
        rw [hsame] at h₃
        have hone : Audited A s s₄ :=
          .drop (hvs v (by simp)) h₃.1 (by decide) (.evicted ts (hqueued v (by simp))) h₄
        have hrecords : s₄.records = Function.update s.records v
            { s.records v with terminalState := .queueOverflow } := congrArg Ledger.records h₄
        have hqueued₄ : ∀ u ∈ vs, (s₄.records u).queueAdmissionTs ≠ none := by
          intro u hu
          rw [hrecords]
          by_cases huv : u = v
          · subst huv
            simpa using hqueued u (by simp)
          · simpa [huv] using hqueued u (List.mem_cons_of_mem _ hu)
        refine (ih s₄ (fun u hu => hvs u (List.mem_cons_of_mem _ hu)) hqueued₄).mono
          fun _ s' h' => ⟨hone.trans h'.1, fun c hc => ?_⟩
        rw [List.mem_cons, not_or] at hc
        rw [h'.2 c hc.2, hrecords]
        exact Function.update_of_ne hc.1 _ _

/-- Room is made by evicting queued bundles, and the record of the arrival is left alone. -/
theorem evictLowerPriorityToFit_audited (sch : Scheduler) (ts : ℚ)
    (hknown : ∀ v ∈ s.active, v ∈ A.bundles)
    (hqueued : ∀ v ∈ s.active, (s.records v).queueAdmissionTs ≠ none) :
    Ensures (evictLowerPriorityToFit sch b ts) s fun _ s' =>
      Audited A s s' ∧ s'.records b = s.records b := by
  have hmem : ∀ v ∈ victimOrder (candidates s.active b), v ∈ s.active ∧ b.rank < v.rank :=
    fun v hv => by simpa [candidates] using (sortBy_perm _ _).subset hv
  have hself : b ∉ victimOrder (candidates s.active b) := fun hb => lt_irrefl _ (hmem b hb).2
  refine Ensures.get_bind ?_
  split
  · exact Ensures.pure ⟨.quiet rfl, rfl⟩
  · split
    · exact Ensures.pure ⟨.quiet rfl, rfl⟩
    · refine (evictLoop_audited A sch b ts _ s (fun v hv => hknown v (hmem v hv).1)
        fun v hv => hqueued v (hmem v hv).1).bind fun _ s' h' => ?_
      exact Ensures.get_bind (Ensures.pure ⟨h'.1, h'.2 b hself⟩)

theorem tryAdmit_audited (sch : Scheduler) (hb : b ∈ A.bundles)
    (hpending : (s.records b).terminalState = .pending)
    (hnew : (s.records b).queueAdmissionTs = (A.records b).queueAdmissionTs)
    (hknown : ∀ v ∈ s.active, v ∈ A.bundles)
    (hqueued : ∀ v ∈ s.active, (s.records v).queueAdmissionTs ≠ none) (ts : ℚ) :
    Ensures (tryAdmit sch b ts) s fun _ s' => Audited A s s' := by
  refine Ensures.get_bind ?_
  split
  · exact admitOne_audited A hb hpending ts
  · split
    · refine (evictLowerPriorityToFit_audited A sch ts hknown hqueued).bind fun roomMade s₁ h₁ => ?_
      -- the evictions have left the record of the arrival alone
      rw [← h₁.2] at hpending hnew
      split
      · exact (admitOne_audited A hb hpending ts).mono fun _ s' h' => h₁.1.trans h'
      · exact (overflow_audited A hb hnew ts).mono fun _ s' h' => h₁.1.trans h'
    · exact overflow_audited A hb hnew ts

theorem expireLoop_audited (cutoffTs : ℚ) :
    ∀ (bs : List Bundle) (s : SchedulerState), (∀ b ∈ bs, b ∈ A.bundles) →
      Ensures (expireLoop cutoffTs bs) s fun _ s' => Audited A s s' := by
  intro bs
  induction bs with
  | nil => exact fun s _ => Ensures.pure (.quiet rfl)
  | cons b bs ih =>
      intro s hbs
      have hbs' : ∀ c ∈ bs, c ∈ A.bundles := fun c hc => hbs c (List.mem_cons_of_mem _ hc)
      refine Ensures.get_bind ?_
      split
      · refine (mark_drop_ledger (by decide) cutoffTs b s).bind fun _ s₁ h₁ => ?_
        refine (addActiveBytes_ledger _ s₁).bind fun _ s₂ h₂ => ?_
        refine (log_ledger _ _ _ _ _ s₂).bind fun _ s₃ h₃ => ?_
        rw [h₂, h₁.2] at h₃
        have hone : Audited A s s₃ :=
          .drop (hbs b (by simp)) h₁.1 (by decide) (.expired cutoffTs _) h₃
        exact (ih s₃ hbs').mono fun _ s' h' => hone.trans h'
      · exact (ih s hbs').bind fun _ s' h' => Ensures.pure h'

theorem expireInBlackout_audited (cutoffTs : ℚ) (hknown : ∀ v ∈ s.active, v ∈ A.bundles) :
    Ensures (expireInBlackout cutoffTs) s fun _ s' =>
      Audited A s s' :=
  Ensures.get_bind ((expireLoop_audited A cutoffTs s.active s hknown).bind fun _ _ h₁ =>
    Ensures.modify (h₁.trans (.quiet rfl)))

theorem sweepOne_audited (now : ℚ) (lastEndTs : Option ℚ) (hb : b ∈ A.bundles) :
    Ensures (sweepOne now lastEndTs b) s fun _ s' => Audited A s s' := by
  refine Ensures.get_bind ?_
  split
  · refine (mark_drop_ledger (by decide) now b s).bind fun _ s₁ h₁ => ?_
    refine (log_ledger _ _ _ _ _ s₁).mono fun _ s' h' => ?_
    rw [h₁.2] at h'
    exact .drop hb h₁.1 (by decide) (.unscheduled _ _) h'
  · exact Ensures.pure (.quiet rfl)

theorem finalSweep_audited (now : ℚ) (lastEndTs : Option ℚ)
    (hknown : ∀ v ∈ s.active, v ∈ A.bundles) :
    Ensures (finalSweep now lastEndTs) s fun _ s' => Audited A s s' := by
  have hloop := Ensures.forM (f := sweepOne now lastEndTs)
    (I := fun bs t => (∀ b ∈ bs, b ∈ A.bundles) ∧ Audited A s t)
    (fun b bs t h => (sweepOne_audited A now lastEndTs (h.1 b (by simp))).mono fun _ _ h' =>
      ⟨fun c hc => h.1 c (List.mem_cons_of_mem _ hc), h.2.trans h'⟩) s.active s ⟨hknown, .quiet rfl⟩
  exact Ensures.get_bind (hloop.bind fun _ _ h₁ => Ensures.modify (h₁.2.trans (.quiet rfl)))

end Drops

/-! ## Transmission -/

section Transmission

variable (A : AuditScope) (w : ContactWindow) {b : Bundle} {bs : List Bundle} {s : SchedulerState}

omit A in
/-- The five statements of a transmission rewrite one pending record and append one entry. -/
theorem transmit_ledger (reason : String) (b : Bundle) (s : SchedulerState) :
    Ensures (transmit w b reason) s fun _ s' => (s.records b).terminalState = .pending ∧
      s'.ledger = ⟨Function.update s.ledger.records b ((s.records b).delivered w),
        s.ledger.entries ++ [decision w.startTs b .transmit reason (some w.contactId)]⟩ := by
  refine Ensures.get_bind ((setRecord_ledger b _ s).bind fun _ s₁ h₁ => ?_)
  refine (mark_ledger .delivered w.startTs b s₁).bind fun _ s₂ h₂ => ?_
  refine (addActiveBytes_ledger _ s₂).bind fun _ s₃ h₃ => ?_
  refine (log_ledger _ _ _ _ _ s₃).mono fun _ s' h' => ?_
  have hset : s₁.records b = { s.records b with
      transmissionTs := some w.startTs
      contactId := some w.contactId } := by
    have hrecords : s₁.records = Function.update s.records b _ := congrArg Ledger.records h₁
    rw [hrecords]
    exact Function.update_self _ _ _
  rw [hset] at h₂
  refine ⟨h₂.1, ?_⟩
  rw [h', h₃, h₂.2, h₁]
  simp [Lifecycle.delivered]

/-- A transmission closes the record of `b` as delivered. -/
theorem transmit_audited (hb : b ∈ A.bundles) (reason : String) (s : SchedulerState) :
    Ensures (transmit w b reason) s fun _ s' => Audited A s s' := by
  refine (transmit_ledger w reason b s).mono fun _ s' h' => ?_
  have hclosed : ¬ (auditSchema A.records).Open ((s.records b).delivered w) := by
    rintro ⟨⟩
  have hclosing : (auditSchema A.records).Closing
      (decision w.startTs b .transmit reason (some w.contactId)) := by
    rintro ⟨⟩
  exact .of_write (.close hb h'.1 hclosed rfl hclosing (.delivered w reason _)) h'.2

theorem defer_audited (hb : b ∈ A.deferrable) (hpending : (s.records b).terminalState = .pending)
    (reason : String) : Ensures (defer w b reason) s fun _ s' => Audited A s s' := by
  refine (log_ledger _ _ _ _ _ s).mono fun _ s' h' => ?_
  have hnote : ¬ (auditSchema A.records).Closing
    (decision w.startTs b .defer reason (some w.contactId)) := fun h => h rfl
  exact .of_write (.note hb hpending rfl hnote) h'

/-- Sending the head of a list leaves the others to be served. -/
theorem transmit_head_audited (hbs : Serviceable s.toBuffer (b :: bs))
    (hsub : ∀ c ∈ b :: bs, c ∈ A.deferrable) (reason : String) :
    Ensures (transmit w b reason) s fun _ s' =>
      Audited A s s' ∧ Serviceable s'.toBuffer bs := by
  have hb : b ∈ A.bundles := A.mem_bundles b (hsub b (by simp))
  have hspec := (transmit_spec w reason (hbs.pending b (by simp))).ensures
  exact ((transmit_audited A w hb reason s).and hspec).mono fun _ s' h =>
    ⟨h.1, h.2.buffer ▸ hbs.tail⟩

/-- Passing over the head of a list leaves the others to be served. -/
theorem defer_head_audited (hbs : Serviceable s.toBuffer (b :: bs))
    (hsub : ∀ c ∈ b :: bs, c ∈ A.deferrable) (reason : String) :
    Ensures (defer w b reason) s fun _ s' => Audited A s s' ∧ Serviceable s'.toBuffer bs := by
  have hpending := hbs.pending b (by simp)
  have haudited := defer_audited A w (hsub b (by simp)) hpending reason
  refine (haudited.and (defer_spec w b reason s).ensures).mono fun _ s' h => ⟨h.1, ?_⟩
  rw [h.2.buffer]
  exact hbs.sublist (List.sublist_cons_self b bs)

theorem transmitLoop_audited (reason : String) (stop : Bool) :
    ∀ (bs : List Bundle) (r : ℚ) (s : SchedulerState), Serviceable s.toBuffer bs →
      (∀ b ∈ bs, b ∈ A.deferrable) →
      Ensures (transmitLoop w reason stop bs r) s fun _ s' => Audited A s s' := by
  intro bs
  induction bs with
  | nil => exact fun r s _ _ => Ensures.pure (.quiet rfl)
  | cons b bs ih =>
      intro r s hbs hsub
      have hsub' : ∀ c ∈ bs, c ∈ A.deferrable := fun c hc => hsub c (List.mem_cons_of_mem _ hc)
      unfold transmitLoop
      split
      · refine (transmit_head_audited A w hbs hsub reason).bind fun _ s₁ h₁ => ?_
        exact (ih _ s₁ h₁.2 hsub').mono fun _ s' h' => h₁.1.trans h'
      · refine (defer_head_audited A w hbs hsub _).bind fun _ s₁ h₁ => ?_
        split
        · exact Ensures.pure h₁.1
        · exact (ih _ s₁ h₁.2 hsub').mono fun _ s' h' => h₁.1.trans h'

/-- One loop after another, the second over bundles the first has not touched. -/
theorem transmitLoop_frame (reason : String) (stop : Bool) {as : List Bundle}
    (hbs : Serviceable s.toBuffer (as ++ bs)) (r : ℚ) :
    Ensures (transmitLoop w reason stop as r) s fun _ s' => Serviceable s'.toBuffer bs := by
  have has := hbs.sublist (List.sublist_append_left as bs)
  refine (transmitLoop_spec w reason stop as r s has).ensures.mono fun _ s' h => ?_
  rw [h.2.buffer]
  refine (hbs.sublist (List.sublist_append_right as bs)).settle fun v hv hv' => ?_
  exact (List.nodup_append.1 hbs.nodup).2.2 v ((greedyFill_sublist _ _ _ _).subset hv) v hv' rfl

end Transmission

/-! ## Deficit round robin -/

section Rounds

variable (A : AuditScope) (w : ContactWindow) (tc : TrafficClass) (rnd : ℕ)

/-- Charging the deficit and sending the head of the queue, before a turn goes on with `f`. -/
theorem charge_and_send_audited {α : Type} {b : Bundle} {queue : List Bundle} {reason : String}
    {value : ℚ} {s : SchedulerState} {f : PUnit → SchedM α} {Q : α → SchedulerState → Prop}
    (hbs : Serviceable s.toBuffer (b :: queue)) (hsub : ∀ c ∈ b :: queue, c ∈ A.deferrable)
    (hrest : ∀ s₁, Audited A s s₁ → Serviceable s₁.toBuffer queue → Ensures (f ⟨⟩) s₁ Q) :
    Ensures (setDeficit tc value >>= fun _ => transmit w b reason >>= f) s Q := by
  refine (setDeficit_spec tc value s).ensures.bind fun _ s₀ h₀ => ?_
  have hbs₀ : Serviceable s₀.toBuffer (b :: queue) := by rwa [h₀]
  refine (transmit_head_audited A w hbs₀ hsub reason).bind fun _ s₁ h₁ => hrest s₁ ?_ h₁.2
  have hquiet : Audited A s s₀ := .quiet (by rw [h₀]; rfl)
  exact hquiet.trans h₁.1

theorem headTurn_audited : ∀ (queue : List Bundle) (r : ℚ) (s : SchedulerState),
    Serviceable s.toBuffer queue → (∀ b ∈ queue, b ∈ A.deferrable) →
    Ensures (headTurn w tc rnd queue r) s fun _ s' => Audited A s s' := by
  intro queue
  induction queue with
  | nil => exact fun r s _ _ => Ensures.pure (.quiet rfl)
  | cons b queue ih =>
      intro r s hbs hsub
      have hsub' : ∀ c ∈ queue, c ∈ A.deferrable := fun c hc => hsub c (List.mem_cons_of_mem _ hc)
      refine Ensures.get_bind ?_
      split
      · -- the deficit pays for the head
        exact charge_and_send_audited A w tc hbs hsub fun s₁ h₁ hbs₁ =>
          (ih _ s₁ hbs₁ hsub').mono fun _ s' h' => h₁.trans h'
      · split
        · -- the head does not fit and ends the turn; only round zero logs it
          exact (defer_head_audited A w hbs hsub _).bind fun _ s₁ h₁ => Ensures.pure h₁.1
        · exact Ensures.pure (.quiet rfl)

theorem skipTurn_audited : ∀ (queue : List Bundle) (r : ℚ) (s : SchedulerState),
    Serviceable s.toBuffer queue → (∀ b ∈ queue, b ∈ A.deferrable) →
    Ensures (skipTurn w tc rnd queue r) s fun _ s' => Audited A s s' := by
  intro queue
  induction queue with
  | nil => exact fun r s _ _ => Ensures.pure (.quiet rfl)
  | cons b queue ih =>
      intro r s hbs hsub
      have hsub' : ∀ c ∈ queue, c ∈ A.deferrable := fun c hc => hsub c (List.mem_cons_of_mem _ hc)
      have hrest := hbs.sublist (List.sublist_cons_self b queue)
      refine Ensures.get_bind ?_
      split
      · -- the deficit pays for this bundle
        exact charge_and_send_audited A w tc hbs hsub fun s₁ h₁ hbs₁ =>
          (ih _ s₁ hbs₁ hsub').mono fun _ s' h' => h₁.trans h'
      · split
        · -- it does not fit, but those behind it are still tried
          refine (defer_head_audited A w hbs hsub _).bind fun _ s₁ h₁ => ?_
          exact (ih r s₁ h₁.2 hsub').bind fun _ s' h' => Ensures.pure (h₁.1.trans h')
        · exact (ih r s hrest hsub').bind fun _ s' h' => Ensures.pure h'

variable {w} {order : List TrafficClass} (skip : Bool) {budget wTotal : ℚ}

theorem classTurn_audited {l : RoundLocals} {s : SchedulerState}
    (hbs : Serviceable s.toBuffer (l.byClass tc)) (hsub : ∀ b ∈ l.byClass tc, b ∈ A.deferrable) :
    Ensures (classTurn w skip rnd budget wTotal tc l) s fun _ s' => Audited A s s' := by
  unfold classTurn
  split
  · exact Ensures.throw _
  · refine Ensures.get_bind ((setDeficit_spec tc _ s).ensures.bind fun _ s₀ h₀ => ?_)
    have hbs₀ : Serviceable s₀.toBuffer (l.byClass tc) := by rwa [h₀]
    have hquiet : Audited A s s₀ := .quiet (by rw [h₀]; rfl)
    -- what follows the turn of either kind
    have hfinish : ∀ (out : List Bundle × ℚ) (s₁ : SchedulerState), Audited A s₀ s₁ →
        Ensures (if out.1 = [] then do
            setDeficit tc 0
            pure (⟨out.2, Function.update l.byClass tc out.1⟩ : RoundLocals)
          else pure ⟨out.2, Function.update l.byClass tc out.1⟩) s₁
          fun _ s' => Audited A s s' := by
      intro out s₁ h₁
      split
      · exact (setDeficit_ledger tc 0 s₁).bind fun _ s' h' =>
          Ensures.pure ((hquiet.trans h₁).trans (.quiet h'))
      · exact Ensures.pure (hquiet.trans h₁)
    cases skip
    · exact (headTurn_audited A w tc rnd _ _ s₀ hbs₀ hsub).bind hfinish
    · exact (skipTurn_audited A w tc rnd _ _ s₀ hbs₀ hsub).bind hfinish

theorem roundOver_audited (horder : order.Nodup) (hbudget : 0 ≤ budget) (hw : 0 < wTotal) :
    ∀ (tcs : List TrafficClass), (∀ tc ∈ tcs, tc ∈ order) →
      ∀ (l : RoundLocals) (s : SchedulerState), Ready order l s →
      (∀ b ∈ l.queued order, b ∈ A.deferrable) →
      Ensures (roundOver w skip rnd budget wTotal tcs l) s fun _ s' => Audited A s s' := by
  intro tcs
  induction tcs with
  | nil => exact fun _ l s _ _ => Ensures.pure (.quiet rfl)
  | cons tc tcs ih =>
      intro htcs l s hready hsub
      have htc := htcs tc (by simp)
      have hqueue := l.sublist_queued htc
      have haudited : Ensures (classTurn w skip rnd budget wTotal tc l) s
          fun _ s' => Audited A s s' :=
        classTurn_audited A tc rnd skip (hready.serviceable.sublist hqueue)
          fun b hb => hsub b (hqueue.subset hb)
      refine (haudited.and (classTurn_spec skip rnd horder hbudget hw htc hready).ensures).bind
        fun l₁ s₁ h₁ => ?_
      rcases h₁.2.progress with ⟨sent, hprog⟩
      exact (ih (fun u hu => htcs u (List.mem_cons_of_mem _ hu)) l₁ s₁ (hprog.ready hready)
        fun b hb => hsub b (hprog.queued_subset b hb)).mono fun _ s' h' => h₁.1.trans h'

theorem drrLoop_audited (horder : order.Nodup) :
    ∀ (left rnd : ℕ) (l : RoundLocals) (s : SchedulerState), Ready order l s →
      (∀ b ∈ l.queued order, b ∈ A.deferrable) →
      Ensures (drrLoop w skip order left rnd l) s fun _ s' => Audited A s s' := by
  intro left
  induction left with
  | zero => exact fun _ l s _ _ => Ensures.pure (.quiet rfl)
  | succ left ih =>
      intro rnd l s hready hsub
      unfold drrLoop
      split
      · rename_i hpos
        split
        · rename_i hfit
          have hw := queueBudget_sum_pos (backlogged_ne_nil hfit)
          have hmem : ∀ tc ∈ backlogged order l.byClass, tc ∈ order := fun tc htc =>
            (mem_backlogged.1 htc).1
          have haudited := roundOver_audited A rnd (w := w) skip horder hpos.le hw _ hmem l s hready
            hsub
          refine (haudited.and (roundOver_spec skip rnd horder hpos.le hw _ (horder.filter _)
            hmem l s hready).ensures).bind fun l₁ s₁ h₁ => ?_
          rcases h₁.2.progress with ⟨sent, hprog⟩
          exact (ih (rnd + 1) l₁ s₁ (hprog.ready hready)
            fun b hb => hsub b (hprog.queued_subset b hb)).mono fun _ s' h' => h₁.1.trans h'
        · exact Ensures.pure (.quiet rfl)
      · exact Ensures.pure (.quiet rfl)

end Rounds

/-! ## Drains -/

section Drains

variable (A : AuditScope) {w : ContactWindow} {bs : List Bundle} {s : SchedulerState}

theorem resetIdle_ledger (byClass : TrafficClass → List Bundle) :
    ∀ (tcs : List TrafficClass) (s : SchedulerState),
      Ensures (resetIdle byClass tcs) s fun _ s' => s'.ledger = s.ledger := by
  intro tcs
  induction tcs with
  | nil => exact fun s => Ensures.pure rfl
  | cons tc tcs ih =>
      intro s
      unfold resetIdle
      split
      · exact (setDeficit_ledger tc 0 s).bind fun _ s₁ h₁ =>
          (ih s₁).mono fun _ s' h' => h'.trans h₁
      · exact ih s

theorem drainOrdered_audited {order : List Bundle} (hbs : Serviceable s.toBuffer bs)
    (hsub : ∀ b ∈ bs, b ∈ A.deferrable) (hperm : order.Perm bs) (reason : String) (stop : Bool) :
    Ensures (drainOrdered order w reason stop >>= fun _ => pure ⟨⟩) s
      fun (_ : PUnit) s' => Audited A s s' :=
  (transmitLoop_audited A w reason stop order _ s (hbs.perm hperm)
    fun b hb => hsub b (hperm.subset hb)).bind fun _ _ h' => Ensures.pure h'

/-- The second tier walks over bundles the first has not touched. -/
theorem drainUtilityAware_audited (sch : Scheduler) (hbs : Serviceable s.toBuffer bs)
    (hsub : ∀ b ∈ bs, b ∈ A.deferrable) :
    Ensures (drainUtilityAware sch bs w) s fun _ s' => Audited A s s' := by
  unfold drainUtilityAware
  split
  · exact Ensures.throw _
  · dsimp only
    split
    · exact Ensures.throw _
    · have hperm := utilityTiers_perm sch w bs
      have hserv := hbs.perm hperm
      have hfirst := transmitLoop_audited A w "utility_at_risk" false _ w.rawBitBudget s
        (hserv.sublist (List.sublist_append_left _ _))
        fun b hb => hsub b (hperm.subset (List.mem_append_left _ hb))
      refine (hfirst.and (transmitLoop_frame w _ false hserv _)).bind fun left s₁ h₁ => ?_
      refine (transmitLoop_audited A w "utility_opportunistic" false _ left s₁ h₁.2
        fun b hb => hsub b (hperm.subset (List.mem_append_right _ hb))).bind fun _ s' h' => ?_
      exact Ensures.pure (h₁.1.trans h')

theorem drainWfq_audited (hbs : Serviceable s.toBuffer bs) (hsizes : ∀ b ∈ bs, 0 < b.sizeBytes)
    (hsub : ∀ b ∈ bs, b ∈ A.deferrable) (skip : Bool) :
    Ensures (drainWfq bs w skip) s fun _ s' => Audited A s s' := by
  have hemerg : Serviceable s.toBuffer (classQueue bs .emergency) :=
    (hbs.perm (classQueue_perm hbs.nodup 0)).sublist (List.sublist_append_left _ _)
  have hfirst := transmitLoop_audited A w "rank0" false _ w.rawBitBudget s hemerg
    fun b hb => hsub b (mem_classQueue.1 hb).1
  refine (hfirst.and (transmitLoop_spec w "rank0" false _ _ s hemerg).ensures).bind
    fun left s₁ h₁ => ?_
  rcases h₁ with ⟨haudited, rfl, h₁⟩
  refine Ensures.get_bind (((resetIdle_ledger _ _ s₁).and (resetIdle_spec _ _ s₁).ensures).bind
    fun _ s₂ h₂ => ?_)
  -- the round robin starts from the queues EMERGENCY has left
  have hready := ready_roundStart hbs hsizes s₁.rotationIndex (h₂.2.1.trans h₁.buffer)
  have hqueued : ∀ b ∈ (roundStart w bs).queued (rotation s₁.rotationIndex), b ∈ A.deferrable := by
    intro b hb
    rcases List.mem_flatMap.1 hb with ⟨tc, _, hb'⟩
    exact hsub b (mem_classQueue.1 hb').1
  refine (drrLoop_audited A skip (rotation_nodup _) maxRounds 0 _ s₂ hready hqueued).bind
    fun _ s₃ h₃ => Ensures.modify ?_
  exact ((haudited.trans (.quiet h₂.1)).trans h₃).trans (.quiet rfl)

/-- Each of the seven drains writes what it does to the log. -/
theorem drainByPolicy_audited (sch : Scheduler) (hbs : Serviceable s.toBuffer bs)
    (hsizes : ∀ b ∈ bs, 0 < b.sizeBytes) (hsub : ∀ b ∈ bs, b ∈ A.deferrable) :
    Ensures (drainByPolicy sch bs w) s fun _ s' => Audited A s s' := by
  unfold drainByPolicy
  split
  · exact drainOrdered_audited A hbs hsub (sortBy_perm _ _) _ _
  · exact drainOrdered_audited A hbs hsub (sortBy_perm _ _) _ _
  · exact drainWfq_audited A hbs hsizes hsub false
  · exact drainWfq_audited A hbs hsizes hsub true
  · unfold drainEdf
    split
    · exact Ensures.throw _
    · exact drainOrdered_audited A hbs hsub (sortBy_perm _ _) _ _
  · exact drainUtilityAware_audited A sch hbs hsub
  · unfold drainUtilityPure
    split
    · exact Ensures.throw _
    · exact drainOrdered_audited A hbs hsub (sortByDesc_perm _ _) _ _

/-- A window defers eligible bundles only. -/
theorem drainWindow_audited {sch : Scheduler} {future : List Bundle}
    (h : s.toBuffer.WellFormed sch future) (hdef : A.deferrable = eligible w s.toBuffer) :
    Ensures (drainWindow sch w) s fun _ s' => Audited A s s' := by
  have hmem : ∀ b ∈ eligible w s.toBuffer, b ∈ s.active := fun b hb => List.mem_of_mem_filter hb
  have hbs : Serviceable s.toBuffer (eligible w s.toBuffer) :=
    ⟨h.active_nodup.filter _, fun b hb => h.active_pending (hmem b hb)⟩
  refine Ensures.get_bind ((drainByPolicy_audited A sch hbs
    (fun b hb => h.active_size_pos (hmem b hb)) fun b hb => hdef ▸ hb).bind fun _ s₁ h₁ => ?_)
  exact Ensures.modify (h₁.trans (.quiet rfl))

end Drains

/-! ## What admission logs, and in which order -/

/-- The entry about a victim. -/
def evictedEntry (ts : ℚ) (v : Bundle) : SchedulingDecision :=
  decision ts v .drop "evicted_by_priority" none

/-- The entry about an arrival that is dropped. -/
def overflowEntry (ts : ℚ) (b : Bundle) : SchedulingDecision :=
  decision ts b .drop "queue_overflow" none

section Entries

variable {sch : Scheduler} {b : Bundle} {s : SchedulerState}

theorem removeActive_quiet (b : Bundle) (s : SchedulerState) :
    Ensures (removeActive b) s fun _ s' =>
      s'.decisions = s.decisions ∧ s'.activeBytes = s.activeBytes := by
  refine Ensures.get_bind ?_
  split
  · rintro _ _ ⟨⟩
    exact ⟨rfl, rfl⟩
  · exact Ensures.throw _

theorem mark_quiet (b : Bundle) (newState : TerminalState) (ts : ℚ) (s : SchedulerState) :
    Ensures (mark b newState ts) s fun _ s' =>
      s'.decisions = s.decisions ∧ s'.activeBytes = s.activeBytes := by
  refine Ensures.get_bind ?_
  split
  · exact Ensures.modify ⟨rfl, rfl⟩
  · exact Ensures.throw _

/-- The eviction loop logs its victims in their order. -/
theorem evictLoop_entries (sch : Scheduler) (incoming : Bundle) (ts : ℚ) :
    ∀ (vs : List Bundle) (s : SchedulerState),
      Ensures (evictLoop sch incoming ts vs) s fun _ s' => s'.decisions = s.decisions ++
        (neededVictims sch incoming.sizeBytes s.activeBytes vs).map (evictedEntry ts) := by
  intro vs
  induction vs with
  | nil => exact fun s => Ensures.pure (List.append_nil _).symm
  | cons v vs ih =>
      intro s
      refine Ensures.get_bind ?_
      by_cases hfit : sch.Fits s.activeBytes incoming.sizeBytes
      · rw [if_pos hfit]
        exact Ensures.pure (by simp [neededVictims, hfit])
      · rw [if_neg hfit]
        refine (removeActive_quiet v s).bind fun _ s₁ h₁ => ?_
        refine (Ensures.modify ⟨rfl, rfl⟩ : Ensures (addActiveBytes (-v.sizeBytes)) s₁ fun _ s₂ =>
          s₂.decisions = s₁.decisions ∧
            s₂.activeBytes = s₁.activeBytes + -v.sizeBytes).bind fun _ s₂ h₂ => ?_
        refine (mark_quiet v _ ts s₂).bind fun _ s₃ h₃ => ?_
        refine (Ensures.modify ⟨rfl, rfl⟩ : Ensures (log ts v .drop "evicted_by_priority" none) s₃
          fun _ s₄ => s₄.decisions = s₃.decisions ++ [evictedEntry ts v] ∧
            s₄.activeBytes = s₃.activeBytes).bind fun _ s₄ h₄ => ?_
        refine (ih s₄).mono fun _ s' h' => ?_
        have hbytes : s₄.activeBytes = s.activeBytes - v.sizeBytes := by
          rw [h₄.2, h₃.2, h₂.2, h₁.2, sub_eq_add_neg]
        rw [h', hbytes, h₄.1, h₃.1, h₂.1, h₁.1]
        simp [neededVictims, hfit]

theorem evictLowerPriorityToFit_entries (ts : ℚ) (hbytes : s.activeBytes = totalBytes s.active)
    (hfull : ¬ sch.Fits s.activeBytes b.sizeBytes) :
    Ensures (evictLowerPriorityToFit sch b ts) s fun _ s' => s'.decisions = s.decisions ++
      if sch.Fits (totalBytes (protectedFrom s.active b)) b.sizeBytes then
        (neededVictims sch b.sizeBytes (totalBytes s.active)
          (victimOrder (candidates s.active b))).map (evictedEntry ts)
      else [] := by
  refine Ensures.get_bind ?_
  by_cases hroom : sch.Fits (totalBytes (protectedFrom s.active b)) b.sizeBytes
  · rw [if_neg (candidates_ne_nil hbytes hfull hroom),
      if_neg (fun hlt => (infeasible_iff hbytes).1 hlt hroom), if_pos hroom, ← hbytes]
    exact (evictLoop_entries sch b ts _ s).bind fun _ _ h' =>
      Ensures.get_bind (Ensures.pure h')
  · rw [if_neg hroom]
    split
    · exact Ensures.pure (List.append_nil _).symm
    · rw [if_pos ((infeasible_iff hbytes).2 hroom)]
      exact Ensures.pure (List.append_nil _).symm

theorem overflow_entries (b : Bundle) (ts : ℚ) (s : SchedulerState) :
    Ensures (overflow b ts) s fun _ s' => s'.decisions = s.decisions ++ [overflowEntry ts b] := by
  refine (mark_quiet b _ ts s).bind fun _ s₁ h₁ => ?_
  rw [← h₁.1]
  exact Ensures.modify rfl

theorem admitOne_quiet (b : Bundle) (ts : ℚ) (s : SchedulerState) :
    Ensures (admitOne b ts) s fun _ s' => s'.decisions = s.decisions := by
  rintro _ _ ⟨⟩
  rfl

/-- `_try_admit` logs the victims of its decision, or the arrival. -/
theorem tryAdmit_entries {future : List Bundle} (h : s.toBuffer.WellFormed sch (b :: future)) :
    Ensures (tryAdmit sch b b.ingressTs) s fun _ s' => s'.decisions = s.decisions ++
      match sch.admission s.active b with
      | some vs => vs.map (evictedEntry b.ingressTs)
      | none => [overflowEntry b.ingressTs b] := by
  refine Ensures.get_bind ?_
  by_cases hfit : sch.Fits s.activeBytes b.sizeBytes
  · have hfit' := hfit
    rw [h.bytes] at hfit'
    rw [if_pos hfit, Scheduler.admission, if_pos hfit']
    exact (admitOne_quiet b _ s).mono fun _ s' h' => by simp [h']
  · have hfit' := hfit
    rw [h.bytes] at hfit'
    rw [if_neg hfit, Scheduler.admission, if_neg hfit']
    by_cases haware : sch.admissionIsPriorityAware = true
    · rw [if_pos haware]
      have hroomMade := (evictLowerPriorityToFit_spec b.ingressTs h hfit).ensures
      refine ((evictLowerPriorityToFit_entries b.ingressTs h.bytes hfit).and hroomMade).bind
        fun r s₁ h₁ => ?_
      rcases h₁ with ⟨hlog, rfl, -⟩
      by_cases hroom : sch.Fits (totalBytes (protectedFrom s.active b)) b.sizeBytes
      · rw [if_pos hroom] at hlog
        simp only [hroom, decide_true, if_true, haware, and_self]
        exact (admitOne_quiet b _ s₁).mono fun _ s' h' => h'.trans hlog
      · rw [if_neg hroom, List.append_nil] at hlog
        simp only [hroom, decide_false, Bool.false_eq_true, if_false, and_false]
        exact hlog ▸ overflow_entries b _ s₁
    · rw [if_neg haware, if_neg fun hboth => haware hboth.1]
      exact overflow_entries b _ s

end Entries

end Gateway
end LunaBridge
