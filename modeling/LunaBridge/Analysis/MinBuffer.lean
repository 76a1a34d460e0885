import LunaBridge.Foundation.Bisection
import LunaBridge.Scheduling.SafetyBuffer

/-!
# MinBuffer — the bisection for the smallest safe buffer

`min_buffer_for_zero_protected_loss` replays the trace of a profile against one contact after the
gap and bisects for the smallest cap that delivers every protected bundle.  Its upper bracket, all
bytes of the trace, is never tried.  It is enough unless a protected bundle expires during the gap;
then no cap is.
-/

namespace LunaBridge
namespace Analysis

open Gateway Foundation.Python Foundation.Machine Foundation.Bisection Foundation.SlotAssignment

/-! ## The simulation -/

/-- The plan of the simulation: one contact after the gap, ten seconds long, that could carry the
trace a hundred times. -/
def drainPlan (gapS : ℚ) (totalBytes : ℤ) : Except PyError ContactPlan := do
  let window ← ContactWindow.make "drain" gapS (gapS + 10) (totalBytes * 8 * 10) "relay-0"
  ContactPlan.make [window]

/-- `safe`: does a run with this cap deliver every protected bundle?  `now` is what `time.time()`
returns in that run. -/
def safe (plan : ContactPlan) (bundles : List Bundle) (priorityAware : Bool) (now cap : ℚ) :
    Except PyError Bool := do
  let sch ← Scheduler.make plan cap .strictPriority (some priorityAware) true
  -- every call works on fresh copies of the records
  match run sch now bundles (SchedulerState.fresh fun _ => {}) with
  | .ok _ s' => .ok (allProtectedDelivered bundles s'.records)
  | .error e _ => .error e

/-- `min_buffer_for_zero_protected_loss`, with the readings of the clock in the forty runs. -/
def minBufferForZeroProtectedLoss (profile : List ClassLoad) (gapS : ℚ) (priorityAware : Bool)
    (clock : ℕ → ℚ) : Except PyError (ℚ × ℤ) := do
  let bundles ← makeTrace profile gapS
  let plan ← drainPlan gapS (totalBytes bundles)
  let hi ← bisect (fun round cap => safe plan bundles priorityAware (clock round) cap) 40
    1 (totalBytes bundles : ℚ)
  .ok (hi, totalBytes bundles)

/-- The simulation inside it, for one cap. -/
def simulate (profile : List ClassLoad) (gapS : ℚ) (priorityAware : Bool) (now cap : ℚ) :
    Except PyError Bool := do
  let bundles ← makeTrace profile gapS
  let plan ← drainPlan gapS (totalBytes bundles)
  safe plan bundles priorityAware now cap

/-! ## What a trace consists of -/

/-- Distinct sequence numbers are written differently. -/
theorem toString_injective : Function.Injective (toString : ℕ → String) := by
  intro m n h
  have hdigits : Nat.toDigits 10 m = Nat.toDigits 10 n := by
    have hlist := congrArg String.toList h
    simpa only [Nat.toString_eq_repr, Nat.toList_repr] using hlist
  rw [← Nat.ofDigitChars_ten_toDigits (n := m), hdigits, Nat.ofDigitChars_ten_toDigits]

/-- The ids of `n` bundles whose sequence numbers follow on `seq`. -/
def idsFrom (seq n : ℕ) : List String := (List.range' (seq + 1) n).map toString

theorem idsFrom_append (seq m n : ℕ) :
    idsFrom seq m ++ idsFrom (seq + m) n = idsFrom seq (m + n) := by
  rw [idsFrom, idsFrom, idsFrom, ← List.map_append, Nat.add_right_comm, List.range'_append_1]

theorem idsFrom_nodup (seq n : ℕ) : (idsFrom seq n).Nodup :=
  (List.nodup_range' _).map toString_injective

section Emission

variable {c : ClassLoad} {gapS interval : ℚ}

/-- One round of the emission loop: it ends with the gap, or emits a bundle and goes on. -/
theorem emitLoop_cases {fuel seq seq' : ℕ} {t : ℚ} {bundles : List Bundle}
    (h : emitLoop c gapS interval fuel seq t = .ok (bundles, seq')) :
    (gapS ≤ t ∧ bundles = [] ∧ seq' = seq) ∨
    (t < gapS ∧ ∃ fuel' later, fuel = fuel' + 1 ∧ bundles = c.emit (seq + 1) t :: later ∧
      emitLoop c gapS interval fuel' (seq + 1) (t + interval) = .ok (later, seq')) := by
  by_cases ht : t < gapS
  · refine Or.inr ⟨ht, ?_⟩
    cases fuel with
    | zero => simp [emitLoop, ht] at h
    | succ fuel =>
        simp only [emitLoop, ht, if_true] at h
        obtain ⟨⟨later, seq''⟩, hrest, hlast⟩ := except_bind_eq_ok.1 h
        cases hlast
        exact ⟨fuel, later, rfl, rfl, hrest⟩
  · refine Or.inl ⟨not_lt.1 ht, ?_⟩
    cases fuel <;> (simp only [emitLoop, ht, if_false] at h; cases h; exact ⟨rfl, rfl⟩)

/-- The loop numbers its bundles in order, and emits all of them during the gap. -/
theorem emitLoop_emits (hinterval : 0 ≤ interval) :
    ∀ (fuel seq seq' : ℕ) (t : ℚ) (bundles : List Bundle),
      emitLoop c gapS interval fuel seq t = .ok (bundles, seq') →
      bundles.map Bundle.bundleId = idsFrom seq bundles.length ∧
        seq' = seq + bundles.length ∧
        ∀ b ∈ bundles, ∃ k t', t ≤ t' ∧ t' < gapS ∧ b = c.emit k t' := by
  intro fuel
  induction fuel with
  | zero =>
      intro seq seq' t bundles h
      rcases emitLoop_cases h with ⟨_, rfl, rfl⟩ | ⟨_, fuel', _, hfuel, _⟩
      · exact ⟨rfl, rfl, nofun⟩
      · cases hfuel
  | succ fuel ih =>
      intro seq seq' t bundles h
      rcases emitLoop_cases h with ⟨_, rfl, rfl⟩ | ⟨ht, fuel', later, hfuel, rfl, hrest⟩
      · exact ⟨rfl, rfl, nofun⟩
      · cases hfuel
        obtain ⟨hids, hseq, hmem⟩ := ih _ _ _ _ hrest
        refine ⟨?_, ?_, fun b hb => ?_⟩
        · rw [List.map_cons, hids, List.length_cons, Nat.add_comm later.length 1, ← idsFrom_append]
          rfl
        · rw [hseq, List.length_cons]
          omega
        · rcases List.mem_cons.1 hb with rfl | hb
          · exact ⟨seq + 1, t, le_rfl, ht, rfl⟩
          · obtain ⟨k, t', hle, hlt, rfl⟩ := hmem b hb
            exact ⟨k, t', by linarith, hlt, rfl⟩

end Emission

/-- What the loops over a profile have emitted by the end of the gap. -/
structure Emitted (profile : List ClassLoad) (gapS : ℚ) (seq : ℕ) (trace : List Bundle) : Prop where
  ids : trace.map Bundle.bundleId = idsFrom seq trace.length
  during : ∀ b ∈ trace, ∃ c ∈ profile, ∃ k t, 0 ≤ t ∧ t < gapS ∧ b = c.emit k t
  first : ∀ c ∈ profile, ∃ k, c.emit k 0 ∈ trace

/-- A class whose loop has ended has a positive period. -/
theorem interval_pos {c : ClassLoad} {gapS interval : ℚ} {seq seq' : ℕ} {bundles : List Bundle}
    (hgap : 0 < gapS)
    (h : emitLoop c gapS interval (emitRounds gapS interval) seq 0 = .ok (bundles, seq')) :
    0 < interval := by
  rcases emitLoop_cases h with ⟨hover, _⟩ | ⟨_, fuel, _, hfuel, _⟩
  · exact absurd hgap (not_lt.2 hover)
  · have hrounds : 0 < emitRounds gapS interval := hfuel ▸ Nat.succ_pos fuel
    exact (div_pos_iff_of_pos_left hgap).1 (Nat.ceil_pos.1 hrounds)

theorem traceFrom_emitted {gapS : ℚ} (hgap : 0 < gapS) :
    ∀ (profile : List ClassLoad) (seq : ℕ) (trace : List Bundle),
      traceFrom gapS profile seq = .ok trace → Emitted profile gapS seq trace := by
  intro profile
  induction profile with
  | nil =>
      rintro seq trace ⟨⟩
      exact ⟨rfl, nofun, nofun⟩
  | cons c cs ih =>
      intro seq trace h
      by_cases hrate : c.byteRate = 0
      · simp [traceFrom, hrate] at h
      · simp only [traceFrom, hrate, if_false] at h
        obtain ⟨⟨emitted, seq'⟩, hrun, h⟩ := except_bind_eq_ok.1 h
        obtain ⟨rest, hrest, hlast⟩ := except_bind_eq_ok.1 h
        cases hlast
        obtain ⟨hids, hseq, hmem⟩ :=
          emitLoop_emits (interval_pos hgap hrun).le _ _ _ _ _ hrun
        have hlater := ih _ _ hrest
        refine ⟨?_, fun b hb => ?_, fun d hd => ?_⟩
        · rw [List.map_append, hids, hlater.ids, hseq, idsFrom_append, List.length_append]
        · rcases List.mem_append.1 hb with hb | hb
          · obtain ⟨k, t, hle, hlt, rfl⟩ := hmem b hb
            exact ⟨c, List.mem_cons_self .., k, t, hle, hlt, rfl⟩
          · obtain ⟨d, hd, hrest⟩ := hlater.during b hb
            exact ⟨d, List.mem_cons_of_mem _ hd, hrest⟩
        · rcases List.mem_cons.1 hd with rfl | hd
          · -- the gap has begun when the loop does
            rcases emitLoop_cases hrun with ⟨hover, _⟩ | ⟨_, _, later, _, hfirst, _⟩
            · exact absurd hgap (not_lt.2 hover)
            · exact ⟨seq + 1, by rw [hfirst]; simp⟩
          · obtain ⟨k, hk⟩ := hlater.first d hd
            exact ⟨k, List.mem_append_right _ hk⟩

namespace Emitted

variable {profile : List ClassLoad} {gapS : ℚ} {seq : ℕ} {trace : List Bundle}

/-- The bundles of a trace are what a run expects. -/
theorem valid (h : Emitted profile gapS seq trace) (hsizes : ∀ c ∈ profile, 0 < c.bundleSize) :
    Valid trace fun _ => {} := by
  refine ⟨?_, fun b hb => ?_, fun b hb => ?_, fun _ _ => rfl⟩
  · rw [h.ids]
    exact idsFrom_nodup seq _
  · obtain ⟨c, hc, k, t, _, _, rfl⟩ := h.during b hb
    exact hsizes c hc
  · obtain ⟨c, _, k, t, _, _, rfl⟩ := h.during b hb
    exact Option.some_ne_none _

theorem ingressTs_lt (h : Emitted profile gapS seq trace) {b : Bundle} (hb : b ∈ trace) :
    b.ingressTs < gapS := by
  obtain ⟨c, _, k, t, _, hlt, rfl⟩ := h.during b hb
  exact hlt

/-- Of the bundles of a class the first one expires first. -/
theorem alive_iff (h : Emitted profile gapS seq trace) (p : TrafficClass → Prop) :
    (∀ b ∈ trace, p b.trafficClass → gapS < b.deadline) ↔
      ∀ c ∈ profile, p c.cls → gapS < (classSpecs c.cls).defaultTtlS := by
  constructor
  · intro halive c hc hp
    obtain ⟨k, hk⟩ := h.first c hc
    calc gapS
        _ < (c.emit k 0).deadline := halive _ hk hp
        _ = (classSpecs c.cls).defaultTtlS := zero_add _
  · intro hlong b hb hp
    obtain ⟨c, hc, k, t, ht, _, rfl⟩ := h.during b hb
    calc gapS
        _ < (classSpecs c.cls).defaultTtlS := hlong c hc hp
        _ ≤ t + (classSpecs c.cls).defaultTtlS := le_add_of_nonneg_left ht
        _ = (c.emit k t).deadline := rfl

end Emitted

/-- No class that need not be protected has a shorter lifetime than a protected one. -/
theorem ttl_le_ttl : ∀ tc tc', isProtected tc = true → isProtected tc' = false →
    (classSpecs tc).defaultTtlS ≤ (classSpecs tc').defaultTtlS := by
  intro tc tc'
  cases tc <;> cases tc' <;> decide +kernel

/-- If a profile has protected classes and they outlive the gap, all its classes do. -/
theorem outlive_of_protected {profile : List ClassLoad} {gapS : ℚ}
    (hlong : ∀ c ∈ profile, isProtected c.cls = true → gapS < (classSpecs c.cls).defaultTtlS)
    (hsome : ∃ c ∈ profile, isProtected c.cls = true) :
    ∀ c ∈ profile, gapS < (classSpecs c.cls).defaultTtlS := by
  obtain ⟨d, hd, hprot⟩ := hsome
  intro c hc
  cases hc' : isProtected c.cls with
  | true => exact hlong c hc hc'
  | false =>
      calc gapS
          _ < (classSpecs d.cls).defaultTtlS := hlong d hd hprot
          _ ≤ (classSpecs c.cls).defaultTtlS := ttl_le_ttl _ _ hprot hc'

/-! ## The contact after the gap -/

/-- The plan of the simulation has one window, which opens after the gap and has room for the whole
trace. -/
structure DrainsAfter (gapS : ℚ) (total : ℤ) (plan : ContactPlan) (w : ContactWindow) : Prop where
  windows : plan.windows = [w]
  startTs : w.startTs = gapS
  inBudget : (total : ℚ) * 8 ≤ w.rawBitBudget

theorem drainPlan_ok (gapS : ℚ) {total : ℤ} (htotal : 0 < total) :
    ∃ plan w, drainPlan gapS total = .ok plan ∧ DrainsAfter gapS total plan w := by
  have hrate : (0 : ℚ) < total * 8 * 10 := by
    have : (0 : ℚ) < total := by exact_mod_cast htotal
    linarith
  let w : ContactWindow :=
    { contactId := "drain"
      startTs := gapS
      endTs := gapS + 10
      linkRateBps := total * 8 * 10
      relayId := "relay-0"
      start_lt_end := by linarith
      rate_pos := hrate }
  have hwindow :
      ContactWindow.make "drain" gapS (gapS + 10) (total * 8 * 10) "relay-0" = .ok w := by
    rw [ContactWindow.make, dif_neg (not_le.2 w.start_lt_end), dif_neg (not_le.2 hrate)]
  refine ⟨⟨[w], List.pairwise_singleton _ _⟩, w, ?_, rfl, rfl, ?_⟩
  · rw [drainPlan, hwindow]
    rfl
  · show (total : ℚ) * 8 ≤ (gapS + 10 - gapS) * (total * 8 * 10)
    linarith

/-- An empty trace leaves the contact without a rate. -/
theorem drainPlan_zero (gapS : ℚ) : ∃ message, drainPlan gapS 0 = .error (.valueError message) := by
  have hwindow : ∃ message,
      ContactWindow.make "drain" gapS (gapS + 10) ((0 : ℤ) * 8 * 10) "relay-0" =
        .error (.valueError message) := by
    rw [ContactWindow.make, dif_neg (by linarith), dif_pos (by norm_num)]
    exact ⟨_, rfl⟩
  obtain ⟨message, herr⟩ := hwindow
  exact ⟨message, by rw [drainPlan, herr]; rfl⟩

/-! ## One call of `safe` -/

/-- The scheduler of the call. -/
def simulator (plan : ContactPlan) (priorityAware : Bool) {cap : ℚ} (hcap : 0 < cap) :
    Scheduler where
  plan := plan
  maxQueueBytes := cap
  policy := .strictPriority
  priorityAwareAdmission := some priorityAware
  maxQueueBytes_pos := hcap

section Safe

variable {plan : ContactPlan} {bundles : List Bundle} {priorityAware : Bool} {now cap : ℚ}

theorem safe_eq (hcap : 0 < cap) {s' : SchedulerState}
    (h : run (simulator plan priorityAware hcap) now bundles (SchedulerState.fresh fun _ => {}) =
      .ok ⟨⟩ s') :
    safe plan bundles priorityAware now cap = .ok (allProtectedDelivered bundles s'.records) := by
  have hmake : Scheduler.make plan cap .strictPriority (some priorityAware) true =
      .ok (simulator plan priorityAware hcap) := by
    rw [Scheduler.make, dif_neg (not_le.2 hcap)]
    rfl
  rw [safe, hmake]
  show (match run (simulator plan priorityAware hcap) now bundles _ with
    | .ok _ s' => Except.ok (allProtectedDelivered bundles s'.records)
    | .error e _ => .error e) = _
  rw [h]

/-- Without a positive cap there is no scheduler. -/
theorem cap_pos_of_safe {yes : Bool} (h : safe plan bundles priorityAware now cap = .ok yes) :
    0 < cap := by
  by_contra hcap
  rw [safe, Scheduler.make, dif_pos (not_lt.1 hcap)] at h
  cases h

/-- The call returns, and the clock has no say in the answer. -/
theorem safe_returns (hvalid : Valid bundles fun _ => {}) (plan : ContactPlan)
    (priorityAware : Bool) (hcap : 0 < cap) :
    ∃ yes, ∀ now, safe plan bundles priorityAware now cap = .ok yes := by
  obtain ⟨β, hβ⟩ := run_buffer hvalid (SchedulerState.fresh_idle fun _ => {})
    (simulator plan priorityAware hcap)
  refine ⟨allProtectedDelivered bundles β.records, fun now => ?_⟩
  rcases hβ now with ⟨_, s', hrun, hbuffer⟩
  rw [safe_eq hcap hrun, ← hbuffer]

/-- Without protected bundles there is nothing to lose. -/
theorem safe_of_unprotected (hvalid : Valid bundles fun _ => {}) (hcap : 0 < cap)
    (hnone : ∀ b ∈ bundles, isProtected b.trafficClass = false) :
    safe plan bundles priorityAware now cap = .ok true := by
  obtain ⟨β, hβ⟩ := run_buffer hvalid (SchedulerState.fresh_idle fun _ => {})
    (simulator plan priorityAware hcap)
  rcases hβ now with ⟨_, s', hrun, _⟩
  have hnil : protectedBundles bundles = [] :=
    List.filter_eq_nil_iff.2 fun b hb => by rw [hnone b hb]; exact Bool.false_ne_true
  rw [safe_eq hcap hrun, allProtectedDelivered, if_pos hnil]

/-- A cap that covers all bundles is enough if they all live to see the contact. -/
theorem safe_of_ample {w : ContactWindow} (hvalid : Valid bundles fun _ => {})
    (h : AwaitsOneContact plan w bundles) (hcap : 0 < cap)
    (hample : ((totalBytes bundles : ℤ) : ℚ) ≤ cap) :
    safe plan bundles priorityAware now cap = .ok true := by
  have h' : AwaitsOneContact (simulator plan priorityAware hcap).plan w bundles := h
  rcases h'.delivers hvalid hample now with ⟨_, s', hrun, hdel⟩
  rw [safe_eq hcap hrun, allProtectedDelivered_iff.2 fun b hb _ => hdel b hb]

/-- No cap is enough once a protected bundle has expired. -/
theorem not_safe_of_expired {w : ContactWindow} {b : Bundle} (hvalid : Valid bundles fun _ => {})
    (hwindows : plan.windows = [w]) (hb : b ∈ bundles) (hprot : isProtected b.trafficClass = true)
    (hdead : b.deadline ≤ w.startTs) : safe plan bundles priorityAware now cap ≠ .ok true := by
  intro hsafe
  have hcap := cap_pos_of_safe hsafe
  rcases run_assigns (simulator plan priorityAware hcap) now hvalid
    (SchedulerState.fresh_idle fun _ => {}) with ⟨_, s', hrun, A, hA, _, hplaced⟩
  rw [safe_eq hcap hrun, Except.ok.injEq] at hsafe
  have hdel := allProtectedDelivered_iff.1 hsafe b hb (of_decide_eq_true hprot)
  -- so it was sent in the only window, and was alive when that opened
  have hmem : b ∈ placed bundles.toFinset A := hplaced ▸ mem_delivered.2 ⟨hb, hdel⟩
  obtain ⟨v, hv⟩ := Option.isSome_iff_exists.1 (Finset.mem_filter.1 hmem).2
  have hused := hA.usable b v hv
  have hvw : v = w := by
    have hmem : v ∈ plan.windows := hused.2.1
    rw [hwindows] at hmem
    exact List.mem_singleton.1 hmem
  rw [hvw] at hused
  exact absurd hused.2.2.2 (not_lt.2 hdead)

end Safe

/-- A trace whose bundles outlive the gap awaits the contact. -/
theorem Emitted.awaits {profile : List ClassLoad} {gapS : ℚ} {seq : ℕ} {trace : List Bundle}
    {plan : ContactPlan} {w : ContactWindow} (h : Emitted profile gapS seq trace)
    (hdrain : DrainsAfter gapS (totalBytes trace) plan w)
    (halive : ∀ b ∈ trace, gapS < b.deadline) : AwaitsOneContact plan w trace := by
  refine ⟨hdrain.windows, fun b hb => ?_, fun b hb => ?_, ?_⟩
  · rw [hdrain.startTs]
    exact (h.ingressTs_lt hb).le
  · rw [hdrain.startTs]
    exact halive b hb
  · rw [load_bits]
    exact hdrain.inBudget

/-! ## The bisection -/

/-- The trace and the plan that the simulation of a profile works with. -/
structure Rehearsal (profile : List ClassLoad) (gapS : ℚ) (trace : List Bundle)
    (plan : ContactPlan) (w : ContactWindow) : Prop where
  trace_eq : makeTrace profile gapS = .ok trace
  plan_eq : drainPlan gapS (totalBytes trace) = .ok plan
  emitted : Emitted profile gapS 0 trace
  valid : Valid trace fun _ => {}
  drain : DrainsAfter gapS (totalBytes trace) plan w
  total_pos : 0 < totalBytes trace

/-- Without a gap nothing is emitted. -/
theorem traceFrom_eq_nil {gapS : ℚ} (hgap : gapS ≤ 0) :
    ∀ (profile : List ClassLoad) (seq : ℕ) (trace : List Bundle),
      traceFrom gapS profile seq = .ok trace → trace = [] := by
  intro profile
  induction profile with
  | nil =>
      rintro seq trace ⟨⟩
      rfl
  | cons c cs ih =>
      intro seq trace h
      by_cases hrate : c.byteRate = 0
      · simp [traceFrom, hrate] at h
      · simp only [traceFrom, hrate, if_false] at h
        obtain ⟨⟨emitted, seq'⟩, hrun, h⟩ := except_bind_eq_ok.1 h
        obtain ⟨rest, hrest, hlast⟩ := except_bind_eq_ok.1 h
        cases hlast
        rcases emitLoop_cases hrun with ⟨_, rfl, _⟩ | ⟨hlt, _⟩
        · exact ih _ _ hrest
        · exact absurd hlt (not_lt.2 hgap)

/-- A profile of proper bundles that emits anything at all is rehearsed. -/
theorem exists_rehearsal {profile : List ClassLoad} {gapS : ℚ} {trace : List Bundle}
    (hsizes : ∀ c ∈ profile, 0 < c.bundleSize) (htrace : makeTrace profile gapS = .ok trace)
    (hne : trace ≠ []) : ∃ plan w, Rehearsal profile gapS trace plan w := by
  have hgap : 0 < gapS := by
    by_contra hgap
    exact hne (traceFrom_eq_nil (not_lt.1 hgap) profile 0 trace htrace)
  have hemitted := traceFrom_emitted hgap profile 0 trace htrace
  have hvalid := hemitted.valid hsizes
  have htotal : 0 < totalBytes trace :=
    lt_of_le_of_ne (totalBytes_nonneg hvalid.sizes) fun hzero =>
      hne ((totalBytes_eq_zero_iff hvalid.sizes).1 hzero.symm)
  obtain ⟨plan, w, hplan, hdrain⟩ := drainPlan_ok gapS htotal
  exact ⟨plan, w, htrace, hplan, hemitted, hvalid, hdrain, htotal⟩

namespace Rehearsal

variable {profile : List ClassLoad} {gapS : ℚ} {trace : List Bundle} {plan : ContactPlan}
  {w : ContactWindow}

theorem simulate_eq (h : Rehearsal profile gapS trace plan w) (priorityAware : Bool)
    (now cap : ℚ) :
    simulate profile gapS priorityAware now cap = safe plan trace priorityAware now cap := by
  rw [simulate, h.trace_eq]
  show (drainPlan gapS (totalBytes trace) >>= fun plan =>
    safe plan trace priorityAware now cap) = _
  rw [h.plan_eq]
  rfl

/-- What the bisection returns is its upper bracket or a cap that one of its runs has tried with
success. -/
theorem minBuffer_eq (h : Rehearsal profile gapS trace plan w) (priorityAware : Bool)
    (clock : ℕ → ℚ) :
    ∃ hi, minBufferForZeroProtectedLoss profile gapS priorityAware clock =
        .ok (hi, totalBytes trace) ∧ 0 < hi ∧
      (hi = (totalBytes trace : ℤ) ∨ ∃ now, safe plan trace priorityAware now hi = .ok true) := by
  have hmid : ∀ x y : ℚ, 0 < x → 0 < y → 0 < (x + y) / 2 := fun x y hx hy => by linarith
  have htotal : (0 : ℚ) < (totalBytes trace : ℤ) := by exact_mod_cast h.total_pos
  have hquery : ∀ (round : ℕ) (cap : ℚ), 0 < cap →
      ∃ yes, (fun round cap => safe plan trace priorityAware (clock round) cap) round cap =
        .ok yes := fun round cap hcap =>
    (safe_returns h.valid plan priorityAware hcap).imp fun _ hyes => hyes _
  obtain ⟨hi, hrun, hpos, hcase⟩ :=
    bisect_spec hmid hquery 40 1 (totalBytes trace : ℤ) one_pos htotal
  refine ⟨hi, ?_, hpos, hcase.imp_right fun ⟨round, hround⟩ => ⟨_, hround⟩⟩
  rw [minBufferForZeroProtectedLoss, h.trace_eq]
  show (drainPlan gapS (totalBytes trace) >>= fun plan => _ >>= fun hi => _) = _
  rw [h.plan_eq]
  show (bisect _ 40 1 _ >>= fun hi => _) = _
  rw [hrun]
  rfl

/-- If the protected classes outlive the gap, all bundles do, unless none is protected. -/
theorem alive_or_unprotected (h : Rehearsal profile gapS trace plan w)
    (hlong : ∀ c ∈ profile, isProtected c.cls = true → gapS < (classSpecs c.cls).defaultTtlS) :
    (∀ b ∈ trace, gapS < b.deadline) ∨ ∀ b ∈ trace, isProtected b.trafficClass = false := by
  by_cases hsome : ∃ c ∈ profile, isProtected c.cls = true
  · have hall := outlive_of_protected hlong hsome
    have halive := (h.emitted.alive_iff fun _ => True).2 fun c hc _ => hall c hc
    exact Or.inl fun b hb => halive b hb trivial
  · refine Or.inr fun b hb => ?_
    obtain ⟨c, hc, k, t, _, _, rfl⟩ := h.emitted.during b hb
    exact Bool.eq_false_iff.2 fun hprot => hsome ⟨c, hc, hprot⟩

/-- Then room for the whole trace is enough. -/
theorem safe_total (h : Rehearsal profile gapS trace plan w)
    (hlong : ∀ c ∈ profile, isProtected c.cls = true → gapS < (classSpecs c.cls).defaultTtlS)
    (priorityAware : Bool) (now : ℚ) :
    safe plan trace priorityAware now (totalBytes trace : ℤ) = .ok true := by
  have htotal : (0 : ℚ) < (totalBytes trace : ℤ) := by exact_mod_cast h.total_pos
  rcases h.alive_or_unprotected hlong with halive | hnone
  · exact safe_of_ample h.valid (h.emitted.awaits h.drain halive) htotal le_rfl
  · exact safe_of_unprotected h.valid htotal hnone

/-- A cap that is enough shows that the protected classes outlive the gap. -/
theorem outlive_of_safe (h : Rehearsal profile gapS trace plan w) {priorityAware : Bool}
    {now cap : ℚ} (hsafe : safe plan trace priorityAware now cap = .ok true) :
    ∀ c ∈ profile, isProtected c.cls = true → gapS < (classSpecs c.cls).defaultTtlS := by
  refine (h.emitted.alive_iff fun tc => isProtected tc = true).1 fun b hb hprot => ?_
  by_contra hdead
  refine not_safe_of_expired h.valid h.drain.windows hb hprot ?_ hsafe
  rw [h.drain.startTs]
  exact not_lt.1 hdead

end Rehearsal

/-- The buffer that is returned is enough exactly if every protected class of the profile outlives
the gap: its bundles of the first instant must not have expired when the contact opens.  A buffer
is returned for every profile but the empty one. -/
theorem minBuffer_enough_iff {profile : List ClassLoad} {gapS : ℚ}
    (hpos : ∀ c ∈ profile, 0 < c.byteRate ∧ 0 < c.bundleSize) (hgap : 0 < gapS)
    (priorityAware : Bool) (clock : ℕ → ℚ) (now : ℚ) :
    (profile ≠ [] → ∃ hi total,
      minBufferForZeroProtectedLoss profile gapS priorityAware clock = .ok (hi, total)) ∧
    ((∀ hi total, minBufferForZeroProtectedLoss profile gapS priorityAware clock = .ok (hi, total) →
        simulate profile gapS priorityAware now hi = .ok true) ↔
      ∀ c ∈ profile, (classSpecs c.cls).rank ≤ protectedMaxRank →
        gapS < (classSpecs c.cls).defaultTtlS) := by
  by_cases hnil : profile = []
  · -- no trace, no rate, no contact
    subst hnil
    obtain ⟨message, herr⟩ := drainPlan_zero gapS
    refine ⟨fun hne => absurd rfl hne, fun _ => nofun, fun _ hi total hrun => ?_⟩
    have hraise : minBufferForZeroProtectedLoss [] gapS priorityAware clock =
        (drainPlan gapS 0 >>= fun plan => _) := rfl
    rw [hraise, herr] at hrun
    cases hrun
  · obtain ⟨trace, htrace, -⟩ := traceFrom_bytes hgap.le profile 0 hpos
    have hne : trace ≠ [] := by
      obtain ⟨c, hc⟩ := List.exists_mem_of_ne_nil profile hnil
      obtain ⟨k, hk⟩ := (traceFrom_emitted hgap profile 0 trace htrace).first c hc
      exact List.ne_nil_of_mem hk
    obtain ⟨plan, w, h⟩ := exists_rehearsal (fun c hc => (hpos c hc).2) htrace hne
    obtain ⟨hi, hrun, hcap, hcase⟩ := h.minBuffer_eq priorityAware clock
    refine ⟨fun _ => ⟨hi, _, hrun⟩, fun henough => ?_, fun hlong hi' total hrun' => ?_⟩
    · have hsafe := henough hi _ hrun
      rw [h.simulate_eq] at hsafe
      intro c hc hrank
      exact h.outlive_of_safe hsafe c hc (decide_eq_true hrank)
    · rw [hrun] at hrun'
      cases hrun'
      rw [h.simulate_eq]
      rcases hcase with rfl | ⟨now', htried⟩
      · exact h.safe_total (fun c hc hprot => hlong c hc (of_decide_eq_true hprot)) _ _
      · obtain ⟨yes, hyes⟩ := safe_returns h.valid plan priorityAware hcap
        rw [hyes now, ← hyes now', htried]

/-- Alerts among images that come ten times as fast. -/
def Small.mixedProfile : List ClassLoad := [⟨.emergency, 1, 100⟩, ⟨.media, 10, 500⟩]

/-- A protected and an unprotected class, and a gap that the alerts outlive. -/
theorem minBuffer_enough_iff_small :
    (∃ hi total, minBufferForZeroProtectedLoss Small.mixedProfile 200 true (fun _ => 0) =
        .ok (hi, total) ∧
      simulate Small.mixedProfile 200 true 0 hi = .ok true) ∧
    ∃ hi total, minBufferForZeroProtectedLoss Small.mixedProfile 200 false (fun _ => 0) =
        .ok (hi, total) ∧
      simulate Small.mixedProfile 200 false 0 hi = .ok true := by
  have hpos : ∀ c ∈ Small.mixedProfile, 0 < c.byteRate ∧ 0 < c.bundleSize := by
    decide +kernel
  have hgap : (0 : ℚ) < 200 := by decide +kernel
  have hlong : ∀ c ∈ Small.mixedProfile, (classSpecs c.cls).rank ≤ protectedMaxRank →
      200 < (classSpecs c.cls).defaultTtlS := by
    decide +kernel
  have hne : Small.mixedProfile ≠ [] := List.cons_ne_nil _ _
  constructor
  · obtain ⟨hreturns, henough⟩ := minBuffer_enough_iff hpos hgap true (fun _ => 0) 0
    obtain ⟨hi, total, hrun⟩ := hreturns hne
    exact ⟨hi, total, hrun, henough.2 hlong hi total hrun⟩
  · obtain ⟨hreturns, henough⟩ := minBuffer_enough_iff hpos hgap false (fun _ => 0) 0
    obtain ⟨hi, total, hrun⟩ := hreturns hne
    exact ⟨hi, total, hrun, henough.2 hlong hi total hrun⟩

/-- One alert, and a gap that it does not outlive: the number returned is the size of the trace, and
with that buffer the alert is lost. -/
theorem minBuffer_not_enough :
    (∀ c ∈ [(⟨.emergency, 1, 1000⟩ : ClassLoad)], 0 < c.byteRate ∧ 0 < c.bundleSize) ∧
    minBufferForZeroProtectedLoss [⟨.emergency, 1, 1000⟩] 400 true (fun _ => 0) =
      .ok (1000, 1000) ∧
    simulate [⟨.emergency, 1, 1000⟩] 400 true 0 1000 = .ok false := by
  decide +kernel

end Analysis
end LunaBridge
