import LunaBridge.Scheduling.AuditTrail

/-!
# Tiers — who can afford to wait for the next window

UTILITY_AWARE calls a bundle at risk if it expires before the next window opens.  The expiry pass at
that window marks what it still finds queued, admissions in between aside, and it marks a bundle
that expires at the very opening as well.
-/

namespace LunaBridge
namespace Gateway

open Foundation.Machine Foundation.Selection Foundation.StableSort

/-! ## From one window to the next -/

/-- A timeline passes its first windows before it gets to the others. -/
theorem timeline_append (pre ws : List ContactWindow) (bs : List Bundle) :
    ∃ front still, timeline (pre ++ ws) bs = front ++ timeline ws still := by
  induction pre generalizing bs with
  | nil => exact ⟨[], bs, rfl⟩
  | cons v pre ih =>
      obtain ⟨front, still, hrest⟩ := ih (bs.filter fun b => decide (v.endTs < b.ingressTs))
      refine ⟨arrivalsOf (bs.filter fun b => decide (b.ingressTs ≤ v.endTs)) ++
        Event.contact v :: front, still, ?_⟩
      rw [List.cons_append, timeline, hrest, List.append_assoc, List.cons_append]

/-- The calls that arrivals make. -/
theorem arrivalsOf_calls (bs : List Bundle) :
    (arrivalsOf bs).flatMap Event.calls = (sortBy Bundle.ingressTs bs).map Call.tryAdmit := by
  rw [arrivalsOf, List.flatMap_map]
  exact List.flatMap_pure_eq_map _ _

/-- Between the drain of a window and the expiry pass of the next one a run only admits. -/
theorem calls_between {sch : Scheduler} {pre post : List ContactWindow} {w w' : ContactWindow}
    (hplan : sch.plan.windows = pre ++ w :: w' :: post) (bundles : List Bundle) :
    ∃ (made : List Call) (arrivals : List Bundle) (rest : List Call),
      sch.calls bundles = made ++ .drainWindow w ::
        (arrivals.map .tryAdmit ++ .expireInBlackout w'.startTs :: .drainWindow w' :: rest) := by
  obtain ⟨front, still, hfront⟩ := timeline_append pre (w :: w' :: post) bundles
  rw [Scheduler.calls, hplan, hfront, timeline, timeline]
  let later := still.filter fun b => decide (w.endTs < b.ingressTs)
  refine ⟨(front ++ arrivalsOf (still.filter fun b => decide (b.ingressTs ≤ w.endTs))).flatMap
      Event.calls ++ [.expireInBlackout w.startTs],
    sortBy Bundle.ingressTs (later.filter fun b => decide (b.ingressTs ≤ w'.endTs)),
    (timeline post (later.filter fun b => decide (w'.endTs < b.ingressTs))).flatMap Event.calls ++
      (sch.plan.lastEnd.map Call.expireInBlackout).toList, ?_⟩
  simp only [List.flatMap_append, List.flatMap_cons, arrivalsOf_calls, Event.calls,
    List.append_assoc, List.cons_append, List.nil_append, later]

section Waiting

variable {sch : Scheduler} {bundles waiting : List Bundle} {records : Bundle → Lifecycle}
  {cs : List Call} {s s' : SchedulerState} {b : Bundle} {w w' : ContactWindow}

/-- Dropped for lack of space. -/
def Overflowed (_ : Bundle) (r : Lifecycle) : Prop := r.terminalState = .queueOverflow

/-- The calls up to some point return. -/
theorem Standing.made {made : List Call} (h : Standing sch bundles records (made ++ cs) s) :
    Returns (made.forM (Call.exec sch)) s fun _ s' => Standing sch bundles records cs s' :=
  Returns.forM (I := fun ds t => Standing sch bundles records (ds ++ cs) t)
    (fun _ _ _ hI => hI.exec) made s h

/-- Whoever is queued now has not been settled. -/
theorem Standing.tracked_active (h : Standing sch bundles records cs s) :
    Tracked Overflowed s.active records (offeredBy cs) s.toBuffer :=
  ⟨h.tracked.awaited, h.tracked.queued, fun _ hb _ hout => absurd hb hout⟩

/-- Arrivals settle nobody but for lack of space. -/
theorem admissions_track : ∀ (arrivals : List Bundle) (s : SchedulerState),
    Standing sch bundles records (arrivals.map Call.tryAdmit ++ cs) s →
    Tracked Overflowed waiting records (offeredBy (arrivals.map Call.tryAdmit ++ cs)) s.toBuffer →
    Returns ((arrivals.map Call.tryAdmit).forM (Call.exec sch)) s fun _ s' =>
      Standing sch bundles records cs s' ∧
        Tracked Overflowed waiting records (offeredBy cs) s'.toBuffer := by
  intro arrivals
  induction arrivals with
  | nil => exact fun s hstand htrack => Returns.pure ⟨hstand, htrack⟩
  | cons a arrivals ih =>
      intro s hstand htrack
      refine (hstand.exec.and (tryAdmit_spec hstand.wellFormed)).bind fun _ s₁ h₁ => ?_
      refine ih s₁ h₁.1 ?_
      rw [h₁.2.1.buffer]
      exact htrack.offer hstand.wellFormed rfl fun _ _ => rfl

/-- What has been left waiting is queued or has been evicted when the pass begins; of what is
queued, the pass marks what has expired by then. -/
theorem Tracked.ttlExpired_iff {future : List Bundle}
    (h : Tracked Overflowed waiting records future s.toBuffer)
    (hwf : s.toBuffer.WellFormed sch future) (hwaiting : b ∈ waiting) (hb : b ∉ future) (t : ℚ) :
    ((s.toBuffer.expire t).records b).terminalState = .ttlExpired ↔
      b ∈ s.active ∧ b.deadline ≤ t := by
  by_cases hact : b ∈ s.active
  · have hexp := Bundle.expiredBy_iff (hwf.active_lifetime hact) t
    by_cases hdue : b.deadline ≤ t
    · have hmem : b ∈ s.active.filter fun a => a.expiredBy t :=
        List.mem_filter.2 ⟨hact, hexp.2 hdue⟩
      have hrec : (s.toBuffer.expire t).records b = (s.records b).expired := overwrite_of_mem hmem
      rw [hrec]
      exact iff_of_true rfl ⟨hact, hdue⟩
    · have hmem : b ∉ s.active.filter fun a => a.expiredBy t := fun hmem =>
        hdue (hexp.1 (List.mem_filter.1 hmem).2)
      have hrec : (s.toBuffer.expire t).records b = s.records b := overwrite_of_notMem hmem
      rw [hrec, hwf.active_pending hact]
      exact iff_of_false nofun fun hboth => hdue hboth.2
  · have hover : (s.records b).terminalState = .queueOverflow :=
      h.settled b hwaiting hb hact
    have hmem : b ∉ s.active.filter fun a => a.expiredBy t := fun hmem =>
      hact (List.mem_filter.1 hmem).1
    have hrec : (s.toBuffer.expire t).records b = s.records b := overwrite_of_notMem hmem
    rw [hrec, hover]
    exact iff_of_false nofun fun hboth => hact hboth.1

/-- What a drain has not delivered stays queued. -/
theorem undelivered_stays {sent : List Bundle}
    (hbuffer : s'.toBuffer = s.toBuffer.transmitted w sent) (hb : b ∈ s.active)
    (hleft : (s'.records b).terminalState ≠ .delivered) : b ∈ s'.active := by
  rw [hbuffer] at hleft ⊢
  refine mem_without.2 ⟨hb, fun hsent => hleft ?_⟩
  have hrec : (s.toBuffer.transmitted w sent).records b = (s.records b).delivered w :=
    overwrite_of_mem hsent
  rw [hrec]
  rfl

/-- The start of the window that comes next. -/
theorem nextWindowStart_eq {pre post : List ContactWindow}
    (hplan : sch.plan.windows = pre ++ w :: w' :: post) :
    nextWindowStart sch w = (w'.startTs : WithTop ℚ) := by
  rw [nextWindowStart, sch.plan.nextAfter_endTs hplan]
  rfl

theorem atRisk_iff {t : ℚ} : atRisk (t : WithTop ℚ) b = true ↔ b.deadline < t := by
  rw [atRisk, decide_eq_true_iff, WithTop.coe_lt_coe]

/-- Marked by the instant `t` and due before it are the same, except for who is due at `t`. -/
theorem marked_iff_due_iff {active : Prop} [Decidable active] (hlife : b.expirationTs ≠ none)
    (t : ℚ) : ((active ∧ b.deadline ≤ t ↔ b.deadline < t) ↔
      if active then b.expirationTs ≠ some t else ¬ b.deadline < t) := by
  rw [Bundle.expirationTs_eq hlife, Ne, Option.some_inj]
  split
  · next hactive =>
      constructor
      · rintro hagree hsame
        exact (hagree.1 ⟨hactive, hsame.le⟩).ne hsame
      · exact fun hne => ⟨fun h => lt_of_le_of_ne h.2 hne, fun h => ⟨hactive, h.le⟩⟩
  · next hgone =>
      constructor
      · exact fun hagree hdue => hgone (hagree.2 hdue).1
      · exact fun hdue => iff_of_false (fun h => hgone h.1) hdue

end Waiting

/-- The states of a run before and after the drain of `w`, when the next window's arrivals are in,
and after the expiry pass at that window. -/
structure Passage (sch : Scheduler) (bundles : List Bundle) (records : Bundle → Lifecycle)
    (w w' : ContactWindow) (s s₁ s₂ s₃ : SchedulerState) : Prop where
  calls : ∃ (made : List Call) (arrivals : List Bundle) (rest : List Call),
    sch.calls bundles = made ++ .drainWindow w ::
      (arrivals.map Call.tryAdmit ++ .expireInBlackout w'.startTs :: .drainWindow w' :: rest) ∧
    made.forM (Call.exec sch) (SchedulerState.fresh records) = .ok ⟨⟩ s ∧
    (arrivals.map Call.tryAdmit).forM (Call.exec sch) s₁ = .ok ⟨⟩ s₂
  drained : drainWindow sch w s = .ok ⟨⟩ s₁
  expired : expireInBlackout w'.startTs s₂ = .ok ⟨⟩ s₃

/-- After the pass at the next window a bundle that `w` did not send is marked expired iff it was in
the at-risk tier, unless it expires at the very opening of that window, or has been evicted from the
at-risk tier in between. -/
theorem expired_iff_atRisk_iff {sch : Scheduler} (hpolicy : sch.policy = .utilityAware)
    {bundles : List Bundle} {records : Bundle → Lifecycle} (hvalid : Valid bundles records)
    {pre post : List ContactWindow} {w w' : ContactWindow}
    (hplan : sch.plan.windows = pre ++ w :: w' :: post) :
    ∃ s s₁ s₂ s₃, Passage sch bundles records w w' s s₁ s₂ s₃ ∧
      sch.drainOrder w (eligible w s.toBuffer) = some (false,
        sortByDesc Bundle.utilityWeight
          ((eligible w s.toBuffer).filter (atRisk (nextWindowStart sch w))) ++
        sortByDesc Bundle.utilityDensity
          ((eligible w s.toBuffer).filter fun b => !atRisk (nextWindowStart sch w) b)) ∧
      ∀ b ∈ eligible w s.toBuffer, (s₁.records b).terminalState ≠ .delivered →
        (((s₃.records b).terminalState = .ttlExpired ↔ atRisk (nextWindowStart sch w) b = true) ↔
          if b ∈ s₂.active then b.expirationTs ≠ some w'.startTs
          else ¬ atRisk (nextWindowStart sch w) b = true) := by
  obtain ⟨made, arrivals, rest, hcalls⟩ := calls_between hplan bundles
  have hstart := hvalid.standing sch
  rw [hcalls] at hstart
  obtain ⟨⟨⟩, s, hmade, hstand⟩ := hstart.made
  -- the drain: what it does not deliver stays queued
  obtain ⟨⟨⟩, s₁, hdrain, hstand₁, sent, -, -, hbuffer, -⟩ :=
    hstand.exec.and (drainWindow_spec hstand.wellFormed)
  -- the arrivals, and then the pass
  obtain ⟨⟨⟩, s₂, hadmit, hstand₂, htrack⟩ :=
    admissions_track arrivals s₁ hstand₁ hstand₁.tracked_active
  obtain ⟨⟨⟩, s₃, hexpire, hpass, -⟩ := expireInBlackout_spec w'.startTs hstand₂.wellFormed
  refine ⟨s, s₁, s₂, s₃, ⟨⟨made, arrivals, rest, hcalls, hmade, hadmit⟩, hdrain, hexpire⟩, ?_,
    fun b hb hleft => ?_⟩
  · rw [Scheduler.drainOrder, hpolicy]
  · rw [eligible_eq_ready hstand.wellFormed] at hb
    have hqueued : b ∈ s.active := (Buffer.mem_ready.1 hb).1
    have hwaiting : b ∈ s₁.active := undelivered_stays hbuffer hqueued hleft
    have hlife := hstand.wellFormed.active_lifetime hqueued
    -- whoever is queued is not offered again
    have hnew : b ∉ offeredBy (.expireInBlackout w'.startTs :: .drainWindow w' :: rest) := by
      intro hmem
      refine hstand₁.wellFormed.future_notMem_active ?_ hwaiting
      rw [offeredBy_append]
      exact List.mem_append_right _ hmem
    have hmarked := htrack.ttlExpired_iff hstand₂.wellFormed hwaiting hnew w'.startTs
    have hrecords : s₃.records = (s₂.toBuffer.expire w'.startTs).records :=
      congrArg Buffer.records hpass.buffer
    rw [hrecords, hmarked, nextWindowStart_eq hplan, atRisk_iff]
    exact marked_iff_due_iff hlife _

/-- A thousand bytes, ten seconds after `Small.window`. -/
def Small.nextWindow : ContactWindow where
  contactId := "c1"
  startTs := 30
  endTs := 40
  linkRateBps := 800
  start_lt_end := by decide +kernel
  rate_pos := by decide +kernel

def Small.farsighted : Scheduler where
  plan :=
    { windows := [Small.window, Small.nextWindow]
      disjoint := by decide +kernel }
  maxQueueBytes := 2000
  maxQueueBytes_pos := by decide +kernel
  policy := .utilityAware

/-- Expires when the second window opens. -/
def Small.flash : Bundle := Small.bundle "flash" .emergency 600 0 30

/-- Expires before that. -/
def Small.trailer : Bundle := Small.bundle "trailer" .media 600 0 25

theorem Small.valid_farsighted : Valid [Small.flash, Small.trailer] (fun _ => {}) where
  distinct := by decide +kernel
  sizes := by decide +kernel
  lifetimes := by decide +kernel
  pending := fun _ _ => rfl

theorem expired_iff_atRisk_iff_small :
    ∃ s s₁ s₂ s₃, Passage Small.farsighted [Small.flash, Small.trailer] (fun _ => {}) Small.window
        Small.nextWindow s s₁ s₂ s₃ ∧
      ∀ b ∈ eligible Small.window s.toBuffer, (s₁.records b).terminalState ≠ .delivered →
        (((s₃.records b).terminalState = .ttlExpired ↔
            atRisk (nextWindowStart Small.farsighted Small.window) b = true) ↔
          if b ∈ s₂.active then b.expirationTs ≠ some Small.nextWindow.startTs
          else ¬ atRisk (nextWindowStart Small.farsighted Small.window) b = true) := by
  have hplan : Small.farsighted.plan.windows = [] ++ Small.window :: Small.nextWindow :: [] := rfl
  obtain ⟨s, s₁, s₂, s₃, hpassage, -, hmarks⟩ :=
    expired_iff_atRisk_iff rfl Small.valid_farsighted hplan
  exact ⟨s, s₁, s₂, s₃, hpassage, hmarks⟩

/-- The emergency is treated as safe to wait, and the media bundle takes its place. -/
theorem flash_is_not_safe :
    Valid [Small.flash, Small.trailer] (fun _ => {}) ∧
    ∃ s s₁ s₂ s₃, Passage Small.farsighted [Small.flash, Small.trailer] (fun _ => {}) Small.window
        Small.nextWindow s s₁ s₂ s₃ ∧
      Small.flash ∈ eligible Small.window s.toBuffer ∧
      atRisk (nextWindowStart Small.farsighted Small.window) Small.flash = false ∧
      (s₁.records Small.flash).terminalState = .pending ∧
      (s₁.records Small.trailer).terminalState = .delivered ∧
      (s₃.records Small.flash).terminalState = .ttlExpired := by
  have hcalls : Small.farsighted.calls [Small.flash, Small.trailer] =
      [.tryAdmit Small.flash, .tryAdmit Small.trailer, .expireInBlackout 10] ++
        .drainWindow Small.window :: (([] : List Bundle).map Call.tryAdmit ++
          .expireInBlackout Small.nextWindow.startTs :: .drainWindow Small.nextWindow ::
            [.expireInBlackout 40]) := by
    rfl
  have hrun : (Foundation.Machine.outcome ([Call.tryAdmit Small.flash, .tryAdmit Small.trailer,
      .expireInBlackout 10].forM (Call.exec Small.farsighted)
      (SchedulerState.fresh fun _ => {}))).map (fun p =>
        (decide (Small.flash ∈ eligible Small.window p.2.toBuffer),
          (Foundation.Machine.outcome (drainWindow Small.farsighted Small.window p.2)).map fun p' =>
            ((p'.2.records Small.flash).terminalState, (p'.2.records Small.trailer).terminalState,
              (Foundation.Machine.outcome (expireInBlackout Small.nextWindow.startTs p'.2)).map
                fun p'' => (p''.2.records Small.flash).terminalState))) =
      some (true, some (.pending, .delivered, some .ttlExpired)) := by
    decide +kernel
  obtain ⟨_, s, hmade, hseen⟩ := eq_ok_of_outcome hrun
  obtain ⟨heligible, hdrained⟩ := Prod.mk.inj hseen
  obtain ⟨_, s₁, hdrain, hseen₁⟩ := eq_ok_of_outcome hdrained
  obtain ⟨hflash, hseen₂⟩ := Prod.mk.inj hseen₁
  obtain ⟨htrailer, hexpired⟩ := Prod.mk.inj hseen₂
  obtain ⟨_, s₃, hexpire, hlost⟩ := eq_ok_of_outcome hexpired
  exact ⟨Small.valid_farsighted, s, s₁, s₁, s₃, ⟨⟨_, _, _, hcalls, hmade, rfl⟩, hdrain, hexpire⟩,
    of_decide_eq_true heligible, by decide +kernel, hflash, htrailer, hlost⟩

end Gateway
end LunaBridge
