import LunaBridge.Live.Expiry
import Mathlib.Data.List.Dedup
import Mathlib.Data.List.Induction

/-!
# Retention — what the live gateway still holds of bundles that are gone

A bundle that leaves its queue stays in the global order until the FIFO drain comes across it.
The memory of the gateway is within its buffer as long as nothing in the global order is gone
(`Tidy`), and `LeavesNoTrace` says exactly which calls keep it so (`retention_iff`).
-/

namespace LunaBridge
namespace LinkController

open Foundation.Machine Foundation.Selection Foundation.Python Foundation.StableSort Gateway

/-! ## Memory -/

/-- The bundles reachable from the queues and the global order, each of them once. -/
def LiveState.retained (s : LiveState) : List LiveBundle := (s.fifo ++ s.queued).dedup

/-- What is retained is no more than the buffer holds, and its only fate is to be queued. -/
structure WithinBuffer (gw : LiveGateway) (answers : List LiveAnswer) (s : LiveState) : Prop where
  total : bytesOf s.retained ≤ gw.cap
  kept : ∀ b ∈ s.retained, fates answers s b = [.queued]

/-- Nothing in the global order is gone. -/
def Tidy (s : LiveState) : Prop := ∀ b ∈ s.fifo, s.gone b = false

section Memory

variable {gw : LiveGateway} {hist : History} {now : ℚ} {s : LiveState} {b : LiveBundle}

theorem Tidy.mem_queued (h : Tidy s) (hs : Coherent s) : b ∈ s.queued ↔ b ∈ s.fifo :=
  hs.mem_queued.trans ⟨fun hb => hb.1, fun hb => ⟨hb, h b hb⟩⟩

theorem Tidy.retained_perm (h : Tidy s) (hs : Coherent s) : s.retained.Perm s.queued := by
  refine (List.perm_ext_iff_of_nodup (List.nodup_dedup _) hs.queued_nodup).2 fun b => ?_
  show b ∈ (s.fifo ++ s.queued).dedup ↔ b ∈ s.queued
  rw [List.mem_dedup, List.mem_append, h.mem_queued hs, or_self]

/-- A bundle that is not in its queue has some other fate. -/
theorem not_queued_of_fates (answers : List LiveAnswer) (hq : b ∉ s.q b.cls) :
    LiveFate.queued ∉ fates answers s b := by
  intro hmem
  rcases List.mem_append.1 hmem with hmem | hmem
  · rcases List.mem_append.1 hmem with hmem | hmem
    · obtain ⟨e, -, he⟩ := List.mem_map.1 hmem
      cases hevent : e.event <;> simp [hevent, LogEvent.fate] at he
    · obtain ⟨a, -, ha⟩ := List.mem_map.1 hmem
      cases ha
  · obtain ⟨a, ha, -⟩ := List.mem_map.1 hmem
    have hab := (List.mem_filter.1 ha).2
    rw [beq_iff_eq] at hab
    exact hq (hab ▸ (List.mem_filter.1 ha).1)

/-- The memory is within the buffer exactly if nothing in the global order is gone. -/
theorem withinBuffer_iff {answers : List LiveAnswer} (h : Sound gw hist now s)
    (hfresh : hist.offered.Nodup) (hret : hist.returned = returnedBy answers) :
    WithinBuffer gw answers s ↔ Tidy s := by
  constructor
  · intro hwithin b hb
    by_contra hgone
    have hretained : b ∈ s.retained := by simp [LiveState.retained, hb]
    refine not_queued_of_fates answers (fun hq => hgone ?_)
      (hwithin.kept b hretained ▸ List.mem_singleton_self _)
    exact (h.coherent.mem_q.1 hq).2.1
  · intro htidy
    have hperm := htidy.retained_perm h.coherent
    refine ⟨?_, fun b hb => ?_⟩
    · rw [bytesOf_perm hperm, ← h.coherent.bytes]
      exact h.capacity
    · -- its one fate is to be queued
      have hqueued := hperm.subset hb
      have hq : b ∈ s.q b.cls :=
        h.coherent.mem_q.2 ⟨(h.coherent.mem_queued.1 hqueued).1,
          (h.coherent.mem_queued.1 hqueued).2, rfl⟩
      have hoffered : b ∈ hist.offered :=
        h.settled.mem_iff.2 (List.mem_append_right _ hqueued)
      have hlength := fates_length h hret b
      rw [List.count_eq_one_of_mem hfresh hoffered] at hlength
      obtain ⟨fate, hfate⟩ := List.length_eq_one_iff.1 hlength
      have hmem : LiveFate.queued ∈ fates answers s b := by
        refine List.mem_append_right _ (List.mem_map.2 ⟨b, List.mem_filter.2 ⟨hq, ?_⟩, rfl⟩)
        exact beq_self_eq_true b
      rw [hfate] at hmem ⊢
      rw [List.mem_singleton.1 hmem]

end Memory

/-! ## Calls that leave no trace -/

/-- What a call has to find in order to leave nothing behind that is gone: an arrival must purge and
evict nobody; the FIFO drain must not skip an expired bundle whose class has another one behind the
first bundle that is alive; and under the other policies nobody may be taken or expire. -/
def LiveCall.LeavesNoTrace (gw : LiveGateway) (s : LiveState) : LiveCall → Prop
  | .admitBundle b now => ¬ gw.Over b s ∨ (∀ a ∈ s.queued, gw.expired now a = false) ∧
      (gw.admission = .priority → displaceable s.q b LiveGateway.lowestFirst = [])
  | .next now =>
      match gw.policy with
      | .fifo => ∀ a ∈ (s.fifo.dropWhile (gw.expired now)).tail, gw.expired now a = true →
          a.cls ∉ (s.fifo.takeWhile (gw.expired now)).map LiveBundle.cls
      | .strict => s.queued = []
      | .wfq => s.q .emergency = [] ∧ (∀ a ∈ s.queued, gw.expired now a = false) ∧
          ∀ b, (s.q b.cls).head? = some b → ¬ Affords b 10000 s

/-- The global order is as before, and whoever was gone still is. -/
structure Aged (s s' : LiveState) : Prop where
  fifo : s'.fifo = s.fifo
  gone : ∀ b, s.gone b = true → s'.gone b = true

/-- Nobody has left the queues of `s`. -/
def Stayed (s s' : LiveState) : Prop := ∀ b ∈ s.queued, s'.gone b = false

section Departures

variable {gw : LiveGateway} {now : ℚ} {s s₁ s' : LiveState} {b : LiveBundle} {c : TrafficClass}

theorem Aged.refl (s : LiveState) : Aged s s := ⟨rfl, fun _ h => h⟩

theorem Aged.trans (h : Aged s s₁) (h' : Aged s₁ s') : Aged s s' :=
  ⟨h'.fifo.trans h.fifo, fun b hb => h'.gone b (h.gone b hb)⟩

theorem Aged.leave (vs : List LiveBundle) (s : LiveState) : Aged s (s.leave vs) := by
  refine ⟨rfl, fun b hb => ?_⟩
  by_cases hmem : b ∈ vs
  · exact s.leave_gone hmem
  · rw [s.leave_gone_of_notMem hmem, hb]

theorem Aged.expel (event : LogEvent) (ts : ℚ) (vs : List LiveBundle) (s : LiveState) :
    Aged s (s.expel event ts vs) :=
  ⟨(Aged.leave vs s).fifo, (Aged.leave vs s).gone⟩

/-- Whoever has left is missed for good. -/
theorem Aged.not_stayed (h : Aged s₁ s') (hb : b ∈ s.queued) (hgone : s₁.gone b = true) :
    ¬ Stayed s s' := fun hstayed => by
  have hfalse := hstayed b hb
  rw [h.gone b hgone] at hfalse
  cases hfalse

/-- What the purge of one class would take. -/
theorem stale_eq_nil_iff : gw.stale now s c = [] ↔ ∀ a ∈ s.q c, gw.expired now a = false := by
  simp [LiveGateway.stale, List.filter_eq_nil_iff]

theorem clear_iff (hs : Coherent s) :
    (∀ a ∈ s.queued, gw.expired now a = false) ↔ ∀ c, gw.stale now s c = [] := by
  constructor
  · exact fun h c => stale_eq_nil_iff.2 fun a ha => h a (hs.q_subset_queued ha)
  · intro h a ha
    obtain ⟨c, -, ha'⟩ := List.mem_flatMap.1 ha
    exact stale_eq_nil_iff.1 (h c) a ha'

/-- With nothing expired in the class, all of it is live. -/
theorem live_of_clear (hclear : gw.stale now s c = []) : gw.live now s c = s.q c :=
  List.filter_eq_self.2 fun a ha => by simp [stale_eq_nil_iff.1 hclear a ha]

/-- From a tidy state, nothing gone is left behind exactly if nobody leaves. -/
theorem Tidy.iff_stayed (h : Tidy s) (hs : Coherent s) (haged : Aged s s') :
    Tidy s' ↔ Stayed s s' := by
  rw [Tidy, haged.fifo]
  exact ⟨fun hall b hb => hall b ((h.mem_queued hs).1 hb),
    fun hall b hb => hall b ((h.mem_queued hs).2 hb)⟩

theorem Tidy.expel_iff (h : Tidy s) (hs : Coherent s) {event : LogEvent} {ts : ℚ}
    {vs : List LiveBundle} (hsub : ∀ v ∈ vs, v ∈ s.queued) :
    Tidy (s.expel event ts vs) ↔ vs = [] := by
  constructor
  · intro htidy
    refine List.eq_nil_iff_forall_not_mem.2 fun v hv => ?_
    have hfalse := htidy v ((h.mem_queued hs).1 (hsub v hv))
    have htrue : (s.expel event ts vs).gone v = true := s.leave_gone hv
    rw [htrue] at hfalse
    cases hfalse
  · rintro rfl
    rwa [LiveState.expel_nil]

/-- Making room for an arrival leaves the global order as it is. -/
theorem roomFor_fifo (gw : LiveGateway) (b : LiveBundle) (now : ℚ) (s : LiveState) :
    (gw.roomFor b now s).fifo = s.fifo := by
  rw [LiveGateway.roomFor, LiveGateway.evictedFor, LiveGateway.purgedFor]
  split <;> split <;> rfl

/-- What making room for an arrival takes out of a tidy buffer. -/
theorem Tidy.roomFor_iff (h : Tidy s) (hs : Coherent s) (gw : LiveGateway) (b : LiveBundle)
    (now : ℚ) : Tidy (gw.roomFor b now s) ↔ LiveCall.LeavesNoTrace gw s (.admitBundle b now) := by
  by_cases hover : gw.Over b s
  · have hpurged : gw.purgedFor b now s =
        s.expel .expire now (gw.staleOf now s rankClasses) := if_pos hover
    have hstale := staleOf_nodup hs gw now rankClasses_nodup
    have hclear : gw.staleOf now s rankClasses = [] ↔
        ∀ a ∈ s.queued, gw.expired now a = false := by
      rw [clear_iff hs, LiveGateway.staleOf, List.flatMap_eq_nil_iff]
      exact ⟨fun hall c => hall c (mem_rankClasses c), fun hall c _ => hall c⟩
    rw [LiveCall.LeavesNoTrace, or_iff_right (not_not.2 hover), ← hclear]
    by_cases hnone : gw.staleOf now s rankClasses = []
    · -- nothing is purged, so there is still no room
      rw [hnone, LiveState.expel_nil] at hpurged
      rw [LiveGateway.roomFor, hpurged, LiveGateway.evictedFor, and_iff_right hnone]
      by_cases hadmission : gw.admission = .priority
      · have hneeded := needed_nodup hs gw b s.bytes
        rw [if_pos ⟨hover, hadmission⟩, h.expel_iff hs fun v hv => (hneeded.2 v hv).1]
        have hfirst : gw.needed b s.bytes (displaceable s.q b LiveGateway.lowestFirst) = [] ↔
            displaceable s.q b LiveGateway.lowestFirst = [] := by
          have hover' : (gw.cap : ℤ) < s.bytes + b.n := hover
          cases displaceable s.q b LiveGateway.lowestFirst with
          | nil => simp [LiveGateway.needed]
          | cons v vs => simp [LiveGateway.needed, hover']
        rw [hfirst]
        exact ⟨fun hnil _ => hnil, fun hnil => hnil hadmission⟩
      · rw [if_neg fun hboth => hadmission hboth.2]
        exact iff_of_true h fun hpriority => absurd hpriority hadmission
    · -- whoever is purged stays in the global order
      refine iff_of_false (fun htidy => hnone ?_) fun hboth => hnone hboth.1
      have hroom : Aged (gw.purgedFor b now s) (gw.roomFor b now s) := by
        rw [LiveGateway.roomFor, LiveGateway.evictedFor]
        split
        · exact Aged.expel ..
        · exact Aged.refl _
      rw [hpurged] at hroom
      have hexpel : Tidy (s.expel .expire now (gw.staleOf now s rankClasses)) ↔ _ :=
        h.expel_iff hs hstale.2
      refine hexpel.1 fun v hv => ?_
      have hfalse := htidy v (hroom.fifo ▸ hv)
      by_contra hgone
      rw [hroom.gone v (by simpa using hgone)] at hfalse
      cases hfalse
  · have hroom : gw.roomFor b now s = s := by
      rw [LiveGateway.roomFor, LiveGateway.purgedFor, if_neg hover, LiveGateway.evictedFor,
        if_neg fun hboth => hover hboth.1]
    rw [hroom]
    exact iff_of_true h (Or.inl hover)

/-- Who is missing after a head has been looked at and, if there is one, taken. -/
theorem takeHead_departs (gw : LiveGateway) (now : ℚ) (c : TrafficClass)
    (rest : LiveM (Option LiveBundle)) (P : Prop) (hs : Coherent s)
    (hrest : Coherent (s.expel .expire now (gw.stale now s c)) →
      Returns rest (s.expel .expire now (gw.stale now s c)) fun _ s' =>
        Aged (s.expel .expire now (gw.stale now s c)) s' ∧
          (s.q c = [] → (Stayed s s' ↔ P))) :
    Returns (do
      let h ← gw.head c now
      if h.isSome then do
        let taken ← LiveGateway.take c
        pure (some taken)
      else rest) s fun _ s' => Aged s s' ∧ (Stayed s s' ↔ s.q c = [] ∧ P) := by
  have hcoh := hs.peeked gw now c
  have hpeeked := Aged.expel .expire now (gw.stale now s c) s
  refine Returns.ok_bind (head_eq hs gw c now) ?_
  cases hhead : (gw.live now s c).head? with
  | some b =>
      -- the head is taken
      have hhead' : ((s.expel .expire now (gw.stale now s c)).q c).head? = some b := by
        rw [expel_stale_q, hhead]
      have hb : b ∈ s.q c := List.mem_of_mem_filter (List.mem_of_head? hhead)
      have htaken := Aged.leave [b] (s.expel .expire now (gw.stale now s c))
      refine Returns.ok_bind (take_eq hcoh hhead') (Returns.pure ⟨hpeeked.trans htaken, ?_⟩)
      refine iff_of_false ((Aged.refl _).not_stayed (hs.q_subset_queued hb)
        (LiveState.leave_gone (List.mem_singleton_self b) _)) fun hboth => ?_
      rw [hboth.1] at hb
      cases hb
  | none =>
      refine (hrest hcoh).mono fun _ s' h' => ⟨hpeeked.trans h'.1, ?_⟩
      have hlive : gw.live now s c = [] := List.head?_eq_none_iff.1 hhead
      cases hstale : gw.stale now s c with
      | nil =>
          -- the class is empty
          have hnil : s.q c = [] := by
            have hperm := List.filter_append_perm (gw.expired now) (s.q c)
            have hstale' : (s.q c).filter (gw.expired now) = [] := hstale
            have hlive' : ((s.q c).filter fun a => !gw.expired now a) = [] := hlive
            rw [hstale', hlive'] at hperm
            exact List.nil_perm.1 hperm
          rw [h'.2 hnil, and_iff_right hnil]
      | cons v vs =>
          -- somebody has expired
          have hv : v ∈ gw.stale now s c := hstale ▸ List.mem_cons_self ..
          refine iff_of_false (h'.1.not_stayed (stale_subset_queued hs gw now c v hv)
            (s.leave_gone hv)) fun hboth => ?_
          have hmem := List.mem_of_mem_filter hv
          rw [hboth.1] at hmem
          cases hmem

theorem strictLoop_departs (gw : LiveGateway) (now : ℚ) :
    ∀ (cs : List TrafficClass) (s : LiveState), Coherent s →
      Returns (gw.strictLoop now cs) s fun _ s' =>
        Aged s s' ∧ (Stayed s s' ↔ ∀ c ∈ cs, s.q c = []) := by
  intro cs
  induction cs with
  | nil =>
      intro s hs
      exact Returns.pure ⟨Aged.refl s, iff_of_true (fun b hb => (hs.mem_queued.1 hb).2) nofun⟩
  | cons c cs ih =>
      intro s hs
      have hstep := takeHead_departs gw now c (gw.strictLoop now cs) (∀ c' ∈ cs, s.q c' = []) hs
        fun hcoh => (ih _ hcoh).mono fun _ s' h' => ⟨h'.1, fun hnil => ?_⟩
      · refine hstep.mono fun _ s' h' => ⟨h'.1, ?_⟩
        rw [h'.2, List.forall_mem_cons]
      · have hstale : gw.stale now s c = [] := by simp [LiveGateway.stale, hnil]
        simpa [hstale] using h'.2

/-- Once some classes have been purged nothing in them is stale. -/
theorem stale_expel_staleOf {cs : List TrafficClass} (hc : c ∈ cs) :
    gw.stale now (s.expel .expire now (gw.staleOf now s cs)) c = [] := by
  refine stale_eq_nil_iff.2 fun a ha => ?_
  rcases mem_without.1 ha with ⟨ha, hnot⟩
  by_contra hexp
  exact hnot (List.mem_flatMap.2 ⟨c, hc, List.mem_filter.2 ⟨ha, by simpa using hexp⟩⟩)

/-- The round robin takes somebody exactly if a head can be paid for within its visits. -/
theorem wfqRounds_departs (visits : ℕ) (hs : Coherent s) (hturns : s.rr.Perm wfqWeightClasses)
    (hclear : ∀ c ∈ wfqWeightClasses, gw.stale now s c = []) :
    Returns (gw.wfqRounds now visits) s fun _ s' => Aged s s' ∧
      (Stayed s s' ↔ ∀ b, b.cls ∈ wfqWeightClasses → (s.q b.cls).head? = some b →
        ¬ Affords b visits s) := by
  have hrule : Returns (gw.wfqRounds now visits) s fun _ s' =>
      (∀ c ∈ wfqWeightClasses, gw.stale now s c = []) → Aged s s' ∧
        (Stayed s s' ↔ ∀ b, b.cls ∈ wfqWeightClasses → (s.q b.cls).head? = some b →
          ¬ Affords b visits s) := by
    refine wfqRounds_rule (motive := fun visits s _ s' =>
      (∀ c ∈ wfqWeightClasses, gw.stale now s c = []) → Aged s s' ∧
        (Stayed s s' ↔ ∀ b, b.cls ∈ wfqWeightClasses → (s.q b.cls).head? = some b →
          ¬ Affords b visits s)) ?exhausted ?idle ?short ?paid visits s hs hturns
    case exhausted =>
      intro s hs _
      exact ⟨Aged.refl s, iff_of_true (fun b hb => (hs.mem_queued.1 hb).2)
        fun b _ _ => not_affords_zero⟩
    case idle =>
      intro visits s c cs hs hturn hhead _ s' ih hclear
      rw [live_of_clear (hclear c hturn.mem)] at hhead
      rw [hclear c hturn.mem, LiveState.expel_nil] at ih
      refine ⟨⟨(ih hclear).1.fifo, (ih hclear).1.gone⟩, (ih hclear).2.trans
        (forall_congr' fun b => forall_congr' fun hcls => forall_congr' fun hb => ?_)⟩
      have hne : c ≠ b.cls := by
        rintro rfl
        rw [hhead] at hb
        cases hb
      exact not_congr (affords_passed hturn.front hne (hturn.behind _ hcls hne) 0)
    case short =>
      intro visits s c cs b hs hturn hhead hshort _ s' ih hclear
      rw [live_of_clear (hclear c hturn.mem)] at hhead
      rw [hclear c hturn.mem, LiveState.expel_nil] at ih
      obtain rfl := (hs.mem_q.1 (List.mem_of_head? hhead)).2.2
      refine ⟨⟨(ih hclear).1.fifo, (ih hclear).1.gone⟩, (ih hclear).2.trans
        (forall_congr' fun a => forall_congr' fun hcls => forall_congr' fun ha => ?_)⟩
      by_cases hne : b.cls = a.cls
      · have hab : (s.q b.cls).head? = some a := hne ▸ ha
        obtain rfl := Option.some.inj (hhead.symm.trans hab)
        exact not_congr (affords_saved hturn.front hturn.length hturn.notMem hshort)
      · exact not_congr (affords_passed hturn.front hne (hturn.behind _ hcls hne) _)
    case paid =>
      -- the head is taken
      intro visits s c cs b hs hturn hhead hpays hclear
      rw [live_of_clear (hclear c hturn.mem)] at hhead
      rw [hclear c hturn.mem, LiveState.expel_nil]
      have hb : b ∈ s.q c := List.mem_of_head? hhead
      obtain rfl := (hs.mem_q.1 hb).2.2
      have htaken := Aged.leave [b] s
      refine ⟨⟨htaken.fifo, htaken.gone⟩, iff_of_false (fun hstayed => ?_)
        fun hnone => hnone b hturn.mem hhead (affords_of_le hturn.front hpays)⟩
      exact (Aged.refl _).not_stayed (hs.q_subset_queued hb)
        (s.leave_gone (List.mem_singleton_self b)) hstayed
  exact hrule.mono fun _ s' h' => h' hclear

/-- With no EMERGENCY queued, every class has its turn to be purged. -/
theorem staleOf_turns_eq_nil_iff (hs : Coherent s) (hturns : s.rr.Perm wfqWeightClasses)
    (hnil : s.q .emergency = []) :
    gw.staleOf now s s.rr = [] ↔ ∀ a ∈ s.queued, gw.expired now a = false := by
  rw [clear_iff hs, LiveGateway.staleOf, List.flatMap_eq_nil_iff]
  refine ⟨fun hall c => ?_, fun hall c _ => hall c⟩
  by_cases hc : c = .emergency
  · simp [hc, LiveGateway.stale, hnil]
  · exact hall c (hturns.mem_iff.2 (mem_wfqWeightClasses.2 hc))

/-- The deficit round robin, with no EMERGENCY queued: anybody who has expired leaves. -/
theorem wfqNext_departs (hs : Coherent s) (hturns : s.rr.Perm wfqWeightClasses) :
    Returns (gw.wfqNext now) s fun _ s' => Aged s s' ∧ (s.q .emergency = [] →
      (Stayed s s' ↔ (∀ a ∈ s.queued, gw.expired now a = false) ∧
        ∀ b, (s.q b.cls).head? = some b → ¬ Affords b 10000 s)) := by
  have hnodup : s.rr.Nodup := hturns.nodup_iff.2 wfqWeightClasses_nodup
  have hstale := staleOf_nodup hs gw now hnodup
  have hpurged := Aged.expel .expire now (gw.staleOf now s s.rr) s
  have hcoh : Coherent (s.expel .expire now (gw.staleOf now s s.rr)) :=
    hs.expel hstale.1 hstale.2
  have hfresh : ∀ c ∈ wfqWeightClasses,
      gw.stale now (s.expel .expire now (gw.staleOf now s s.rr)) c = [] :=
    fun c hc => stale_expel_staleOf (hturns.symm.subset hc)
  have hbelow : s.q .emergency = [] → ∀ b, (s.q b.cls).head? = some b →
      b.cls ∈ wfqWeightClasses := by
    intro hnil b hb
    refine mem_wfqWeightClasses.2 fun hcls => ?_
    rw [hcls, hnil] at hb
    cases hb
  have hstart : gw.staleOf now s s.rr = [] →
      s.expel .expire now (gw.staleOf now s s.rr) = s := fun hnone => by
    rw [hnone, LiveState.expel_nil]
  have hpurges : ∀ s', Aged (s.expel .expire now (gw.staleOf now s s.rr)) s' →
      gw.staleOf now s s.rr ≠ [] → ¬ Stayed s s' := by
    intro s' haged hne
    obtain ⟨v, hv⟩ := List.exists_mem_of_ne_nil _ hne
    exact haged.not_stayed (hstale.2 v hv) (s.leave_gone hv)
  refine Returns.get_bind (Returns.ok_bind (backlogged_eq gw now s.rr s hs hnodup) ?_)
  split
  · next hidle =>
      -- nothing is alive: only what has expired leaves
      refine Returns.modify_bind (Returns.pure ⟨⟨hpurged.fifo, hpurged.gone⟩, fun hnil => ?_⟩)
      have hclear : gw.staleOf now s s.rr = [] ↔ ∀ a ∈ s.queued, gw.expired now a = false :=
        staleOf_turns_eq_nil_iff hs hturns hnil
      rw [← hclear]
      by_cases hnone : gw.staleOf now s s.rr = []
      · refine iff_of_true (fun b hb => ?_) ⟨hnone, fun b hb => ?_⟩
        · rw [hstart hnone]
          exact (hs.mem_queued.1 hb).2
        · -- a head that is alive would have had its class waiting
          have hq := List.mem_of_head? hb
          have hturn : b.cls ∈ s.rr := hturns.symm.subset (hbelow hnil b hb)
          have hlive : b ∈ gw.live now s b.cls :=
            List.mem_filter.2 ⟨hq, by simp [hclear.1 hnone b (hs.q_subset_queued hq)]⟩
          exact absurd hlive (live_eq_nil_of_idle hidle hturn ▸ List.not_mem_nil)
      · exact iff_of_false (hpurges _ ⟨rfl, fun _ h => h⟩ hnone) fun hboth => hnone hboth.1
  · refine (wfqRounds_departs 10000 hcoh hturns hfresh).mono fun _ s' h' =>
      ⟨hpurged.trans h'.1, fun hnil => ?_⟩
    rw [← staleOf_turns_eq_nil_iff hs hturns hnil]
    by_cases hnone : gw.staleOf now s s.rr = []
    · rw [hstart hnone] at h'
      rw [h'.2, and_iff_right hnone]
      exact forall_congr' fun b =>
        ⟨fun hall hb => hall (hbelow hnil b hb) hb, fun hall _ => hall⟩
    · exact iff_of_false (hpurges s' h'.1 hnone) fun hboth => hnone hboth.1

/-- What the walk over the global order steps over. -/
def LiveGateway.skipped (gw : LiveGateway) (now : ℚ) (s : LiveState) (b : LiveBundle) : Bool :=
  s.gone b || gw.expired now b

/-- Among those in the global order, a purge of the class `c` strikes the expired ones. -/
theorem purged_gone_iff (hs : Coherent s) {a : LiveBundle} (ha : a ∈ s.fifo) :
    (s.expel .expire now (gw.stale now s c)).gone a = false ↔
      s.gone a = false ∧ (gw.expired now a = true → c ≠ a.cls) := by
  have hmem : a ∈ gw.stale now s c ↔
      (s.gone a = false ∧ a.cls = c) ∧ gw.expired now a = true := by
    rw [LiveGateway.stale, List.mem_filter, hs.mem_q, and_iff_right ha]
  show (s.leave (gw.stale now s c)).gone a = false ↔ _
  by_cases hstale : a ∈ gw.stale now s c
  · rw [s.leave_gone hstale]
    refine iff_of_false Bool.noConfusion fun hboth => ?_
    exact hboth.2 (hmem.1 hstale).2 (hmem.1 hstale).1.2.symm
  · rw [s.leave_gone_of_notMem hstale]
    refine ⟨fun h => ⟨h, fun hexp heq => hstale (hmem.2 ⟨⟨h, heq.symm⟩, hexp⟩)⟩, fun h => h.1⟩

/-- A purge does not change whom the walk steps over: whom it strikes has expired. -/
theorem skipped_purged (gw : LiveGateway) (now : ℚ) (s : LiveState) (c : TrafficClass)
    (rest : List LiveBundle) :
    gw.skipped now { s.expel .expire now (gw.stale now s c) with fifo := rest } =
      gw.skipped now s := by
  funext a
  by_cases ha : a ∈ gw.stale now s c
  · have hexp := (List.mem_filter.1 ha).2
    simp [LiveGateway.skipped, hexp]
  · exact congrArg (· || gw.expired now a) (s.leave_gone_of_notMem ha)

/-- If the first of a class has not expired, nobody in the class has. -/
theorem stale_eq_nil_of_first (hs : Coherent s) {bs : List LiveBundle} (hq : s.q c = b :: bs)
    (hexp : ¬ gw.expired now b = true) : gw.stale now s c = [] := by
  refine stale_eq_nil_iff.2 fun a ha => ?_
  have hfirst := hq ▸ hs.expired_pairwise gw now c
  rw [hq] at ha
  rcases List.mem_cons.1 ha with rfl | ha
  · simpa using hexp
  · by_contra hexpa
    exact hexp ((List.pairwise_cons.1 hfirst).1 a ha (by simpa using hexpa))

/-- What the walk over the global order leaves behind is tidy if nothing behind the bundle it
returns was gone, or has been purged on the way with its class. -/
theorem fifoLoop_tidy (gw : LiveGateway) (now : ℚ) (hs : Coherent s) :
    Returns (gw.fifoLoop now s.fifo) s fun _ s' => Tidy s' ↔
      ∀ a ∈ (s.fifo.dropWhile (gw.skipped now s)).tail, s.gone a = false ∧
        (gw.expired now a = true → ∀ b ∈ s.fifo.takeWhile (gw.skipped now s),
          s.gone b = false → b.cls ≠ a.cls) := by
  refine fifoLoop_rule (motive := fun s _ s' => Tidy s' ↔
    ∀ a ∈ (s.fifo.dropWhile (gw.skipped now s)).tail, s.gone a = false ∧
      (gw.expired now a = true → ∀ b ∈ s.fifo.takeWhile (gw.skipped now s),
        s.gone b = false → b.cls ≠ a.cls)) ?nil ?gone ?expired ?live s hs
  case nil =>
    intro s hfifo
    rw [Tidy, hfifo]
    exact iff_of_true (fun a ha => absurd ha List.not_mem_nil)
      fun a ha => absurd ha List.not_mem_nil
  case gone =>
    -- it left long ago
    intro s b rest _ hfifo hgone _ s' ih
    have hskip : gw.skipped now s b = true := by simp [LiveGateway.skipped, hgone]
    rw [hfifo, List.dropWhile_cons_of_pos hskip, List.takeWhile_cons_of_pos hskip]
    refine ih.trans (forall₂_congr fun a _ => and_congr_right' (imp_congr_right fun _ => ?_))
    rw [List.forall_mem_cons, hgone]
    simp only [Bool.true_eq_false, false_implies, true_and]
    rfl
  case expired =>
    -- it has expired, and its class is purged
    intro s b rest hs hfifo hgone hexp _ _ s' ih
    have hgone' : s.gone b = false := by simpa using hgone
    have hskip : gw.skipped now s b = true := by simp [LiveGateway.skipped, hexp]
    have hrest : ∀ a ∈ rest, (s.expel .expire now (gw.stale now s b.cls)).gone a = false ↔
        s.gone a = false ∧ (gw.expired now a = true → b.cls ≠ a.cls) := fun a ha =>
      purged_gone_iff hs (hfifo ▸ List.mem_cons_of_mem b ha)
    rw [hfifo, List.dropWhile_cons_of_pos hskip, List.takeWhile_cons_of_pos hskip]
    refine ih.trans ?_
    rw [skipped_purged]
    refine forall₂_congr fun a ha => ?_
    have ha' := (List.dropWhile_suffix _).subset (List.mem_of_mem_tail ha)
    show _ = false ∧ _ ↔ _
    rw [List.forall_mem_cons, hrest a ha', and_assoc]
    refine and_congr_right' ?_
    constructor
    · rintro ⟨hne, hall⟩ hexpa
      refine ⟨fun _ => hne hexpa, fun x hx hgonex => ?_⟩
      by_cases hcls : b.cls = x.cls
      · exact hcls ▸ hne hexpa
      · exact hall hexpa x hx ((hrest x ((List.takeWhile_prefix _).subset hx)).2
          ⟨hgonex, fun _ => hcls⟩)
    · intro hall
      refine ⟨fun hexpa => (hall hexpa).1 hgone', fun hexpa x hx hgonex => ?_⟩
      exact (hall hexpa).2 x hx
        ((hrest x ((List.takeWhile_prefix _).subset hx)).1 hgonex).1
  case live =>
    -- it is the head, and is returned
    intro s b rest hs hfifo hgone hexp
    have hskip : ¬ gw.skipped now s b = true := by simpa [LiveGateway.skipped, hgone] using hexp
    have hnotin : b ∉ rest := (List.nodup_cons.1 (hfifo ▸ hs.nodup)).1
    rw [hfifo, List.dropWhile_cons_of_neg hskip, List.takeWhile_cons_of_neg hskip, List.tail_cons,
      stale_eq_nil_of_first hs (hs.q_first hfifo hgone) hexp, LiveState.expel_nil]
    refine forall₂_congr fun a ha => ?_
    have hne : a ∉ [b] := fun hmem' => hnotin (List.mem_singleton.1 hmem' ▸ ha)
    show (s.leave [b]).gone a = false ↔ _
    rw [s.leave_gone_of_notMem hne]
    exact ⟨fun h => ⟨h, fun _ x hx => absurd hx List.not_mem_nil⟩, fun h => h.1⟩

/-- A drain keeps a tidy buffer tidy exactly if it leaves no trace. -/
theorem next_tidy (h : Tidy s) (hs : Coherent s) (hturns : s.rr.Perm wfqWeightClasses) :
    Returns (gw.next now) s fun _ s' =>
      Tidy s' ↔ LiveCall.LeavesNoTrace gw s (.next now) := by
  cases hpolicy : gw.policy with
  | fifo =>
      rw [LiveGateway.next, if_pos hpolicy]
      refine Returns.get_bind ((fifoLoop_tidy gw now hs).mono fun _ s' h' => ?_)
      -- nothing was gone to begin with
      have hskip : ∀ a ∈ s.fifo, gw.skipped now s a = gw.expired now a := fun a ha => by
        simp [LiveGateway.skipped, h a ha]
      rcases takeWhile_dropWhile_congr hskip with ⟨hfront, hback⟩
      rw [hfront, hback] at h'
      rw [h', LiveCall.LeavesNoTrace, hpolicy]
      refine forall₂_congr fun a ha => ?_
      have hstart := h a ((List.dropWhile_suffix _).subset (List.mem_of_mem_tail ha))
      rw [and_iff_right hstart, List.mem_map]
      refine imp_congr_right fun _ => ⟨?_, fun hnot b hb _ heq => hnot ⟨b, hb, heq⟩⟩
      rintro hall ⟨b, hb, heq⟩
      exact hall b hb (h b ((List.takeWhile_prefix _).subset hb)) heq
  | strict =>
      rw [next_strict hpolicy]
      refine (strictLoop_departs gw now rankClasses s hs).mono fun _ s' h' => ?_
      rw [h.iff_stayed hs h'.1, h'.2, LiveCall.LeavesNoTrace, hpolicy]
      exact List.flatMap_eq_nil_iff.symm
  | wfq =>
      have hdepart := takeHead_departs gw now .emergency (gw.wfqNext now)
        ((∀ a ∈ s.queued, gw.expired now a = false) ∧
          ∀ b, (s.q b.cls).head? = some b → ¬ Affords b 10000 s) hs fun hcoh =>
            (wfqNext_departs hcoh hturns).mono fun _ s' h' => ⟨h'.1, fun hnil => ?_⟩
      · rw [LiveGateway.next, if_neg (by simp [hpolicy]), if_neg (by simp [hpolicy])]
        refine hdepart.mono fun _ s' h' => ?_
        rw [h.iff_stayed hs h'.1, h'.2, LiveCall.LeavesNoTrace, hpolicy]
      · have hstale : gw.stale now s .emergency = [] := by simp [LiveGateway.stale, hnil]
        simpa [hstale, hnil] using h'.2

theorem Tidy.enqueued_iff (hb : b ∉ s.fifo) : Tidy (s.enqueued b) ↔ Tidy s := by
  have hold : ∀ a ∈ s.fifo, (s.enqueued b).gone a = s.gone a := fun a ha => by
    have hne : a ≠ b := fun heq => hb (heq ▸ ha)
    exact Function.update_of_ne hne _ _
  have hnew : (s.enqueued b).gone b = false := Function.update_self ..
  show (∀ a ∈ s.fifo ++ [b], (s.enqueued b).gone a = false) ↔ _
  rw [List.forall_mem_append]
  constructor
  · exact fun hall a ha => (hold a ha).symm.trans (hall.1 a ha)
  · intro hall
    refine ⟨fun a ha => (hold a ha).trans (hall a ha), fun a ha => ?_⟩
    rw [List.mem_singleton.1 ha, hnew]

/-- A call keeps a tidy buffer tidy exactly if it leaves no trace. -/
theorem exec_tidy {call : LiveCall} (h : Tidy s) (hs : Coherent s)
    (hturns : s.rr.Perm wfqWeightClasses) (hnew : ∀ b ∈ call.offered?, b ∉ s.fifo) :
    Returns (call.exec gw) s fun _ s' => Tidy s' ↔ call.LeavesNoTrace gw s := by
  cases call with
  | admitBundle b ts =>
      have hroom := h.roomFor_iff hs gw b ts
      have hadmit := admit_eq hs gw b ts
      by_cases hover : gw.Over b (gw.roomFor b ts s)
      · rw [if_pos hover] at hadmit
        exact Returns.ok_bind hadmit (Returns.pure hroom)
      · rw [if_neg hover] at hadmit
        refine Returns.ok_bind hadmit (Returns.pure ((Tidy.enqueued_iff ?_).trans hroom))
        exact (roomFor_fifo gw b ts s).symm ▸ hnew b rfl
  | next ts => exact (next_tidy h hs hturns).bind fun _ s' h' => Returns.pure h'

end Departures

/-! ## Runs -/

section Runs

variable {gw : LiveGateway} {calls front : List LiveCall} {call : LiveCall}

/-- Some of the calls from the first one on are admissible as well. -/
theorem Admissible.start (h : Admissible calls) (hfront : front <+: calls) : Admissible front where
  monotone := h.monotone.sublist (hfront.sublist.map _)
  fresh := h.fresh.sublist ((hfront.sublist.filterMap _).map _)
  stamped b now hb := h.stamped b now (hfront.subset hb)

/-- One more call. -/
theorem serve_snoc : ∀ (front : List LiveCall) {s s₁ s₂ : LiveState} {answers : List LiveAnswer}
    {answer : LiveAnswer}, gw.serve front s = .ok answers s₁ → call.exec gw s₁ = .ok answer s₂ →
      gw.serve (front ++ [call]) s = .ok (answers ++ [answer]) s₂ := by
  intro front
  induction front with
  | nil =>
      rintro s s₁ s₂ answers answer ⟨⟩ hexec
      exact (bind_ok hexec).trans rfl
  | cons first front ih =>
      intro s s₁ s₂ answers answer hserve hexec
      rw [LiveGateway.serve] at hserve
      cases hfirst : first.exec gw s with
      | error e s' =>
          rw [bind_error hfirst] at hserve
          cases hserve
      | ok a s' =>
          rw [bind_ok hfirst] at hserve
          cases hrest : gw.serve front s' with
          | error e s'' =>
              rw [bind_error hrest] at hserve
              cases hserve
          | ok rest s'' =>
              rw [bind_ok hrest] at hserve
              cases hserve
              exact (bind_ok hfirst).trans (bind_ok (ih hrest hexec))

/-- Whether the memory is within the buffer after a run. -/
theorem served_tidy (h : Admissible front) :
    Returns (gw.serve front) .initial fun answers s => ∃ hist now, Sound gw hist now s ∧
      hist.offered = offeredBy front ∧ (WithinBuffer gw answers s ↔ Tidy s) := by
  have hfresh : (offeredBy front).Nodup := h.fresh.of_map
  obtain ⟨start, hready⟩ := h.ready
  refine (serve_spec front _ start _ hready (Sound.initial gw start)).mono fun answers s h' => ?_
  obtain ⟨⟨later, hsound⟩, -⟩ := h'
  have hoffered : (History.extend ⟨[], [], []⟩ front answers).offered = offeredBy front := by
    simp [History.extend]
  exact ⟨_, later, hsound, hoffered, withinBuffer_iff hsound (hoffered ▸ hfresh)
    (by simp [History.extend])⟩

/-- One more call after a run that has left a tidy buffer. -/
theorem served_step (h : Admissible (front ++ [call])) :
    Returns (gw.serve front) .initial fun _ s => Tidy s →
      Returns (gw.serve (front ++ [call])) .initial fun _ s' =>
        Tidy s' ↔ call.LeavesNoTrace gw s := by
  obtain ⟨answers, s, hserve, hist, now, hsound, hoffered, -⟩ :=
    (served_tidy (h.start (List.prefix_append front [call])) :
      Returns (gw.serve front) .initial _)
  refine ⟨answers, s, hserve, fun htidy => ?_⟩
  have hnew : ∀ b ∈ call.offered?, b ∉ s.fifo := by
    intro b hb hmem
    have hfresh : (offeredBy (front ++ [call])).Nodup := h.fresh.of_map
    rw [offeredBy, List.filterMap_append] at hfresh
    have hfront : b ∈ offeredBy front := hoffered ▸ hsound.offered b (hsound.admitted.subset hmem)
    exact (List.nodup_append.1 hfresh).2.2 b hfront b
      (List.mem_filterMap.2 ⟨call, List.mem_singleton_self call, hb⟩) rfl
  obtain ⟨answer, s', hexec, hiff⟩ :
      Returns (call.exec gw) s fun _ s' => Tidy s' ↔ call.LeavesNoTrace gw s :=
    exec_tidy htidy hsound.coherent hsound.turns hnew
  exact ⟨_, s', serve_snoc front hserve hexec, hiff⟩

/-- The memory of the gateway is within its buffer at every point of a run exactly if every call
of the run finds a state in which it leaves no trace. -/
theorem retention_iff (gw : LiveGateway) {calls : List LiveCall} (h : Admissible calls) :
    (∀ front, front <+: calls →
        Returns (gw.serve front) .initial fun answers s => WithinBuffer gw answers s) ↔
      ∀ front call, front ++ [call] <+: calls →
        Returns (gw.serve front) .initial fun _ s => call.LeavesNoTrace gw s := by
  have hserved : ∀ front, front <+: calls → Returns (gw.serve front) .initial fun answers s =>
      WithinBuffer gw answers s ↔ Tidy s := fun front hfront =>
    (served_tidy (h.start hfront)).mono fun _ _ h' => by
      obtain ⟨_, _, -, -, hiff⟩ := h'
      exact hiff
  constructor
  · intro hwithin front call hcall
    have hfront := (List.prefix_append front [call]).trans hcall
    refine (((served_step (h.start hcall)).and (hwithin front hfront)).and
      (hserved front hfront)).mono fun answers s h' => ?_
    have hstep := h'.1.1 (h'.2.1 h'.1.2)
    obtain ⟨_, _, -, ⟨hiff, hnext⟩, hiff'⟩ :=
      (hstep.and (hwithin _ hcall)).and (hserved _ hcall)
    exact hiff.1 (hiff'.1 hnext)
  · intro hcalls
    have htidy : ∀ front, front <+: calls →
        Returns (gw.serve front) .initial fun _ s => Tidy s := by
      intro front
      induction front using List.reverseRecOn with
      | nil => exact fun _ => Returns.pure nofun
      | append_singleton front call ih =>
          intro hcall
          have hfront := (List.prefix_append front [call]).trans hcall
          obtain ⟨_, s, -, ⟨hstep, hbefore⟩, htrace⟩ :=
            ((served_step (h.start hcall)).and (ih hfront)).and (hcalls front call hcall)
          exact (hstep hbefore).mono fun _ s' h' => h'.2 htrace
    exact fun front hfront => ((hserved front hfront).and (htidy front hfront)).mono
      fun _ _ h' => h'.1.2 h'.2

theorem retention_iff_small :
    (∀ front, front <+: Small.calls → Returns ((Small.gateway .fifo).serve front) .initial
        fun answers s => WithinBuffer (Small.gateway .fifo) answers s) ↔
      ∀ front call, front ++ [call] <+: Small.calls →
        Returns ((Small.gateway .fifo).serve front) .initial
          fun _ s => call.LeavesNoTrace (Small.gateway .fifo) s :=
  retention_iff _ Small.calls_admissible

end Runs

/-- One bundle is drained before the next arrives. -/
def Small.drained : List LiveCall := [.admitBundle clip 0, .next 1, .admitBundle alarm 1]

theorem Small.drained_admissible : Admissible Small.drained where
  monotone := by decide +kernel
  fresh := by decide +kernel
  stamped b now hb := by
    simp only [Small.drained, List.mem_cons, LiveCall.admitBundle.injEq, reduceCtorEq,
      List.not_mem_nil, or_false, false_or] at hb
    rcases hb with ⟨rfl, rfl⟩ | ⟨rfl, rfl⟩ <;> rfl

/-- Under STRICT the first bundle stays in memory after it has been returned, and with the second
one it is more than the buffer holds. -/
theorem returned_bundle_is_retained :
    Admissible Small.drained ∧
      ∃ answers s, (Small.gateway .strict).serve Small.drained .initial = .ok answers s ∧
        Small.clip ∈ s.retained ∧ fates answers s Small.clip = [.returned] ∧
        ((Small.gateway .strict).cap : ℤ) < bytesOf s.retained := by
  have hrun : (outcome ((Small.gateway .strict).serve Small.drained .initial)).map
      (fun p => (p.2.retained, fates p.1 p.2 Small.clip)) =
      some ([Small.clip, Small.alarm], [.returned]) := by
    decide +kernel
  obtain ⟨answers, s, hserve, hfacts⟩ := eq_ok_of_outcome hrun
  obtain ⟨hretained, hfate⟩ := Prod.mk.inj hfacts
  refine ⟨Small.drained_admissible, answers, s, hserve, ?_, hfate, ?_⟩
  · rw [hretained]
    exact List.mem_cons_self ..
  · rw [hretained]
    decide

end LinkController
end LunaBridge
