import Mathlib.Algebra.BigOperators.Group.List.Basic
import Mathlib.Algebra.Order.BigOperators.Group.List
import Mathlib.Data.Rat.Defs
import Mathlib.Data.Set.Finite.Lattice
import Mathlib.Order.Bounds.Basic
import Mathlib.Tactic.Linarith

/-!
# CappedBuffer — the blackout buffer of figure 7

`simulateCappedBuffer` is the part of `simulate_capped_buffer` after the sort: its events come from
random generators, so here any list of events may be simulated.  Checkpoints purge the buffer
between the events.  `Holds` says what the buffer is at an instant in terms of the arrivals before
it, `follow` decides about arrivals without a buffer, and `eventLoop_spec` shows that the loop
follows it whatever the checkpoints are.
-/

namespace LunaBridge
namespace Analysis

/-- An event `(t, size, exp)`. -/
structure Arrival where
  t : ℚ
  size : ℕ
  exp : ℚ
  deriving DecidableEq, Repr

/-- `BUFFER_LIMIT_BYTES`. -/
def bufferLimitBytes : ℕ := 256000000

/-- The variables of `simulate_capped_buffer`.  `log` is none of them: it keeps which branch each
event took. -/
structure CappedBuffer where
  active : List (ℕ × ℚ)
  occupied : ℤ
  overflowedBytes : ℕ
  occSeries : List ℚ
  overflowSeries : List ℚ
  log : List (Arrival × Bool)

/-- The values they start from. -/
def CappedBuffer.initial : CappedBuffer where
  active := []
  occupied := 0
  overflowedBytes := 0
  occSeries := []
  overflowSeries := []
  log := []

/-! ## simulate_capped_buffer -/

/-- The loop of `purge_expired`: returns `still` and what is left of `occupied`. -/
def purgeLoop (now : ℚ) : List (ℕ × ℚ) → ℤ → List (ℕ × ℚ) × ℤ
  | [], occupied => ([], occupied)
  | (size, exp) :: active, occupied =>
      if now < exp then
        let (still, left) := purgeLoop now active occupied
        ((size, exp) :: still, left)
      else
        purgeLoop now active (occupied - size)

namespace CappedBuffer

/-- `purge_expired`. -/
def purgeExpired (now : ℚ) (st : CappedBuffer) : CappedBuffer :=
  let (still, left) := purgeLoop now st.active st.occupied
  { st with active := still, occupied := left }

/-- One checkpoint. -/
def sample (st : CappedBuffer) (checkpoint : ℚ) : CappedBuffer :=
  let purged := st.purgeExpired checkpoint
  { purged with
    occSeries := purged.occSeries ++ [(purged.occupied : ℚ) / 1000000]
    overflowSeries := purged.overflowSeries ++ [(purged.overflowedBytes : ℚ) / 1000000] }

/-- One event: the arrival is admitted if it fits once the buffer is purged. -/
def offer (st : CappedBuffer) (e : Arrival) : CappedBuffer :=
  let purged := st.purgeExpired e.t
  if purged.occupied + e.size ≤ bufferLimitBytes then
    { purged with
      active := purged.active ++ [(e.size, e.exp)]
      occupied := purged.occupied + e.size
      log := purged.log ++ [(e, true)] }
  else
    { purged with
      overflowedBytes := purged.overflowedBytes + e.size
      log := purged.log ++ [(e, false)] }

end CappedBuffer

/-- `while ci < len(checkpoints) and checkpoints[ci] < t`, over `checkpoints[ci:]`. -/
def sampleBefore (t : ℚ) : List ℚ → CappedBuffer → List ℚ × CappedBuffer
  | [], st => ([], st)
  | checkpoint :: checkpoints, st =>
      if checkpoint < t then
        sampleBefore t checkpoints (st.sample checkpoint)
      else
        (checkpoint :: checkpoints, st)

/-- `for (t, size, exp) in all_events`, and the loop over the checkpoints that are left. -/
def eventLoop : List Arrival → List ℚ → CappedBuffer → CappedBuffer
  | [], checkpoints, st => checkpoints.foldl CappedBuffer.sample st
  | e :: events, checkpoints, st =>
      let (left, sampled) := sampleBefore e.t checkpoints st
      eventLoop events left (sampled.offer e)

/-- `simulate_capped_buffer`, on its sorted events. -/
def simulateCappedBuffer (events : List Arrival) (checkpoints : List ℚ) : List ℚ × List ℚ :=
  let st := eventLoop events checkpoints .initial
  (st.occSeries, st.overflowSeries)

/-- The admission decisions of the loop. -/
def admissionDecisions (events : List Arrival) (checkpoints : List ℚ) : List (Arrival × Bool) :=
  (eventLoop events checkpoints .initial).log

/-! ## What the buffer is for -/

/-- The bytes of what was admitted by `now` and has not expired then. -/
def storedBytes (log : List (Arrival × Bool)) (now : ℚ) : ℕ :=
  ((log.filter fun e => e.2 && decide (e.1.t ≤ now) && decide (now < e.1.exp)).map
    fun e => e.1.size).sum

/-- The bytes of what was rejected by `now`. -/
def rejectedBytes (log : List (Arrival × Bool)) (now : ℚ) : ℕ :=
  ((log.filter fun e => !e.2 && decide (e.1.t ≤ now)).map fun e => e.1.size).sum

/-- An arrival is admitted where it fits beside what is stored. -/
def admits (log : List (Arrival × Bool)) (e : Arrival) : Bool :=
  decide (storedBytes log e.t + e.size ≤ bufferLimitBytes)

/-- The decisions about some arrivals, after those in the log. -/
def follow (log : List (Arrival × Bool)) : List Arrival → List (Arrival × Bool)
  | [] => log
  | e :: events => follow (log ++ [(e, admits log e)]) events

/-- Later arrivals only extend the log. -/
theorem follow_eq_append (events : List Arrival) : ∀ log : List (Arrival × Bool),
    ∃ later, follow log events = log ++ later ∧ later.map Prod.fst = events := by
  induction events with
  | nil => exact fun log => ⟨[], (List.append_nil log).symm, rfl⟩
  | cons e events ih =>
      intro log
      obtain ⟨later, hfollow, hevents⟩ := ih (log ++ [(e, admits log e)])
      refine ⟨(e, admits log e) :: later, ?_, by rw [List.map_cons, hevents]⟩
      rw [follow, hfollow, List.append_assoc, List.singleton_append]

section Later

variable {log later : List (Arrival × Bool)} {now : ℚ}

/-- What arrives later is not stored yet. -/
theorem storedBytes_append (h : ∀ e ∈ later, now < e.1.t) :
    storedBytes (log ++ later) now = storedBytes log now := by
  have hnone : later.filter (fun e => e.2 && decide (e.1.t ≤ now) && decide (now < e.1.exp)) =
      [] := by
    refine List.filter_eq_nil_iff.2 fun e he => ?_
    simp [not_le.2 (h e he)]
  rw [storedBytes, List.filter_append, hnone, List.append_nil, storedBytes]

theorem rejectedBytes_append (h : ∀ e ∈ later, now < e.1.t) :
    rejectedBytes (log ++ later) now = rejectedBytes log now := by
  have hnone : later.filter (fun e => !e.2 && decide (e.1.t ≤ now)) = [] := by
    refine List.filter_eq_nil_iff.2 fun e he => ?_
    simp [not_le.2 (h e he)]
  rw [rejectedBytes, List.filter_append, hnone, List.append_nil, rejectedBytes]

/-- A log shows the same at an instant before all that follows. -/
theorem bytes_follow {events : List Arrival} (h : ∀ e ∈ events, now < e.t) :
    storedBytes (follow log events) now = storedBytes log now ∧
      rejectedBytes (follow log events) now = rejectedBytes log now := by
  obtain ⟨later, hfollow, rfl⟩ := follow_eq_append events log
  have hlater : ∀ e ∈ later, now < e.1.t := fun e he => h _ (List.mem_map_of_mem he)
  rw [hfollow]
  exact ⟨storedBytes_append hlater, rejectedBytes_append hlater⟩

end Later

/-! ## The buffer at an instant -/

theorem purgeLoop_eq (now : ℚ) : ∀ (active : List (ℕ × ℚ)) (occupied : ℤ),
    purgeLoop now active occupied = (active.filter fun a => decide (now < a.2),
      occupied - ((active.filter fun a => !decide (now < a.2)).map Prod.fst).sum) := by
  intro active
  induction active with
  | nil => simp [purgeLoop]
  | cons a active ih =>
      intro occupied
      obtain ⟨size, exp⟩ := a
      by_cases hexp : now < exp
      · simp [purgeLoop, hexp, ih]
      · simp [purgeLoop, hexp, ih, sub_sub]

/-- At `now`, the buffer holds what was admitted and has not expired. -/
structure Holds (now : ℚ) (st : CappedBuffer) : Prop where
  past : ∀ e ∈ st.log, e.1.t ≤ now
  active : st.active = (st.log.filter fun e => e.2 && decide (now < e.1.exp)).map
    fun e => (e.1.size, e.1.exp)
  occupied : st.occupied = (st.active.map Prod.fst).sum
  bounded : st.occupied ≤ bufferLimitBytes
  overflowed : st.overflowedBytes = ((st.log.filter fun e => !e.2).map fun e => e.1.size).sum

theorem CappedBuffer.initial_holds (now : ℚ) : Holds now .initial where
  past := nofun
  active := rfl
  occupied := rfl
  bounded := Int.natCast_nonneg _
  overflowed := rfl

section Instants

variable {now later : ℚ} {st : CappedBuffer}

@[simp] theorem CappedBuffer.purgeExpired_log (now : ℚ) (st : CappedBuffer) :
    (st.purgeExpired now).log = st.log := rfl

theorem CappedBuffer.purgeExpired_active (now : ℚ) (st : CappedBuffer) :
    (st.purgeExpired now).active = st.active.filter fun a => decide (now < a.2) := by
  rw [purgeExpired, purgeLoop_eq]

theorem CappedBuffer.purgeExpired_occupied (now : ℚ) (st : CappedBuffer) :
    (st.purgeExpired now).occupied = st.occupied -
      ((st.active.filter fun a => !decide (now < a.2)).map Prod.fst).sum := by
  rw [purgeExpired, purgeLoop_eq]

/-- A purge brings the buffer to a later instant. -/
theorem Holds.purgeExpired (h : Holds now st) (hle : now ≤ later) :
    Holds later (st.purgeExpired later) where
  past := fun e he => (h.past e he).trans hle
  active := by
    rw [CappedBuffer.purgeExpired_active, h.active, List.filter_map, List.filter_filter,
      CappedBuffer.purgeExpired_log]
    congr 1
    refine List.filter_congr fun e _ => ?_
    by_cases hexp : later < e.1.exp
    · simp [hexp, hle.trans_lt hexp]
    · simp [hexp]
  occupied := by
    have hsplit := ((List.filter_append_perm (fun a : ℕ × ℚ => decide (later < a.2))
      st.active).map Prod.fst).sum_eq
    rw [List.map_append, List.sum_append] at hsplit
    rw [CappedBuffer.purgeExpired_occupied, CappedBuffer.purgeExpired_active, h.occupied]
    omega
  bounded := by
    rw [CappedBuffer.purgeExpired_occupied]
    have hbounded := h.bounded
    omega
  overflowed := h.overflowed

/-- The counters are the bytes the log speaks of. -/
theorem Holds.storedBytes_eq (h : Holds now st) : (storedBytes st.log now : ℤ) = st.occupied := by
  have hpast : st.log.filter (fun e => e.2 && decide (e.1.t ≤ now) && decide (now < e.1.exp)) =
      st.log.filter fun e => e.2 && decide (now < e.1.exp) := by
    refine List.filter_congr fun e he => ?_
    simp [h.past e he]
  rw [h.occupied, h.active, storedBytes, hpast, List.map_map]
  rfl

theorem Holds.rejectedBytes_eq (h : Holds now st) :
    rejectedBytes st.log now = st.overflowedBytes := by
  have hpast : st.log.filter (fun e => !e.2 && decide (e.1.t ≤ now)) =
      st.log.filter fun e => !e.2 := by
    refine List.filter_congr fun e he => ?_
    simp [h.past e he]
  rw [h.overflowed, rejectedBytes, hpast]

/-- An arrival joins what is active. -/
theorem Holds.accept {e : Arrival} (h : Holds e.t st) (hexp : e.t < e.exp)
    (hfits : st.occupied + e.size ≤ bufferLimitBytes) :
    Holds e.t { st with
      active := st.active ++ [(e.size, e.exp)]
      occupied := st.occupied + e.size
      log := st.log ++ [(e, true)] } where
  past := by
    intro a ha
    rcases List.mem_append.1 ha with ha | ha
    · exact h.past a ha
    · exact List.mem_singleton.1 ha ▸ le_rfl
  active := by simp [h.active, hexp]
  occupied := by simp [h.occupied]
  bounded := hfits
  overflowed := by simp [h.overflowed]

/-- An arrival overflows. -/
theorem Holds.reject {e : Arrival} (h : Holds e.t st) :
    Holds e.t { st with
      overflowedBytes := st.overflowedBytes + e.size
      log := st.log ++ [(e, false)] } where
  past := by
    intro a ha
    rcases List.mem_append.1 ha with ha | ha
    · exact h.past a ha
    · exact List.mem_singleton.1 ha ▸ le_rfl
  active := by simp [h.active]
  occupied := h.occupied
  bounded := h.bounded
  overflowed := by simp [h.overflowed]

/-- An event is decided about as the log says. -/
theorem Holds.offer (h : Holds now st) {e : Arrival} (hle : now ≤ e.t) (hexp : e.t < e.exp) :
    Holds e.t (st.offer e) ∧ (st.offer e).log = st.log ++ [(e, admits st.log e)] := by
  have hpurged := h.purgeExpired hle
  have hstored : (storedBytes st.log e.t : ℤ) = (st.purgeExpired e.t).occupied :=
    hpurged.storedBytes_eq
  rw [CappedBuffer.offer]
  split
  · next hfits =>
    have hadmits : admits st.log e = true := by
      rw [admits, decide_eq_true_eq]
      omega
    exact ⟨hpurged.accept hexp hfits, by rw [hadmits, CappedBuffer.purgeExpired_log]⟩
  · next hover =>
    have hadmits : admits st.log e = false := by
      rw [admits, decide_eq_false_iff_not]
      omega
    exact ⟨hpurged.reject, by rw [hadmits, CappedBuffer.purgeExpired_log]⟩

/-- A checkpoint purges. -/
theorem Holds.sample (h : Holds now st) (hle : now ≤ later) : Holds later (st.sample later) :=
  have hpurged := h.purgeExpired hle
  ⟨hpurged.past, hpurged.active, hpurged.occupied, hpurged.bounded, hpurged.overflowed⟩

end Instants

/-! ## Samples -/

/-- The series have got one sample more for each checkpoint, of the bytes in the log. -/
structure Sampled (log : List (Arrival × Bool)) (checkpoints : List ℚ) (st st' : CappedBuffer) :
    Prop where
  occ : st'.occSeries =
    st.occSeries ++ checkpoints.map fun now => (storedBytes log now : ℚ) / 1000000
  overflow : st'.overflowSeries =
    st.overflowSeries ++ checkpoints.map fun now => (rejectedBytes log now : ℚ) / 1000000
  bounded : ∀ now ∈ checkpoints, storedBytes log now ≤ bufferLimitBytes

section Sampling

variable {now t : ℚ} {log : List (Arrival × Bool)} {checkpoints left : List ℚ}
  {st st₁ st' : CappedBuffer}

theorem Sampled.nil (hocc : st'.occSeries = st.occSeries)
    (hoverflow : st'.overflowSeries = st.overflowSeries) : Sampled log [] st st' :=
  ⟨by simp [hocc], by simp [hoverflow], nofun⟩

/-- An event leaves the series alone. -/
theorem Sampled.offer (e : Arrival) : Sampled log [] st (st.offer e) := by
  rw [CappedBuffer.offer]
  split <;> exact .nil rfl rfl

theorem Sampled.trans (h : Sampled log checkpoints st st₁) (h' : Sampled log left st₁ st') :
    Sampled log (checkpoints ++ left) st st' where
  occ := by rw [h'.occ, h.occ, List.map_append, List.append_assoc]
  overflow := by rw [h'.overflow, h.overflow, List.map_append, List.append_assoc]
  bounded := List.forall_mem_append.2 ⟨h.bounded, h'.bounded⟩

/-- What arrives after the checkpoints does not show in their samples. -/
theorem Sampled.follow {events : List Arrival} (h : Sampled log checkpoints st st')
    (hlater : ∀ now ∈ checkpoints, ∀ e ∈ events, now < e.t) :
    Sampled (follow log events) checkpoints st st' := by
  have hbytes : ∀ now ∈ checkpoints,
      storedBytes (Analysis.follow log events) now = storedBytes log now ∧
        rejectedBytes (Analysis.follow log events) now = rejectedBytes log now :=
    fun now hnow => bytes_follow (hlater now hnow)
  refine ⟨?_, ?_, fun now hnow => (hbytes now hnow).1 ▸ h.bounded now hnow⟩
  · rw [h.occ, List.append_cancel_left_eq]
    exact List.map_congr_left fun now hnow => by rw [(hbytes now hnow).1]
  · rw [h.overflow, List.append_cancel_left_eq]
    exact List.map_congr_left fun now hnow => by rw [(hbytes now hnow).2]

theorem Holds.sampled (h : Holds now st) {checkpoint : ℚ} (hle : now ≤ checkpoint) :
    Sampled st.log [checkpoint] st (st.sample checkpoint) := by
  have hpurged := h.purgeExpired hle
  have hstored : (storedBytes st.log checkpoint : ℤ) = (st.purgeExpired checkpoint).occupied :=
    hpurged.storedBytes_eq
  have hrejected : rejectedBytes st.log checkpoint = st.overflowedBytes := hpurged.rejectedBytes_eq
  refine ⟨?_, ?_, ?_⟩
  · have hcast : ((st.purgeExpired checkpoint).occupied : ℚ) = storedBytes st.log checkpoint := by
      rw [← hstored, Int.cast_natCast]
    rw [List.map_singleton, ← hcast]
    rfl
  · rw [List.map_singleton, hrejected]
    rfl
  · have hbounded := hpurged.bounded
    rintro _ (_ | ⟨_, ⟨⟩⟩)
    omega

/-- A row of checkpoints samples one after the other. -/
theorem Holds.foldl_sample : ∀ (checkpoints : List ℚ) (now : ℚ) (st : CappedBuffer),
    Holds now st → (∀ checkpoint ∈ checkpoints, now ≤ checkpoint) → checkpoints.Pairwise (· ≤ ·) →
      Sampled st.log checkpoints st (checkpoints.foldl CappedBuffer.sample st) ∧
      (checkpoints.foldl CappedBuffer.sample st).log = st.log ∧
      ∃ later ∈ now :: checkpoints, Holds later (checkpoints.foldl CappedBuffer.sample st) := by
  intro checkpoints
  induction checkpoints with
  | nil => exact fun now st h _ _ => ⟨.nil rfl rfl, rfl, now, by simp, h⟩
  | cons checkpoint checkpoints ih =>
      intro now st h hnow hsorted
      have hle := hnow checkpoint (List.mem_cons_self ..)
      obtain ⟨hfirst, hrest⟩ := List.pairwise_cons.1 hsorted
      obtain ⟨hsampled, hlog, later, hlater, hholds⟩ := ih checkpoint _ (h.sample hle) hfirst hrest
      exact ⟨(h.sampled hle).trans hsampled, hlog, later, List.mem_cons_of_mem _ hlater, hholds⟩

/-- The inner loop samples the checkpoints before the event and leaves the others. -/
theorem sampleBefore_eq (t : ℚ) : ∀ (checkpoints : List ℚ) (st : CappedBuffer),
    checkpoints.Pairwise (· ≤ ·) → ∃ done left, checkpoints = done ++ left ∧
      sampleBefore t checkpoints st = (left, done.foldl CappedBuffer.sample st) ∧
      (∀ checkpoint ∈ done, checkpoint < t) ∧ ∀ checkpoint ∈ left, t ≤ checkpoint := by
  intro checkpoints
  induction checkpoints with
  | nil => exact fun st _ => ⟨[], [], rfl, rfl, nofun, nofun⟩
  | cons checkpoint checkpoints ih =>
      intro st hsorted
      obtain ⟨hfirst, hrest⟩ := List.pairwise_cons.1 hsorted
      by_cases hbefore : checkpoint < t
      · obtain ⟨done, left, rfl, hloop, hdone, hleft⟩ := ih (st.sample checkpoint) hrest
        refine ⟨checkpoint :: done, left, rfl, ?_, List.forall_mem_cons.2 ⟨hbefore, hdone⟩, hleft⟩
        rw [sampleBefore, if_pos hbefore, hloop, List.foldl_cons]
      · refine ⟨[], checkpoint :: checkpoints, rfl, ?_, nofun, ?_⟩
        · rw [sampleBefore, if_neg hbefore, List.foldl_nil]
        · have hle := not_lt.1 hbefore
          exact List.forall_mem_cons.2 ⟨hle, fun c hc => hle.trans (hfirst c hc)⟩

/-- From any instant on, the loop decides as the log says and samples the bytes of the log. -/
theorem eventLoop_spec : ∀ (events : List Arrival) (checkpoints : List ℚ) (now : ℚ)
    (st : CappedBuffer), Holds now st → (∀ e ∈ events, now ≤ e.t ∧ e.t < e.exp) →
      events.Pairwise (fun e e' => e.t ≤ e'.t) →
      (∀ checkpoint ∈ checkpoints, now ≤ checkpoint) → checkpoints.Pairwise (· ≤ ·) →
        (eventLoop events checkpoints st).log = follow st.log events ∧
        Sampled (follow st.log events) checkpoints st (eventLoop events checkpoints st) := by
  intro events
  induction events with
  | nil =>
      intro checkpoints now st h _ _ hnow hsorted
      obtain ⟨hsampled, hlog, -⟩ := h.foldl_sample checkpoints now st hnow hsorted
      exact ⟨hlog, hsampled⟩
  | cons e events ih =>
      intro checkpoints now st h hlive hevents hnow hsorted
      obtain ⟨⟨hle, hexp⟩, hlive⟩ := List.forall_mem_cons.1 hlive
      obtain ⟨hfirst, hevents⟩ := List.pairwise_cons.1 hevents
      obtain ⟨done, left, rfl, hloop, hdone, hleft⟩ := sampleBefore_eq e.t checkpoints st hsorted
      obtain ⟨hsorted, hsorted', -⟩ := List.pairwise_append.1 hsorted
      -- the checkpoints before the event
      obtain ⟨hsampled, hlog, later, hlater, hholds⟩ := h.foldl_sample done now st
        (fun c hc => hnow c (List.mem_append_left _ hc)) hsorted
      have hlast : later ≤ e.t := by
        rcases List.mem_cons.1 hlater with rfl | hmem
        · exact hle
        · exact (hdone later hmem).le
      -- the event
      obtain ⟨hoffered, hdecided⟩ := hholds.offer hlast hexp
      -- the events and checkpoints after it
      obtain ⟨hlog', hsampled'⟩ := ih left e.t _ hoffered
        (fun e' he' => ⟨hfirst e' he', (hlive e' he').2⟩) hevents hleft hsorted'
      rw [hdecided, hlog] at hlog' hsampled'
      have hearlier : ∀ c ∈ done, ∀ e' ∈ e :: events, c < e'.t := fun c hc =>
        List.forall_mem_cons.2 ⟨hdone c hc, fun e' he' => (hdone c hc).trans_le (hfirst e' he')⟩
      rw [eventLoop, hloop]
      exact ⟨hlog', (hsampled.follow hearlier).trans ((Sampled.offer e).trans hsampled')⟩

end Sampling

/-- With any checkpoints, the loop decides as without them and returns one sample of each kind for
every checkpoint: the bytes admitted and not expired, which fit the buffer, and those rejected. -/
theorem simulateCappedBuffer_undisturbed {events : List Arrival} {checkpoints : List ℚ}
    (hevents : events.Pairwise fun e e' => e.t ≤ e'.t) (hlive : ∀ e ∈ events, e.t < e.exp)
    (hsorted : checkpoints.Pairwise (· ≤ ·)) :
    (admissionDecisions events checkpoints).map Prod.fst = events ∧
    admissionDecisions events checkpoints = admissionDecisions events [] ∧
    simulateCappedBuffer events checkpoints =
      (checkpoints.map fun now =>
        (storedBytes (admissionDecisions events checkpoints) now : ℚ) / 1000000,
      checkpoints.map fun now =>
        (rejectedBytes (admissionDecisions events checkpoints) now : ℚ) / 1000000) ∧
    ∀ now ∈ checkpoints,
      storedBytes (admissionDecisions events checkpoints) now ≤ bufferLimitBytes := by
  -- some instant comes before all events and checkpoints
  obtain ⟨now, hnow⟩ := (List.finite_toSet (events.map Arrival.t ++ checkpoints)).bddBelow
  have hfrom : ∀ x ∈ events.map Arrival.t ++ checkpoints, now ≤ x := fun x hx => hnow hx
  obtain ⟨hfirst, hcheckpoints⟩ := List.forall_mem_append.1 hfrom
  have hfresh : ∀ e ∈ events, now ≤ e.t ∧ e.t < e.exp := fun e he =>
    ⟨hfirst _ (List.mem_map_of_mem he), hlive e he⟩
  have hinitial := CappedBuffer.initial_holds now
  obtain ⟨hlog, hsampled⟩ :=
    eventLoop_spec events checkpoints now .initial hinitial hfresh hevents hcheckpoints hsorted
  obtain ⟨halone, -⟩ :=
    eventLoop_spec events [] now .initial hinitial hfresh hevents nofun List.Pairwise.nil
  obtain ⟨later, hfollow, hlater⟩ := follow_eq_append events CappedBuffer.initial.log
  rw [admissionDecisions, admissionDecisions, hlog, halone]
  refine ⟨?_, rfl, ?_, hsampled.bounded⟩
  · rw [hfollow]
    exact hlater
  · exact Prod.ext hsampled.occ hsampled.overflow

namespace Small

/-- The second fills the buffer, the third does not fit, and the last finds the first expired. -/
def arrivals : List Arrival :=
  [{ t := 1, size := 6000000, exp := 4 }, { t := 2, size := 250000000, exp := 9 },
    { t := 2, size := 5000000, exp := 9 }, { t := 5, size := 4000000, exp := 6 }]

/-- Before the first arrival, at the time of two of them, and after the last. -/
def checkpoints : List ℚ := [0, 2, 2, 5, 8]

end Small

theorem simulateCappedBuffer_undisturbed_small :
    (admissionDecisions Small.arrivals Small.checkpoints).map Prod.fst = Small.arrivals ∧
    admissionDecisions Small.arrivals Small.checkpoints = admissionDecisions Small.arrivals [] ∧
    simulateCappedBuffer Small.arrivals Small.checkpoints =
      (Small.checkpoints.map fun now =>
        (storedBytes (admissionDecisions Small.arrivals Small.checkpoints) now : ℚ) / 1000000,
      Small.checkpoints.map fun now =>
        (rejectedBytes (admissionDecisions Small.arrivals Small.checkpoints) now : ℚ) / 1000000) ∧
    ∀ now ∈ Small.checkpoints,
      storedBytes (admissionDecisions Small.arrivals Small.checkpoints) now ≤ bufferLimitBytes :=
  simulateCappedBuffer_undisturbed (by decide +kernel) (by decide +kernel) (by decide +kernel)

end Analysis
end LunaBridge
