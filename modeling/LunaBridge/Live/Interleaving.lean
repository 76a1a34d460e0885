import LunaBridge.Live.Accounting

/-!
# Interleaving — runs of the two threads, up to the snapshot and beyond

Up to the snapshot the account is that of `Accounted`.  The snapshot is where it ends: what the
reader then still has in its hands may be admitted or lost, and what it displaces may be in the file
twice.  `AfterSnapshot` compares the state with the one the snapshot was taken of.
-/

namespace LunaBridge
namespace LinkController

open Foundation Foundation.Machine Foundation.Python Gateway
open scoped List

/-! ## The clock -/

/-- The readings of the clock a step comes with. -/
def ThreadStep.readings : ThreadStep → List ℚ
  | .reader (.packet now _) => [now]
  | .drainer (.poll checked now) => [checked, now]
  | .drainer (.report now) => [now]
  | _ => []

/-- The clock does not run backwards. -/
def ClockRuns (steps : List ThreadStep) : Prop :=
  (steps.flatMap ThreadStep.readings).Pairwise (· ≤ ·)

instance (steps : List ThreadStep) : Decidable (ClockRuns steps) :=
  inferInstanceAs (Decidable (List.Pairwise _ _))

/-! ## What a step can do -/

namespace Threads

variable {cfg : ThreadConfig} {s s' : Threads}

/-- A step of the main thread: it may have to wait; it is one of the drain loop; it takes the
snapshot; it reports on it; or it closes a file or exits. -/
theorem drainerStep_cases {st : DrainerStep} (hstep : s.drainerStep cfg st = .ok s') :
    s' = s ∨
    (s.drainer.left? = none ∧ s'.drainer.left? = none ∧ s'.reader = s.reader) ∨
    (s.drainer = .closing ∧ st = .snapshot ∧ s.reader.holdsLock = false ∧
      s' = { s with drainer := .reporting s.live.left }) ∨
    (∃ b left now, s.drainer = .reporting (b :: left) ∧
      s' = { s with
        events := s.events ++ [b.line .queuedAtEnd now]
        drainer := .reporting left }) ∨
    ∃ d : Drainer, s.drainer.left? = some [] ∧ d.left? = some [] ∧
      s' = { s with drainer := d } := by
  have hsame : (.ok s : Except PyError Threads) = .ok s' → s' = s := fun h =>
    (Except.ok.inj h).symm
  cases st with
  | poll checked now =>
      simp only [drainerStep] at hstep
      split at hstep
      · next hdrainer =>
          obtain rfl := Except.ok.inj hstep
          have hopen : s.drainer.left? = none := by rw [hdrainer]; rfl
          refine Or.inr (Or.inl ⟨hopen, ?_⟩)
          rw [pollClock]
          split
          · exact ⟨rfl, rfl⟩
          · split
            · exact ⟨hopen, rfl⟩
            · split
              · exact ⟨hopen, rfl⟩
              · exact ⟨rfl, rfl⟩
      · exact Or.inl (hsame hstep)
  | pop =>
      simp only [drainerStep] at hstep
      split at hstep
      · next hdrainer =>
          have hopen : s.drainer.left? = none := by rw [hdrainer]; rfl
          split at hstep
          · exact Or.inl (hsame hstep)
          · split at hstep
            · exact Or.inr (Or.inl ⟨hopen, Except.ok.inj hstep ▸ ⟨rfl, rfl⟩⟩)
            · exact Or.inr (Or.inl ⟨hopen, Except.ok.inj hstep ▸ ⟨rfl, rfl⟩⟩)
            · cases hstep
      · exact Or.inl (hsame hstep)
  | forward =>
      simp only [drainerStep] at hstep
      split at hstep
      · next hdrainer =>
          have hopen : s.drainer.left? = none := by rw [hdrainer]; rfl
          rw [forwardBundle] at hstep
          split at hstep
          · cases hstep
          · split at hstep
            · cases hstep
            · exact Or.inr (Or.inl ⟨hopen, Except.ok.inj hstep ▸ ⟨rfl, rfl⟩⟩)
      · exact Or.inl (hsame hstep)
  | snapshot =>
      simp only [drainerStep] at hstep
      split at hstep
      · next hdrainer =>
          split at hstep
          · exact Or.inl (hsame hstep)
          · next hfree =>
              exact Or.inr (Or.inr (Or.inl
                ⟨hdrainer, rfl, Bool.eq_false_of_not_eq_true hfree, (Except.ok.inj hstep).symm⟩))
      · exact Or.inl (hsame hstep)
  | report now =>
      simp only [drainerStep] at hstep
      split at hstep
      · next b left hdrainer =>
          exact Or.inr (Or.inr (Or.inr (Or.inl
            ⟨b, left, now, hdrainer, (Except.ok.inj hstep).symm⟩)))
      · exact Or.inl (hsame hstep)
  | _ =>
      simp only [drainerStep] at hstep
      split at hstep
      · next hdrainer =>
          refine Or.inr (Or.inr (Or.inr (Or.inr ⟨_, ?_, ?_, (Except.ok.inj hstep).symm⟩)))
          · rw [hdrainer]; rfl
          · rfl
      · exact Or.inl (hsame hstep)

/-- The reader leaves the main thread where it is, and dies in the generator of nothing but a frame
that cannot be read. -/
theorem readerStep_spec (cfg : ThreadConfig) (s : Threads) (st : ReaderStep) :
    (s.readerStep cfg st).drainer = s.drainer ∧
      ∀ err, (s.readerStep cfg st).reader = .failed err .waiting →
        s.reader = .failed err .waiting ∨ st = .malformed err := by
  have hsame : s.drainer = s.drainer ∧ ∀ err, s.reader = .failed err .waiting →
      s.reader = .failed err .waiting ∨ st = .malformed err :=
    ⟨rfl, fun err hfailed => Or.inl hfailed⟩
  cases st with
  | packet now p =>
      simp only [readerStep]
      split
      · rw [readPacket]
        split
        · exact ⟨rfl, by rintro err ⟨⟩⟩
        · split
          · exact hsame
          · refine ⟨rfl, fun err hfailed => ?_⟩
            simp only at hfailed
            split at hfailed
            · cases hfailed
            · cases hfailed
      · exact hsame
  | streamEnd =>
      simp only [readerStep]
      split
      · exact ⟨rfl, by rintro err ⟨⟩⟩
      · exact hsame
  | malformed err' =>
      simp only [readerStep]
      split
      · refine ⟨rfl, ?_⟩
        rintro err ⟨⟩
        exact Or.inr rfl
      · exact hsame
  | record | admitBundle =>
      simp only [readerStep]
      split
      · split
        · exact ⟨rfl, by rintro err ⟨⟩⟩
        · exact ⟨rfl, by rintro err ⟨⟩⟩
      · exact hsame
  | logLine =>
      simp only [readerStep]
      split
      · exact ⟨rfl, by rintro err ⟨⟩⟩
      · split
        · exact ⟨rfl, by rintro err ⟨⟩⟩
        · exact ⟨rfl, by rintro err ⟨⟩⟩
      · exact hsame

end Threads

/-! ## After the snapshot -/

/-- `s` comes after a snapshot of `s₀`, and `left` of it is still to be written down.  The lines of
the time between are those about the snapshot, and those of a call of `gw.admit` for the packet that
the reader had in its hands. -/
structure AfterSnapshot (s₀ s : Threads) (left : List LiveBundle) : Prop where
  sent : s.sent = s₀.sent ∨ ∃ e, s₀.reader = .encapsulated e ∧ s.sent = s₀.sent ++ [e.sentLine]
  unsent : ∀ e, s.reader = .encapsulated e → s₀.reader = .encapsulated e ∧ s.sent = s₀.sent
  idle : s₀.reader.hand = [] → s.reader.hand = [] ∧ s.reader.pending = []
  lines : ∃ reported late, s.events.Perm (s₀.events ++ reported ++ late) ∧
    s₀.live.left.map LiveBundle.key =
      reported.map GatewayLine.key ++ left.map LiveBundle.key ∧
    (∀ l ∈ late, l.ev ≠ .fwd ∧ l.ev ≠ .queuedAtEnd) ∧ (s₀.reader.hand = [] → late = [])

namespace AfterSnapshot

variable {cfg : ThreadConfig} {s₀ s : Threads} {left : List LiveBundle}

theorem taken (hpending : s₀.reader.pending = []) :
    AfterSnapshot s₀ { s₀ with drainer := .reporting s₀.live.left } s₀.live.left where
  sent := Or.inl rfl
  unsent := fun e he => ⟨he, rfl⟩
  idle := fun hhand => ⟨hhand, hpending⟩
  lines := ⟨[], [], by simp, rfl, nofun, fun _ => rfl⟩

/-- The reader moves on, and with it the gateway. -/
theorem setReader (h : AfterSnapshot s₀ s left) (r : Reader) (live : LiveState)
    (hunsent : ∀ e, r ≠ .encapsulated e)
    (hidle : s.reader.hand = [] → s.reader.pending = [] → r.hand = [] ∧ r.pending = []) :
    AfterSnapshot s₀ { s with reader := r, live := live } left :=
  { h with
    unsent := fun e he => absurd he (hunsent e)
    idle := fun hhand => hidle (h.idle hhand).1 (h.idle hhand).2 }

/-- The schedule has ended, so the reader takes no packet any more. -/
theorem readerStep (h : AfterSnapshot s₀ s left) (st : ReaderStep)
    (hend : ∀ now p, st = .packet now p → cfg.t1 ≤ now) :
    AfterSnapshot s₀ (s.readerStep cfg st) left := by
  cases st with
  | packet now p =>
      simp only [Threads.readerStep]
      split
      · rw [Threads.readPacket, if_pos (hend now p rfl)]
        exact h.setReader .done s.live (by rintro e ⟨⟩) fun _ _ => ⟨rfl, rfl⟩
      · exact h
  | streamEnd =>
      simp only [Threads.readerStep]
      split
      · exact h.setReader .done s.live (by rintro e ⟨⟩) fun _ _ => ⟨rfl, rfl⟩
      · exact h
  | malformed err =>
      simp only [Threads.readerStep]
      split
      · exact h.setReader (.failed err .waiting) s.live (by rintro e ⟨⟩) fun _ _ => ⟨rfl, rfl⟩
      · exact h
  | record =>
      simp only [Threads.readerStep]
      split
      · next e hreader =>
          split
          · refine h.setReader _ s.live (by rintro e ⟨⟩) fun hhand _ => ?_
            rw [hreader] at hhand
            cases hhand
          · obtain ⟨hreader₀, hsent⟩ := h.unsent e hreader
            exact
              { sent := Or.inr ⟨e, hreader₀, by rw [hsent]⟩
                unsent := by rintro e ⟨⟩
                idle := fun hhand => by
                  rw [hreader₀] at hhand
                  cases hhand
                lines := h.lines }
      · exact h
  | admitBundle =>
      simp only [Threads.readerStep]
      split
      · next e hreader =>
          have hbusy : s.reader.hand ≠ [] := by
            rw [hreader]
            exact List.cons_ne_nil _ _
          split
          · exact h.setReader _ _ (by rintro e ⟨⟩) fun hhand _ => absurd hhand hbusy
          · exact h.setReader _ _ (by rintro e ⟨⟩) fun hhand _ => absurd hhand hbusy
      · exact h
  | logLine =>
      simp only [Threads.readerStep]
      split
      · exact h.setReader .waiting s.live (by rintro e ⟨⟩) fun _ _ => ⟨rfl, rfl⟩
      · next entry entries hreader =>
          have hbusy : s.reader.pending ≠ [] := by
            rw [hreader]
            exact List.cons_ne_nil _ _
          split
          · exact h.setReader _ s.live (by rintro e ⟨⟩) fun _ hpending => absurd hpending hbusy
          · exact
              { sent := h.sent
                unsent := by rintro e ⟨⟩
                idle := fun hhand => absurd (h.idle hhand).2 hbusy
                lines := by
                  obtain ⟨reported, late, hlines, hkeys, hlate, hquiet⟩ := h.lines
                  refine ⟨reported, late ++ [entry.line], ?_, hkeys, ?_, fun hhand =>
                    absurd (h.idle hhand).2 hbusy⟩
                  · rw [← List.append_assoc]
                    exact hlines.append_right _
                  · intro l hl
                    rcases List.mem_append.1 hl with hl | hl
                    · exact hlate l hl
                    · exact List.mem_singleton.1 hl ▸ entry.line_ev }
      · exact h

/-- The main thread writes down what is left, closes the files and exits. -/
theorem drainerStep (h : AfterSnapshot s₀ s left) (hleft : s.drainer.left? = some left)
    {st : DrainerStep} {s' : Threads} (hstep : s.drainerStep cfg st = .ok s') :
    ∃ left', s'.drainer.left? = some left' ∧ AfterSnapshot s₀ s' left' := by
  rcases Threads.drainerStep_cases hstep with rfl | ⟨hopen, -⟩ | ⟨hdrainer, -⟩ |
    ⟨b, left', now, hdrainer, rfl⟩ | ⟨d, hdone, hd, rfl⟩
  · exact ⟨left, hleft, h⟩
  · rw [hopen] at hleft
    cases hleft
  · rw [hdrainer] at hleft
    cases hleft
  · rw [hdrainer] at hleft
    obtain rfl : b :: left' = left := Option.some.inj hleft
    refine ⟨left', rfl, { h with lines := ?_ }⟩
    obtain ⟨reported, late, hlines, hkeys, hlate, hquiet⟩ := h.lines
    refine ⟨reported ++ [b.line .queuedAtEnd now], late, ?_, ?_, hlate, hquiet⟩
    · calc s.events ++ [b.line .queuedAtEnd now]
          _ ~ s₀.events ++ reported ++ late ++ [b.line .queuedAtEnd now] := hlines.append_right _
          _ ~ s₀.events ++ (reported ++ [b.line .queuedAtEnd now]) ++ late := by
            simp only [List.append_assoc]
            exact (List.perm_append_comm.append_left _).append_left _
    · rw [hkeys]
      simp
  · rw [hdone] at hleft
    obtain rfl : [] = left := Option.some.inj hleft
    exact ⟨[], hd, { h with }⟩

end AfterSnapshot

/-! ## Runs -/

section Runs

variable {cfg : ThreadConfig} {last later : ℚ} {admitted : List Encapsulated} {s s' : Threads}
  {front : List ThreadStep}

/-- What is kept between two steps, `front` being those made so far. -/
structure Tracked (cfg : ThreadConfig) (front : List ThreadStep) (last : ℚ)
    (admitted : List Encapsulated) (s : Threads) : Prop where
  account : Accounted cfg last admitted s
  ran : Threads.start.run cfg front = .ok s
  malformed : ∀ err, s.reader = .failed err .waiting → .reader (.malformed err) ∈ front
  snapshotted : ∀ left, s.drainer.left? = some left → ∃ front₀ back s₀ last₀ admitted₀,
    front = front₀ ++ .drainer .snapshot :: back ∧ Threads.start.run cfg front₀ = .ok s₀ ∧
    Accounted cfg last₀ admitted₀ s₀ ∧ s₀.drainer = .closing ∧ s₀.reader.holdsLock = false ∧
    AfterSnapshot s₀ s left

theorem run_concat (cfg : ThreadConfig) {front : List ThreadStep}
    (hrun : Threads.start.run cfg front = .ok s) (st : ThreadStep) :
    Threads.start.run cfg (front ++ [st]) = s.step cfg st := by
  rw [Threads.run] at hrun
  rw [Threads.run, List.foldlM_append, hrun]
  show (s.step cfg st >>= pure) = _
  rw [bind_pure]

/-- A step of the reader, as long as the process is there. -/
theorem Tracked.readerStep (h : Tracked cfg front last admitted s)
    (hexit : s.drainer ≠ .exited) (st : ReaderStep)
    (hnow : ∀ now p, st = .packet now p → last ≤ now ∧ now ≤ later) (hle : last ≤ later) :
    ∃ admitted', Tracked cfg (front ++ [.reader st]) later admitted' (s.readerStep cfg st) := by
  obtain ⟨admitted', haccount⟩ := h.account.readerStep st (fun now p hst => (hnow now p hst).1) hle
    fun now p hst => (hnow now p hst).2
  refine ⟨admitted', haccount, ?_, ?_, ?_⟩
  · rw [run_concat cfg h.ran, Threads.step, if_neg hexit]
  · intro err hfailed
    rcases (Threads.readerStep_spec cfg s st).2 err hfailed with hfailed | rfl
    · exact List.mem_append_left _ (h.malformed err hfailed)
    · simp
  · intro left hleft
    rw [(Threads.readerStep_spec cfg s st).1] at hleft
    obtain ⟨front₀, back, s₀, last₀, admitted₀, rfl, hrun, haccount₀, hclosing, hfree, hafter⟩ :=
      h.snapshotted left hleft
    refine ⟨front₀, back ++ [.reader st], s₀, last₀, admitted₀, by simp, hrun, haccount₀, hclosing,
      hfree, hafter.readerStep st fun now p hst => ?_⟩
    have hend := h.account.ended (Or.inr (by rw [hleft]; rfl))
    exact hend.trans (hnow now p hst).1

/-- A step of the main thread. -/
theorem Tracked.drainerStep (h : Tracked cfg front last admitted s) (hrate : cfg.rateBps ≠ 0)
    (st : DrainerStep) (hnow : ∀ checked now, st = .poll checked now → last ≤ checked ∧
      checked ≤ now ∧ now ≤ later) (hle : last ≤ later) :
    ∃ s', s.drainerStep cfg st = .ok s' ∧
      Tracked cfg (front ++ [.drainer st]) later admitted s' := by
  obtain ⟨s', hstep, haccount⟩ := h.account.drainerStep hrate st hnow hle
  refine ⟨s', hstep, haccount, ?_, ?_, ?_⟩
  · rw [run_concat cfg h.ran]
    exact hstep
  · intro err hfailed
    refine List.mem_append_left _ (h.malformed err ?_)
    rcases Threads.drainerStep_cases hstep with rfl | ⟨-, -, hreader⟩ | ⟨-, -, -, rfl⟩ |
      ⟨_, _, _, -, rfl⟩ | ⟨_, -, -, rfl⟩
    · exact hfailed
    · rw [← hreader]
      exact hfailed
    · exact hfailed
    · exact hfailed
    · exact hfailed
  · intro left' hleft'
    cases hleft : s.drainer.left? with
    | some left =>
        -- the snapshot was taken before
        obtain ⟨front₀, back, s₀, last₀, admitted₀, rfl, hrun, haccount₀, hclosing, hfree,
          hafter⟩ := h.snapshotted left hleft
        obtain ⟨left'', hleft'', hafter'⟩ := hafter.drainerStep hleft hstep
        obtain rfl : left'' = left' := Option.some.inj (hleft''.symm.trans hleft')
        exact ⟨front₀, back ++ [.drainer st], s₀, last₀, admitted₀, by simp, hrun, haccount₀,
          hclosing, hfree, hafter'⟩
    | none =>
        rcases Threads.drainerStep_cases hstep with rfl | ⟨-, hopen, -⟩ |
          ⟨hclosing, rfl, hfree, rfl⟩ | ⟨_, _, _, hdrainer, -⟩ | ⟨_, hdone, -, -⟩
        · rw [hleft] at hleft'
          cases hleft'
        · rw [hopen] at hleft'
          cases hleft'
        · -- this step takes it
          obtain rfl : s.live.left = left' := Option.some.inj hleft'
          refine ⟨front, [], s, last, admitted, rfl, h.ran, h.account, hclosing, hfree, ?_⟩
          exact .taken (h.account.pending_eq_nil hfree (by rw [hclosing]; rfl))
        · rw [hdrainer] at hleft
          cases hleft
        · rw [hleft] at hdone
          cases hdone

/-- A step of either thread. -/
theorem Tracked.step (h : Tracked cfg front last admitted s) (hrate : cfg.rateBps ≠ 0)
    (st : ThreadStep) (hclock : (last :: st.readings).Pairwise (· ≤ ·)) (hlater : last ≤ later)
    (hlater' : ∀ t ∈ st.readings, t ≤ later) :
    ∃ s' admitted', s.step cfg st = .ok s' ∧ Tracked cfg (front ++ [st]) later admitted' s' := by
  obtain ⟨hnow, hpair⟩ := List.pairwise_cons.1 hclock
  cases st with
  | reader st =>
      by_cases hexit : s.drainer = .exited
      · -- the thread is gone with the process
        have hstep : s.step cfg (.reader st) = .ok s := by rw [Threads.step, if_pos hexit]
        refine ⟨s, admitted, hstep, h.account.mono hlater, ?_, ?_, ?_⟩
        · rw [run_concat cfg h.ran, hstep]
        · exact fun err hfailed => List.mem_append_left _ (h.malformed err hfailed)
        · intro left hleft
          obtain ⟨front₀, back, s₀, last₀, admitted₀, rfl, hrest⟩ := h.snapshotted left hleft
          exact ⟨front₀, back ++ [.reader st], s₀, last₀, admitted₀, by simp, hrest⟩
      · obtain ⟨admitted', hs⟩ := h.readerStep hexit st (fun now p hst => by
          subst hst
          exact ⟨hnow now (by simp [ThreadStep.readings]),
            hlater' now (by simp [ThreadStep.readings])⟩) hlater
        exact ⟨_, admitted', by rw [Threads.step, if_neg hexit], hs⟩
  | drainer st =>
      obtain ⟨s', hstep, hs⟩ := h.drainerStep hrate st (fun checked now hst => by
        subst hst
        exact ⟨hnow checked (by simp [ThreadStep.readings]), by simpa [ThreadStep.readings] using
          hpair, hlater' now (by simp [ThreadStep.readings])⟩) hlater
      exact ⟨s', admitted, hstep, hs⟩

/-- Any number of steps. -/
theorem Tracked.run (hrate : cfg.rateBps ≠ 0) : ∀ (steps front : List ThreadStep) (last : ℚ)
    (admitted : List Encapsulated) (s : Threads), Tracked cfg front last admitted s →
      (last :: steps.flatMap ThreadStep.readings).Pairwise (· ≤ ·) →
        ∃ s' later admitted', Tracked cfg (front ++ steps) later admitted' s' := by
  intro steps
  induction steps with
  | nil =>
      intro front last admitted s h _
      exact ⟨s, last, admitted, (List.append_nil front).symm ▸ h⟩
  | cons st steps ih =>
      intro front last admitted s h hclock
      rw [List.flatMap_cons, ← List.cons_append, List.pairwise_append] at hclock
      obtain ⟨hstep, hrest, hbetween⟩ := hclock
      -- the account is kept up to the last reading of the step
      have hne : last :: st.readings ≠ [] := List.cons_ne_nil _ _
      have hmax : ∀ t ∈ last :: st.readings, t ≤ (last :: st.readings).getLast hne := by
        intro t ht
        rw [← List.dropLast_append_getLast hne] at ht hstep
        rcases List.mem_append.1 ht with ht | ht
        · exact (List.pairwise_append.1 hstep).2.2 t ht _ (List.mem_singleton_self _)
        · exact (List.mem_singleton.1 ht).le
      obtain ⟨s₁, admitted₁, -, h₁⟩ := h.step hrate st hstep
        (hmax last (List.mem_cons_self ..)) fun t ht => hmax t (List.mem_cons_of_mem _ ht)
      obtain ⟨s₂, later, admitted₂, h₂⟩ := ih _ _ admitted₁ s₁ h₁
        (List.pairwise_cons.2 ⟨fun t ht => hbetween _ (List.getLast_mem hne) t ht, hrest⟩)
      refine ⟨s₂, later, admitted₂, ?_⟩
      rwa [List.append_assoc, List.singleton_append] at h₂

/-- From the start, whatever the clock shows first. -/
theorem ClockRuns.tracked {steps : List ThreadStep} (hclock : ClockRuns steps)
    (hrate : cfg.rateBps ≠ 0) : ∃ s last admitted, Tracked cfg steps last admitted s := by
  have hstart : ∀ last, Tracked cfg [] last [] .start := fun last =>
    ⟨.start cfg last, rfl, nofun, nofun⟩
  cases hreadings : steps.flatMap ThreadStep.readings with
  | nil =>
      refine Tracked.run hrate steps [] 0 [] _ (hstart 0) ?_
      rw [hreadings]
      exact List.pairwise_singleton _ _
  | cons t ts =>
      refine Tracked.run hrate steps [] t [] _ (hstart t) ?_
      have hpair := hclock
      rw [ClockRuns, hreadings] at hpair
      rw [hreadings, List.pairwise_cons]
      refine ⟨fun u hu => ?_, hpair⟩
      rcases List.mem_cons.1 hu with rfl | hu
      · exact le_refl _
      · exact (List.pairwise_cons.1 hpair).1 u hu

end Runs

/-! ## What the files say -/

/-- What has become of the packets since the snapshot of `s₀`, `left` of which is still to be
written down: but for the packet that the reader then had in its hands, each has exactly one line,
and what lines there are beside those come from the late admission of that packet. -/
structure SettledSince (s₀ s : Threads) (left : List LiveBundle) : Prop where
  closing : s₀.drainer = .closing
  sent : s.sent = s₀.sent ∨ ∃ e, s₀.reader = .encapsulated e ∧ s.sent = s₀.sent ++ [e.sentLine]
  lines : ∃ settled late, s.events.Perm (settled ++ late) ∧
    (s₀.sent.map SentLine.key).Perm (s₀.reader.noted.map Encapsulated.key ++
      settled.map GatewayLine.key ++ left.map LiveBundle.key) ∧
    (∀ l ∈ late, l.ev ≠ .fwd ∧ l.ev ≠ .queuedAtEnd) ∧ (s₀.reader.hand = [] → late = [])

/-- What the two files and the memory of the process say after these steps about the packets it has
sent on. -/
structure AllAccounted (cfg : ThreadConfig) (steps : List ThreadStep) (s : Threads) : Prop where
  numbered : s.sent.map SentLine.seq = List.range s.sent.length
  -- but for those about the snapshot, no two lines are of one packet
  once : (finalKeys s.events).Nodup
  -- a frame that cannot be read ends the reader, and so does a file that is closed
  failed : ∀ err place, s.reader = .failed err place →
    place = .waiting ∧ .reader (.malformed err) ∈ steps ∨
      err = closedFile ∧ s.drainer.sentShut = true
  -- before the snapshot a packet is in the reader's hands, has its line or gets it next, is in the
  -- hands of the main thread or is queued
  running : s.drainer.left? = none → (s.sent.map SentLine.key).Perm
    (s.reader.noted.map Encapsulated.key ++ (s.events.map GatewayLine.key ++
      s.reader.pending.map LogEntry.key ++ s.drainer.hand.map LiveBundle.key ++
        s.live.queued.map LiveBundle.key))
  snapshotted : ∀ left, s.drainer.left? = some left → ∃ front back s₀,
    steps = front ++ .drainer .snapshot :: back ∧ Threads.start.run cfg front = .ok s₀ ∧
      SettledSince s₀ s left

section Files

variable {cfg : ThreadConfig} {steps : List ThreadStep} {last : ℚ} {admitted : List Encapsulated}
  {s₀ s : Threads} {left : List LiveBundle}

theorem Accounted.running (h : Accounted cfg last admitted s) (hopen : s.drainer.left? = none) :
    (s.sent.map SentLine.key).Perm (s.reader.noted.map Encapsulated.key ++
      (s.events.map GatewayLine.key ++ s.reader.pending.map LogEntry.key ++
        s.drainer.hand.map LiveBundle.key ++ s.live.queued.map LiveBundle.key)) := by
  rw [← h.finalKeys_running hopen]
  exact h.sent_keys

/-- The snapshot settles what was queued. -/
theorem AfterSnapshot.settledSince (h : AfterSnapshot s₀ s left)
    (haccount : Accounted cfg last admitted s₀) (hclosing : s₀.drainer = .closing)
    (hfree : s₀.reader.holdsLock = false) : SettledSince s₀ s left where
  closing := hclosing
  sent := h.sent
  lines := by
    obtain ⟨reported, late, hlines, hkeys, hlate, hquiet⟩ := h.lines
    refine ⟨s₀.events ++ reported, late, hlines, ?_, hlate, hquiet⟩
    have hrunning := haccount.running (by rw [hclosing]; rfl)
    rw [haccount.pending_eq_nil hfree (by rw [hclosing]; rfl), hclosing, ← haccount.left_eq, hkeys]
      at hrunning
    simpa [Drainer.hand] using hrunning

theorem Tracked.allAccounted (h : Tracked cfg steps last admitted s) :
    AllAccounted cfg steps s where
  numbered := h.account.sent_seq
  once := h.account.finalKeys_nodup
  failed := by
    intro err place hreader
    refine (h.account.failing err place hreader).imp_left ?_
    rintro rfl
    exact ⟨rfl, h.malformed err hreader⟩
  running := h.account.running
  snapshotted := by
    intro left hleft
    obtain ⟨front, back, s₀, last₀, admitted₀, hsteps, hrun, haccount, hclosing, hfree, hafter⟩ :=
      h.snapshotted left hleft
    exact ⟨front, back, s₀, hsteps, hrun, hafter.settledSince haccount hclosing hfree⟩

end Files

/-- Every interleaving of the two threads runs through: the main thread raises nothing, and the
reader nothing but the error of a frame it cannot read or that of a file closed under its hands.
The numbers in `sent.jsonl` count up without a gap.  Before the snapshot every packet admitted is in
`gw.jsonl` or about to be, in the main thread's hands or in a queue; once all is reported every
packet of `sent.jsonl` has exactly one line in `gw.jsonl`, except for the one the reader had in its
hands at the snapshot and for what its late admission has displaced. -/
theorem every_packet_is_accounted_for (cfg : ThreadConfig) (hrate : cfg.rateBps ≠ 0)
    {steps : List ThreadStep} (hclock : ClockRuns steps) :
    ∃ s, Threads.start.run cfg steps = .ok s ∧ AllAccounted cfg steps s := by
  obtain ⟨s, last, admitted, h⟩ := hclock.tracked hrate
  exact ⟨s, h.ran, h.allAccounted⟩

namespace Small

/-- Room for one of two packets; the contact ends when the run does. -/
def threads : ThreadConfig where
  gw := { gateway .strict with cap := 120 }
  qmap := (Dict.empty.set 1 70).set 2 69
  C := [(0, 10)]
  rateBps := 4800
  t0 := 0
  t1 := 10

def probePacket (teid : ℕ) : GtpuPacket := { ts := 0, teid := teid, qfi := some 5, inner := [7] }

/-- The reader has the second packet in its hands when the snapshot is taken. -/
def untilSnapshot : List ThreadStep :=
  [.reader (.packet 1 (probePacket 1)), .reader .record, .reader .admitBundle, .reader .logLine,
    .reader (.packet 9 (probePacket 2)), .reader .record, .drainer (.poll 10 10),
    .drainer .snapshot]

/-- The packet is admitted afterwards, and evicts the first one. -/
def lateAdmission : List ThreadStep :=
  untilSnapshot ++
    [.reader .admitBundle, .reader .logLine, .drainer (.report 11), .drainer .closeSent,
      .drainer .closeEvents, .drainer .exit]

/-- The same, but for the line of the eviction, which comes too late. -/
def lostLine : List ThreadStep :=
  untilSnapshot ++
    [.drainer (.report 11), .drainer .closeSent, .reader .admitBundle, .drainer .closeEvents,
      .reader .logLine, .drainer .exit]

/-- Both are lines of the first packet, or the reader is dead. -/
example : ([lateAdmission, lostLine].map fun steps =>
    (Threads.start.run threads steps).toOption.map fun s =>
      (s.events.map fun l => (l.ev, l.seq), s.reader matches .failed ..)) =
    [some ([(.evict, 0), (.queuedAtEnd, 0)], false), some ([(.queuedAtEnd, 0)], true)] := by
  decide +kernel

end Small

theorem every_packet_is_accounted_for_small :
    ∃ s, Threads.start.run Small.threads Small.lateAdmission = .ok s ∧
      AllAccounted Small.threads Small.lateAdmission s :=
  every_packet_is_accounted_for Small.threads (by norm_num [Small.threads])
    (by decide +kernel)

end LinkController
end LunaBridge
