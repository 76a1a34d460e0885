import LunaBridge.Live.Admission

/-!
# Heads — what the live gateway may change, in any state

`Coherent` is about calls that offer every bundle once and in order of time.  The specifications
here assume nothing: `_head` discards the spent front of one queue (`Peeked`), the purge and the
evictions shed queued bundles and log them (`Shed`), and every call of `next` leaves at most fewer
bundles in the queues (`Thinned`) and returns none that has expired (`Gives`).
-/

namespace LunaBridge
namespace LinkController

open Foundation.Machine Foundation.Python Foundation.StableSort Gateway

/-! ## Looking at a head -/

/-- What `_head` discards at the front of the queue of class `c`. -/
def LiveGateway.spent (gw : LiveGateway) (now : ℚ) (c : TrafficClass) (s : LiveState)
    (b : LiveBundle) : Bool :=
  s.gone b || decide (gw.L c < now - b.t)

/-- The queue of class `c` loses its spent front, and what has expired of it is marked. -/
structure Peeked (gw : LiveGateway) (now : ℚ) (c : TrafficClass) (s s' : LiveState) : Prop where
  queue : s'.q = Function.update s.q c ((s.q c).dropWhile (gw.spent now c s))
  gone : ∀ b, s'.gone b = true → s.gone b = true ∨ b ∈ s.q c ∧ gw.L c < now - b.t
  log : ∃ vs : List LiveBundle,
    s'.log = s.log ++ vs.map (fun v => { event := .expire, bundle := v, now := now }) ∧
      ∀ v ∈ vs, v ∈ s.q c
  deficit : s'.deficit = s.deficit
  rr : s'.rr = s.rr

/-- Some queued bundles leave their queues, and each that does so by an `event` is logged. -/
structure Shed (event : LogEvent) (now : ℚ) (s s' : LiveState) : Prop where
  queues : ∀ c, (s'.q c).Sublist (s.q c)
  log : ∃ vs : List LiveBundle,
    s'.log = s.log ++ vs.map (fun v => { event := event, bundle := v, now := now }) ∧
      ∀ v ∈ vs, ∃ c, v ∈ s.q c
  deficit : s'.deficit = s.deficit
  rr : s'.rr = s.rr

/-- The queues hold fewer bundles, and the same classes take turns. -/
structure Thinned (s s' : LiveState) : Prop where
  queues : ∀ c, (s'.q c).Sublist (s.q c)
  turns : s'.rr.Perm s.rr

theorem Shed.refl (event : LogEvent) (now : ℚ) (s : LiveState) : Shed event now s s where
  queues := fun _ => List.Sublist.refl _
  log := ⟨[], by simp⟩
  deficit := rfl
  rr := rfl

theorem Shed.trans {event : LogEvent} {now : ℚ} {s s₁ s' : LiveState} (h : Shed event now s s₁)
    (h' : Shed event now s₁ s') : Shed event now s s' where
  queues := fun c => (h'.queues c).trans (h.queues c)
  log := by
    obtain ⟨us, hlog, hus⟩ := h.log
    obtain ⟨vs, hlog', hvs⟩ := h'.log
    refine ⟨us ++ vs, by rw [hlog', hlog, List.map_append, List.append_assoc], fun v hv => ?_⟩
    rcases List.mem_append.1 hv with hv | hv
    · exact hus v hv
    · obtain ⟨c, hc⟩ := hvs v hv
      exact ⟨c, (h.queues c).subset hc⟩
  deficit := h'.deficit.trans h.deficit
  rr := h'.rr.trans h.rr

theorem Thinned.refl (s : LiveState) : Thinned s s :=
  ⟨fun _ => List.Sublist.refl _, List.Perm.refl _⟩

theorem Thinned.trans {s s₁ s' : LiveState} (h : Thinned s s₁) (h' : Thinned s₁ s') :
    Thinned s s' :=
  ⟨fun c => (h'.queues c).trans (h.queues c), h'.turns.trans h.turns⟩

theorem Shed.thinned {event : LogEvent} {now : ℚ} {s s' : LiveState} (h : Shed event now s s') :
    Thinned s s' :=
  ⟨h.queues, h.rr ▸ List.Perm.refl _⟩

namespace Peeked

variable {gw : LiveGateway} {now : ℚ} {c : TrafficClass} {s s' : LiveState}

theorem queue_self (h : Peeked gw now c s s') :
    s'.q c = (s.q c).dropWhile (gw.spent now c s) := by
  rw [h.queue, Function.update_self]

theorem queue_of_ne (h : Peeked gw now c s s') {c' : TrafficClass} (hne : c' ≠ c) :
    s'.q c' = s.q c' := by
  rw [h.queue, Function.update_of_ne hne]

theorem shed (h : Peeked gw now c s s') : Shed .expire now s s' where
  queues := by
    intro c'
    by_cases hc : c' = c
    · subst hc
      rw [h.queue_self]
      exact List.dropWhile_sublist _
    · rw [h.queue_of_ne hc]
  log := by
    obtain ⟨vs, hlog, hvs⟩ := h.log
    exact ⟨vs, hlog, fun v hv => ⟨c, hvs v hv⟩⟩
  deficit := h.deficit
  rr := h.rr

theorem thinned (h : Peeked gw now c s s') : Thinned s s' := h.shed.thinned

/-- The head that is found is neither gone nor expired. -/
theorem head_alive (h : Peeked gw now c s s') {b : LiveBundle} (hb : (s'.q c).head? = some b) :
    s.gone b = false ∧ now - b.t ≤ gw.L c := by
  rw [h.queue_self] at hb
  have hspent := List.head?_dropWhile_not (gw.spent now c s) (s.q c)
  rw [hb] at hspent
  simpa [LiveGateway.spent] using hspent

end Peeked

section Looking

variable {gw : LiveGateway} {now : ℚ} {c : TrafficClass}

/-- Once its front has been discarded, the rest of the queue is looked at. -/
theorem Peeked.cons {s s₁ s' : LiveState} {h : LiveBundle} {dq : List LiveBundle}
    (hrest : Peeked gw now c s₁ s') (hq : s.q c = h :: dq) (hspent : gw.spent now c s h = true)
    (hqueue : s₁.q = Function.update s.q c dq)
    (hsame : ∀ b, gw.spent now c s₁ b = gw.spent now c s b)
    (hgone : ∀ b, s₁.gone b = true → s.gone b = true ∨ b = h ∧ gw.L c < now - b.t)
    (hlog : ∃ us : List LiveBundle,
      s₁.log = s.log ++ us.map (fun u => { event := .expire, bundle := u, now := now }) ∧
        ∀ u ∈ us, u = h)
    (hdeficit : s₁.deficit = s.deficit) (hrr : s₁.rr = s.rr) :
    Peeked gw now c s s' where
  queue := by
    have hq₁ : s₁.q c = dq := by rw [hqueue, Function.update_self]
    rw [hrest.queue, hq₁, hqueue, Function.update_idem, hq, List.dropWhile_cons_of_pos hspent,
      funext hsame]
  gone := by
    have hq₁ : s₁.q c = dq := by rw [hqueue, Function.update_self]
    intro b hb
    rcases hrest.gone b hb with hb | ⟨hmem, hexp⟩
    · rcases hgone b hb with hb | ⟨rfl, hexp⟩
      · exact Or.inl hb
      · exact Or.inr ⟨hq ▸ List.mem_cons_self .., hexp⟩
    · exact Or.inr ⟨hq ▸ List.mem_cons_of_mem _ (hq₁ ▸ hmem), hexp⟩
  log := by
    have hq₁ : s₁.q c = dq := by rw [hqueue, Function.update_self]
    obtain ⟨us, hlog₁, hus⟩ := hlog
    obtain ⟨vs, hlog', hvs⟩ := hrest.log
    refine ⟨us ++ vs, by rw [hlog', hlog₁, List.map_append, List.append_assoc], fun v hv => ?_⟩
    rcases List.mem_append.1 hv with hv | hv
    · exact hus v hv ▸ hq ▸ List.mem_cons_self ..
    · exact hq ▸ List.mem_cons_of_mem _ (hq₁ ▸ hvs v hv)
  deficit := hrest.deficit.trans hdeficit
  rr := hrest.rr.trans hrr

theorem headLoop_peeks (gw : LiveGateway) (c : TrafficClass) (now : ℚ) :
    ∀ (dq : List LiveBundle) (s : LiveState), s.q c = dq →
      Returns (gw.headLoop c now dq) s fun r s' =>
        Peeked gw now c s s' ∧ r = (s'.q c).head? := by
  intro dq
  induction dq with
  | nil =>
      intro s hq
      refine Returns.pure ⟨⟨?_, fun b hb => Or.inl hb, ⟨[], by simp⟩, rfl, rfl⟩, by simp [hq]⟩
      rw [hq, List.dropWhile_nil, ← hq, Function.update_eq_self]
  | cons h dq ih =>
      intro s hq
      refine Returns.get_bind ?_
      by_cases hgone : s.gone h = true
      · -- it was marked before
        rw [if_pos hgone]
        refine Returns.modify_bind ((ih _ (Function.update_self ..)).mono fun r s' h' => ?_)
        have hspent : gw.spent now c s h = true := by simp [LiveGateway.spent, hgone]
        exact ⟨h'.1.cons hq hspent rfl (fun _ => rfl) (fun b hb => Or.inl hb) ⟨[], by simp⟩ rfl rfl,
          h'.2⟩
      · rw [if_neg hgone]
        by_cases hexp : gw.L c < now - h.t
        · -- it has expired: it is marked, and the loop goes on
          rw [if_pos hexp]
          refine Returns.modify_bind (Returns.modify_bind (Returns.modify_bind
            (Returns.modify_bind ((ih _ (Function.update_self ..)).mono fun r s' h' => ?_))))
          have hspent : gw.spent now c s h = true := by simp [LiveGateway.spent, hexp]
          refine ⟨h'.1.cons hq hspent rfl (fun b => ?_) (fun b hb => ?_) ⟨[h], rfl, by simp⟩
            rfl rfl, h'.2⟩
          · -- it was spent before it was marked
            by_cases hb : b = h
            · simp [LiveGateway.spent, hb, hexp]
            · simp [LiveGateway.spent, Function.update_of_ne hb]
          · by_cases hbh : b = h
            · exact Or.inr ⟨hbh, hbh ▸ hexp⟩
            · exact Or.inl (by simpa only [Function.update_of_ne hbh] using hb)
        · -- it is alive: nothing changes
          rw [if_neg hexp]
          have hspent : ¬ gw.spent now c s h = true := by
            simpa [LiveGateway.spent, hgone] using hexp
          refine Returns.pure ⟨⟨?_, fun b hb => Or.inl hb, ⟨[], by simp⟩, rfl, rfl⟩, by simp [hq]⟩
          rw [hq, List.dropWhile_cons_of_neg hspent, ← hq, Function.update_eq_self]

/-- `_head` returns what is then at the front. -/
theorem head_peeks (gw : LiveGateway) (c : TrafficClass) (now : ℚ) (s : LiveState) :
    Returns (gw.head c now) s fun r s' => Peeked gw now c s s' ∧ r = (s'.q c).head? :=
  Returns.get_bind (headLoop_peeks gw c now (s.q c) s rfl)

/-- `_take` returns the bundle at the front. -/
theorem take_takes {s : LiveState} {b : LiveBundle} (hb : (s.q c).head? = some b) :
    LiveGateway.take c s = .ok b { s with
      q := Function.update s.q c (s.q c).tail
      gone := Function.update s.gone b true
      bytes := s.bytes + -b.n } := by
  obtain ⟨dq, hq⟩ := List.head?_eq_some_iff.1 hb
  rw [LiveGateway.take, run_get_bind, hq]
  rfl

theorem update_sublist {q : TrafficClass → List LiveBundle} {c : TrafficClass}
    {rest : List LiveBundle} (h : rest.Sublist (q c)) (c' : TrafficClass) :
    (Function.update q c rest c').Sublist (q c') := by
  by_cases hc : c' = c
  · subst hc
    rwa [Function.update_self]
  · rw [Function.update_of_ne hc]

/-- Whoever is taken leaves one queue. -/
theorem take_thins {s : LiveState} {b : LiveBundle} (hb : (s.q c).head? = some b) :
    Returns (LiveGateway.take c) s fun taken s' =>
      taken = b ∧ Thinned s s' ∧ s'.deficit = s.deficit ∧ s'.rr = s.rr :=
  ⟨_, _, take_takes hb, rfl, ⟨update_sublist (List.tail_sublist _), List.Perm.refl _⟩, rfl, rfl⟩

end Looking

/-! ## Making room -/

section Room

variable {gw : LiveGateway} {now : ℚ} {b : LiveBundle}

theorem purge_sheds (gw : LiveGateway) (now : ℚ) : ∀ (cs : List TrafficClass) (s : LiveState),
    Returns (gw.purge now cs) s fun _ s' => Shed .expire now s s' := by
  intro cs
  induction cs with
  | nil => exact fun s => Returns.pure (Shed.refl ..)
  | cons c cs ih =>
      intro s
      refine (head_peeks gw c now s).bind fun r s₁ h₁ => ?_
      exact (ih s₁).mono fun _ s' h' => h₁.1.shed.trans h'

/-- The newest bundle of a queue is evicted. -/
theorem Shed.evict {s s₁ s' : LiveState} {v : LiveBundle} {older : List LiveBundle}
    {c : TrafficClass} (hrest : Shed .evict now s₁ s') (hq : s.q c = older.reverse ++ [v])
    (hqueue : s₁.q = Function.update s.q c older.reverse)
    (hlog : s₁.log = s.log ++ [{ event := .evict, bundle := v, now := now }])
    (hdeficit : s₁.deficit = s.deficit) (hrr : s₁.rr = s.rr) : Shed .evict now s s' := by
  refine Shed.trans ⟨fun c' => ?_, ⟨[v], hlog, ?_⟩, hdeficit, hrr⟩ hrest
  · rw [hqueue]
    exact update_sublist (hq ▸ List.sublist_append_left _ _) c'
  · simpa using ⟨c, hq ▸ List.mem_append_right _ (List.mem_singleton_self v)⟩

theorem evictLoop_sheds (gw : LiveGateway) (b : LiveBundle) (now : ℚ) (c : TrafficClass) :
    ∀ (newest : List LiveBundle) (s : LiveState), s.q c = newest.reverse →
      Returns (gw.evictLoop b now c newest) s fun _ s' => Shed .evict now s s' := by
  intro newest
  induction newest with
  | nil => exact fun s _ => Returns.pure (Shed.refl ..)
  | cons v older ih =>
      intro s hq
      rw [List.reverse_cons] at hq
      refine Returns.get_bind ?_
      split
      · refine Returns.modify_bind (Returns.modify_bind (Returns.modify_bind
          (Returns.modify_bind ((ih _ (Function.update_self ..)).mono fun _ s' h' => ?_))))
        exact h'.evict hq rfl rfl rfl rfl
      · exact Returns.pure (Shed.refl ..)

theorem evictClasses_sheds (gw : LiveGateway) (b : LiveBundle) (now : ℚ) :
    ∀ (cs : List TrafficClass) (s : LiveState),
      Returns (gw.evictClasses b now cs) s fun _ s' => Shed .evict now s s' := by
  intro cs
  induction cs with
  | nil => exact fun s => Returns.pure (Shed.refl ..)
  | cons c cs ih =>
      intro s
      rw [LiveGateway.evictClasses]
      split
      · exact Returns.pure (Shed.refl ..)
      · refine Returns.get_bind ?_
        refine (evictLoop_sheds gw b now c _ s (List.reverse_reverse _).symm).bind
          fun _ s₁ h₁ => ?_
        exact (ih s₁).mono fun _ s' h' => h₁.trans h'

theorem evictIfOver_sheds (gw : LiveGateway) (b : LiveBundle) (now : ℚ) (s : LiveState) :
    Returns (gw.evictIfOver b now) s fun _ s' => Shed .evict now s s' := by
  refine Returns.get_bind ?_
  split
  · exact evictClasses_sheds gw b now _ s
  · exact Returns.pure (Shed.refl ..)

/-- `admit` sheds what has expired, evicts, and then queues or drops the arrival. -/
theorem admit_sheds (gw : LiveGateway) (b : LiveBundle) (now : ℚ) (s : LiveState) :
    Returns (gw.admitBundle b now) s fun accepted s' => ∃ s₁ s₂, Shed .expire now s s₁ ∧
      Shed .evict now s₁ s₂ ∧ s' = if accepted then s₂.enqueued b else s₂.dropped b now := by
  have hpurge : Returns (gw.purgeIfOver b now) s fun _ s' => Shed .expire now s s' := by
    refine Returns.get_bind ?_
    split
    · exact purge_sheds gw now _ s
    · exact Returns.pure (Shed.refl ..)
  refine hpurge.bind fun _ s₁ h₁ => ?_
  refine (evictIfOver_sheds gw b now s₁).bind fun _ s₂ h₂ => Returns.get_bind ?_
  split
  · exact Returns.modify_bind (Returns.pure ⟨s₁, s₂, h₁, h₂, rfl⟩)
  · exact ⟨true, _, rfl, s₁, s₂, h₁, h₂, rfl⟩

end Room

/-! ## Draining -/

/-- The queues hold fewer bundles, and a bundle that is returned was queued and has not expired. -/
structure Gives (gw : LiveGateway) (now : ℚ) (r : Option LiveBundle) (s s' : LiveState) : Prop where
  thinned : Thinned s s'
  alive : ∀ b, r = some b → ∃ c, b ∈ s.q c ∧ now - b.t ≤ gw.L c

section Draining

variable {gw : LiveGateway} {now : ℚ} {c : TrafficClass}

theorem Thinned.gives_none {s s' : LiveState} (h : Thinned s s') : Gives gw now none s s' :=
  ⟨h, nofun⟩

/-- Heads are looked at first. -/
theorem Gives.thinned_left {r : Option LiveBundle} {s s₁ s' : LiveState} (hthin : Thinned s s₁)
    (h : Gives gw now r s₁ s') : Gives gw now r s s' where
  thinned := hthin.trans h.thinned
  alive := by
    intro b hb
    obtain ⟨c, hmem, halive⟩ := h.alive b hb
    exact ⟨c, (hthin.queues c).subset hmem, halive⟩

/-- A head that has been found is taken. -/
theorem Peeked.gives {s s₁ s' : LiveState} {b : LiveBundle} (hpeek : Peeked gw now c s s₁)
    (hb : (s₁.q c).head? = some b) (hthin : Thinned s₁ s') : Gives gw now (some b) s s' where
  thinned := hpeek.thinned.trans hthin
  alive := by
    rintro _ ⟨⟩
    exact ⟨c, (hpeek.thinned.queues c).subset (List.mem_of_head? hb), (hpeek.head_alive hb).2⟩

/-- A head that has been found is taken, otherwise the search goes on. -/
theorem takeHead_gives {s s₁ : LiveState} {r : Option LiveBundle} (hpeek : Peeked gw now c s s₁)
    (hr : r = (s₁.q c).head?) {rest : LiveM (Option LiveBundle)}
    (hrest : Returns rest s₁ fun r s' => Gives gw now r s₁ s') :
    Returns (if r.isSome then do
      let taken ← LiveGateway.take c
      pure (some taken) else rest) s₁ fun r s' => Gives gw now r s s' := by
  cases r with
  | none => exact hrest.mono fun _ _ h' => h'.thinned_left hpeek.thinned
  | some b =>
      rw [Option.isSome_some, if_pos rfl]
      refine (take_thins hr.symm).bind fun taken s' h' => Returns.pure ?_
      rcases h' with ⟨rfl, hthin, -, -⟩
      exact hpeek.gives hr.symm hthin

theorem strictLoop_gives (gw : LiveGateway) (now : ℚ) :
    ∀ (cs : List TrafficClass) (s : LiveState),
      Returns (gw.strictLoop now cs) s fun r s' => Gives gw now r s s' := by
  intro cs
  induction cs with
  | nil => exact fun s => Returns.pure (Thinned.refl s).gives_none
  | cons c cs ih =>
      intro s
      refine (head_peeks gw c now s).bind fun r s₁ h₁ => ?_
      exact takeHead_gives h₁.1 h₁.2 (ih s₁)

theorem fifoLoop_gives (gw : LiveGateway) (now : ℚ) :
    ∀ (fifo : List LiveBundle) (s : LiveState),
      Returns (gw.fifoLoop now fifo) s fun r s' => Gives gw now r s s' := by
  intro fifo
  induction fifo with
  | nil => exact fun s => Returns.pure (Thinned.refl s).gives_none
  | cons b rest ih =>
      intro s
      -- the global order is the loop's own business
      have hskip : ∀ s₁ : LiveState, Returns (gw.fifoLoop now rest) { s₁ with fifo := rest }
          fun r s' => Gives gw now r s₁ s' := fun s₁ =>
        (ih _).mono fun _ _ h' => ⟨⟨h'.thinned.queues, h'.thinned.turns⟩, h'.alive⟩
      refine Returns.get_bind ?_
      split
      · exact Returns.modify_bind (hskip s)
      · refine (head_peeks gw b.cls now s).bind fun r s₁ h₁ => ?_
        split
        · next hhead =>
            have hq : (s₁.q b.cls).head? = some b := h₁.2.symm.trans hhead
            have htake := take_thins (s := { s₁ with fifo := rest }) hq
            refine Returns.modify_bind (htake.bind fun taken s₂ h₂ => Returns.pure ?_)
            rcases h₂ with ⟨rfl, hthin, -, -⟩
            exact h₁.1.gives hq ⟨hthin.queues, hthin.turns⟩
        · exact Returns.modify_bind ((hskip s₁).mono fun _ _ h' =>
            h'.thinned_left h₁.1.thinned)

theorem backlogged_thins (gw : LiveGateway) (now : ℚ) : ∀ (cs : List TrafficClass) (s : LiveState),
    Returns (gw.backlogged now cs) s fun _ s' => Thinned s s' := by
  intro cs
  induction cs with
  | nil => exact fun s => Returns.pure (Thinned.refl s)
  | cons c cs ih =>
      intro s
      refine (head_peeks gw c now s).bind fun r s₁ h₁ => ?_
      exact (ih s₁).bind fun _ s' h' => Returns.pure (h₁.1.thinned.trans h')

theorem wfqRounds_gives (gw : LiveGateway) (now : ℚ) : ∀ (visits : ℕ) (s : LiveState),
    s.rr ≠ [] → Returns (gw.wfqRounds now visits) s fun r s' => Gives gw now r s s' := by
  intro visits
  induction visits with
  | zero => exact fun s _ => Returns.pure (Thinned.refl s).gives_none
  | succ visits ih =>
      intro s hrr
      refine Returns.get_bind ?_
      cases hturn : s.rr with
      | nil => exact absurd hturn hrr
      | cons c cs =>
          refine (head_peeks gw c now s).bind fun r s₁ h₁ => ?_
          rcases h₁ with ⟨hpeek, hr⟩
          -- a turn that sends nothing changes a deficit and the order of the classes
          have hpass : ∀ deficit, Returns (gw.wfqRounds now visits)
              { s₁ with deficit := deficit, rr := cs ++ [c] } fun r s' => Gives gw now r s s' := by
            intro deficit
            have hthin : Thinned s { s₁ with deficit := deficit, rr := cs ++ [c] } :=
              ⟨hpeek.thinned.queues, hturn ▸ List.perm_append_singleton c cs⟩
            exact (ih _ (by simp)).mono fun _ _ h' => h'.thinned_left hthin
          cases r with
          | none => exact Returns.modify_bind (Returns.modify_bind (hpass _))
          | some b =>
              refine Returns.get_bind ?_
              split
              · have htake := take_thins (c := c) (b := b) (s := { s₁ with
                  deficit := Function.update s₁.deficit c (s₁.deficit c - b.n) }) hr.symm
                refine Returns.modify_bind (htake.bind fun taken s' h' => Returns.pure ?_)
                rcases h' with ⟨rfl, hthin, -, -⟩
                exact hpeek.gives hr.symm ⟨hthin.queues, hthin.turns⟩
              · exact Returns.modify_bind (Returns.modify_bind (hpass _))

theorem wfqNext_gives (gw : LiveGateway) (now : ℚ) {s : LiveState} (hrr : s.rr ≠ []) :
    Returns (gw.wfqNext now) s fun r s' => Gives gw now r s s' := by
  refine Returns.get_bind ((backlogged_thins gw now s.rr s).bind fun waiting s₁ hthin => ?_)
  split
  · exact Returns.modify_bind (Returns.pure
      (Thinned.gives_none ⟨hthin.queues, hthin.turns⟩))
  · have hrr₁ : s₁.rr ≠ [] := fun hnil => hrr (List.Perm.nil_eq (hnil ▸ hthin.turns)).symm
    exact (wfqRounds_gives gw now _ s₁ hrr₁).mono fun _ _ h' => h'.thinned_left hthin

/-- In any state and under any policy, `next` returns a bundle that has not expired, if any. -/
theorem next_gives (gw : LiveGateway) (now : ℚ) {s : LiveState} (hrr : s.rr ≠ []) :
    Returns (gw.next now) s fun r s' => Gives gw now r s s' := by
  rw [LiveGateway.next]
  split
  · exact Returns.get_bind (fifoLoop_gives gw now s.fifo s)
  · refine (head_peeks gw .emergency now s).bind fun r s₁ h₁ => ?_
    refine takeHead_gives h₁.1 h₁.2 ?_
    split
    · exact strictLoop_gives gw now _ s₁
    · exact wfqNext_gives gw now (h₁.1.rr ▸ hrr)

end Draining

end LinkController
end LunaBridge
