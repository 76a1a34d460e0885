import LunaBridge.LinkController.GatewayThreads
import LunaBridge.Live.Settling

/-!
# Accounting — however the two threads interleave, every packet sent on is accounted for

`Accounted` is what holds between two steps: the packets numbered so far are those admitted and the
one in the reader's hands, and the lines of `gw.jsonl`, those that `gw.admit` is about to log, the
bundle in the main thread's hands and the queues hold each of the former once.
-/

namespace LunaBridge
namespace LinkController

open Foundation Foundation.Machine Foundation.Python Gateway
open scoped List

/-! ## Numbers and classes -/

/-- What identifies a bundle in the files. -/
abbrev Key := ℕ × TrafficClass

def GatewayLine.key (l : GatewayLine) : Key := (l.seq, l.cls)

def LiveBundle.key (b : LiveBundle) : Key := (b.ref, b.cls)

def Encapsulated.key (e : Encapsulated) : Key := (e.seq, e.cls)

def SentLine.key (l : SentLine) : Key := (l.seq, l.cls)

def LogEntry.key (e : LogEntry) : Key := e.bundle.key

@[simp] theorem LogEntry.key_line (e : LogEntry) : e.line.key = e.key := rfl

@[simp] theorem LiveBundle.key_line (b : LiveBundle) (ev : GatewayEvent) (t : ℚ) :
    (b.line ev t).key = b.key := rfl

@[simp] theorem Encapsulated.key_bundle (e : Encapsulated) : e.bundle.key = e.key := rfl

@[simp] theorem Encapsulated.key_sentLine (e : Encapsulated) : e.sentLine.key = e.key := rfl

/-- The gateway logs no forwarding. -/
theorem LogEntry.line_ev (e : LogEntry) : e.line.ev ≠ .fwd ∧ e.line.ev ≠ .queuedAtEnd := by
  cases h : e.event <;> simp [LogEntry.line, h]

/-! ## Lines that say what became of a bundle -/

/-- All but those about the snapshot. -/
def GatewayLine.final (l : GatewayLine) : Bool := decide (l.ev ≠ .queuedAtEnd)

def finalKeys (lines : List GatewayLine) : List Key :=
  (lines.filter GatewayLine.final).map GatewayLine.key

theorem finalKeys_append (lines lines' : List GatewayLine) :
    finalKeys (lines ++ lines') = finalKeys lines ++ finalKeys lines' := by
  rw [finalKeys, List.filter_append, List.map_append]
  rfl

theorem finalKeys_entries (entries : List LogEntry) :
    finalKeys (entries.map LogEntry.line) = entries.map LogEntry.key := by
  have hall : ∀ l ∈ entries.map LogEntry.line, l.final = true := by
    intro l hl
    obtain ⟨e, -, rfl⟩ := List.mem_map.1 hl
    exact decide_eq_true e.line_ev.2
  rw [finalKeys, List.filter_eq_self.2 hall, List.map_map]
  rfl

/-! ## What the threads have in their hands -/

/-- The packet the reader has numbered and not admitted; one that was in the hands of a thread that
died is lost with it. -/
def Reader.hand : Reader → List Encapsulated
  | .encapsulated e => [e]
  | .recorded e => [e]
  | .failed _ place => place.hand
  | _ => []

/-- That packet, once its line is written. -/
def Reader.noted : Reader → List Encapsulated
  | .recorded e => [e]
  | .failed _ place => place.noted
  | _ => []

/-- What `gw.admit` has not logged yet. -/
def Reader.pending : Reader → List LogEntry
  | .admitting entries => entries
  | .failed _ place => place.pending
  | _ => []

theorem Reader.hand_length_le (r : Reader) : r.hand.length ≤ 1 := by
  induction r with
  | failed _ place ih => exact ih
  | _ => simp [Reader.hand]

/-- A packet with its line is still in hand. -/
theorem Reader.noted_prefix (r : Reader) : r.noted <+: r.hand := by
  induction r with
  | recorded e => exact List.prefix_refl _
  | failed _ place ih => exact ih
  | _ => exact List.nil_prefix

/-- The bundle the main thread has taken and not written down yet. -/
def Drainer.hand : Drainer → List LiveBundle
  | .forwarding b _ => [b]
  | _ => []

/-- The bundles of the snapshot that are not written down yet. -/
def Drainer.left? : Drainer → Option (List LiveBundle)
  | .reporting left => some left
  | .sentClosed => some []
  | .closed => some []
  | .exited => some []
  | _ => none

/-- The files are closed one after the other. -/
theorem Drainer.sentShut_of_eventsShut {d : Drainer} (h : d.eventsShut = true) :
    d.sentShut = true := by
  cases d with
  | closed => rfl
  | exited => rfl
  | _ => cases h

/-- The main loop has ended. -/
def Drainer.Ended (d : Drainer) : Prop := d = .closing ∨ d.left?.isSome

/-! ## The invariant -/

/-- Between two steps, with the packets `admitted` so far and no clock reading after `last`. -/
structure Accounted (cfg : ThreadConfig) (last : ℚ) (admitted : List Encapsulated) (s : Threads) :
    Prop where
  passed : s.intake.passed = admitted ++ s.reader.hand
  numbered : s.intake.passed.map Encapsulated.seq = List.range s.intake.seq
  ordered : s.intake.passed.Pairwise fun a b => a.t ≤ b.t
  clock : ∀ e ∈ s.intake.passed, e.t ≤ last
  coherent : Coherent s.live
  turns : s.live.rr.Perm wfqWeightClasses
  held : ∀ b ∈ s.live.fifo, ∃ e ∈ admitted, e.bundle = b
  taken : ∀ b ∈ s.drainer.hand, ∃ e ∈ admitted, e.bundle = b
  written : s.sent = (admitted ++ s.reader.noted).map Encapsulated.sentLine
  wire : ∃ es : List Encapsulated, (∀ e ∈ es, e ∈ admitted) ∧ s.wire = es.map Encapsulated.payload ∧
    (s.events.filter fun l => decide (l.ev = .fwd)).map GatewayLine.key = es.map Encapsulated.key
  ended : s.drainer.Ended → cfg.t1 ≤ last
  -- each packet has a line, waits for one, is in the hands of the main thread or is queued
  balanced : (admitted.map Encapsulated.key).Perm (finalKeys s.events ++
    s.reader.pending.map LogEntry.key ++ s.drainer.hand.map LiveBundle.key ++
      s.live.queued.map LiveBundle.key)
  unreported : s.drainer.left? = none → ∀ l ∈ s.events, l.final = true
  failing : ∀ err place, s.reader = .failed err place →
    place = .waiting ∨ err = closedFile ∧ s.drainer.sentShut = true

namespace Accounted

variable {cfg : ThreadConfig} {last later : ℚ} {admitted : List Encapsulated} {s : Threads}

theorem start (cfg : ThreadConfig) (last : ℚ) : Accounted cfg last [] .start where
  passed := rfl
  numbered := rfl
  ordered := List.Pairwise.nil
  clock := nofun
  coherent := LiveState.initial_coherent
  turns := List.Perm.refl _
  held := nofun
  taken := nofun
  written := rfl
  wire := ⟨[], nofun, rfl, rfl⟩
  ended := by
    rintro (h | h)
    · cases h
    · cases h
  balanced := List.Perm.refl _
  unreported := nofun
  failing := nofun

theorem mono (h : Accounted cfg last admitted s) (hle : last ≤ later) :
    Accounted cfg later admitted s :=
  { h with
    clock := fun e he => (h.clock e he).trans hle
    ended := fun hend => (h.ended hend).trans hle }

/-- The packet with a number is found under it. -/
theorem getElem?_seq (h : Accounted cfg last admitted s) {e : Encapsulated}
    (he : e ∈ s.intake.passed) : s.intake.passed[e.seq]? = some e := by
  obtain ⟨i, hi, rfl⟩ := List.getElem_of_mem he
  have hseq : (s.intake.passed.map Encapsulated.seq)[i]? = (List.range s.intake.seq)[i]? :=
    congrArg (fun l => l[i]?) h.numbered
  have hlen : i < s.intake.seq := by
    have := congrArg List.length h.numbered
    simp only [List.length_map, List.length_range] at this
    omega
  rw [List.getElem?_map, List.getElem?_eq_getElem hi, List.getElem?_range hlen, Option.map_some,
    Option.some.injEq] at hseq
  rw [hseq, List.getElem?_eq_getElem hi]

/-- No two packets share a number. -/
theorem seq_nodup (h : Accounted cfg last admitted s) :
    (s.intake.passed.map Encapsulated.seq).Nodup :=
  h.numbered ▸ List.nodup_range

/-- So no packet has two lines. -/
theorem finalKeys_nodup (h : Accounted cfg last admitted s) : (finalKeys s.events).Nodup := by
  have hseqs : (admitted.map Encapsulated.seq).Nodup := by
    have hall := h.seq_nodup
    rw [h.passed, List.map_append] at hall
    exact (List.nodup_append.1 hall).1
  have hkeys : (admitted.map Encapsulated.key).Nodup := by
    refine List.Nodup.of_map Prod.fst ?_
    rw [List.map_map]
    exact hseqs
  have hbalanced := h.balanced.nodup_iff.1 hkeys
  rw [List.append_assoc, List.append_assoc] at hbalanced
  exact (List.nodup_append.1 hbalanced).1

/-- Before the snapshot all lines count. -/
theorem finalKeys_running (h : Accounted cfg last admitted s) (hopen : s.drainer.left? = none) :
    finalKeys s.events = s.events.map GatewayLine.key := by
  rw [finalKeys, List.filter_eq_self.2 (h.unreported hopen)]

/-! ## The steps of the reader -/

/-- What `classify` does with a packet. -/
theorem classify_cases (qmap : Dict ℕ ℕ) (i : Intake) (now : ℚ) (p : GtpuPacket) :
    (i.classify qmap now p = { i with unknown := i.unknown + 1 }) ∨
      ∃ e : Encapsulated, e.seq = i.seq ∧ e.t = now ∧
        i.classify qmap now p = { i with seq := i.seq + 1, passed := i.passed ++ [e] } := by
  rw [Intake.classify]
  split
  · exact Or.inl rfl
  · split
    · exact Or.inl rfl
    · exact Or.inr ⟨_, rfl, rfl, rfl⟩

/-- The reader moves on with what it has in its hands. -/
theorem setReader (h : Accounted cfg last admitted s) {r r' : Reader} (hreader : s.reader = r)
    (hhand : r'.hand = r.hand) (hnoted : r'.noted = r.noted) (hpending : r'.pending = r.pending)
    (hfailing : ∀ err place, r' = .failed err place →
      place = .waiting ∨ err = closedFile ∧ s.drainer.sentShut = true) :
    Accounted cfg last admitted { s with reader := r' } := by
  subst hreader
  exact
    { h with
      passed := h.passed.trans (congrArg (admitted ++ ·) hhand.symm)
      written := h.written.trans (congrArg (fun l => (admitted ++ l).map _) hnoted.symm)
      balanced := by
        show _ ~ _ ++ r'.pending.map _ ++ _ ++ _
        rw [hpending]
        exact h.balanced
      failing := hfailing }

/-- A packet that is taken off the capture is numbered, if it has a class. -/
theorem readPacket (h : Accounted cfg last admitted s) (hreader : s.reader = .waiting)
    {now : ℚ} (hnow : last ≤ now) (p : GtpuPacket) :
    Accounted cfg now admitted (s.readPacket cfg now p) := by
  have h' := h.mono hnow
  have hhand : s.reader.hand = [] := hreader ▸ rfl
  have hnoted : s.reader.noted = [] := hreader ▸ rfl
  have hpending : s.reader.pending = [] := hreader ▸ rfl
  rw [Threads.readPacket]
  split
  · exact h'.setReader hreader rfl rfl rfl nofun
  · split
    · exact h'
    · rcases classify_cases cfg.qmap s.intake now p with hclass | ⟨e, hseq, ht, hclass⟩
      · -- a packet without a class is counted only
        simp only [hclass, List.drop_length]
        have hset : Accounted cfg now admitted { s with reader := .waiting } :=
          h'.setReader hreader rfl rfl rfl nofun
        exact { hset with }
      · -- the others wait for their line
        simp only [hclass, List.drop_left]
        have hpassed : s.intake.passed = admitted := by rw [h.passed, hhand, List.append_nil]
        exact
          { h' with
            passed := by rw [hpassed]; rfl
            numbered := by
              rw [List.map_append, h.numbered, List.range_succ, ← hseq]
              rfl
            ordered := by
              refine List.pairwise_append.2 ⟨h.ordered, List.pairwise_singleton _ _, ?_⟩
              intro a ha b hb
              rw [List.mem_singleton.1 hb, ht]
              exact h'.clock a ha
            clock := by
              intro a ha
              rcases List.mem_append.1 ha with ha | ha
              · exact h'.clock a ha
              · exact (List.mem_singleton.1 ha ▸ ht).le
            written := by rw [h.written, hnoted]; rfl
            balanced := by
              have hbalanced := h.balanced
              rw [hpending] at hbalanced
              exact hbalanced
            failing := nofun }

/-- The line of the packet is written. -/
theorem record (h : Accounted cfg last admitted s) {e : Encapsulated}
    (hreader : s.reader = .encapsulated e) :
    Accounted cfg last admitted
      { s with sent := s.sent ++ [e.sentLine], reader := .recorded e } := by
  have hhand : s.reader.hand = [e] := hreader ▸ rfl
  have hnoted : s.reader.noted = [] := hreader ▸ rfl
  have hpending : s.reader.pending = [] := hreader ▸ rfl
  exact
    { h with
      passed := by rw [h.passed, hhand]; rfl
      written := by
        show s.sent ++ [e.sentLine] = (admitted ++ [e]).map Encapsulated.sentLine
        rw [h.written, hnoted, List.append_nil, List.map_append]
        rfl
      balanced := by
        have hbalanced := h.balanced
        rw [hpending] at hbalanced
        exact hbalanced
      failing := nofun }

/-! ## Calls of the gateway -/

/-- The lines a call logs. -/
theorem called_events (s : Threads) {live : LiveState} {entries : List LogEntry}
    (hlog : live.log = s.live.log ++ entries) :
    (s.called live).events = s.events ++ entries.map LogEntry.line := by
  rw [Threads.called, hlog, List.drop_left]

theorem final_entries {lines : List GatewayLine} (hlines : ∀ l ∈ lines, l.final = true)
    (entries : List LogEntry) : ∀ l ∈ lines ++ entries.map LogEntry.line, l.final = true := by
  intro l hl
  rcases List.mem_append.1 hl with hl | hl
  · exact hlines l hl
  · obtain ⟨e, -, rfl⟩ := List.mem_map.1 hl
    exact decide_eq_true e.line_ev.2

/-- The gateway's lines are about no forwarding. -/
theorem filter_fwd (lines : List GatewayLine) (entries : List LogEntry) :
    (lines ++ entries.map LogEntry.line).filter (fun l => decide (l.ev = .fwd)) =
      lines.filter fun l => decide (l.ev = .fwd) := by
  have hnone : (entries.map LogEntry.line).filter (fun l => decide (l.ev = .fwd)) = [] := by
    refine List.filter_eq_nil_iff.2 fun l hl => ?_
    obtain ⟨e, -, rfl⟩ := List.mem_map.1 hl
    simpa using e.line_ev.1
  rw [List.filter_append, hnone, List.append_nil]

/-- A packet that is admitted was built after all that are queued. -/
theorem fresh (h : Accounted cfg last admitted s) {e : Encapsulated} (hhand : s.reader.hand = [e]) :
    e.bundle ∉ s.live.fifo ∧ ∀ a ∈ s.live.fifo, a.t ≤ e.bundle.t := by
  have hpassed : s.intake.passed = admitted ++ [e] := by rw [h.passed, hhand]
  constructor
  · intro hmem
    obtain ⟨e', he', heq⟩ := h.held _ hmem
    have hnodup := h.seq_nodup
    rw [hpassed, List.map_append] at hnodup
    have hseq : e'.seq = e.seq := congrArg LiveBundle.ref heq
    exact (List.nodup_append.1 hnodup).2.2 _ (List.mem_map_of_mem he') _ (by simp) hseq
  · intro a ha
    obtain ⟨e', he', rfl⟩ := h.held a ha
    have hordered := h.ordered
    rw [hpassed] at hordered
    exact (List.pairwise_append.1 hordered).2.2 e' he' e (List.mem_singleton_self e)

/-- The packet is admitted, at whatever instant the call gets its turn. -/
theorem admitBundle (h : Accounted cfg last admitted s) {e : Encapsulated}
    (hreader : s.reader = .recorded e) :
    Returns (cfg.gw.admitBundle e.bundle e.t) s.live fun _ live =>
      Accounted cfg last (admitted ++ [e])
        { s with live := live, reader := .admitting (live.log.drop s.live.log.length) } := by
  have hhand : s.reader.hand = [e] := hreader ▸ rfl
  have hnoted : s.reader.noted = [e] := hreader ▸ rfl
  have hpending : s.reader.pending = [] := hreader ▸ rfl
  obtain ⟨hnew, hlast⟩ := h.fresh hhand
  refine (admit_receives cfg.gw e.t h.coherent hnew hlast).mono fun _ live h' => ?_
  obtain ⟨entries, hlog, hqueued⟩ := h'.settled
  have hentries : live.log.drop s.live.log.length = entries := by rw [hlog, List.drop_left]
  have hold : ∀ b, (∃ a ∈ admitted, a.bundle = b) → ∃ a ∈ admitted ++ [e], a.bundle = b := by
    rintro b ⟨a, ha, hab⟩
    exact ⟨a, List.mem_append_left _ ha, hab⟩
  exact
    { passed := by rw [← hhand]; exact h.passed.trans (List.append_nil _).symm
      numbered := h.numbered
      ordered := h.ordered
      clock := h.clock
      coherent := h'.coherent
      turns := h'.turns.trans h.turns
      held := by
        intro b hb
        rcases List.mem_append.1 (h'.kept.subset hb) with hb | hb
        · exact hold b (h.held b hb)
        · exact ⟨e, by simp, (List.mem_singleton.1 hb).symm⟩
      taken := fun b hb => hold b (h.taken b hb)
      written := by rw [← hnoted]; exact h.written.trans (by simp [Reader.noted])
      wire := by
        obtain ⟨es, hes, hwire, hfwd⟩ := h.wire
        exact ⟨es, fun a ha => List.mem_append_left _ (hes a ha), hwire, hfwd⟩
      ended := h.ended
      balanced := by
        have hbalanced := h.balanced
        have hkeys := hqueued.map LiveBundle.key
        rw [hpending, List.map_nil, List.append_nil] at hbalanced
        rw [List.map_append, List.map_append, List.map_map] at hkeys
        show _ ~ _ ++ (live.log.drop s.live.log.length).map LogEntry.key ++ _ ++ _
        rw [hentries, List.map_append]
        calc admitted.map Encapsulated.key ++ [e].map Encapsulated.key
            _ ~ (finalKeys s.events ++ s.drainer.hand.map LiveBundle.key ++
                s.live.queued.map LiveBundle.key) ++ [e].map Encapsulated.key :=
              hbalanced.append_right _
            _ ~ finalKeys s.events ++ s.drainer.hand.map LiveBundle.key ++
                (s.live.queued.map LiveBundle.key ++ [e.bundle].map LiveBundle.key) := by
              rw [List.append_assoc]
              exact List.Perm.refl _
            _ ~ finalKeys s.events ++ s.drainer.hand.map LiveBundle.key ++
                (entries.map LogEntry.key ++ live.queued.map LiveBundle.key) :=
              hkeys.append_left _
            _ ~ finalKeys s.events ++ entries.map LogEntry.key ++
                s.drainer.hand.map LiveBundle.key ++ live.queued.map LiveBundle.key := by
              simp only [List.append_assoc]
              exact (List.perm_append_comm_assoc _ _ _).append_left _
      unreported := h.unreported
      failing := nofun }

/-- A line of the call comes into the file. -/
theorem logLine (h : Accounted cfg last admitted s) {entry : LogEntry} {entries : List LogEntry}
    (hreader : s.reader = .admitting (entry :: entries)) :
    Accounted cfg last admitted
      { s with events := s.events ++ [entry.line], reader := .admitting entries } := by
  have hhand : s.reader.hand = [] := hreader ▸ rfl
  have hnoted : s.reader.noted = [] := hreader ▸ rfl
  have hpending : s.reader.pending = entry :: entries := hreader ▸ rfl
  exact
    { h with
      passed := by rw [h.passed, hhand]; rfl
      written := by rw [h.written, hnoted]; rfl
      wire := by
        obtain ⟨es, hes, hwire, hfwd⟩ := h.wire
        exact ⟨es, hes, hwire, (congrArg _ (filter_fwd s.events [entry])).trans hfwd⟩
      balanced := by
        have hbalanced := h.balanced
        rw [hpending] at hbalanced
        show _ ~ finalKeys (s.events ++ [entry].map LogEntry.line) ++ entries.map _ ++ _ ++ _
        rw [finalKeys_append, finalKeys_entries, List.append_assoc (finalKeys s.events)]
        exact hbalanced
      unreported := fun hopen => final_entries (h.unreported hopen) [entry]
      failing := nofun }

/-! ## The steps of the main thread -/

/-- The test of the loop, and what comes before the call of `next`. -/
theorem pollClock (h : Accounted cfg last admitted s) (hdrainer : s.drainer = .looping)
    {checked now : ℚ} (hchecked : last ≤ checked) (hnow : checked ≤ now) :
    Accounted cfg now admitted (s.pollClock cfg checked now) := by
  have h' := h.mono (hchecked.trans hnow)
  have hopen : s.drainer.left? = none := hdrainer ▸ rfl
  have hbalanced := h.balanced
  have hfailing := h.failing
  rw [show s.drainer.hand = [] from hdrainer ▸ rfl] at hbalanced
  rw [show s.drainer.sentShut = false from hdrainer ▸ rfl] at hfailing
  rw [Threads.pollClock]
  split
  · next hend =>
      exact
        { h' with
          taken := nofun
          ended := fun _ => hend.trans hnow
          balanced := hbalanced
          unreported := fun _ => h.unreported hopen
          failing := hfailing }
  · split
    · exact h'
    · split
      · exact h'
      · exact
          { h' with
            taken := nofun
            ended := by
              rintro (hend | hend)
              · cases hend
              · cases hend
            balanced := hbalanced
            unreported := fun _ => h.unreported hopen
            failing := hfailing }

/-- `next` hands out one of the queued bundles, or nothing. -/
theorem pop (h : Accounted cfg last admitted s) {now : ℚ} (hdrainer : s.drainer = .popping now) :
    Returns (cfg.gw.next now) s.live fun r live => Accounted cfg last admitted
      { s.called live with
        drainer := match r with
          | none => .looping
          | some b => .forwarding b now } := by
  have hopen : s.drainer.left? = none := hdrainer ▸ rfl
  refine (next_settles cfg.gw now h.coherent h.turns).mono fun r live h' => ?_
  obtain ⟨entries, hlog, hqueued⟩ := h'.settled
  have hevents := called_events s hlog
  have hdrained : ∀ d : Drainer, d.hand = r.toList → d.left? = none → d.sentShut = false →
      ¬ d.Ended → Accounted cfg last admitted { s.called live with drainer := d } := by
    intro d hd hleft hshut hrunning
    have hqueue : ∀ b ∈ r.toList, b ∈ s.live.queued := fun b hb =>
      hqueued.symm.subset (List.mem_append_left _ (List.mem_append_right _ hb))
    exact
      { h with
        coherent := h'.coherent
        turns := h'.turns.trans h.turns
        held := fun b hb => h.held b (h'.kept.subset hb)
        taken := fun b hb => h.held b (h.coherent.mem_queued.1 (hqueue b (hd ▸ hb))).1
        wire := by
          obtain ⟨es, hes, hwire, hfwd⟩ := h.wire
          refine ⟨es, hes, hwire, ?_⟩
          show ((s.called live).events.filter _).map _ = _
          rw [hevents, filter_fwd, hfwd]
        ended := fun hend => absurd hend hrunning
        balanced := by
          have hbalanced := h.balanced
          rw [show s.drainer.hand = [] from hdrainer ▸ rfl, List.map_nil, List.append_nil]
            at hbalanced
          have hkeys := hqueued.map LiveBundle.key
          rw [List.map_append, List.map_append, List.map_map] at hkeys
          show _ ~ finalKeys (s.called live).events ++ _ ++ d.hand.map _ ++ _
          rw [hevents, finalKeys_append, finalKeys_entries, hd]
          calc admitted.map Encapsulated.key
              _ ~ finalKeys s.events ++ s.reader.pending.map LogEntry.key ++
                  s.live.queued.map LiveBundle.key := hbalanced
              _ ~ finalKeys s.events ++ s.reader.pending.map LogEntry.key ++
                  (entries.map LogEntry.key ++ r.toList.map LiveBundle.key ++
                    live.queued.map LiveBundle.key) := hkeys.append_left _
              _ ~ finalKeys s.events ++ entries.map LogEntry.key ++
                  s.reader.pending.map LogEntry.key ++ r.toList.map LiveBundle.key ++
                    live.queued.map LiveBundle.key := by
                simp only [List.append_assoc]
                exact (List.perm_append_comm_assoc _ _ _).append_left _
        unreported := by
          intro _
          show ∀ l ∈ (s.called live).events, l.final = true
          rw [hevents]
          exact final_entries (h.unreported hopen) entries
        failing := by
          rw [show (Threads.called s live).reader = s.reader from rfl]
          intro err place hreader
          refine (h.failing err place hreader).imp_right fun hclosed => ?_
          rw [show s.drainer.sentShut = false from hdrainer ▸ rfl] at hclosed
          cases hclosed.2 }
  cases r with
  | none => exact hdrained .looping rfl rfl rfl (by simp [Drainer.Ended, Drainer.left?])
  | some b =>
      exact hdrained (.forwarding b now) rfl rfl rfl (by simp [Drainer.Ended, Drainer.left?])

/-- The bundle in hand is sent, with the payload it was built with, and written down. -/
theorem forwardBundle (h : Accounted cfg last admitted s) (hrate : cfg.rateBps ≠ 0)
    {b : LiveBundle} {now : ℚ} (hdrainer : s.drainer = .forwarding b now) :
    ∃ s', s.forwardBundle cfg b now = .ok s' ∧ Accounted cfg last admitted s' := by
  have hopen : s.drainer.left? = none := hdrainer ▸ rfl
  have hhand : s.drainer.hand = [b] := hdrainer ▸ rfl
  obtain ⟨e, he, rfl⟩ := h.taken b (by rw [hhand]; exact List.mem_singleton_self b)
  have hpassed : e ∈ s.intake.passed := h.passed ▸ List.mem_append_left _ he
  have hfound : s.intake.passed[e.bundle.ref]? = some e := h.getElem?_seq hpassed
  rw [Threads.forwardBundle, hfound]
  dsimp only
  rw [if_neg hrate]
  refine ⟨_, rfl, ?_⟩
  exact
    { h with
      taken := nofun
      wire := by
        obtain ⟨es, hes, hwire, hfwd⟩ := h.wire
        refine ⟨es ++ [e], ?_, ?_, ?_⟩
        · intro a ha
          rcases List.mem_append.1 ha with ha | ha
          · exact hes a ha
          · exact List.mem_singleton.1 ha ▸ he
        · rw [hwire, List.map_append]
          rfl
        · rw [List.filter_append, List.map_append, hfwd, List.map_append]
          rfl
      ended := by
        rintro (hend | hend)
        · cases hend
        · cases hend
      balanced := by
        have hbalanced := h.balanced
        rw [hhand] at hbalanced
        show _ ~ finalKeys (s.events ++ [e.bundle.line .fwd now]) ++ _ ++ [] ++ _
        rw [finalKeys_append]
        refine hbalanced.trans ?_
        simp only [List.append_assoc, List.nil_append]
        exact List.perm_append_comm_assoc _ _ _ |>.append_left _
      unreported := by
        intro _ l hl
        rcases List.mem_append.1 hl with hl | hl
        · exact h.unreported hopen l hl
        · rw [List.mem_singleton.1 hl]
          rfl
      failing := by
        rw [show Drainer.sentShut .looping = s.drainer.sentShut from hdrainer ▸ rfl]
        exact h.failing }

/-- The snapshot holds all that is queued. -/
theorem left_eq (h : Accounted cfg last admitted s) : s.live.left = s.live.queued := by
  rw [LiveState.left, h.coherent.snapshot_eq]
  rfl

/-- From the end of the loop on the main thread has nothing in its hands, and the gateway is done
with. -/
theorem moveOn (h : Accounted cfg last admitted s) {d : Drainer} (hended : s.drainer.Ended)
    (hhand : s.drainer.hand = []) (hd : d.hand = []) (hleft : d.left? ≠ none)
    (hshut : s.drainer.sentShut = true → d.sentShut = true) :
    Accounted cfg last admitted { s with drainer := d } :=
  { h with
    taken := by
      rw [hd]
      nofun
    ended := fun _ => h.ended hended
    balanced := by
      have hbalanced := h.balanced
      rw [hhand, ← hd] at hbalanced
      exact hbalanced
    unreported := fun hopen => absurd hopen hleft
    failing := fun err place hreader =>
      (h.failing err place hreader).imp_right fun hclosed => ⟨hclosed.1, hshut hclosed.2⟩ }

/-- A bundle that is left is written down. -/
theorem report (h : Accounted cfg last admitted s) (b : LiveBundle) (now : ℚ)
    (hsome : s.drainer.left? ≠ none) :
    Accounted cfg last admitted { s with events := s.events ++ [b.line .queuedAtEnd now] } :=
  { h with
    wire := by
      obtain ⟨es, hes, hwire, hfwd⟩ := h.wire
      refine ⟨es, hes, hwire, ?_⟩
      rw [List.filter_append, ← hfwd]
      simp [LiveBundle.line]
    balanced := by
      -- the line is about the snapshot
      have hkeys : finalKeys (s.events ++ [b.line .queuedAtEnd now]) = finalKeys s.events := by
        rw [finalKeys_append]
        simp [finalKeys, GatewayLine.final, LiveBundle.line]
      show _ ~ finalKeys (s.events ++ [b.line .queuedAtEnd now]) ++ _ ++ _ ++ _
      rw [hkeys]
      exact h.balanced
    unreported := fun hopen => absurd hopen hsome }

/-! ## Either thread -/

/-- A step of the reader. -/
theorem readerStep (h : Accounted cfg last admitted s) (st : ReaderStep)
    (hnow : ∀ now p, st = .packet now p → last ≤ now) (hle : last ≤ later)
    (hlater : ∀ now p, st = .packet now p → now ≤ later) :
    ∃ admitted', Accounted cfg later admitted' (s.readerStep cfg st) := by
  have h' := h.mono hle
  cases st with
  | packet now p =>
      simp only [Threads.readerStep]
      split
      · next hreader =>
          have hread := h.readPacket hreader (hnow now p rfl) p
          exact ⟨_, hread.mono (hlater now p rfl)⟩
      · exact ⟨_, h'⟩
  | streamEnd =>
      simp only [Threads.readerStep]
      split
      · next hreader => exact ⟨_, h'.setReader hreader rfl rfl rfl nofun⟩
      · exact ⟨_, h'⟩
  | malformed err =>
      simp only [Threads.readerStep]
      split
      · next hreader =>
          refine ⟨_, h'.setReader hreader rfl rfl rfl ?_⟩
          rintro _ _ ⟨⟩
          exact Or.inl rfl
      · exact ⟨_, h'⟩
  | record =>
      simp only [Threads.readerStep]
      split
      · next e hreader =>
          split
          · next hshut =>
              refine ⟨_, h'.setReader hreader rfl rfl rfl ?_⟩
              rintro _ _ ⟨⟩
              exact Or.inr ⟨rfl, hshut⟩
          · exact ⟨_, h'.record hreader⟩
      · exact ⟨_, h'⟩
  | admitBundle =>
      simp only [Threads.readerStep]
      split
      · next e hreader =>
          obtain ⟨accepted, live, hcall, hs⟩ := h'.admitBundle hreader
          rw [hcall]
          exact ⟨_, hs⟩
      · exact ⟨_, h'⟩
  | logLine =>
      simp only [Threads.readerStep]
      split
      · next hreader => exact ⟨_, h'.setReader hreader rfl rfl rfl nofun⟩
      · next entry entries hreader =>
          split
          · next hshut =>
              refine ⟨_, h'.setReader hreader rfl rfl rfl ?_⟩
              rintro _ _ ⟨⟩
              exact Or.inr ⟨rfl, Drainer.sentShut_of_eventsShut hshut⟩
          · exact ⟨_, h'.logLine hreader⟩
      · exact ⟨_, h'⟩

/-- A step of the main thread raises nothing. -/
theorem drainerStep (h : Accounted cfg last admitted s) (hrate : cfg.rateBps ≠ 0)
    (st : DrainerStep) (hnow : ∀ checked now, st = .poll checked now → last ≤ checked ∧
      checked ≤ now ∧ now ≤ later) (hle : last ≤ later) :
    ∃ s', s.drainerStep cfg st = .ok s' ∧ Accounted cfg later admitted s' := by
  have h' := h.mono hle
  have hsame : ∃ s', (.ok s : Except PyError Threads) = .ok s' ∧ Accounted cfg later admitted s' :=
    ⟨s, rfl, h'⟩
  cases st with
  | poll checked now =>
      simp only [Threads.drainerStep]
      split
      · next hdrainer =>
          obtain ⟨hchecked, hnow, hlater⟩ := hnow checked now rfl
          exact ⟨_, rfl, (h.pollClock hdrainer hchecked hnow).mono hlater⟩
      · exact hsame
  | pop =>
      simp only [Threads.drainerStep]
      split
      · next now hdrainer =>
          split
          · exact hsame
          · obtain ⟨r, live, hnext, hs⟩ := h'.pop hdrainer
            rw [hnext]
            cases r with
            | none => exact ⟨_, rfl, hs⟩
            | some b => exact ⟨_, rfl, hs⟩
      · exact hsame
  | forward =>
      simp only [Threads.drainerStep]
      split
      · next hdrainer => exact h'.forwardBundle hrate hdrainer
      · exact hsame
  | snapshot =>
      simp only [Threads.drainerStep]
      split
      · next hdrainer =>
          split
          · exact hsame
          · refine ⟨_, rfl, h'.moveOn (Or.inl hdrainer) ?_ rfl nofun ?_⟩
            · rw [hdrainer]; rfl
            · rw [hdrainer]; nofun
      · exact hsame
  | report now =>
      simp only [Threads.drainerStep]
      split
      · next b left hdrainer =>
          refine ⟨_, rfl, (h'.report b now ?_).moveOn ?_ ?_ rfl nofun ?_⟩
          · rw [hdrainer]; nofun
          · exact Or.inr (by rw [hdrainer]; rfl)
          · rw [hdrainer]; rfl
          · rw [hdrainer]; nofun
      · exact hsame
  | closeSent | closeEvents | exit =>
      simp only [Threads.drainerStep]
      split
      · next hdrainer =>
          refine ⟨_, rfl, h'.moveOn ?_ ?_ rfl nofun fun _ => rfl⟩
          · exact Or.inr (by rw [hdrainer]; rfl)
          · rw [hdrainer]; rfl
      · exact hsame

/-- Before the files are closed the reader has logged all of a call when it gives the lock back. -/
theorem pending_eq_nil (h : Accounted cfg last admitted s) (hfree : s.reader.holdsLock = false)
    (hopen : s.drainer.sentShut = false) : s.reader.pending = [] := by
  cases hreader : s.reader with
  | admitting entries =>
      rw [hreader] at hfree
      cases hfree
  | failed err place =>
      rcases h.failing err place hreader with rfl | ⟨-, hshut⟩
      · rfl
      · rw [hopen] at hshut
        cases hshut
  | _ => rfl

/-- The numbers in `sent.jsonl` count up from zero. -/
theorem sent_seq (h : Accounted cfg last admitted s) :
    s.sent.map SentLine.seq = List.range s.sent.length := by
  have hseq : s.sent.map SentLine.seq = (admitted ++ s.reader.noted).map Encapsulated.seq := by
    rw [h.written, List.map_map]
    rfl
  have hprefix : (admitted ++ s.reader.noted).map Encapsulated.seq <+: List.range s.intake.seq := by
    rw [← h.numbered, h.passed]
    refine List.IsPrefix.map _ ((List.prefix_append_right_inj _).2 ?_)
    exact s.reader.noted_prefix
  rw [← hseq] at hprefix
  have hlength := hprefix.length_le
  rw [List.length_map, List.length_range] at hlength
  rw [List.prefix_iff_eq_take.1 hprefix, List.length_map, List.take_range, Nat.min_eq_left hlength]

/-- Where the packets of `sent.jsonl` are. -/
theorem sent_keys (h : Accounted cfg last admitted s) :
    (s.sent.map SentLine.key).Perm (s.reader.noted.map Encapsulated.key ++ (finalKeys s.events ++
      s.reader.pending.map LogEntry.key ++ s.drainer.hand.map LiveBundle.key ++
        s.live.queued.map LiveBundle.key)) := by
  have hkeys : s.sent.map SentLine.key =
      admitted.map Encapsulated.key ++ s.reader.noted.map Encapsulated.key := by
    rw [h.written, List.map_map, ← List.map_append]
    rfl
  rw [hkeys]
  exact List.perm_append_comm.trans (h.balanced.append_left _)

end Accounted

end LinkController
end LunaBridge
