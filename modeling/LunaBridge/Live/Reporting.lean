import LunaBridge.Live.Interleaving
import LunaBridge.Live.Receiving
import Mathlib.Data.List.ReduceOption

/-!
# Reporting — what `analyze` reports is what arrived

`analyze` has a row for every class, or stops at an `Obstacle` that lies in the schedule or in
`sent.jsonl`.  The headers are read back as they were written, so the rows count the packets of
which some copy arrived.
-/

namespace LunaBridge
namespace LinkController

open Foundation Foundation.Machine Foundation.Python Foundation.Text Gateway
open scoped List

/-! ## The rows -/

/-- The events of `gw.jsonl`. -/
def gatewayEvents : List GatewayEvent := [.fwd, .drop, .evict, .expire, .queuedAtEnd]

theorem mem_gatewayEvents (ev : GatewayEvent) : ev ∈ gatewayEvents := by
  cases ev <;> decide

/-- The lines of a class are counted under it, by event. -/
theorem getD_fateCounts (lines : List GatewayLine) (c : TrafficClass) :
    (fateCounts lines).getD c Dict.empty =
      Dict.tally GatewayLine.ev (lines.filter fun l => decide (l.cls = c)) := by
  induction lines using List.reverseRecOn with
  | nil => rfl
  | append_singleton lines l ih =>
      have hstep : fateCounts (lines ++ [l]) = countFate (fateCounts lines) l := by
        rw [fateCounts, List.foldl_append]
        rfl
      rw [hstep, countFate, Dict.getD, Dict.get?_set, List.filter_append]
      by_cases hc : c = l.cls
      · subst hc
        rw [if_pos rfl, ih, List.filter_cons_of_pos (by simp), List.filter_nil, Dict.tally_concat]
        rfl
      · rw [if_neg hc, List.filter_cons_of_neg (by simpa using Ne.symm hc), List.filter_nil,
          List.append_nil, ← ih]
        rfl

/-- What keeps `analyze` from its rows: a plan without a gap; or, once something was sent, no gap or
no span to divide by; or a class of which some packets came with a QFI and some without. -/
def Obstacle (sched : Schedule) (sent : List SentLine) : PyError → Prop
  | .valueError msg =>
      msg = "max() iterable argument is empty" ∧ sched.windowsRel.length < 2
  | .zeroDivisionError =>
      sent ≠ [] ∧ (largestGap sched.windowsRel = .ok 0 ∨ span sched.windowsRel = .ok 0)
  | .typeError => ∃ l ∈ sent, ∃ l' ∈ sent, l.cls = l'.cls ∧ l.qfi = none ∧ l'.qfi ≠ none
  | _ => False

/-- Two windows have a gap between them, be it empty. -/
theorem largestGap_cases (windows : List (ℤ × ℤ)) :
    (windows.length < 2 ∧
      largestGap windows = .error (.valueError "max() iterable argument is empty")) ∨
    (∃ g total, largestGap windows = .ok g ∧ span windows = .ok total) ∧ 2 ≤ windows.length := by
  match windows with
  | [] => exact Or.inl ⟨by simp, rfl⟩
  | [w] => exact Or.inl ⟨by simp, rfl⟩
  | w :: w' :: rest =>
      refine Or.inr ⟨?_, by simp⟩
      have hgaps : gaps (w :: w' :: rest) = (w'.1 - w.2) :: gaps (w' :: rest) := rfl
      have hlast := List.getLast?_eq_some_getLast (List.cons_ne_nil w (w' :: rest))
      refine ⟨(gaps (w' :: rest)).foldl max (w'.1 - w.2),
        ((w :: w' :: rest).getLast (List.cons_ne_nil _ _)).2 - w.1, ?_, ?_⟩
      · rw [largestGap, hgaps, List.max?_cons']
      · rw [span, hlast]
        rfl

/-- `sorted` compares `None` with a number as soon as both are there. -/
theorem sortedQfis_cases (qfis : List (Option ℕ)) :
    (sortedQfis qfis = .error .typeError ∧ none ∈ qfis ∧ ∃ qfi ∈ qfis, qfi ≠ none) ∨
      (∃ sorted, sortedQfis qfis = .ok sorted) ∧ (none ∈ qfis → ∀ qfi ∈ qfis, qfi = none) := by
  rw [sortedQfis]
  split
  · next qfi hdistinct =>
      refine Or.inr ⟨⟨_, rfl⟩, fun hnone qfi' hqfi' => ?_⟩
      rw [← List.mem_dedup, hdistinct, List.mem_singleton] at hnone hqfi'
      rw [hqfi', ← hnone]
  · next hmany =>
      by_cases hnone : none ∈ qfis.dedup
      · -- there is a second one, which is a number
        refine Or.inl ⟨if_pos hnone, List.mem_dedup.1 hnone, ?_⟩
        by_contra hall
        push Not at hall
        have hsame : qfis.dedup = List.replicate qfis.dedup.length none :=
          List.eq_replicate_of_mem fun qfi hqfi => hall qfi (List.mem_dedup.1 hqfi)
        have honce : qfis.dedup.length ≤ 1 := by
          have hnodup := qfis.nodup_dedup
          rwa [hsame, List.nodup_replicate] at hnodup
        have hpos : 0 < qfis.dedup.length := List.length_pos_of_mem hnone
        rw [show qfis.dedup.length = 1 by omega] at hsame
        exact hmany none hsame
      · exact Or.inr ⟨⟨_, if_neg hnone⟩, fun h => absurd (List.mem_dedup.2 h) hnone⟩

/-- The row of a class: there is one if and only if the class has sent something, and it has its
counts. -/
structure RowFor (sched : Schedule) (sent : List SentLine) (got : List ℕ) (c : TrafficClass)
    (row : Option BridgeRow) : Prop where
  isSome : row.isSome ↔ ∃ l ∈ sent, l.cls = c
  counts : ∀ r ∈ row, r.cls = c ∧ r.sent = sent.countP (fun l => decide (l.cls = c)) ∧
    r.delivered = sent.countP fun l => decide (l.cls = c) && decide (l.seq ∈ got)
  divided : row.isSome → largestGap sched.windowsRel ≠ .ok 0 ∧ span sched.windowsRel ≠ .ok 0
  compared : ∀ l ∈ sent, ∀ l' ∈ sent, l.cls = c → l'.cls = c → l.qfi = none → l'.qfi = none

/-- Each class gets its row, or stands in the way. -/
theorem bridgeRow_cases {sched : Schedule} {g total : ℤ}
    (hgap : largestGap sched.windowsRel = .ok g) (hspan : span sched.windowsRel = .ok total)
    (sent : List SentLine) (got : List ℕ) (c : TrafficClass) :
    (∃ row, bridgeRow sched g sent got c = .ok row ∧ RowFor sched sent got c row) ∨
      ∃ err, bridgeRow sched g sent got c = .error err ∧ Obstacle sched sent err := by
  rw [bridgeRow]
  cases hmine : sent.filter fun s => decide (s.cls = c) with
  | nil =>
      have hnone : ∀ l ∈ sent, l.cls ≠ c := by
        simpa using List.filter_eq_nil_iff.1 hmine
      exact Or.inl ⟨none, rfl, by simpa using hnone, nofun, nofun,
        fun l hl _ _ hcls => absurd hcls (hnone l hl)⟩
  | cons first rest =>
      have hmem : ∀ l, l ∈ first :: rest ↔ l ∈ sent ∧ l.cls = c := by
        intro l
        rw [← hmine, List.mem_filter, decide_eq_true_iff]
      have hfirst := (hmem first).1 (List.mem_cons_self ..)
      dsimp only
      rcases sortedQfis_cases ((first :: rest).map SentLine.qfi) with
        ⟨hsorted, hnone, qfi, hqfi, hsome⟩ | ⟨⟨sorted, hsorted⟩, hcompared⟩
      · -- its QFIs do not compare
        rw [hsorted]
        obtain ⟨l, hl, hnone⟩ := List.mem_map.1 hnone
        obtain ⟨l', hl', rfl⟩ := List.mem_map.1 hqfi
        obtain ⟨hl, hcls⟩ := (hmem l).1 hl
        obtain ⟨hl', hcls'⟩ := (hmem l').1 hl'
        exact Or.inr ⟨.typeError, rfl, l, hl, l', hl', hcls.trans hcls'.symm, hnone, hsome⟩
      · rw [hsorted]
        by_cases hg : g = 0
        · -- there is no gap to divide by
          have hrho : divide (sched.lifetimes c) g = .error .zeroDivisionError := by
            rw [divide, if_pos (by exact_mod_cast hg)]
          rw [hrho]
          exact Or.inr ⟨.zeroDivisionError, rfl, List.ne_nil_of_mem hfirst.1,
            Or.inl (hg ▸ hgap)⟩
        · have hrho : divide (sched.lifetimes c) g = .ok (sched.lifetimes c / g) := by
            rw [divide, if_neg (by exact_mod_cast hg)]
          rw [hrho]
          by_cases htotal : total = 0
          · -- there is no span to divide by
            have hclosed : closedForm sched.windowsRel (sched.lifetimes c) =
                .error .zeroDivisionError := by
              rw [closedForm, hspan]
              exact if_pos htotal
            rw [hclosed]
            exact Or.inr ⟨.zeroDivisionError, rfl, List.ne_nil_of_mem hfirst.1,
              Or.inr (htotal ▸ hspan)⟩
          · obtain ⟨closed, hclosed⟩ :
                ∃ x, closedForm sched.windowsRel (sched.lifetimes c) = .ok x := by
              rw [closedForm, hspan]
              exact ⟨_, if_neg htotal⟩
            rw [hclosed]
            refine Or.inl ⟨_, rfl, ?_, ?_, fun _ => ⟨?_, ?_⟩, ?_⟩
            · simp only [Option.isSome_some, true_iff]
              exact ⟨first, hfirst⟩
            · rintro r ⟨⟩
              refine ⟨rfl, ?_, ?_⟩
              · show (first :: rest).length = _
                rw [← hmine, List.countP_eq_length_filter]
              · show (first :: rest).countP (fun s => decide (s.seq ∈ got)) = _
                rw [← hmine, List.countP_filter]
                exact List.countP_congr fun l _ => by simp [and_comm]
            · rw [hgap]
              exact fun heq => hg (Except.ok.inj heq)
            · rw [hspan]
              exact fun heq => htotal (Except.ok.inj heq)
            · intro l hl l' hl' hcls hcls' hnone
              refine hcompared (List.mem_map.2 ⟨l, (hmem l).2 ⟨hl, hcls⟩, hnone⟩) _ ?_
              exact List.mem_map_of_mem ((hmem l').2 ⟨hl', hcls'⟩)

/-- What the rows of `analyze` are. -/
structure RowsOf (sent : List SentLine) (got : List ℕ) (lines : List GatewayLine)
    (rows : List BridgeRow) : Prop where
  classes : rows.map BridgeRow.cls =
    rankClasses.filter fun c => sent.any fun l => decide (l.cls = c)
  counts : ∀ r ∈ rows, r.sent = sent.countP (fun l => decide (l.cls = r.cls)) ∧
    r.delivered = sent.countP (fun l => decide (l.cls = r.cls) && decide (l.seq ∈ got)) ∧
    r.gateway =
      some (Dict.tally GatewayLine.ev (lines.filter fun l => decide (l.cls = r.cls)))

/-- The rows that there are come in the order of their classes. -/
theorem reduceOption_classes {sched : Schedule} {sent : List SentLine} {got : List ℕ}
    {row : TrafficClass → Option BridgeRow} (h : ∀ c, RowFor sched sent got c (row c)) :
    ∀ cs : List TrafficClass, (cs.map row).reduceOption.map BridgeRow.cls =
      cs.filter fun c => sent.any fun l => decide (l.cls = c) := by
  intro cs
  induction cs with
  | nil => rfl
  | cons c cs ih =>
      have hc := (h c).isSome
      cases hr : row c with
      | none =>
          rw [hr] at hc
          have hnone : (sent.any fun l => decide (l.cls = c)) = false := by
            simpa using hc
          rw [List.map_cons, hr, List.reduceOption_cons_of_none, ih, List.filter_cons, hnone]
          rfl
      | some r =>
          rw [hr] at hc
          have hany : (sent.any fun l => decide (l.cls = c)) = true := by
            simpa using hc
          rw [List.map_cons, hr, List.reduceOption_cons_of_some, List.map_cons, ih,
            List.filter_cons, hany, ((h c).counts r hr).1]
          rfl

/-- `analyze` has its rows, or names what is in the way. -/
theorem analyze_cases (sched : Schedule) (sent : List SentLine) {recv : List RecvLine}
    {got : List ℕ} (hgot : recv.mapM (fun l => headerSeq l.h) = .ok got)
    (lines : List GatewayLine) :
    (∃ rows, analyze sched sent recv (some lines) = .ok rows ∧ RowsOf sent got lines rows ∧
        ∀ err, ¬ Obstacle sched sent err) ∨
      ∃ err, analyze sched sent recv (some lines) = .error err ∧ Obstacle sched sent err := by
  rcases largestGap_cases sched.windowsRel with ⟨hshort, hgap⟩ | ⟨⟨g, total, hgap, hspan⟩, hlong⟩
  · refine Or.inr ⟨.valueError "max() iterable argument is empty", ?_, rfl, hshort⟩
    rw [analyze, hgot, hgap]
    rfl
  · have hrun : analyze sched sent recv (some lines) =
        rankClasses.mapM (bridgeRow sched g sent got) >>= fun rows =>
          pure (rows.reduceOption.map fun r =>
            { r with gateway := some ((fateCounts lines).getD r.cls Dict.empty) }) := by
      rw [analyze, hgot, hgap]
      rfl
    by_cases hall : ∀ c, ∃ row, bridgeRow sched g sent got c = .ok row ∧
        RowFor sched sent got c row
    · choose row hrow hfor using hall
      rw [mapM_eq_ok fun c _ => hrow c] at hrun
      refine Or.inl ⟨_, hrun, ⟨?_, ?_⟩, ?_⟩
      · rw [List.map_map]
        exact reduceOption_classes hfor rankClasses
      · intro r hr
        obtain ⟨r', hr', rfl⟩ := List.mem_map.1 hr
        obtain ⟨c, -, hc⟩ := List.mem_map.1 (List.reduceOption_mem_iff.1 hr')
        obtain ⟨rfl, hsent, hdelivered⟩ := (hfor c).counts r' hc
        refine ⟨hsent, hdelivered, ?_⟩
        simp only [getD_fateCounts]
      · -- whatever stood in the way would stand in the way of a class
        intro err hobstacle
        cases err with
        | valueError msg => exact absurd hobstacle.2 (by omega)
        | zeroDivisionError =>
            obtain ⟨l, hl⟩ := List.exists_mem_of_ne_nil _ hobstacle.1
            have hdivided := (hfor l.cls).divided ((hfor l.cls).isSome.2 ⟨l, hl, rfl⟩)
            exact hobstacle.2.elim hdivided.1 hdivided.2
        | typeError =>
            obtain ⟨l, hl, l', hl', hcls, hnone, hsome⟩ := hobstacle
            exact hsome ((hfor l.cls).compared l hl l' hl' rfl hcls.symm hnone)
        | _ => exact hobstacle
    · push Not at hall
      obtain ⟨c, hc⟩ := hall
      obtain ⟨err, herr, -⟩ := (bridgeRow_cases hgap hspan sent got c).resolve_left fun hrow =>
        hc hrow.choose hrow.choose_spec.1 hrow.choose_spec.2
      -- so the traversal raises, at this class or before
      cases hrows : rankClasses.mapM (bridgeRow sched g sent got) with
      | ok rows =>
          obtain ⟨row, hrow⟩ := eq_ok_of_mapM hrows c (mem_rankClasses c)
          rw [herr] at hrow
          cases hrow
      | error err' =>
          obtain ⟨c', -, hc'⟩ := exists_eq_error_of_mapM hrows
          rcases bridgeRow_cases hgap hspan sent got c' with ⟨row, hrow, -⟩ | ⟨e, he, hobstacle⟩
          · rw [hc'] at hrow
            cases hrow
          · obtain rfl : err' = e := Except.error.inj (hc'.symm.trans he)
            refine Or.inr ⟨err', ?_, hobstacle⟩
            rw [hrun, hrows]
            rfl

/-! ## The run and its rows -/

section Report

variable {cfg : ThreadConfig} {last : ℚ} {admitted : List Encapsulated} {s : Threads}
  {messages : List (Option (List UInt8) × ℚ)}

/-- The packets whose payloads were handed to the nodes. -/
structure Forwarded (es : List Encapsulated) (s : Threads) : Prop where
  wire : s.wire = es.map Encapsulated.payload
  keys : (s.events.filter fun l => decide (l.ev = .fwd)).map GatewayLine.key =
    es.map Encapsulated.key

/-- A packet that was numbered arrives only if it was admitted and forwarded. -/
theorem Accounted.forwarded_of_arrived (h : Accounted cfg last admitted s)
    {es : List Encapsulated} (hes : ∀ e ∈ es, e ∈ admitted) (hcarried : Carried es messages)
    {e : Encapsulated} (he : e ∈ s.intake.passed) (harrived : Arrived messages e) : e ∈ es := by
  obtain ⟨m, hm, hpl⟩ := List.mem_map.1 harrived
  obtain ⟨e', he', hpayload⟩ := List.mem_map.1 (hcarried m hm _ hpl)
  have hpassed : e' ∈ s.intake.passed := h.passed ▸ List.mem_append_left _ (hes e' he')
  have heq : e' = e := List.inj_on_of_nodup_map h.seq_nodup hpassed he
    (Encapsulated.seq_eq_of_payload hpayload)
  exact heq ▸ he'

/-- The packet in the reader's hands has not arrived. -/
theorem Accounted.not_arrived_of_hand (h : Accounted cfg last admitted s)
    {es : List Encapsulated} (hes : ∀ e ∈ es, e ∈ admitted) (hcarried : Carried es messages)
    {e : Encapsulated} (he : e ∈ s.reader.hand) : ¬ Arrived messages e := by
  intro harrived
  have hpassed : e ∈ s.intake.passed := h.passed ▸ List.mem_append_right _ he
  have hmem := hes e (h.forwarded_of_arrived hes hcarried hpassed harrived)
  have hnodup := h.seq_nodup
  rw [h.passed, List.map_append, List.nodup_append] at hnodup
  exact hnodup.2.2 _ (List.mem_map_of_mem hmem) _ (List.mem_map_of_mem he) rfl

/-- The sent lines whose number arrived are those of the packets that arrived. -/
theorem Accounted.countP_delivered (h : Accounted cfg last admitted s)
    {es : List Encapsulated} (hes : ∀ e ∈ es, e ∈ admitted) (hcarried : Carried es messages)
    {got : List ℕ} (hgot : ∀ seq, seq ∈ got ↔ ∃ e ∈ es, e.seq = seq ∧ Arrived messages e)
    (c : TrafficClass) :
    s.sent.countP (fun l => decide (l.cls = c) && decide (l.seq ∈ got)) =
        admitted.countP (fun e => decide (e.cls = c) && decide (Arrived messages e)) ∧
      s.intake.passed.countP (fun e => decide (e.cls = c) && decide (Arrived messages e)) =
        admitted.countP fun e => decide (e.cls = c) && decide (Arrived messages e) := by
  have hnoted : ∀ e ∈ s.reader.noted, e ∈ s.reader.hand := fun e he =>
    s.reader.noted_prefix.subset he
  have hrest : ∀ rest : List Encapsulated, (∀ e ∈ rest, e ∈ s.reader.hand) →
      rest.countP (fun e => decide (e.cls = c) && decide (Arrived messages e)) = 0 := by
    intro rest hrest
    refine List.countP_eq_zero.2 fun e he => ?_
    simp [h.not_arrived_of_hand hes hcarried (hrest e he)]
  have hmem : ∀ e ∈ s.intake.passed, e.seq ∈ got ↔ Arrived messages e := by
    intro e he
    rw [hgot]
    constructor
    · rintro ⟨e', he', hseq, harrived⟩
      have hpassed : e' ∈ s.intake.passed := h.passed ▸ List.mem_append_left _ (hes e' he')
      exact List.inj_on_of_nodup_map h.seq_nodup hpassed he hseq ▸ harrived
    · exact fun harrived => ⟨e, h.forwarded_of_arrived hes hcarried he harrived, rfl, harrived⟩
  constructor
  · have hlines : s.sent.countP (fun l => decide (l.cls = c) && decide (l.seq ∈ got)) =
        (admitted ++ s.reader.noted).countP fun e =>
          decide (e.cls = c) && decide (Arrived messages e) := by
      rw [h.written, List.countP_map]
      refine List.countP_congr fun e he => ?_
      have hpassed : e ∈ s.intake.passed := by
        rw [h.passed]
        rcases List.mem_append.1 he with he | he
        · exact List.mem_append_left _ he
        · exact List.mem_append_right _ (hnoted e he)
      rw [Function.comp_apply, Bool.and_eq_true, Bool.and_eq_true, decide_eq_true_iff,
        decide_eq_true_iff, decide_eq_true_iff, decide_eq_true_iff, ← hmem e hpassed]
      exact Iff.rfl
    rw [hlines, List.countP_append, hrest _ hnoted, add_zero]
  · rw [h.passed, List.countP_append, hrest _ fun e he => he, add_zero]

/-- Each packet that arrived is one of those forwarded. -/
theorem Accounted.countP_arrived_le (h : Accounted cfg last admitted s)
    {es : List Encapsulated} (hes : ∀ e ∈ es, e ∈ admitted) (hcarried : Carried es messages)
    (c : TrafficClass) :
    admitted.countP (fun e => decide (e.cls = c) && decide (Arrived messages e)) ≤
      es.countP fun e => decide (e.cls = c) := by
  have hnodup : admitted.Nodup := by
    have hseq := h.seq_nodup
    rw [h.passed] at hseq
    exact (List.nodup_append.1 hseq.of_map).1
  rw [List.countP_eq_length_filter, List.countP_eq_length_filter]
  refine (List.subperm_of_subset (hnodup.filter _) fun e he => ?_).length_le
  obtain ⟨he, hboth⟩ := List.mem_filter.1 he
  simp only [Bool.and_eq_true, decide_eq_true_eq] at hboth
  have hpassed : e ∈ s.intake.passed := h.passed ▸ List.mem_append_left _ he
  exact List.mem_filter.2 ⟨h.forwarded_of_arrived hes hcarried hpassed hboth.2,
    decide_eq_true hboth.1⟩

/-- The `fwd` lines of a class are those of its forwarded packets. -/
theorem Forwarded.countP_fwd {es : List Encapsulated} (h : Forwarded es s) (c : TrafficClass) :
    (s.events.filter fun l => decide (l.cls = c)).countP (fun l => decide (l.ev = .fwd)) =
      es.countP fun e => decide (e.cls = c) := by
  have hkeys := congrArg (List.countP fun k : Key => decide (k.2 = c)) h.keys
  rw [List.countP_map, List.countP_map, List.countP_filter] at hkeys
  rw [List.countP_filter]
  refine Eq.trans (List.countP_congr fun l _ => ?_) hkeys
  rw [Function.comp_apply, Bool.and_comm]
  exact Iff.rfl

/-- Every line has one event. -/
theorem sum_tally_events (lines : List GatewayLine) :
    (gatewayEvents.map fun ev => (Dict.tally GatewayLine.ev lines).getD ev 0).sum =
      lines.length := by
  simp only [Dict.getD_tally]
  exact sum_countP_eq_length GatewayLine.ev (by decide) fun l _ => mem_gatewayEvents l.ev

/-- Once all is reported a class has as many lines as packets, but for one. -/
theorem SettledSince.countP_sent_le {s₀ : Threads} (h : SettledSince s₀ s []) (c : TrafficClass) :
    s.sent.countP (fun l => decide (l.cls = c)) ≤
      (s.events.filter fun l => decide (l.cls = c)).length + 1 := by
  obtain ⟨settled, late, hlines, hkeys, -, -⟩ := h.lines
  have hcount : s₀.sent.countP (fun l => decide (l.cls = c)) =
      s₀.reader.noted.countP (fun e => decide (e.cls = c)) +
        settled.countP fun l => decide (l.cls = c) := by
    have hperm := hkeys.countP_eq fun k : Key => decide (k.2 = c)
    rw [List.map_nil, List.append_nil, List.countP_append, List.countP_map, List.countP_map,
      List.countP_map] at hperm
    exact hperm
  have hevents : settled.countP (fun l => decide (l.cls = c)) ≤
      (s.events.filter fun l => decide (l.cls = c)).length := by
    rw [← List.countP_eq_length_filter, hlines.countP_eq, List.countP_append]
    exact Nat.le_add_right _ _
  rcases h.sent with hsent | ⟨e, hreader, hsent⟩
  · -- the one may be in the reader's hands
    have hnoted : s₀.reader.noted.countP (fun e => decide (e.cls = c)) ≤ 1 :=
      List.countP_le_length.trans
        (s₀.reader.noted_prefix.length_le.trans s₀.reader.hand_length_le)
    rw [hsent, hcount]
    omega
  · -- or it has got its line since
    have hnoted : s₀.reader.noted = [] := by rw [hreader]; rfl
    have hline : [e.sentLine].countP (fun l => decide (l.cls = c)) ≤ 1 := List.countP_le_length
    rw [hsent, List.countP_append, hcount, hnoted, List.countP_nil]
    omega

end Report

/-- After any interleaving of the threads and whatever the network loses, repeats or reorders, the
receiver reads every header back.  `analyze` stops only at an obstacle that is there, and whenever
there is none it has a row for every class that has sent something: `sent` counts its packets,
`delivered` those of which some copy arrived, no more than have a `fwd` line, and its fates account
for all of them but at most one. -/
theorem analyze_reports_what_arrived {cfg : ThreadConfig} (hrate : cfg.rateBps ≠ 0)
    {steps : List ThreadStep} (hclock : ClockRuns steps) {s : Threads}
    (hrun : Threads.start.run cfg steps = .ok s) (hexit : s.drainer = .exited)
    {messages : List (Option (List UInt8) × ℚ)}
    (hdtn : ∀ m ∈ messages, ∀ pl, m.1 = some pl → pl ∈ s.wire) (sched : Schedule) :
    ∃ recv, receiveLoop messages [] = .ok ⟨⟩ recv ∧
      (∀ err, analyze sched s.sent recv (some s.events) = .error err →
        Obstacle sched s.sent err) ∧
      ((∃ rows, analyze sched s.sent recv (some s.events) = .ok rows) ↔
        ∀ err, ¬ Obstacle sched s.sent err) ∧
      ∀ rows, analyze sched s.sent recv (some s.events) = .ok rows →
        rows.map BridgeRow.cls =
          rankClasses.filter (fun c => s.sent.any fun l => decide (l.cls = c)) ∧
        ∀ r ∈ rows, ∃ fates, r.gateway = some fates ∧
          r.sent = s.sent.countP (fun l => decide (l.cls = r.cls)) ∧
          r.delivered = s.intake.passed.countP
            (fun e => decide (e.cls = r.cls) && decide (Arrived messages e)) ∧
          r.delivered ≤ fates.getD .fwd 0 ∧
          r.sent ≤ (gatewayEvents.map fun ev => fates.getD ev 0).sum + 1 := by
  obtain ⟨s', last, admitted, htracked⟩ := hclock.tracked hrate
  obtain rfl : s' = s := Except.ok.inj (htracked.ran.symm.trans hrun)
  have h := htracked.account
  obtain ⟨es, hes, hwire, hkeys⟩ := h.wire
  have hcarried : Carried es messages := fun m hm pl hpl => hwire ▸ hdtn m hm pl hpl
  obtain ⟨_, recv, hrecv, new, got, hnew, hgot, hmem⟩ := receiveLoop_spec es messages [] hcarried
  obtain rfl : recv = new := hnew
  refine ⟨recv, hrecv, ?_⟩
  rcases analyze_cases sched s'.sent hgot s'.events with
    ⟨rows, hrows, hspec, hclear⟩ | ⟨err, herr, hobstacle⟩
  · rw [hrows]
    refine ⟨nofun, ⟨fun _ => hclear, fun _ => ⟨rows, rfl⟩⟩, ?_⟩
    rintro _ ⟨⟩
    refine ⟨hspec.classes, fun r hr => ?_⟩
    obtain ⟨hsent, hdelivered, hgateway⟩ := hspec.counts r hr
    obtain ⟨hlines, hpassed⟩ := h.countP_delivered hes hcarried hmem r.cls
    refine ⟨_, hgateway, hsent, ?_, ?_, ?_⟩
    · rw [hdelivered, hlines, hpassed]
    · rw [hdelivered, hlines, Dict.getD_tally, Forwarded.countP_fwd ⟨hwire, hkeys⟩]
      exact h.countP_arrived_le hes hcarried r.cls
    · rw [hsent, sum_tally_events]
      obtain ⟨_, _, s₀, -, -, hsettled⟩ :=
        htracked.allAccounted.snapshotted [] (by rw [hexit]; rfl)
      exact hsettled.countP_sent_le r.cls
  · rw [herr]
    refine ⟨?_, ⟨nofun, fun hclear => absurd hobstacle (hclear err)⟩, nofun⟩
    rintro _ ⟨⟩
    exact hobstacle

namespace Small

/-- The first packet is forwarded; the second one is queued at the end. -/
def relayed : List ThreadStep :=
  [.reader (.packet 1 (probePacket 1)), .reader .record, .reader .admitBundle, .reader .logLine,
    .drainer (.poll 2 2), .drainer .pop, .drainer .forward,
    .reader (.packet 3 (probePacket 2)), .reader .record, .reader .admitBundle, .reader .logLine,
    .drainer (.poll 10 10), .drainer .snapshot, .drainer (.report 11), .drainer .closeSent,
    .drainer .closeEvents, .drainer .exit]

/-- The first packet, once it is numbered. -/
def firstPacket : Encapsulated where
  seq := 0
  cls := .telemetry
  teid := 1
  qfi := some 5
  fiveqi := 70
  t := 1
  inner := [7]
  tCap := 0

/-- A gap of five seconds between two contacts. -/
def schedule : Schedule where
  windowsRel := [(0, 3), (8, 10)]
  contactsUnix := [(0, 3), (8, 10)]
  lifetimes := fun _ => 10

/-- The relay hands over the first payload twice. -/
def messages : List (Option (List UInt8) × ℚ) :=
  [(some firstPacket.payload, 3), (none, 4), (some firstPacket.payload, 5)]

theorem relayed_finishes : ∃ s, Threads.start.run threads relayed = .ok s ∧ s.drainer = .exited ∧
    s.wire = [firstPacket.payload] ∧ ∀ l ∈ s.sent, l.qfi ≠ none := by
  have hobserved : ((Threads.start.run threads relayed).toOption.map fun s =>
      (s.drainer, s.wire, s.sent.map SentLine.qfi)) =
        some (.exited, [firstPacket.payload], [some 5, some 5]) := by
    decide +kernel
  cases hrun : Threads.start.run threads relayed with
  | error e =>
      rw [hrun] at hobserved
      cases hobserved
  | ok s =>
      rw [hrun] at hobserved
      simp only [Except.toOption, Option.map_some, Option.some.injEq, Prod.mk.injEq] at hobserved
      obtain ⟨hexit, hwire, hqfis⟩ := hobserved
      refine ⟨s, rfl, hexit, hwire, fun l hl hnone => ?_⟩
      have hmem := List.mem_map_of_mem (f := SentLine.qfi) hl
      rw [hqfis, hnone] at hmem
      simp at hmem

/-- There are two windows, a gap and a span, and all packets have a QFI. -/
theorem no_obstacle {sent : List SentLine} (hqfis : ∀ l ∈ sent, l.qfi ≠ none) :
    ∀ err, ¬ Obstacle schedule sent err := by
  intro err hobstacle
  cases err with
  | valueError msg => exact absurd hobstacle.2 (by decide)
  | zeroDivisionError =>
      rcases hobstacle.2 with hgap | hspan
      · exact absurd hgap (by decide +kernel)
      · exact absurd hspan (by decide +kernel)
  | typeError =>
      obtain ⟨l, hl, -, -, -, hnone, -⟩ := hobstacle
      exact hqfis l hl hnone
  | _ => exact hobstacle

end Small

theorem analyze_reports_what_arrived_small :
    ∃ s recv rows, Threads.start.run Small.threads Small.relayed = .ok s ∧
      receiveLoop Small.messages [] = .ok ⟨⟩ recv ∧
      analyze Small.schedule s.sent recv (some s.events) = .ok rows ∧
      rows.map BridgeRow.cls =
        rankClasses.filter (fun c => s.sent.any fun l => decide (l.cls = c)) ∧
      ∀ r ∈ rows, ∃ fates, r.gateway = some fates ∧
        r.sent = s.sent.countP (fun l => decide (l.cls = r.cls)) ∧
        r.delivered = s.intake.passed.countP
          (fun e => decide (e.cls = r.cls) && decide (Arrived Small.messages e)) ∧
        r.delivered ≤ fates.getD .fwd 0 ∧
        r.sent ≤ (gatewayEvents.map fun ev => fates.getD ev 0).sum + 1 := by
  obtain ⟨s, hrun, hexit, hwire, hqfis⟩ := Small.relayed_finishes
  have hdtn : ∀ m ∈ Small.messages, ∀ pl, m.1 = some pl → pl ∈ s.wire := by
    intro m hm pl hpl
    simp only [Small.messages, List.mem_cons, List.not_mem_nil, or_false] at hm
    rcases hm with rfl | rfl | rfl
    · exact Option.some.inj hpl ▸ hwire ▸ List.mem_singleton_self _
    · cases hpl
    · exact Option.some.inj hpl ▸ hwire ▸ List.mem_singleton_self _
  have hrate : Small.threads.rateBps ≠ 0 := by norm_num [Small.threads]
  have hclock : ClockRuns Small.relayed := by decide +kernel
  obtain ⟨recv, hrecv, -, hclear, hreport⟩ :=
    analyze_reports_what_arrived hrate hclock hrun hexit hdtn Small.schedule
  obtain ⟨rows, hrows⟩ := hclear.2 (Small.no_obstacle hqfis)
  exact ⟨s, recv, rows, hrun, hrecv, hrows, hreport rows hrows⟩

end LinkController
end LunaBridge
