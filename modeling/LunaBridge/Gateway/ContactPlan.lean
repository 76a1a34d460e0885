import LunaBridge.Foundation.FloatText
import LunaBridge.Foundation.StableSort
import Mathlib.Algebra.Order.Ring.Rat
import Mathlib.Order.WithBot

/-!
# ContactPlan — windows during which the relay link is up

`ContactWindow` and `ContactPlan` carry what their constructors check: a window has positive
length and rate, and the windows of a plan are in order and do not overlap.  `activeAt` and
`nextAfter` are the two lookups the scheduler walks a plan with; their timestamps may be minus
infinity.
-/

namespace LunaBridge
namespace Gateway

open Foundation.Python Foundation.StableSort Foundation.Text

/-- One contact opportunity `[startTs, endTs)`. -/
structure ContactWindow where
  contactId : String
  startTs : ℚ
  endTs : ℚ
  linkRateBps : ℚ
  relayId : String := "relay-0"
  start_lt_end : startTs < endTs
  rate_pos : 0 < linkRateBps
  deriving DecidableEq

namespace ContactWindow

/-- The checks of `__post_init__`. -/
def make (contactId : String) (startTs endTs linkRateBps : ℚ) (relayId : String) :
    Except PyError ContactWindow :=
  if hend : endTs ≤ startTs then
    .error (.valueError ("ContactWindow '" ++ contactId ++ "': end_ts (" ++ floatText endTs ++
      ") must be > start_ts (" ++ floatText startTs ++
      "); zero-length and inverted windows are not valid contacts."))
  else if hrate : linkRateBps ≤ 0 then
    .error (.valueError ("ContactWindow '" ++ contactId ++ "': link_rate_bps (" ++
      floatText linkRateBps ++
      ") must be > 0; a zero-rate window carries no capacity and is not a contact."))
  else
    .ok { contactId := contactId
          startTs := startTs
          endTs := endTs
          linkRateBps := linkRateBps
          relayId := relayId
          start_lt_end := not_le.1 hend
          rate_pos := not_le.1 hrate }

/-- `covers`: `ts` lies in `[startTs, endTs)`. -/
def covers (w : ContactWindow) (ts : WithBot ℚ) : Bool :=
  decide ((w.startTs : WithBot ℚ) ≤ ts ∧ ts < (w.endTs : WithBot ℚ))

def durationS (w : ContactWindow) : ℚ := w.endTs - w.startTs

/-- `raw_bit_budget`: the nominal bits the window can carry. -/
def rawBitBudget (w : ContactWindow) : ℚ := w.durationS * w.linkRateBps

theorem rawBitBudget_pos (w : ContactWindow) : 0 < w.rawBitBudget :=
  mul_pos (sub_pos.2 w.start_lt_end) w.rate_pos

end ContactWindow

/-- An ordered sequence of windows, none starting before the previous one has ended. -/
structure ContactPlan where
  windows : List ContactWindow
  disjoint : windows.Pairwise (fun prev nxt => prev.endTs ≤ nxt.startTs)

namespace ContactPlan

/-- The first overlapping pair of neighbours, as the constructor looks for it. -/
def firstOverlap : List ContactWindow → Option (ContactWindow × ContactWindow)
  | prev :: nxt :: rest =>
      if nxt.startTs < prev.endTs then some (prev, nxt) else firstOverlap (nxt :: rest)
  | _ => none

/-- Checking neighbours is enough: without an overlapping pair of neighbours every window ends
before every later one starts. -/
theorem pairwise_of_firstOverlap_none :
    ∀ ws : List ContactWindow, firstOverlap ws = none →
      ws.Pairwise (fun prev nxt => prev.endTs ≤ nxt.startTs)
  | [], _ => List.Pairwise.nil
  | [w], _ => List.pairwise_singleton _ w
  | prev :: nxt :: rest, h => by
      by_cases hlt : nxt.startTs < prev.endTs
      · simp [firstOverlap, hlt] at h
      · have htail : firstOverlap (nxt :: rest) = none := by
          simpa [firstOverlap, hlt] using h
        have ih := pairwise_of_firstOverlap_none (nxt :: rest) htail
        refine List.pairwise_cons.2 ⟨?_, ih⟩
        intro w hw
        rcases List.mem_cons.1 hw with rfl | hw'
        · exact not_lt.1 hlt
        · calc
            prev.endTs ≤ nxt.startTs := not_lt.1 hlt
            _ ≤ nxt.endTs := le_of_lt nxt.start_lt_end
            _ ≤ w.startTs := (List.pairwise_cons.1 ih).1 w hw'

/-- The constructor: sort by start, then reject overlapping neighbours. -/
def make (windows : List ContactWindow) : Except PyError ContactPlan :=
  let sorted := sortBy ContactWindow.startTs windows
  match h : firstOverlap sorted with
  | some (prev, nxt) =>
      .error (.valueError ("ContactPlan: overlapping windows '" ++ prev.contactId ++ "' [" ++
        floatText prev.startTs ++ ", " ++ floatText prev.endTs ++ ") and '" ++ nxt.contactId ++
        "' [" ++ floatText nxt.startTs ++ ", " ++ floatText nxt.endTs ++ ")."))
  | none => .ok { windows := sorted, disjoint := pairwise_of_firstOverlap_none sorted h }

/-- `_starts`. -/
def starts (plan : ContactPlan) : List (WithBot ℚ) :=
  plan.windows.map (fun w => (w.startTs : WithBot ℚ))

/-- `active_at`: the window covering `ts`, if any. -/
def activeAt (plan : ContactPlan) (ts : WithBot ℚ) : Option ContactWindow :=
  match bisectRight plan.starts ts with
  -- no window has started yet
  | 0 => none
  -- the last one to have started is the only one that can cover `ts`
  | idx + 1 =>
      match plan.windows[idx]? with
      | some candidate => if candidate.covers ts then some candidate else none
      | none => none

/-- `next_after`: the window covering `ts`, else the earliest one starting after `ts`. -/
def nextAfter (plan : ContactPlan) (ts : WithBot ℚ) : Option ContactWindow :=
  match plan.activeAt ts with
  | some active => some active
  | none => plan.windows[bisectRight plan.starts ts]?

/-! ## Order of the windows -/

/-- Windows of a plan start in strictly increasing order. -/
theorem pairwise_startTs (plan : ContactPlan) :
    plan.windows.Pairwise (fun a b => a.startTs < b.startTs) :=
  plan.disjoint.imp fun {a _} h => lt_of_lt_of_le a.start_lt_end h

theorem pairwise_endTs (plan : ContactPlan) :
    plan.windows.Pairwise (fun a b => a.endTs < b.endTs) :=
  plan.disjoint.imp fun {_ b} h => lt_of_le_of_lt h b.start_lt_end

theorem windows_nodup (plan : ContactPlan) : plan.windows.Nodup :=
  plan.pairwise_startTs.imp fun {a b} h => by
    rintro rfl
    exact lt_irrefl _ h

/-- The end of the last window. -/
def lastEnd (plan : ContactPlan) : Option ℚ := plan.windows.getLast?.map ContactWindow.endTs

theorem lastEnd_eq_none {plan : ContactPlan} : plan.lastEnd = none ↔ plan.windows = [] := by
  simp [lastEnd]

/-- No window ends after the last one. -/
theorem le_lastEnd {plan : ContactPlan} {w : ContactWindow} (hw : w ∈ plan.windows) {lastEndTs : ℚ}
    (h : plan.lastEnd = some lastEndTs) : w.endTs ≤ lastEndTs := by
  rcases List.eq_nil_or_concat plan.windows with hnil | ⟨front, last, heq⟩
  · rw [hnil] at hw
    cases hw
  · have hord := plan.pairwise_endTs
    rw [lastEnd, heq, List.concat_eq_append, List.getLast?_append] at h
    rw [heq, List.concat_eq_append] at hw hord
    cases h
    rcases List.mem_append.1 hw with hw | hw
    · exact le_of_lt ((List.pairwise_append.1 hord).2.2 w hw last (by simp))
    · rw [List.mem_singleton.1 hw]
      exact le_rfl

/-- A plan with a window has an end, and the window ends by then. -/
theorem exists_lastEnd {plan : ContactPlan} {w : ContactWindow} (hw : w ∈ plan.windows) :
    ∃ lastEndTs, plan.lastEnd = some lastEndTs ∧ w.endTs ≤ lastEndTs := by
  obtain ⟨lastEndTs, hlast⟩ := Option.ne_none_iff_exists'.1 fun hnone =>
    List.ne_nil_of_mem hw (lastEnd_eq_none.1 hnone)
  exact ⟨lastEndTs, hlast, le_lastEnd hw hlast⟩

/-- What has come to pass when one of its windows opens has come to pass by the end of the plan. -/
theorem exists_lastEnd_of_le {plan : ContactPlan} {w : ContactWindow} {t : ℚ}
    (hw : w ∈ plan.windows) (ht : t ≤ w.startTs) :
    ∃ lastEndTs, plan.lastEnd = some lastEndTs ∧ t ≤ lastEndTs := by
  obtain ⟨lastEndTs, hlast, hend⟩ := exists_lastEnd hw
  refine ⟨lastEndTs, hlast, ?_⟩
  calc t
      _ ≤ w.startTs := ht
      _ ≤ w.endTs := w.start_lt_end.le
      _ ≤ lastEndTs := hend

/-! ## Walking the plan -/

/-- The search splits the plan into the windows that have started by `t` and those that have not. -/
theorem bisectRight_starts {plan : ContactPlan} {t : WithBot ℚ} {front back : List ContactWindow}
    (heq : plan.windows = front ++ back) (hfront : ∀ v ∈ front, (v.startTs : WithBot ℚ) ≤ t)
    (hback : ∀ v ∈ back, t < (v.startTs : WithBot ℚ)) :
    bisectRight plan.starts t = front.length := by
  have hstarts : plan.starts = front.map (fun v => (v.startTs : WithBot ℚ)) ++
      back.map (fun v => (v.startTs : WithBot ℚ)) := by
    simp [starts, heq]
  rw [hstarts, bisectRight_append]
  · simp
  · intro a ha
    rcases List.mem_map.1 ha with ⟨v, hv, rfl⟩
    exact hfront v hv
  · intro b hb
    rcases List.mem_map.1 hb with ⟨v, hv, rfl⟩
    exact hback v hv

/-- Before everything the walk starts at the first window. -/
theorem nextAfter_bot (plan : ContactPlan) : plan.nextAfter ⊥ = plan.windows.head? := by
  have hb : bisectRight plan.starts ⊥ = 0 :=
    bisectRight_starts (List.nil_append _).symm (by simp) fun w _ => WithBot.bot_lt_coe _
  simp [nextAfter, activeAt, hb, List.head?_eq_getElem?]

/-- Once a window has started, the last one to have done so decides: if it still covers `t` it is
next, else its successor is. -/
theorem nextAfter_of_started {plan : ContactPlan} {t : ℚ} {front back : List ContactWindow}
    {w : ContactWindow} (heq : plan.windows = front ++ w :: back)
    (hfront : ∀ v ∈ front, v.startTs ≤ t) (hw : w.startTs ≤ t)
    (hback : ∀ v ∈ back, t < v.startTs) :
    plan.nextAfter t = if w.covers t then some w else back.head? := by
  have hidx : bisectRight plan.starts (t : WithBot ℚ) = front.length + 1 := by
    have hsplit : plan.windows = (front ++ [w]) ++ back := by simp [heq]
    rw [bisectRight_starts hsplit (fun v hv => ?_) fun v hv => WithBot.coe_lt_coe.2 (hback v hv),
      List.length_append, List.length_singleton]
    rcases List.mem_append.1 hv with hv | hv
    · exact WithBot.coe_le_coe.2 (hfront v hv)
    · rw [List.mem_singleton.1 hv]
      exact WithBot.coe_le_coe.2 hw
  have hcand : plan.windows[front.length]? = some w := by simp [heq]
  have hnext : plan.windows[front.length + 1]? = back.head? := by
    rw [heq, List.getElem?_append_right (Nat.le_succ _)]
    simp [List.head?_eq_getElem?]
  by_cases hcov : w.covers (t : WithBot ℚ) = true <;>
    simp [nextAfter, activeAt, hidx, hcand, hnext, hcov]

/-- Past its end a window no longer covers, and the walk goes on to its successor, also when the
two are back to back. -/
theorem nextAfter_endTs (plan : ContactPlan) {pre post : List ContactWindow} {w : ContactWindow}
    (hsplit : plan.windows = pre ++ w :: post) : plan.nextAfter w.endTs = post.head? := by
  have hdisj := plan.disjoint
  rw [hsplit] at hdisj
  have hpre : ∀ v ∈ pre, v.startTs ≤ w.endTs := by
    intro v hv
    calc v.startTs
        _ ≤ v.endTs := v.start_lt_end.le
        _ ≤ w.startTs := (List.pairwise_append.1 hdisj).2.2 v hv w (by simp)
        _ ≤ w.endTs := w.start_lt_end.le
  have hpost := List.pairwise_cons.1 (List.pairwise_append.1 hdisj).2.1
  by_cases hgap : ∀ v ∈ post, w.endTs < v.startTs
  · -- a gap, or no successor: `w` is the last window that has started, and it is over
    have hover : w.covers (w.endTs : WithBot ℚ) = false := by
      simp [ContactWindow.covers]
    rw [nextAfter_of_started hsplit hpre w.start_lt_end.le hgap, hover]
    rfl
  · -- back to back: the successor starts at the very instant `w` ends
    cases post with
    | nil => exact absurd (by simp) hgap
    | cons v rest =>
        have hvrest := (List.pairwise_cons.1 hpost.2).1
        have hafter : ∀ u ∈ rest, w.endTs < u.startTs := by
          intro u hu
          calc w.endTs
              _ ≤ v.startTs := hpost.1 v (by simp)
              _ < v.endTs := v.start_lt_end
              _ ≤ u.startTs := hvrest u hu
        have hveq : v.startTs = w.endTs := by
          refine le_antisymm ?_ (hpost.1 v (by simp))
          by_contra hlt
          apply hgap
          intro u hu
          rcases List.mem_cons.1 hu with rfl | hu'
          · exact not_le.1 hlt
          · exact hafter u hu'
        have hopen : v.covers (w.endTs : WithBot ℚ) = true := by
          have := v.start_lt_end
          rw [hveq] at this
          simp [ContactWindow.covers, hveq, this]
        have hsplit' : plan.windows = (pre ++ [w]) ++ v :: rest := by simp [hsplit]
        rw [nextAfter_of_started hsplit' (fun u hu => ?_) hveq.le hafter, hopen]
        · rfl
        · rcases List.mem_append.1 hu with hu | hu
          · exact hpre u hu
          · rw [List.mem_singleton.1 hu]
            exact w.start_lt_end.le

/-! ## What the constructor accepts -/

end ContactPlan

namespace ContactWindow

/-- The half-open intervals of two windows have an instant in common. -/
def Meets (v w : ContactWindow) : Prop :=
  ∃ ts : ℚ, v.covers ts = true ∧ w.covers ts = true

theorem covers_coe {w : ContactWindow} {ts : ℚ} :
    w.covers (ts : WithBot ℚ) = true ↔ w.startTs ≤ ts ∧ ts < w.endTs := by
  simp [covers]

theorem Meets.symm {v w : ContactWindow} (h : v.Meets w) : w.Meets v := by
  obtain ⟨ts, hv, hw⟩ := h
  exact ⟨ts, hw, hv⟩

/-- Of two windows that meet, each starts before the other ends: the later start is an instant
both cover. -/
theorem meets_iff {v w : ContactWindow} :
    v.Meets w ↔ v.startTs < w.endTs ∧ w.startTs < v.endTs := by
  constructor
  · rintro ⟨ts, hv, hw⟩
    rw [covers_coe] at hv hw
    exact ⟨lt_of_le_of_lt hv.1 hw.2, lt_of_le_of_lt hw.1 hv.2⟩
  · rintro ⟨hvw, hwv⟩
    refine ⟨max v.startTs w.startTs, covers_coe.2 ⟨le_max_left _ _, ?_⟩,
      covers_coe.2 ⟨le_max_right _ _, ?_⟩⟩
    · exact max_lt v.start_lt_end hwv
    · exact max_lt hvw w.start_lt_end

/-- Of two windows that do not meet, one ends before the other starts. -/
theorem not_meets_iff {v w : ContactWindow} :
    ¬ v.Meets w ↔ w.endTs ≤ v.startTs ∨ v.endTs ≤ w.startTs := by
  rw [meets_iff, not_and_or, not_lt, not_lt]

end ContactWindow

namespace ContactPlan

/-- Sorted windows none of which meet are in order, each ending before every later one starts. -/
theorem pairwise_disjoint_of_sorted {ws : List ContactWindow}
    (hsort : ws.Pairwise (fun a b => a.startTs ≤ b.startTs))
    (hmeet : ws.Pairwise (fun a b => ¬ a.Meets b)) :
    ws.Pairwise (fun prev nxt => prev.endTs ≤ nxt.startTs) := by
  refine (hsort.and hmeet).imp fun {a b} h => ?_
  rcases ContactWindow.not_meets_iff.1 h.2 with hba | hab
  · -- `b` would have to end before `a`, which starts no later, has begun
    exact absurd (lt_of_lt_of_le b.start_lt_end hba) (not_lt.2 h.1)
  · exact hab

theorem firstOverlap_none_of_pairwise :
    ∀ ws : List ContactWindow, ws.Pairwise (fun prev nxt => prev.endTs ≤ nxt.startTs) →
      firstOverlap ws = none
  | [], _ => rfl
  | [_], _ => rfl
  | prev :: nxt :: rest, h => by
      have hhead := List.pairwise_cons.1 h
      have hle : ¬ nxt.startTs < prev.endTs := not_lt.2 (hhead.1 nxt (by simp))
      simpa [firstOverlap, hle] using firstOverlap_none_of_pairwise (nxt :: rest) hhead.2

/-- The check of neighbours after the sort passes iff no two of the windows given meet. -/
theorem firstOverlap_sortBy_eq_none_iff {ws : List ContactWindow} :
    firstOverlap (sortBy ContactWindow.startTs ws) = none ↔
      ws.Pairwise (fun a b => ¬ a.Meets b) := by
  have hperm := sortBy_perm ContactWindow.startTs ws
  have hsymm : ∀ {a b : ContactWindow}, ¬ a.Meets b → ¬ b.Meets a := fun h hba => h hba.symm
  rw [← hperm.pairwise_iff hsymm]
  constructor
  · intro h
    refine (pairwise_of_firstOverlap_none _ h).imp fun {a b} hab => ?_
    exact ContactWindow.not_meets_iff.2 (.inr hab)
  · intro h
    exact firstOverlap_none_of_pairwise _
      (pairwise_disjoint_of_sorted (sortBy_pairwise ContactWindow.startTs ws) h)

theorem make_eq_ok_of_firstOverlap {ws : List ContactWindow}
    (h : firstOverlap (sortBy ContactWindow.startTs ws) = none) :
    make ws = .ok ⟨sortBy ContactWindow.startTs ws, pairwise_of_firstOverlap_none _ h⟩ := by
  unfold make
  dsimp only
  split
  · next heq => rw [h] at heq; cases heq
  · rfl

theorem make_eq_error_of_firstOverlap {ws : List ContactWindow} {prev nxt : ContactWindow}
    (h : firstOverlap (sortBy ContactWindow.startTs ws) = some (prev, nxt)) :
    ∃ msg, make ws = .error (.valueError msg) := by
  unfold make
  dsimp only
  split
  · exact ⟨_, rfl⟩
  · next heq => rw [h] at heq; cases heq

/-- A plan has what it was built from, sorted. -/
theorem windows_of_make {ws : List ContactWindow} {plan : ContactPlan} (h : make ws = .ok plan) :
    firstOverlap (sortBy ContactWindow.startTs ws) = none ∧
      plan.windows = sortBy ContactWindow.startTs ws := by
  cases hfirst : firstOverlap (sortBy ContactWindow.startTs ws) with
  | some pair =>
      obtain ⟨prev, nxt⟩ := pair
      obtain ⟨msg, herr⟩ := make_eq_error_of_firstOverlap hfirst
      rw [herr] at h
      cases h
  | none =>
      rw [make_eq_ok_of_firstOverlap hfirst] at h
      cases h
      exact ⟨rfl, rfl⟩

/-- The listing order of the windows does not matter to a plan. -/
theorem make_of_perm {ws ws' : List ContactWindow} {plan : ContactPlan} (h : make ws = .ok plan)
    (hperm : ws'.Perm ws) : make ws' = .ok plan := by
  obtain ⟨hfirst, hwindows⟩ := windows_of_make h
  have hmem : ∀ {a : ContactWindow}, a ∈ ws' → a ∈ plan.windows := by
    intro a ha
    rw [hwindows]
    exact (mem_sortBy _).2 (hperm.mem_iff.1 ha)
  -- no two windows of a plan start together, so sorting leaves no choice
  have hstarts : (plan.windows.map ContactWindow.startTs).Nodup :=
    List.pairwise_map.2 (plan.pairwise_startTs.imp fun {_ _} hlt => hlt.ne)
  have hsame : sortBy ContactWindow.startTs ws' = sortBy ContactWindow.startTs ws :=
    sortBy_eq_of_perm hperm fun a ha b hb hab =>
      List.inj_on_of_nodup_map hstarts (hmem ha) (hmem hb) hab
  rw [make_eq_ok_of_firstOverlap (hsame ▸ hfirst)]
  exact congrArg Except.ok (by cases plan; simp_all)

/-- The constructor rejects exactly the sequences in which two windows meet, with a `ValueError`;
what it accepts it puts in order, the same order whatever the sequence was. -/
theorem make_accepts_exactly_disjoint (ws : List ContactWindow) :
    ((∃ msg, make ws = .error (.valueError msg)) ↔
      ∃ i j : Fin ws.length, i ≠ j ∧ (ws.get i).Meets (ws.get j)) ∧
    ∀ plan, make ws = .ok plan →
      plan.windows.Perm ws ∧
      plan.windows.Pairwise (fun a b => a.startTs < b.startTs) ∧
      plan.windows.Pairwise (fun a b => a.endTs ≤ b.startTs) ∧
      ∀ ws' : List ContactWindow, ws'.Perm ws → make ws' = .ok plan := by
  refine ⟨?_, fun plan h => ?_⟩
  · have hiff : firstOverlap (sortBy ContactWindow.startTs ws) = none ↔
        ws.Pairwise (fun a b => ¬ a.Meets b) := firstOverlap_sortBy_eq_none_iff
    cases hfirst : firstOverlap (sortBy ContactWindow.startTs ws) with
    | none =>
        have hnone := List.pairwise_iff_get.1 (hiff.1 hfirst)
        rw [make_eq_ok_of_firstOverlap hfirst]
        constructor
        · rintro ⟨msg, hmsg⟩
          cases hmsg
        · rintro ⟨i, j, hne, hmeet⟩
          rcases lt_or_gt_of_ne hne with hlt | hlt
          · exact absurd hmeet (hnone i j hlt)
          · exact absurd hmeet.symm (hnone j i hlt)
    | some pair =>
        obtain ⟨prev, nxt⟩ := pair
        refine iff_of_true (make_eq_error_of_firstOverlap hfirst) ?_
        have hsome : ¬ ws.Pairwise (fun a b => ¬ a.Meets b) := by
          intro hpair
          rw [hiff.2 hpair] at hfirst
          cases hfirst
        rw [List.pairwise_iff_get] at hsome
        push Not at hsome
        obtain ⟨i, j, hlt, hmeet⟩ := hsome
        exact ⟨i, j, hlt.ne, hmeet⟩
  · rw [(windows_of_make h).2]
    refine ⟨sortBy_perm _ _, ?_, ?_, fun ws' hperm => make_of_perm h hperm⟩
    · rw [← (windows_of_make h).2]
      exact plan.pairwise_startTs
    · rw [← (windows_of_make h).2]
      exact plan.disjoint

end ContactPlan

end Gateway
end LunaBridge
