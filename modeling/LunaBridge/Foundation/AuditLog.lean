import Mathlib.Data.List.Basic
import Mathlib.Logic.Function.Basic
import Mathlib.Logic.Relation
import Mathlib.Tactic.Common

/-!
# AuditLog — an append-only log of what becomes of keyed items

Every item has a record, and the entries of a log name items by their keys.  A record is open until
a write closes it, which also appends a closing entry.  Whatever is done by such writes, the entries
about an item are notes, followed by one closing entry exactly when its record is closed, and that
entry explains the record (`Trail`).
-/

namespace Foundation
namespace AuditLog

variable {ι ρ ε κ : Type}

/-- How records and entries are read. -/
structure Schema (ι ρ ε κ : Type) where
  key : ι → κ
  about : ε → κ
  Open : ρ → Prop
  Closing : ε → Prop
  Explains : ι → ρ → ε → Prop

/-- The records of all items, and the log. -/
structure Ledger (ι ρ ε : Type) where
  records : ι → ρ
  entries : List ε

/-! ## The trail of an item -/

section Trails

variable [DecidableEq κ] {S : Schema ι ρ ε κ} {L L' : Ledger ι ρ ε}

/-- The entries about an item. -/
def Schema.entriesOf (S : Schema ι ρ ε κ) (i : ι) (entries : List ε) : List ε :=
  entries.filter fun e => decide (S.about e = S.key i)

/-- Notes while the record of `i` is open; notes and one closing entry, the last and a true one,
once it is closed. -/
inductive Trail (S : Schema ι ρ ε κ) (L : Ledger ι ρ ε) (i : ι) : Prop
  | unsettled (hopen : S.Open (L.records i)) (hnotes : ∀ e ∈ S.entriesOf i L.entries, ¬ S.Closing e)
  | settled {notes : List ε} {e : ε} (hclosed : ¬ S.Open (L.records i))
      (hentries : S.entriesOf i L.entries = notes ++ [e]) (hnotes : ∀ d ∈ notes, ¬ S.Closing d)
      (hclosing : S.Closing e) (hexplains : S.Explains i (L.records i) e)

theorem entriesOf_append_self {i : ι} {e : ε} (h : S.about e = S.key i) (entries : List ε) :
    S.entriesOf i (entries ++ [e]) = S.entriesOf i entries ++ [e] := by
  simp [Schema.entriesOf, h]

theorem entriesOf_append_of_ne {i : ι} {e : ε} (h : S.about e ≠ S.key i) (entries : List ε) :
    S.entriesOf i (entries ++ [e]) = S.entriesOf i entries := by
  simp [Schema.entriesOf, h]

/-- An item with an open record has only been noted. -/
theorem Trail.notes_of_open {i : ι} (h : Trail S L i) (hopen : S.Open (L.records i)) :
    ∀ e ∈ S.entriesOf i L.entries, ¬ S.Closing e := by
  cases h with
  | unsettled _ hnotes => exact hnotes
  | settled hclosed => exact absurd hopen hclosed

/-- What is written about another item does not touch the trail of `i`. -/
theorem Trail.frame {i : ι} (h : Trail S L i) (hrecord : L'.records i = L.records i)
    (hentries : S.entriesOf i L'.entries = S.entriesOf i L.entries) : Trail S L' i := by
  cases h with
  | unsettled hopen hnotes => exact .unsettled (hrecord ▸ hopen) (hentries ▸ hnotes)
  | settled hclosed hsplit hnotes hclosing hexplains =>
      exact .settled (hrecord ▸ hclosed) (hentries.trans hsplit) hnotes hclosing
        (hrecord ▸ hexplains)

/-- Before an entry about `i` there are only notes about `i`. -/
theorem Trail.notes_before {i : ι} (h : Trail S L i) {front back : List ε} {e : ε}
    (hlog : L.entries = front ++ e :: back) (habout : S.about e = S.key i) :
    ∀ d ∈ front, S.about d = S.key i → ¬ S.Closing d := by
  intro d hd habout'
  have hd' : d ∈ S.entriesOf i front := by simp [Schema.entriesOf, hd, habout']
  have hsplit : S.entriesOf i L.entries =
      S.entriesOf i front ++ e :: S.entriesOf i back := by
    simp [Schema.entriesOf, hlog, habout]
  cases h with
  | unsettled _ hnotes => exact hnotes d (hsplit ▸ List.mem_append_left _ hd')
  | @settled notes c _ hentries hnotes hclosing _ =>
      -- the closing entry comes last, so the entries up to `e` are among the notes
      have hcut := congrArg List.dropLast (hentries.symm.trans hsplit)
      rw [List.dropLast_concat, List.dropLast_append_of_ne_nil (List.cons_ne_nil _ _)] at hcut
      exact hnotes d (hcut ▸ List.mem_append_left _ hd')

end Trails

/-! ## Writes -/

section Writes

variable [DecidableEq ι]

/-- One write.  It touches records of `items` only, and notes something about members of `notable`
only. -/
inductive Write (S : Schema ι ρ ε κ) (items notable : List ι) : Ledger ι ρ ε → Ledger ι ρ ε → Prop
  | amend {L : Ledger ι ρ ε} {i : ι} {r : ρ} (hi : i ∈ items) (hopen : S.Open (L.records i))
      (hr : S.Open r) : Write S items notable L ⟨Function.update L.records i r, L.entries⟩
  | note {L : Ledger ι ρ ε} {i : ι} {e : ε} (hi : i ∈ notable) (hopen : S.Open (L.records i))
      (habout : S.about e = S.key i) (hnote : ¬ S.Closing e) :
      Write S items notable L ⟨L.records, L.entries ++ [e]⟩
  | close {L : Ledger ι ρ ε} {i : ι} {r : ρ} {e : ε} (hi : i ∈ items)
      (hopen : S.Open (L.records i)) (hclosed : ¬ S.Open r) (habout : S.about e = S.key i)
      (hclosing : S.Closing e) (hexplains : S.Explains i r e) :
      Write S items notable L ⟨Function.update L.records i r, L.entries ++ [e]⟩

/-- Some writes, one after the other. -/
def Writes (S : Schema ι ρ ε κ) (items notable : List ι) : Ledger ι ρ ε → Ledger ι ρ ε → Prop :=
  Relation.ReflTransGen (Write S items notable)

variable {S : Schema ι ρ ε κ} {items notable : List ι} {L L' : Ledger ι ρ ε}

/-- Entries are only appended, and the notes among the new ones are about notable items. -/
theorem Writes.grow (h : Writes S items notable L L') : ∃ new, L'.entries = L.entries ++ new ∧
    ∀ e ∈ new, ¬ S.Closing e → ∃ i ∈ notable, S.key i = S.about e := by
  induction h with
  | refl => exact ⟨[], by simp⟩
  | tail _ hwrite ih =>
      obtain ⟨new, hnew, hnotes⟩ := ih
      cases hwrite with
      | amend hi hopen hr => exact ⟨new, hnew, hnotes⟩
      | @note i e hi hopen habout hnote =>
          refine ⟨new ++ [e], by simp [hnew], fun d hd hd' => ?_⟩
          rcases List.mem_append.1 hd with hd | hd
          · exact hnotes d hd hd'
          · exact ⟨i, hi, by rw [List.mem_singleton.1 hd, habout]⟩
      | @close i r e hi hopen hclosed habout hclosing hexplains =>
          refine ⟨new ++ [e], by simp [hnew], fun d hd hd' => ?_⟩
          rcases List.mem_append.1 hd with hd | hd
          · exact hnotes d hd hd'
          · exact absurd hclosing (List.mem_singleton.1 hd ▸ hd')

/-- A closed record is never written again. -/
theorem Writes.closed_record (h : Writes S items notable L L') {i : ι}
    (hclosed : ¬ S.Open (L.records i)) : L'.records i = L.records i := by
  induction h with
  | refl => rfl
  | @tail L₁ L₂ _ hwrite ih =>
      -- the writes so far have left the record closed, and a write needs an open one
      have hother : ∀ {j : ι}, S.Open (L₁.records j) → i ≠ j := by
        rintro j hopen rfl
        exact hclosed (ih ▸ hopen)
      cases hwrite with
      | amend hi hopen hr => exact (Function.update_of_ne (hother hopen) _ _).trans ih
      | note hi hopen habout hnote => exact ih
      | close hi hopen hclosed habout hclosing hexplains =>
          exact (Function.update_of_ne (hother hopen) _ _).trans ih

/-- A note that has been appended is about a notable item. -/
theorem Writes.notable_of_note (h : Writes S items notable L L') {front : List ε} {e : ε}
    (hbefore : L.entries <+: front) (hafter : front ++ [e] <+: L'.entries) (hnote : ¬ S.Closing e) :
    ∃ i ∈ notable, S.key i = S.about e := by
  obtain ⟨new, hnew, hnotes⟩ := h.grow
  obtain ⟨rest, rfl⟩ := hbefore
  rw [hnew, List.append_assoc, List.prefix_append_right_inj] at hafter
  exact hnotes e (hafter.subset (by simp)) hnote

variable [DecidableEq κ]

/-- A write keeps the trail of every item, as long as keys tell the items apart. -/
theorem Trail.write (hkeys : ∀ i ∈ items, ∀ j ∈ items, S.key i = S.key j → i = j)
    (hnotable : ∀ j ∈ notable, j ∈ items) {i : ι} (hi : i ∈ items)
    (h : Trail S L i) (hwrite : Write S items notable L L') : Trail S L' i := by
  cases hwrite with
  | @amend j r hj hopen hr =>
      by_cases hij : i = j
      · subst hij
        exact .unsettled (by simpa using hr) (h.notes_of_open hopen)
      · exact h.frame (Function.update_of_ne hij _ _) rfl
  | @note j e hj hopen habout hnote =>
      by_cases hij : i = j
      · subst hij
        refine .unsettled hopen fun d hd => ?_
        rw [entriesOf_append_self habout] at hd
        rcases List.mem_append.1 hd with hd | hd
        · exact h.notes_of_open hopen d hd
        · exact List.mem_singleton.1 hd ▸ hnote
      · refine h.frame rfl (entriesOf_append_of_ne (fun hEq => hij ?_) _)
        exact hkeys i hi j (hnotable j hj) (hEq.symm.trans habout)
  | @close j r e hj hopen hclosed habout hclosing hexplains =>
      by_cases hij : i = j
      · subst hij
        exact .settled (by simpa using hclosed) (entriesOf_append_self habout _)
          (h.notes_of_open hopen) hclosing (by simpa using hexplains)
      · refine h.frame (Function.update_of_ne hij _ _)
          (entriesOf_append_of_ne (fun hEq => hij ?_) _)
        exact hkeys i hi j hj (hEq.symm.trans habout)

theorem Trail.writes (hkeys : ∀ i ∈ items, ∀ j ∈ items, S.key i = S.key j → i = j)
    (hnotable : ∀ j ∈ notable, j ∈ items) {i : ι} (hi : i ∈ items)
    (h : Trail S L i) (hwrites : Writes S items notable L L') : Trail S L' i := by
  induction hwrites with
  | refl => exact h
  | tail _ hwrite ih => exact ih.write hkeys hnotable hi hwrite

end Writes

end AuditLog
end Foundation
