import LunaBridge.Foundation.Json
import LunaBridge.Foundation.Machine

/-!
# JsonNesting — brackets and quotes in a text that is read as an object

`nest` reads a text one character at a time and keeps the number of open brackets, and whether it is
within a string.  A text that opens with a brace and is loaded takes it from `before` to `done`
(`nest_of_loads`), so a text that leaves a bracket or a quote open is not loaded, whatever is
written into it.
-/

namespace Foundation
namespace Json

open Python Text
open Machine (except_bind_eq_ok)

/-- Outside or inside a string, with the number of brackets that are open around the innermost
one. -/
inductive Nesting
  | before
  | out (depth : ℕ)
  | str (depth : ℕ)
  | escaped (depth : ℕ)
  | done
  | dead
  deriving DecidableEq, Repr

/-- Characters of names and numbers, and those between values. -/
def isValueChar (c : Char) : Bool :=
  c.isDigit || decide (c ∈ [' ', '\t', '\n', '\r', ',', ':', '+', '-', '.', 'E', 'e', 't', 'r', 'u',
    'f', 'a', 'l', 's', 'n'])

namespace Nesting

/-- The bracket that closes. -/
def close : ℕ → Nesting
  | 0 => done
  | depth + 1 => out depth

def step : Nesting → Char → Nesting
  | before, c => if c = '{' then out 0 else dead
  | out depth, c =>
      if c = '"' then str depth
      else if c = '{' ∨ c = '[' then out (depth + 1)
      else if c = '}' ∨ c = ']' then close depth
      else if isValueChar c then out depth
      else dead
  | str depth, c => if c = '"' then out depth else if c = '\\' then escaped depth else str depth
  | escaped depth, _ => str depth
  | done, c => if isJsonSpace c then done else dead
  | dead, _ => dead

/-- Still within the brackets. -/
inductive Open (depth : ℕ) : Nesting → Prop
  | out {d : ℕ} (h : depth ≤ d) : Open depth (out d)
  | str {d : ℕ} (h : depth ≤ d) : Open depth (str d)
  | escaped {d : ℕ} (h : depth ≤ d) : Open depth (escaped d)

/-- With more brackets around. -/
def deepen (k : ℕ) : Nesting → Nesting
  | out depth => out (depth + k)
  | str depth => str (depth + k)
  | escaped depth => escaped (depth + k)
  | σ => σ

end Nesting

/-- The nesting behind a text. -/
def nest (σ : Nesting) (s : Text) : Nesting := s.foldl Nesting.step σ

theorem nest_append (σ : Nesting) (s t : Text) : nest σ (s ++ t) = nest (nest σ s) t :=
  List.foldl_append

theorem nest_cons (σ : Nesting) (c : Char) (s : Text) : nest σ (c :: s) = nest (σ.step c) s := rfl

theorem nest_dead (s : Text) : nest .dead s = .dead := by
  induction s with
  | nil => rfl
  | cons c s ih => exact ih

/-- Behind the last bracket there is nothing but blanks. -/
theorem nest_done (s : Text) : nest .done s = .done ∨ nest .done s = .dead := by
  induction s with
  | nil => exact Or.inl rfl
  | cons c s ih =>
      rw [nest_cons, Nesting.step]
      split_ifs
      · exact ih
      · exact Or.inr (nest_dead s)

/-! ## Balanced texts -/

/-- A text that closes what it opens, at any depth. -/
def Balanced (s : Text) : Prop := ∀ depth, nest (.out depth) s = .out depth

theorem Balanced.append {s t : Text} (hs : Balanced s) (ht : Balanced t) : Balanced (s ++ t) :=
  fun depth => by rw [nest_append, hs, ht]

theorem balanced_of_isValueChar {s : Text} (hs : ∀ c ∈ s, isValueChar c = true) : Balanced s := by
  intro depth
  induction s with
  | nil => rfl
  | cons c s ih =>
      obtain ⟨hc, hrest⟩ := List.forall_mem_cons.1 hs
      have hne : ∀ a ∈ ['"', '{', '[', '}', ']'], c ≠ a := by
        rintro a ha rfl
        simp only [List.mem_cons, List.not_mem_nil, or_false] at ha
        rcases ha with rfl | rfl | rfl | rfl | rfl <;> cases hc
      simp only [List.forall_mem_cons] at hne
      obtain ⟨hquote, hbrace, hbracket, hbrace', hbracket', -⟩ := hne
      rw [nest_cons, Nesting.step, if_neg hquote, if_neg (not_or.2 ⟨hbrace, hbracket⟩),
        if_neg (not_or.2 ⟨hbrace', hbracket'⟩), if_pos hc]
      exact ih hrest

/-- What a scanner has taken off the front of `s`, leaving `r`. -/
def Took (P : Text → Prop) (s r : Text) : Prop := ∃ u, s = u ++ r ∧ P u

theorem Took.trans {P Q R : Text → Prop} {s t r : Text} (h : Took P s t) (h' : Took Q t r)
    (hcat : ∀ {u v}, P u → Q v → R (u ++ v)) : Took R s r := by
  obtain ⟨u, rfl, hu⟩ := h
  obtain ⟨v, rfl, hv⟩ := h'
  exact ⟨u ++ v, (List.append_assoc u v r).symm, hcat hu hv⟩

/-- One value, or a part of a text that opens and closes nothing. -/
abbrev TookValue : Text → Text → Prop := Took Balanced

theorem TookValue.trans {s t r : Text} (h : TookValue s t) (h' : TookValue t r) : TookValue s r :=
  Took.trans h h' Balanced.append

theorem tookValue_of_forall {u s r : Text} (hs : s = u ++ r) (hu : ∀ c ∈ u, isValueChar c = true) :
    TookValue s r :=
  ⟨u, hs, balanced_of_isValueChar hu⟩

theorem isValueChar_of_isDigit {c : Char} (hc : c.isDigit = true) : isValueChar c = true := by
  rw [isValueChar, hc, Bool.true_or]

theorem tookValue_skipSpace (s : Text) : TookValue s (skipSpace s) := by
  refine tookValue_of_forall List.takeWhile_append_dropWhile.symm fun c hc => ?_
  have hspace := List.mem_takeWhile_imp hc
  rcases of_decide_eq_true hspace with rfl | rfl | rfl | rfl <;> rfl

theorem tookValue_span (s : Text) : TookValue s (s.span Char.isDigit).2 := by
  rw [List.span_eq_takeWhile_dropWhile]
  exact tookValue_of_forall List.takeWhile_append_dropWhile.symm
    fun c hc => isValueChar_of_isDigit (List.mem_takeWhile_imp hc)

theorem tookValue_cons {c : Char} (hc : isValueChar c = true) (s : Text) : TookValue (c :: s) s :=
  tookValue_of_forall (u := [c]) rfl (by simpa using hc)

theorem tookValue_refl (s : Text) : TookValue s s := tookValue_of_forall (u := []) rfl nofun

/-! ## Numbers -/

theorem tookValue_lexWhole {s w r : Text} (h : lexWhole s = some (w, r)) : TookValue s r := by
  cases s with
  | nil => cases h
  | cons c s =>
      rw [lexWhole] at h
      split_ifs at h with hzero hdigit
      · obtain ⟨-, rfl⟩ := Prod.mk.inj (Option.some.inj h)
        exact tookValue_cons (by rw [hzero]; rfl) s
      · have hspan := Option.some.inj h
        have htook := tookValue_span (c :: s)
        rwa [hspan] at htook

theorem tookValue_lexFraction (s : Text) : TookValue s (lexFraction s).2 := by
  unfold lexFraction
  split
  · split_ifs
    · exact tookValue_refl _
    · exact (tookValue_cons rfl _).trans (tookValue_span _)
  · exact tookValue_refl _

theorem tookValue_lexSign (s : Text) : TookValue s (lexSign s).2 := by
  unfold lexSign
  split
  · exact tookValue_cons rfl _
  · exact tookValue_cons rfl _
  · exact tookValue_refl _

theorem tookValue_lexPower (s : Text) : TookValue s (lexPower s).2 := by
  cases s with
  | nil => exact tookValue_refl _
  | cons c s =>
      rw [lexPower]
      by_cases he : c = 'e' ∨ c = 'E'
      · rw [if_pos he]
        by_cases hnil : ((lexSign s).2.span Char.isDigit).1 = []
        · simp only [if_pos hnil]
          exact tookValue_refl _
        · simp only [if_neg hnil]
          have hc : isValueChar c = true := by rcases he with rfl | rfl <;> rfl
          exact ((tookValue_cons hc s).trans (tookValue_lexSign s)).trans (tookValue_span _)
      · rw [if_neg he]
        exact tookValue_refl _

theorem tookValue_lexNumber {s r : Text} {n : NumberText} (h : lexNumber s = some (n, r)) :
    TookValue s r := by
  obtain ⟨⟨w, s₁⟩, hwhole, hpair⟩ := Option.map_eq_some_iff.1 h
  obtain ⟨-, rfl⟩ := Prod.mk.inj hpair
  exact ((tookValue_lexWhole hwhole).trans (tookValue_lexFraction s₁)).trans (tookValue_lexPower _)

theorem tookValue_scanNumber {s r : Text} {v : Json} (h : scanNumber s = some (v, r)) :
    TookValue s r := by
  obtain ⟨⟨n, s'⟩, hlex, hpair⟩ := Option.map_eq_some_iff.1 h
  obtain ⟨-, rfl⟩ := Prod.mk.inj hpair
  by_cases hminus : s.head? = some '-'
  · obtain ⟨cs, rfl⟩ := List.head?_eq_some_iff.1 hminus
    exact (tookValue_cons rfl cs).trans (tookValue_lexNumber (by simpa using hlex))
  · exact tookValue_lexNumber (by simpa [hminus] using hlex)

theorem tookValue_scanScalar {s r : Text} {v : Json} (h : scanScalar s = .ok (v, r)) :
    TookValue s r := by
  rw [scanScalar] at h
  split_ifs at h with hname hname hname
  · obtain ⟨t, rfl⟩ := hname
    obtain ⟨-, rfl⟩ := Prod.mk.inj (Except.ok.inj h)
    exact tookValue_of_forall rfl (List.all_eq_true.1 rfl)
  · obtain ⟨t, rfl⟩ := hname
    obtain ⟨-, rfl⟩ := Prod.mk.inj (Except.ok.inj h)
    exact tookValue_of_forall rfl (List.all_eq_true.1 rfl)
  · obtain ⟨t, rfl⟩ := hname
    obtain ⟨-, rfl⟩ := Prod.mk.inj (Except.ok.inj h)
    exact tookValue_of_forall rfl (List.all_eq_true.1 rfl)
  · cases hnumber : scanNumber s with
    | none =>
        rw [hnumber] at h
        cases h
    | some p =>
        rw [hnumber] at h
        obtain rfl := Except.ok.inj h
        exact tookValue_scanNumber hnumber

/-! ## Strings -/

/-- What stays within a string. -/
def StaysInside (s : Text) : Prop := ∀ depth, nest (.str depth) s = .str depth

/-- What ends with the closing quote. -/
def ClosesString (s : Text) : Prop := ∀ depth, nest (.str depth) s = .out depth

theorem StaysInside.append {s t : Text} (hs : StaysInside s) (ht : StaysInside t) :
    StaysInside (s ++ t) := fun depth => by rw [nest_append, hs, ht]

theorem staysInside_of_forall {s : Text} (hs : ∀ c ∈ s, c ≠ '"' ∧ c ≠ '\\') : StaysInside s := by
  intro depth
  induction s with
  | nil => rfl
  | cons c s ih =>
      obtain ⟨⟨hquote, hslash⟩, hrest⟩ := List.forall_mem_cons.1 hs
      rw [nest_cons, Nesting.step, if_neg hquote, if_neg hslash]
      exact ih hrest

/-- A backslash and the character behind it. -/
theorem staysInside_escape (c : Char) : StaysInside ['\\', c] := fun _ => rfl

/-- Hexadecimal digits close nothing. -/
theorem scanUnit_took {s r : Text} {n : ℕ} (h : scanUnit s = some (n, r)) :
    Took StaysInside s r := by
  rw [scanUnit] at h
  split_ifs at h with hfour
  obtain ⟨m, hread, hpair⟩ := Option.map_eq_some_iff.1 h
  obtain ⟨-, rfl⟩ := Prod.mk.inj hpair
  refine ⟨s.take 4, (List.take_append_drop 4 s).symm, staysInside_of_forall fun c hc => ?_⟩
  have hdigits : ∀ {t : Text} {acc : ℕ}, (readDigits 16 acc t).isSome = true →
      ∀ c ∈ t, (digitValue 16 c).isSome = true := by
    intro t
    induction t with
    | nil => exact fun _ => List.forall_mem_nil _
    | cons a t ih =>
        intro acc hsome
        rw [readDigits] at hsome
        cases hdigit : digitValue 16 a with
        | none =>
            rw [hdigit] at hsome
            cases hsome
        | some d =>
            rw [hdigit] at hsome
            exact List.forall_mem_cons.2 ⟨by rw [hdigit]; rfl, ih hsome⟩
  have hsome := hdigits (by rw [hread]; rfl) c hc
  constructor <;> rintro rfl <;> cases hsome

theorem scanUnicode_took {s r : Text} {c : Option Char} (h : scanUnicode s = .ok (c, r)) :
    ∃ a, c = some a ∧ Took StaysInside s r := by
  unfold scanUnicode at h
  split at h
  · cases h
  · rename_i unit s' hunit
    have htook := scanUnit_took hunit
    split_ifs at h with hhigh hlow
    · unfold scanLow at h
      split at h
      · rename_i low s'' hlow
        split at hlow
        · rename_i t
          obtain ⟨rfl, rfl⟩ := Prod.mk.inj (Except.ok.inj h)
          obtain ⟨hunit', -⟩ := Option.filter_eq_some_iff.1 hlow
          refine ⟨_, rfl, htook.trans ?_ StaysInside.append⟩
          -- the second escape of a pair
          exact Took.trans ⟨['\\', 'u'], rfl, staysInside_escape 'u'⟩ (scanUnit_took hunit')
            StaysInside.append
        · cases hlow
      · cases h
    · cases h
    · obtain ⟨rfl, rfl⟩ := Prod.mk.inj (Except.ok.inj h)
      exact ⟨_, rfl, htook⟩

theorem scanEscape_took {s r : Text} {c : Option Char} (h : scanEscape s = .ok (c, r)) :
    ∃ a, c = some a ∧ Took StaysInside ('\\' :: s) r := by
  cases s with
  | nil => cases h
  | cons letter s =>
      have hescape : Took StaysInside ('\\' :: letter :: s) s :=
        ⟨['\\', letter], rfl, staysInside_escape letter⟩
      rw [scanEscape] at h
      split_ifs at h with hu
      · obtain ⟨a, ha, htook⟩ := scanUnicode_took h
        exact ⟨a, ha, hescape.trans htook StaysInside.append⟩
      · cases hback : unescape letter with
        | none =>
            rw [hback] at h
            cases h
        | some a =>
            rw [hback] at h
            obtain ⟨rfl, rfl⟩ := Prod.mk.inj (Except.ok.inj h)
            exact ⟨a, rfl, hescape⟩

/-- A character of a string stays inside, the closing quote does not. -/
theorem scanChar_took {s r : Text} {c : Option Char} (h : scanChar s = .ok (c, r)) :
    c = none ∧ s = '"' :: r ∨ ∃ a, c = some a ∧ Took StaysInside s r := by
  cases s with
  | nil => cases h
  | cons a s =>
      rw [scanChar] at h
      split_ifs at h with hquote hslash hcontrol
      · obtain ⟨rfl, rfl⟩ := Prod.mk.inj (Except.ok.inj h)
        exact Or.inl ⟨rfl, by rw [hquote]⟩
      · rw [hslash]
        exact Or.inr (scanEscape_took h)
      · cases h
      · obtain ⟨rfl, rfl⟩ := Prod.mk.inj (Except.ok.inj h)
        exact Or.inr ⟨a, rfl, [a], rfl, staysInside_of_forall (by simpa using ⟨hquote, hslash⟩)⟩

theorem scanChars_took {fuel : ℕ} {s t r : Text} (h : scanChars fuel s = .ok (t, r)) :
    Took ClosesString s r := by
  induction fuel generalizing s t r with
  | zero => cases h
  | succ fuel ih =>
      rw [scanChars] at h
      obtain ⟨⟨c, s'⟩, hchar, h⟩ := except_bind_eq_ok.1 h
      rcases scanChar_took hchar with ⟨rfl, rfl⟩ | ⟨a, rfl, htook⟩
      · obtain ⟨rfl, rfl⟩ := Prod.mk.inj (Except.ok.inj h)
        exact ⟨['"'], rfl, fun _ => rfl⟩
      · obtain ⟨⟨t', s''⟩, hrest, h⟩ := except_bind_eq_ok.1 h
        obtain ⟨rfl, rfl⟩ := Prod.mk.inj (Except.ok.inj h)
        exact htook.trans (ih hrest) fun hu hv depth => by rw [nest_append, hu, hv]

/-- A string with its two quotes. -/
theorem tookValue_scanString {s t r : Text} (h : scanString s = .ok (t, r)) :
    TookValue ('"' :: s) r := by
  obtain ⟨u, rfl, hu⟩ := scanChars_took h
  exact ⟨'"' :: u, rfl, fun depth => hu depth⟩

/-! ## Values -/

/-- What ends with the bracket that closes. -/
def ClosesBracket (s : Text) : Prop := ∀ depth, nest (.out depth) s = .close depth

theorem TookValue.closing {s t r : Text} (h : TookValue s t) (h' : Took ClosesBracket t r) :
    Took ClosesBracket s r :=
  Took.trans h h' fun hu hv depth => by rw [nest_append, hu, hv]

theorem eq_cons_of_expect {c : Char} {message : String} {s r : Text}
    (h : expect c message s = .ok r) : s = c :: r := by
  cases s with
  | nil => cases h
  | cons a s =>
      rw [expect] at h
      split_ifs at h with ha
      · rw [ha, Except.ok.inj h]
      · cases h

theorem tookValue_scanKey {s k r : Text} (h : scanKey s = .ok (k, r)) : TookValue s r := by
  obtain ⟨s₁, hquote, h⟩ := except_bind_eq_ok.1 h
  obtain ⟨⟨key, s₂⟩, hstring, h⟩ := except_bind_eq_ok.1 h
  obtain ⟨s₃, hcolon, h⟩ := except_bind_eq_ok.1 h
  obtain ⟨rfl, rfl⟩ := Prod.mk.inj (Except.ok.inj h)
  obtain rfl := eq_cons_of_expect hquote
  have hskip := tookValue_skipSpace s₂
  rw [eq_cons_of_expect hcolon] at hskip
  exact (((tookValue_scanString hstring).trans hskip).trans (tookValue_cons rfl s₃)).trans
    (tookValue_skipSpace s₃)

/-- The bracket closes, or a comma is read. -/
theorem scanDelimiter_took {b : Char} (hb : b = ']' ∨ b = '}') {s r : Text} {closed : Bool}
    (h : scanDelimiter b s = .ok (closed, r)) :
    closed = true ∧ Took ClosesBracket s r ∨ closed = false ∧ TookValue s r := by
  have hskip := tookValue_skipSpace s
  rw [scanDelimiter] at h
  cases hs : skipSpace s with
  | nil =>
      rw [hs] at h
      cases h
  | cons c s' =>
      rw [hs] at h hskip
      simp only at h
      split_ifs at h with hclose hcomma
      · obtain ⟨rfl, rfl⟩ := Prod.mk.inj (Except.ok.inj h)
        refine Or.inl ⟨rfl, hskip.closing ⟨[c], rfl, fun depth => ?_⟩⟩
        rw [hclose]
        rcases hb with rfl | rfl <;> rfl
      · obtain ⟨rfl, rfl⟩ := Prod.mk.inj (Except.ok.inj h)
        exact Or.inr ⟨rfl, (hskip.trans (tookValue_cons (by rw [hcomma]; rfl) s')).trans
          (tookValue_skipSpace s')⟩
      · cases h

/-- A bracket and what is behind it up to the one that closes it. -/
theorem tookValue_bracket {c : Char} (hc : c = '{' ∨ c = '[') {s r : Text}
    (h : Took ClosesBracket s r) : TookValue (c :: s) r := by
  obtain ⟨u, rfl, hu⟩ := h
  refine ⟨c :: u, rfl, fun depth => ?_⟩
  have hopen : Nesting.step (.out depth) c = .out (depth + 1) := by
    rcases hc with rfl | rfl <;> rfl
  rw [nest_cons, hopen, hu]
  rfl

/-- An empty array or object. -/
theorem took_empty {b : Char} (hb : b = ']' ∨ b = '}') {s : Text}
    (hhead : (skipSpace s).head? = some b) : Took ClosesBracket s (skipSpace s).tail := by
  obtain ⟨cs, hcs⟩ := List.head?_eq_some_iff.1 hhead
  have hskip := tookValue_skipSpace s
  rw [hcs] at hskip ⊢
  refine hskip.closing ⟨[b], rfl, fun depth => ?_⟩
  rcases hb with rfl | rfl <;> rfl

/-- What has been scanned is balanced, by induction on the fuel. -/
theorem scan_took (fuel : ℕ) :
    (∀ {s r : Text} {v : Json}, scanValue fuel s = .ok (v, r) → TookValue s r) ∧
    (∀ {s r : Text} {vs : List Json}, scanValues fuel s = .ok (vs, r) →
      Took ClosesBracket s r) ∧
    ∀ {s r : Text} {es : List (Text × Json)}, scanItems fuel s = .ok (es, r) →
      Took ClosesBracket s r := by
  induction fuel with
  | zero => exact ⟨nofun, nofun, nofun⟩
  | succ fuel ih =>
      obtain ⟨ihValue, ihValues, ihItems⟩ := ih
      refine ⟨?_, ?_, ?_⟩
      · intro s r v h
        cases s with
        | nil => cases h
        | cons c s =>
            rw [scanValue] at h
            split_ifs at h with hquote hbrace hclosed hbracket hclosed
            · obtain ⟨⟨t, s'⟩, hstring, h⟩ := except_bind_eq_ok.1 h
              obtain ⟨-, rfl⟩ := Prod.mk.inj (Except.ok.inj h)
              rw [hquote]
              exact tookValue_scanString hstring
            · obtain ⟨-, rfl⟩ := Prod.mk.inj (Except.ok.inj h)
              exact tookValue_bracket (Or.inl hbrace) (took_empty (Or.inr rfl) hclosed)
            · obtain ⟨⟨es, s'⟩, hitems, h⟩ := except_bind_eq_ok.1 h
              obtain ⟨-, rfl⟩ := Prod.mk.inj (Except.ok.inj h)
              exact tookValue_bracket (Or.inl hbrace)
                ((tookValue_skipSpace s).closing (ihItems hitems))
            · obtain ⟨-, rfl⟩ := Prod.mk.inj (Except.ok.inj h)
              exact tookValue_bracket (Or.inr hbracket) (took_empty (Or.inl rfl) hclosed)
            · obtain ⟨⟨vs, s'⟩, hvalues, h⟩ := except_bind_eq_ok.1 h
              obtain ⟨-, rfl⟩ := Prod.mk.inj (Except.ok.inj h)
              exact tookValue_bracket (Or.inr hbracket)
                ((tookValue_skipSpace s).closing (ihValues hvalues))
            · exact tookValue_scanScalar h
      · intro s r vs h
        rw [scanValues] at h
        obtain ⟨⟨v, s₁⟩, hvalue, h⟩ := except_bind_eq_ok.1 h
        obtain ⟨⟨closed, s₂⟩, hdelimiter, h⟩ := except_bind_eq_ok.1 h
        rcases scanDelimiter_took (Or.inl rfl) hdelimiter with ⟨rfl, htook⟩ | ⟨rfl, htook⟩
        · obtain ⟨-, rfl⟩ := Prod.mk.inj (Except.ok.inj h)
          exact (ihValue hvalue).closing htook
        · obtain ⟨⟨ws, s₃⟩, hrest, h⟩ := except_bind_eq_ok.1 h
          obtain ⟨-, rfl⟩ := Prod.mk.inj (Except.ok.inj h)
          exact ((ihValue hvalue).trans htook).closing (ihValues hrest)
      · intro s r es h
        rw [scanItems] at h
        obtain ⟨⟨key, s₀⟩, hkey, h⟩ := except_bind_eq_ok.1 h
        obtain ⟨⟨v, s₁⟩, hvalue, h⟩ := except_bind_eq_ok.1 h
        obtain ⟨⟨closed, s₂⟩, hdelimiter, h⟩ := except_bind_eq_ok.1 h
        have hitem := (tookValue_scanKey hkey).trans (ihValue hvalue)
        rcases scanDelimiter_took (Or.inr rfl) hdelimiter with ⟨rfl, htook⟩ | ⟨rfl, htook⟩
        · obtain ⟨-, rfl⟩ := Prod.mk.inj (Except.ok.inj h)
          exact hitem.closing htook
        · obtain ⟨⟨fs, s₃⟩, hrest, h⟩ := except_bind_eq_ok.1 h
          obtain ⟨-, rfl⟩ := Prod.mk.inj (Except.ok.inj h)
          exact (hitem.trans htook).closing (ihItems hrest)

/-- An object is read up to the brace that closes it. -/
theorem took_of_brace {fuel : ℕ} {s r : Text} {v : Json}
    (h : scanValue fuel ('{' :: s) = .ok (v, r)) : Took ClosesBracket s r := by
  cases fuel with
  | zero => cases h
  | succ fuel =>
      rw [scanValue, if_neg (by decide), if_pos rfl] at h
      split_ifs at h with hclosed
      · obtain ⟨-, rfl⟩ := Prod.mk.inj (Except.ok.inj h)
        exact took_empty (Or.inr rfl) hclosed
      · obtain ⟨⟨es, s'⟩, hitems, h⟩ := except_bind_eq_ok.1 h
        obtain ⟨-, rfl⟩ := Prod.mk.inj (Except.ok.inj h)
        exact (tookValue_skipSpace s).closing ((scan_took fuel).2.2 hitems)

/-! ## Texts that are loaded -/

theorem nest_done_of_blank {s : Text} (hs : ∀ c ∈ s, isJsonSpace c = true) :
    nest .done s = .done := by
  induction s with
  | nil => rfl
  | cons c s ih =>
      obtain ⟨hc, hrest⟩ := List.forall_mem_cons.1 hs
      rw [nest_cons, Nesting.step, if_pos hc]
      exact ih hrest

/-- A text that opens with a brace and is loaded closes it. -/
theorem nest_of_loads {s : Text} {v : Json} (hopen : s.head? = some '{') (h : loads s = .ok v) :
    nest .before s = .done := by
  obtain ⟨cs, rfl⟩ := List.head?_eq_some_iff.1 hopen
  rw [loads, if_neg (by simp), skipSpace_cons rfl] at h
  obtain ⟨⟨w, r⟩, hvalue, h⟩ := except_bind_eq_ok.1 h
  simp only at h
  split_ifs at h with hblank
  · obtain ⟨u, rfl, hu⟩ := took_of_brace hvalue
    have hclosed : nest .before ('{' :: u) = .done := hu 0
    rw [← List.cons_append, nest_append, hclosed]
    exact nest_done_of_blank (List.dropWhile_eq_nil_iff.1 hblank)
  · cases h

/-! ## Parts of a text -/

theorem Nesting.Open.mono {depth depth' : ℕ} {σ : Nesting} (h : σ.Open depth)
    (hle : depth' ≤ depth) : σ.Open depth' := by
  cases h with
  | out h => exact .out (hle.trans h)
  | str h => exact .str (hle.trans h)
  | escaped h => exact .escaped (hle.trans h)

theorem Nesting.Open.deepen {σ : Nesting} (h : σ.Open 0) (k : ℕ) : (σ.deepen k).Open k := by
  cases h with
  | out _ => exact .out (Nat.le_add_left k _)
  | str _ => exact .str (Nat.le_add_left k _)
  | escaped _ => exact .escaped (Nat.le_add_left k _)

/-- Within the brackets, one character leaves one there, or closes the last one. -/
theorem Nesting.Open.step {σ : Nesting} (h : σ.Open 0) (c : Char) :
    (σ.step c).Open 0 ∨ σ.step c = .done ∨ σ.step c = .dead := by
  cases h with
  | @out d _ =>
      rw [Nesting.step]
      split_ifs
      · exact Or.inl (.str (Nat.zero_le d))
      · exact Or.inl (.out (Nat.zero_le (d + 1)))
      · cases d with
        | zero => exact Or.inr (Or.inl rfl)
        | succ d => exact Or.inl (.out (Nat.zero_le d))
      · exact Or.inl (.out (Nat.zero_le d))
      · exact Or.inr (Or.inr rfl)
  | @str d _ =>
      rw [Nesting.step]
      split_ifs
      · exact Or.inl (.out (Nat.zero_le d))
      · exact Or.inl (.escaped (Nat.zero_le d))
      · exact Or.inl (.str (Nat.zero_le d))
  | @escaped d _ => exact Or.inl (.str (Nat.zero_le d))

theorem nest_of_open {σ : Nesting} (h : σ.Open 0) (s : Text) :
    (nest σ s).Open 0 ∨ nest σ s = .done ∨ nest σ s = .dead := by
  induction s generalizing σ with
  | nil => exact Or.inl h
  | cons c s ih =>
      rw [nest_cons]
      rcases h.step c with hopen | hdone | hdead
      · exact ih hopen
      · rw [hdone]
        exact Or.inr (nest_done s)
      · rw [hdead]
        exact Or.inr (Or.inr (nest_dead s))

/-- Brackets around a text change nothing that happens inside. -/
theorem nest_deepen (k : ℕ) {σ : Nesting} (hσ : σ.Open 0) {s : Text} (h : (nest σ s).Open 0) :
    nest (σ.deepen k) s = (nest σ s).deepen k := by
  induction s generalizing σ with
  | nil => rfl
  | cons c s ih =>
      rw [nest_cons] at h ⊢
      rw [nest_cons]
      rcases hσ.step c with hopen | hdone | hdead
      · have hstep : (σ.deepen k).step c = (σ.step c).deepen k := by
          cases hσ with
          | @out d _ =>
              simp only [Nesting.deepen, Nesting.step] at hopen ⊢
              split_ifs at hopen ⊢
              · rfl
              · exact congrArg Nesting.out (add_right_comm d k 1)
              · cases d with
                | zero => cases hopen
                | succ d =>
                    rw [add_right_comm]
                    rfl
              · rfl
              · rfl
          | @str d _ =>
              simp only [Nesting.deepen, Nesting.step]
              split_ifs <;> rfl
          | @escaped d _ => rfl
        rw [hstep]
        exact ih hopen h
      · rw [hdone] at h
        rcases nest_done s with hs | hs <;> rw [hs] at h <;> cases h
      · rw [hdead, nest_dead] at h
        cases h

/-- A part of a balanced text never closes a bracket around it. -/
theorem Balanced.nest_prefix {s t : Text} (h : Balanced (s ++ t)) (depth : ℕ) :
    (nest (.out depth) s).Open depth := by
  have hzero : (Nesting.out 0).Open 0 := .out (le_refl 0)
  have hend := h 0
  rw [nest_append] at hend
  have hopen : (nest (.out 0) s).Open 0 := by
    rcases nest_of_open hzero s with hopen | hdone | hdead
    · exact hopen
    · rw [hdone] at hend
      rcases nest_done t with ht | ht <;> rw [ht] at hend <;> cases hend
    · rw [hdead, nest_dead] at hend
      cases hend
  have hdeep := nest_deepen depth hzero hopen
  rw [Nesting.deepen, zero_add] at hdeep
  exact hdeep ▸ hopen.deepen depth

theorem Valid.balanced {v : Json} (h : Valid v) : Balanced v.print := by
  have hread := h.reads (v.print.length + 1) [] (Nat.lt_succ_self _) trivial
  obtain ⟨u, hu, hbalanced⟩ := (scan_took _).1 hread
  rw [List.append_nil, List.append_nil] at hu
  exact hu ▸ hbalanced

/-- An object that lacks its end leaves its brace open. -/
theorem nest_proper_prefix {items : List (Text × Json)} (h : Valid (.obj items)) {p x : Text}
    (hsplit : (Json.obj items).print = p ++ x) (hp : p ≠ []) (hx : x ≠ []) :
    (nest .before p).Open 0 := by
  obtain ⟨s, hs⟩ := print_obj items
  obtain ⟨c, cs, rfl⟩ := List.exists_cons_of_ne_nil hp
  rw [hs, List.cons_append] at hsplit
  obtain ⟨rfl, hrest⟩ := List.cons.inj hsplit
  have hdone : nest .before (Json.obj items).print = .done :=
    nest_of_loads (by rw [hs]; rfl) (loads_print h)
  rw [hs, hrest, ← List.cons_append, nest_append] at hdone
  -- the closing brace stands behind what is cut off
  have hlast : '}' ∈ x := by
    refine List.mem_of_getLast? ?_
    rw [← List.getLast?_append_of_ne_nil cs hx, ← hrest, List.getLast?_concat]
  rcases nest_of_open (σ := .out 0) (.out (le_refl 0)) cs with hopen | hclosed | hdead
  · exact hopen
  · have hblank : ∀ {t : Text}, nest .done t = .done → ∀ c ∈ t, isJsonSpace c = true := by
      intro t ht
      induction t with
      | nil => exact nofun
      | cons c t ih =>
          rw [nest_cons, Nesting.step] at ht
          split_ifs at ht with hc
          · exact List.forall_mem_cons.2 ⟨hc, ih ht⟩
          · rw [nest_dead] at ht
            cases ht
    have hstart : nest .before ('{' :: cs) = nest (.out 0) cs := rfl
    rw [hstart, hclosed] at hdone
    cases hblank hdone '}' hlast
  · have hstart : nest .before ('{' :: cs) = nest (.out 0) cs := rfl
    rw [hstart, hdead, nest_dead] at hdone
    cases hdone

/-- A string runs on to the first quote of an object, behind which its key stands bare. -/
theorem nest_glued_string {c : Char} (hc : ∀ depth, Nesting.step (.out depth) c = .dead)
    {w p x : Text} (hsplit : p ++ x = '{' :: '"' :: c :: w) {σ : Nesting} (hσ : σ.Open 0) {d : ℕ}
    (hstep : σ.step '{' = .str d) : (nest σ p).Open 0 ∨ nest σ p = .dead := by
  rcases List.append_eq_cons_iff.1 hsplit with ⟨rfl, -⟩ | ⟨p₁, rfl, hrest⟩
  · exact Or.inl hσ
  rw [nest_cons, hstep]
  rcases List.append_eq_cons_iff.1 hrest.symm with ⟨rfl, -⟩ | ⟨p₂, rfl, hrest'⟩
  · exact Or.inl (.str (Nat.zero_le d))
  rcases List.append_eq_cons_iff.1 hrest'.symm with ⟨rfl, -⟩ | ⟨p₃, rfl, -⟩
  · exact Or.inl (.out (Nat.zero_le d))
  · have hdead : nest (.str d) ('"' :: c :: p₃) = nest ((Nesting.out d).step c) p₃ := rfl
    rw [hdead, hc, nest_dead]
    exact Or.inr rfl

/-- An object, or a part of one, written into what is still open does not close it, if its first
key begins with a character that no value holds. -/
theorem nest_glued {items : List (Text × Json)} (h : Valid (.obj items)) {c : Char} {w p x : Text}
    (hkey : (Json.obj items).print = '{' :: '"' :: c :: w)
    (hc : ∀ depth, Nesting.step (.out depth) c = .dead)
    (hsplit : (Json.obj items).print = p ++ x) {σ : Nesting} (hσ : σ.Open 0 ∨ σ = .dead) :
    (nest σ p).Open 0 ∨ nest σ p = .dead := by
  rcases hσ with hσ | rfl
  · have hglued : ∀ d, σ.step '{' = .str d → (nest σ p).Open 0 ∨ nest σ p = .dead :=
      fun _ => nest_glued_string hc (hsplit.symm.trans hkey) hσ
    cases hσ with
    | @out d _ =>
        have hbalanced : Balanced (p ++ x) := hsplit ▸ h.balanced
        exact Or.inl ((hbalanced.nest_prefix d).mono (Nat.zero_le d))
    | @str d _ => exact hglued d rfl
    | @escaped d _ => exact hglued d rfl
  · exact Or.inr (nest_dead p)

end Json
end Foundation
