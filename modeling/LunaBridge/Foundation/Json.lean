import LunaBridge.Foundation.Dict
import LunaBridge.Foundation.JsonText
import LunaBridge.Foundation.StableSort
import Mathlib.Data.Char
import Mathlib.Data.List.Lex

/-!
# Json — values, and their texts

* `Json`, the values `json` reads and writes; an object keeps the order of its items;
* `print` and `sorted`, which make up `json.dumps(v, sort_keys=True)` (`dumps`);
* `loads`, the scanner of `json.loads`, with a bound on the depth.

A valid value has floats that are doubles and objects without a key twice.  What `dumps` prints of
it is read back with the items in the order of their keys (`loads_dumps`).  The infinities, the
numbers that are not any, and the position in an error message are left out.
-/

namespace Foundation

open Python Text StableSort
open Bytes (ok_bind)

inductive Json
  | null
  | bool (b : Bool)
  | int (n : ℤ)
  | float (x : ℚ)
  | str (s : Text)
  | arr (values : List Json)
  | obj (items : List (Text × Json))

namespace Json

/-! ## Printing -/

/-- `str(n)` of an integer. -/
def intText (n : ℤ) : Text := (if n < 0 then ['-'] else []) ++ decimal n.natAbs

mutual

/-- The text of a value, with the separators `", "` and `": "`. -/
def print : Json → Text
  | .null => ['n', 'u', 'l', 'l']
  | .bool true => ['t', 'r', 'u', 'e']
  | .bool false => ['f', 'a', 'l', 's', 'e']
  | .int n => intText n
  | .float x => floatRepr x
  | .str s => quoted s
  | .arr values => '[' :: ([',', ' '].intercalate (printValues values) ++ [']'])
  | .obj items => '{' :: ([',', ' '].intercalate (printItems items) ++ ['}'])

def printValues : List Json → List Text
  | [] => []
  | v :: vs => v.print :: printValues vs

def printItems : List (Text × Json) → List Text
  | [] => []
  | e :: es => (quoted e.1 ++ ':' :: ' ' :: e.2.print) :: printItems es

end

mutual

/-- The items of all objects in the order of their keys. -/
def sorted : Json → Json
  | .arr values => .arr (sortedValues values)
  | .obj items => .obj (sortBy Prod.fst (sortedItems items))
  | v => v

def sortedValues : List Json → List Json
  | [] => []
  | v :: vs => v.sorted :: sortedValues vs

def sortedItems : List (Text × Json) → List (Text × Json)
  | [] => []
  | e :: es => (e.1, e.2.sorted) :: sortedItems es

end

/-- `json.dumps(v, sort_keys=True)`. -/
def dumps (v : Json) : Text := v.sorted.print

theorem printValues_eq (vs : List Json) : printValues vs = vs.map print := by
  induction vs with
  | nil => rfl
  | cons v vs ih => rw [printValues, ih, List.map_cons]

/-- The text of an object between its braces. -/
theorem print_obj (items : List (Text × Json)) :
    ∃ s, (Json.obj items).print = '{' :: (s ++ ['}']) :=
  ⟨_, by rw [print]⟩

/-- The text of one item. -/
def printItem (e : Text × Json) : Text := quoted e.1 ++ ':' :: ' ' :: e.2.print

theorem printItems_eq (es : List (Text × Json)) : printItems es = es.map printItem := by
  induction es with
  | nil => rfl
  | cons e es ih => rw [printItems, ih, List.map_cons, printItem]

theorem sortedValues_eq (vs : List Json) : sortedValues vs = vs.map sorted := by
  induction vs with
  | nil => rfl
  | cons v vs ih => rw [sortedValues, ih, List.map_cons]

theorem sortedItems_eq (es : List (Text × Json)) :
    sortedItems es = es.map fun e => (e.1, e.2.sorted) := by
  induction es with
  | nil => rfl
  | cons e es ih => rw [sortedItems, ih, List.map_cons]

/-! ## Reading -/

def isJsonSpace (c : Char) : Bool := decide (c = ' ' ∨ c = '\t' ∨ c = '\n' ∨ c = '\r')

def skipSpace (s : Text) : Text := s.dropWhile isJsonSpace

/-- A number with a fraction or a power is a float. -/
def numberValue (negative : Bool) (n : NumberText) : Json :=
  if n.isFloat then
    .float (if negative then -nearestDouble n.toRat else nearestDouble n.toRat)
  else
    .int (if negative then -digitsValue n.whole else digitsValue n.whole)

def scanNumber (s : Text) : Option (Json × Text) :=
  let negative := decide (s.head? = some '-')
  (lexNumber (if negative then s.tail else s)).map fun p => (numberValue negative p.1, p.2)

/-- A name or a number. -/
def scanScalar (s : Text) : Except PyError (Json × Text) :=
  if ['n', 'u', 'l', 'l'] <+: s then .ok (.null, s.drop 4)
  else if ['t', 'r', 'u', 'e'] <+: s then .ok (.bool true, s.drop 4)
  else if ['f', 'a', 'l', 's', 'e'] <+: s then .ok (.bool false, s.drop 5)
  else
    match scanNumber s with
    | some p => .ok p
    | none => jsonError "Expecting value"

/-- `c` in front of a text is read. -/
def expect (c : Char) (message : String) : Text → Except PyError Text
  | [] => jsonError message
  | a :: s => if a = c then .ok s else jsonError message

/-- Behind a value: whether the bracket closes here, or another one follows. -/
def scanDelimiter (close : Char) (s : Text) : Except PyError (Bool × Text) :=
  match skipSpace s with
  | [] => jsonError "Expecting ',' delimiter"
  | c :: s =>
      if c = close then .ok (true, s)
      else if c = ',' then .ok (false, skipSpace s)
      else jsonError "Expecting ',' delimiter"

/-- A key and the colon behind it. -/
def scanKey (s : Text) : Except PyError (Text × Text) := do
  let s ← expect '"' "Expecting property name enclosed in double quotes" s
  let (key, s) ← scanString s
  let s ← expect ':' "Expecting ':' delimiter" (skipSpace s)
  .ok (key, skipSpace s)

mutual

/-- The value in front of a text, and the rest. -/
def scanValue : ℕ → Text → Except PyError (Json × Text)
  | 0, _ => .error .outOfFuel
  | _ + 1, [] => jsonError "Expecting value"
  | fuel + 1, c :: s =>
      if c = '"' then do
        let (t, s) ← scanString s
        .ok (.str t, s)
      else if c = '{' then
        if (skipSpace s).head? = some '}' then .ok (.obj [], (skipSpace s).tail)
        else do
          let (items, s) ← scanItems fuel (skipSpace s)
          -- a key that comes again replaces the value it had
          .ok (.obj (Dict.ofList items).items, s)
      else if c = '[' then
        if (skipSpace s).head? = some ']' then .ok (.arr [], (skipSpace s).tail)
        else do
          let (values, s) ← scanValues fuel (skipSpace s)
          .ok (.arr values, s)
      else scanScalar (c :: s)

/-- The values up to the closing bracket of an array. -/
def scanValues : ℕ → Text → Except PyError (List Json × Text)
  | 0, _ => .error .outOfFuel
  | fuel + 1, s => do
      let (v, s) ← scanValue fuel s
      let (closed, s) ← scanDelimiter ']' s
      if closed then .ok ([v], s)
      else do
        let (vs, s) ← scanValues fuel s
        .ok (v :: vs, s)

/-- The items up to the closing brace of an object. -/
def scanItems : ℕ → Text → Except PyError (List (Text × Json) × Text)
  | 0, _ => .error .outOfFuel
  | fuel + 1, s => do
      let (key, s) ← scanKey s
      let (v, s) ← scanValue fuel s
      let (closed, s) ← scanDelimiter '}' s
      if closed then .ok ([(key, v)], s)
      else do
        let (es, s) ← scanItems fuel s
        .ok ((key, v) :: es, s)

end

/-- `json.loads(s)`. -/
def loads (s : Text) : Except PyError Json :=
  if s.head? = some '\ufeff' then
    jsonError "Unexpected UTF-8 BOM (decode using utf-8-sig)"
  else do
    let (v, rest) ← scanValue (s.length + 1) (skipSpace s)
    if skipSpace rest = [] then .ok v else jsonError "Extra data"

/-! ## Valid values -/

/-- What Python can hold: finite doubles, and no key twice. -/
inductive Valid : Json → Prop
  | null : Valid .null
  | bool (b : Bool) : Valid (.bool b)
  | int (n : ℤ) : Valid (.int n)
  | float {x : ℚ} (h : IsDouble x) : Valid (.float x)
  | str (s : Text) : Valid (.str s)
  | arr {values : List Json} (h : ∀ v ∈ values, Valid v) : Valid (.arr values)
  | obj {items : List (Text × Json)} (hnodup : (items.map Prod.fst).Nodup)
      (h : ∀ e ∈ items, Valid e.2) : Valid (.obj items)

/-- Sorting keeps a value valid. -/
theorem Valid.sorted {v : Json} (h : Valid v) : Valid v.sorted := by
  induction h with
  | null => exact .null
  | bool b => exact .bool b
  | int n => exact .int n
  | float hx => exact .float hx
  | str s => exact .str s
  | arr _ ih =>
      rw [Json.sorted, sortedValues_eq]
      exact .arr (List.forall_mem_map.2 ih)
  | @obj items hnodup _ ih =>
      have hperm := sortBy_perm Prod.fst (sortedItems items)
      rw [Json.sorted]
      refine .obj ?_ fun e he => ?_
      · rw [(hperm.map Prod.fst).nodup_iff, sortedItems_eq, List.map_map]
        exact hnodup
      · have hmem := hperm.subset he
        rw [sortedItems_eq, List.mem_map] at hmem
        obtain ⟨e', he', rfl⟩ := hmem
        exact ih e' he'

/-! ## What is printed is read -/

/-- A value is read where its text stands. -/
def Reads (v : Json) : Prop :=
  ∀ (fuel : ℕ) (s : Text), v.print.length < fuel → NumberEnds s →
    scanValue fuel (v.print ++ s) = .ok (v, s)

/-- A text that opens nothing is a name or a number. -/
theorem scanValue_scalar (fuel : ℕ) {c : Char} (hc : c ∉ ['"', '{', '[']) (s : Text) :
    scanValue (fuel + 1) (c :: s) = scanScalar (c :: s) := by
  simp only [List.mem_cons, not_or] at hc
  rw [scanValue, if_neg hc.1, if_neg hc.2.1, if_neg hc.2.2.1]

/-- A number begins with a digit or a minus sign. -/
theorem scanValue_number (fuel : ℕ) (negative : Bool) {n : NumberText} (h : n.Wellformed)
    {s : Text} (hs : NumberEnds s) :
    scanValue (fuel + 1) ((if negative then ['-'] else []) ++ n.text ++ s) =
      .ok (numberValue negative n, s) := by
  obtain ⟨c, cs, hcons⟩ : ∃ c cs, n.text ++ s = c :: cs := by
    rcases h.whole with hzero | ⟨c, cs, hcons, -⟩
    · exact ⟨'0', _, by rw [NumberText.text, hzero]; rfl⟩
    · exact ⟨c, _, by rw [NumberText.text, hcons]; rfl⟩
  have hdigit : c.isDigit = true := by
    have hmem : c ∈ n.whole := by
      rcases h.whole with hzero | ⟨a, as, ha, -⟩
      · rw [NumberText.text, hzero] at hcons
        rw [hzero, ← (List.cons.inj hcons).1]
        exact List.mem_cons_self
      · rw [NumberText.text, ha] at hcons
        rw [ha, ← (List.cons.inj hcons).1]
        exact List.mem_cons_self
    exact h.digits c hmem
  have hlex : lexNumber (c :: cs) = some (n, s) := hcons ▸ lexNumber_text h hs
  -- what a number begins with begins nothing else
  have hscalar : ∀ a t, a.isDigit = true ∨ a = '-' → scanNumber (a :: t) =
      some (numberValue negative n, s) →
      scanValue (fuel + 1) (a :: t) = .ok (numberValue negative n, s) := by
    intro a t ha hnumber
    have hne : ∀ b : Char, b.isDigit = false → b ≠ '-' → a ≠ b := by
      rintro b hb hminus rfl
      rcases ha with ha | ha
      · rw [hb] at ha
        cases ha
      · exact hminus ha
    have hopen : a ∉ ['"', '{', '['] := by
      simp only [List.mem_cons, List.not_mem_nil, or_false, not_or]
      exact ⟨hne _ rfl (by decide), hne _ rfl (by decide), hne _ rfl (by decide)⟩
    have hname : ∀ (b : Char) (bs : Text), b.isDigit = false → b ≠ '-' → ¬ b :: bs <+: a :: t :=
      fun b bs hb hminus hprefix => hne b hb hminus (List.cons_prefix_cons.1 hprefix).1.symm
    rw [scanValue_scalar fuel hopen, scanScalar, if_neg (hname 'n' _ rfl (by decide)),
      if_neg (hname 't' _ rfl (by decide)), if_neg (hname 'f' _ rfl (by decide)), hnumber]
  rw [List.append_assoc, hcons]
  cases negative with
  | true =>
      refine hscalar '-' (c :: cs) (Or.inr rfl) ?_
      simp [scanNumber, hlex]
  | false =>
      refine hscalar c cs (Or.inl hdigit) ?_
      have hminus : c ≠ '-' := by
        rintro rfl
        cases hdigit
      simp [scanNumber, hlex, hminus]

/-- An integer is read back. -/
theorem reads_int (n : ℤ) : Reads (.int n) := by
  intro fuel s hfuel hs
  obtain ⟨fuel, rfl⟩ := Nat.exists_eq_succ_of_ne_zero (Nat.ne_zero_of_lt hfuel)
  have hwf : (NumberText.mk (decimal n.natAbs) [] none).Wellformed := by
    refine ⟨?_, digits_decimal _, nofun, nofun⟩
    rcases Nat.eq_zero_or_pos n.natAbs with hzero | hpos
    · exact Or.inl (by rw [hzero]; rfl)
    · exact Or.inr (exists_decimal_cons hpos)
  have hnumber := scanValue_number fuel (decide (n < 0)) hwf hs
  have htext : (NumberText.mk (decimal n.natAbs) [] none).text = decimal n.natAbs := by
    simp [NumberText.text]
  have hvalue : numberValue (decide (n < 0)) (.mk (decimal n.natAbs) [] none) = .int n := by
    by_cases hneg : n < 0
    · simp only [numberValue, NumberText.isFloat, hneg, decide_true, if_true, digitsValue_decimal]
      simp only [ne_eq, not_true_eq_false, or_self, decide_false, Bool.false_eq_true, if_false]
      exact congrArg Json.int (by omega)
    · simp only [numberValue, NumberText.isFloat, hneg, decide_false, digitsValue_decimal]
      simp only [ne_eq, not_true_eq_false, or_self, decide_false, Bool.false_eq_true, if_false]
      exact congrArg Json.int (by omega)
  rw [htext, hvalue] at hnumber
  simpa [print, intText] using hnumber

/-- A double is read back. -/
theorem reads_float {x : ℚ} (hx : IsDouble x) : Reads (.float x) := by
  intro fuel s hfuel hs
  obtain ⟨fuel, rfl⟩ := Nat.exists_eq_succ_of_ne_zero (Nat.ne_zero_of_lt hfuel)
  have habs := isDouble_abs hx
  obtain ⟨hwf, hfloat, hback⟩ := magnitudeText_spec (abs_nonneg x) habs
  have hnumber := scanValue_number fuel (decide (x < 0)) hwf hs
  have hvalue : numberValue (decide (x < 0)) (magnitudeText |x|) = .float x := by
    rw [numberValue, if_pos hfloat, hback]
    by_cases hneg : x < 0
    · simp [hneg, abs_of_neg hneg]
    · simp [hneg, abs_of_nonneg (not_lt.1 hneg)]
  rw [hvalue] at hnumber
  simpa [print, floatRepr] using hnumber

theorem reads_str (t : Text) : Reads (.str t) := by
  intro fuel s hfuel _
  obtain ⟨fuel, rfl⟩ := Nat.exists_eq_succ_of_ne_zero (Nat.ne_zero_of_lt hfuel)
  rw [print, quoted, List.cons_append, List.append_assoc, List.singleton_append,
    Nat.succ_eq_add_one, scanValue, if_pos rfl, scanString_quoted, ok_bind]

/-- A blank behind a comma or a colon is skipped, and nothing else. -/
theorem skipSpace_cons {c : Char} (hc : isJsonSpace c = false) (s : Text) :
    skipSpace (c :: s) = c :: s := by
  rw [skipSpace, List.dropWhile_cons, hc]
  rfl

theorem skipSpace_blank (s : Text) : skipSpace (' ' :: s) = skipSpace s := rfl

/-- No value begins with a blank or a closing bracket. -/
theorem print_head {v : Json} (h : Valid v) :
    ∃ c cs, v.print = c :: cs ∧ isJsonSpace c = false ∧ c ≠ ']' := by
  have hnumber : ∀ (negative : Bool) (ds : Text), ds ≠ [] → (∀ c ∈ ds.head?, c.isDigit = true) →
      ∃ c cs, (if negative then ['-'] else []) ++ ds = c :: cs ∧ isJsonSpace c = false ∧
        c ≠ ']' := by
    intro negative ds hne hdigit
    cases negative with
    | true => exact ⟨'-', ds, rfl, rfl, by decide⟩
    | false =>
        obtain ⟨c, cs, rfl⟩ := List.exists_cons_of_ne_nil hne
        have hc : c.isDigit = true := hdigit c rfl
        refine ⟨c, cs, rfl, ?_, ?_⟩
        · refine decide_eq_false ?_
          rintro (rfl | rfl | rfl | rfl) <;> cases hc
        · rintro rfl
          cases hc
  cases h with
  | null => exact ⟨'n', _, rfl, rfl, by decide⟩
  | bool b => cases b <;> exact ⟨_, _, rfl, rfl, by decide⟩
  | int n =>
      have hhead : ∀ c ∈ (decimal n.natAbs).head?, c.isDigit = true :=
        fun c hc => digits_decimal _ c (List.mem_of_mem_head? hc)
      simpa [print, intText] using hnumber (decide (n < 0)) (decimal n.natAbs)
        Nat.toDigits_ne_nil hhead
  | @float x hx =>
      have habs := isDouble_abs hx
      have hwf := (magnitudeText_spec (abs_nonneg x) habs).1
      obtain ⟨c, cs, hcons, hmem⟩ : ∃ c cs, (magnitudeText |x|).text = c :: cs ∧
          c ∈ (magnitudeText |x|).whole := by
        rcases hwf.whole with hzero | ⟨c, cs, hcons, -⟩
        · exact ⟨'0', _, by rw [NumberText.text, hzero]; rfl, by rw [hzero]; decide⟩
        · exact ⟨c, _, by rw [NumberText.text, hcons]; rfl, by rw [hcons]; exact List.mem_cons_self⟩
      have hhead : ∀ a ∈ (magnitudeText |x|).text.head?, a.isDigit = true := by
        rw [hcons]
        rintro _ ⟨⟩
        exact hwf.digits c hmem
      simpa [print, floatRepr] using hnumber (decide (x < 0)) (magnitudeText |x|).text
        (by simp [hcons]) hhead
  | str s => exact ⟨'"', _, rfl, rfl, by decide⟩
  | arr _ => exact ⟨'[', _, by rw [print], rfl, by decide⟩
  | obj _ _ => exact ⟨'{', _, by rw [print], rfl, by decide⟩

theorem skipSpace_print {v : Json} (h : Valid v) (s : Text) :
    skipSpace (v.print ++ s) = v.print ++ s := by
  obtain ⟨c, cs, hcons, hspace, -⟩ := print_head h
  rw [hcons, List.cons_append, skipSpace_cons hspace]

theorem scanKey_quoted (key s : Text) (hs : skipSpace s = s) :
    scanKey (quoted key ++ ':' :: ' ' :: s) = .ok (key, s) := by
  have hcolon : skipSpace (':' :: ' ' :: s) = ':' :: ' ' :: s := skipSpace_cons rfl _
  rw [scanKey, quoted, List.cons_append, List.append_assoc, List.singleton_append, expect,
    if_pos rfl, ok_bind, scanString_quoted, ok_bind]
  simp only [hcolon]
  rw [expect, if_pos rfl, ok_bind, skipSpace_blank, hs]

theorem scanDelimiter_close (close : Char) (hspace : isJsonSpace close = false) (s : Text) :
    scanDelimiter close (close :: s) = .ok (true, s) := by
  rw [scanDelimiter, skipSpace_cons hspace]
  exact if_pos rfl

theorem scanDelimiter_comma (close : Char) (hclose : ',' ≠ close) {s : Text}
    (hs : skipSpace s = s) :
    scanDelimiter close (',' :: ' ' :: s) = .ok (false, s) := by
  rw [scanDelimiter, skipSpace_cons rfl]
  simp only [if_neg hclose, if_true, skipSpace_blank, hs]

/-- A comma, a closing bracket and a closing brace end a number. -/
theorem numberEnds_delimiter (c : Char) (hc : c ∈ [',', ']', '}']) (s : Text) :
    NumberEnds (c :: s) := by
  simp only [List.mem_cons, List.not_mem_nil, or_false] at hc
  rcases hc with rfl | rfl | rfl <;> exact ⟨rfl, by decide, by decide, by decide⟩

/-- What is joined begins with the first part. -/
theorem exists_intercalate_cons (sep a : Text) (as : List Text) :
    ∃ t, sep.intercalate (a :: as) = a ++ t := by
  cases as with
  | nil => exact ⟨[], by rw [List.intercalate_singleton, List.append_nil]⟩
  | cons b bs => exact ⟨sep ++ sep.intercalate (b :: bs), by rw [List.intercalate_cons_cons,
      List.append_assoc]⟩

/-- The values of an array, up to its bracket. -/
theorem scanValues_print {vs : List Json} (hne : vs ≠ []) (hvalid : ∀ v ∈ vs, Valid v)
    (hreads : ∀ v ∈ vs, Reads v) {fuel : ℕ}
    (hfuel : ([',', ' '].intercalate (vs.map print)).length + 1 < fuel) (s : Text) :
    scanValues fuel ([',', ' '].intercalate (vs.map print) ++ ']' :: s) = .ok (vs, s) := by
  induction vs generalizing fuel with
  | nil => exact absurd rfl hne
  | cons v vs ih =>
      obtain ⟨fuel, rfl⟩ := Nat.exists_eq_succ_of_ne_zero (Nat.ne_zero_of_lt hfuel)
      obtain ⟨hv, hrest⟩ := List.forall_mem_cons.1 hreads
      cases vs with
      | nil =>
          rw [List.map_cons, List.map_nil, List.intercalate_singleton] at hfuel ⊢
          rw [Nat.succ_eq_add_one, scanValues,
            hv fuel _ (by omega) (numberEnds_delimiter ']' (by decide) s), ok_bind]
          simp only [scanDelimiter_close ']' rfl, ok_bind, if_true]
      | cons w ws =>
          have hvalid' := (List.forall_mem_cons.1 hvalid).2
          have hskip : skipSpace ([',', ' '].intercalate ((w :: ws).map print) ++ ']' :: s) =
              [',', ' '].intercalate ((w :: ws).map print) ++ ']' :: s := by
            obtain ⟨t, ht⟩ := exists_intercalate_cons [',', ' '] w.print (ws.map print)
            rw [List.map_cons, ht, List.append_assoc]
            exact skipSpace_print (hvalid' w List.mem_cons_self) _
          rw [List.map_cons, List.map_cons, List.intercalate_cons_cons, ← List.map_cons] at hfuel ⊢
          rw [List.length_append, List.length_append, List.length_cons] at hfuel
          have hless : ([',', ' '].intercalate ((w :: ws).map print)).length + 1 < fuel := by omega
          have hih := ih (List.cons_ne_nil w ws) hvalid' hrest hless
          rw [List.append_assoc, List.append_assoc, List.cons_append, List.singleton_append,
            Nat.succ_eq_add_one, scanValues,
            hv fuel _ (by omega) (numberEnds_delimiter ',' (by decide) _), ok_bind]
          simp only [scanDelimiter_comma ']' (by decide) hskip,
            ok_bind, Bool.false_eq_true, if_false, hih]

/-- The items of an object, up to its brace. -/
theorem scanItems_print {es : List (Text × Json)} (hne : es ≠ []) (hvalid : ∀ e ∈ es, Valid e.2)
    (hreads : ∀ e ∈ es, Reads e.2) {fuel : ℕ}
    (hfuel : ([',', ' '].intercalate (es.map printItem)).length + 1 < fuel) (s : Text) :
    scanItems fuel ([',', ' '].intercalate (es.map printItem) ++ '}' :: s) = .ok (es, s) := by
  induction es generalizing fuel with
  | nil => exact absurd rfl hne
  | cons e es ih =>
      obtain ⟨fuel, rfl⟩ := Nat.exists_eq_succ_of_ne_zero (Nat.ne_zero_of_lt hfuel)
      obtain ⟨he, hrest⟩ := List.forall_mem_cons.1 hreads
      obtain ⟨hvalid₁, hvalid'⟩ := List.forall_mem_cons.1 hvalid
      have hkey : ∀ t, scanKey (printItem e ++ t) = .ok (e.1, e.2.print ++ t) := fun t => by
        rw [printItem, List.append_assoc, List.cons_append, List.cons_append]
        exact scanKey_quoted e.1 _ (skipSpace_print hvalid₁ t)
      have hlength : (printItem e).length = (quoted e.1).length + 2 + e.2.print.length := by
        rw [printItem, List.length_append, List.length_cons, List.length_cons]
        omega
      cases es with
      | nil =>
          rw [List.map_cons, List.map_nil, List.intercalate_singleton] at hfuel ⊢
          rw [Nat.succ_eq_add_one, scanItems, hkey, ok_bind]
          simp only [he fuel _ (by omega) (numberEnds_delimiter '}' (by decide) s), ok_bind,
            scanDelimiter_close '}' rfl, if_true]
      | cons e' es =>
          have hskip : skipSpace ([',', ' '].intercalate ((e' :: es).map printItem) ++ '}' :: s) =
              [',', ' '].intercalate ((e' :: es).map printItem) ++ '}' :: s := by
            obtain ⟨t, ht⟩ := exists_intercalate_cons [',', ' '] (printItem e') (es.map printItem)
            rw [List.map_cons, ht, List.append_assoc, printItem, quoted, List.cons_append,
              List.cons_append]
            exact skipSpace_cons rfl _
          rw [List.map_cons, List.map_cons, List.intercalate_cons_cons, ← List.map_cons] at hfuel ⊢
          rw [List.length_append, List.length_append, List.length_cons] at hfuel
          have hless : ([',', ' '].intercalate ((e' :: es).map printItem)).length + 1 < fuel := by
            omega
          have hih := ih (List.cons_ne_nil e' es) hvalid' hrest hless
          rw [List.append_assoc, List.append_assoc, List.cons_append, List.singleton_append,
            Nat.succ_eq_add_one, scanItems, hkey, ok_bind]
          simp only [he fuel _ (by omega) (numberEnds_delimiter ',' (by decide) _), ok_bind,
            scanDelimiter_comma '}' (by decide) hskip,
            Bool.false_eq_true, if_false, hih]

/-- Every valid value is read where its text stands. -/
theorem Valid.reads {v : Json} (h : Valid v) : Reads v := by
  induction h with
  | null =>
      intro fuel s hfuel _
      obtain ⟨fuel, rfl⟩ := Nat.exists_eq_succ_of_ne_zero (Nat.ne_zero_of_lt hfuel)
      rfl
  | bool b =>
      intro fuel s hfuel _
      obtain ⟨fuel, rfl⟩ := Nat.exists_eq_succ_of_ne_zero (Nat.ne_zero_of_lt hfuel)
      cases b <;> rfl
  | int n => exact reads_int n
  | float hx => exact reads_float hx
  | str t => exact reads_str t
  | @arr values hvalid ih =>
      intro fuel s hfuel _
      obtain ⟨fuel, rfl⟩ := Nat.exists_eq_succ_of_ne_zero (Nat.ne_zero_of_lt hfuel)
      rw [print, printValues_eq] at hfuel ⊢
      rw [List.cons_append, List.append_assoc, List.singleton_append, Nat.succ_eq_add_one,
        scanValue, if_neg (by decide), if_neg (by decide), if_pos rfl]
      cases values with
      | nil => rfl
      | cons v vs =>
          obtain ⟨t, ht⟩ := exists_intercalate_cons [',', ' '] v.print (vs.map print)
          have hv := hvalid v List.mem_cons_self
          have hskip : skipSpace ([',', ' '].intercalate ((v :: vs).map print) ++ ']' :: s) =
              [',', ' '].intercalate ((v :: vs).map print) ++ ']' :: s := by
            rw [List.map_cons, ht, List.append_assoc]
            exact skipSpace_print hv _
          have hopen : ([',', ' '].intercalate ((v :: vs).map print) ++ ']' :: s).head? ≠
              some ']' := by
            obtain ⟨c, cs, hcons, -, hne⟩ := print_head hv
            rw [List.map_cons, ht, hcons]
            simpa using hne
          have hlength : ([',', ' '].intercalate ((v :: vs).map print)).length + 1 < fuel := by
            simp only [List.length_cons, List.length_append, List.length_nil] at hfuel
            omega
          rw [hskip, if_neg hopen, scanValues_print (List.cons_ne_nil v vs) hvalid ih hlength,
            ok_bind]
  | @obj items hnodup hvalid ih =>
      intro fuel s hfuel _
      obtain ⟨fuel, rfl⟩ := Nat.exists_eq_succ_of_ne_zero (Nat.ne_zero_of_lt hfuel)
      rw [print, printItems_eq] at hfuel ⊢
      rw [List.cons_append, List.append_assoc, List.singleton_append, Nat.succ_eq_add_one,
        scanValue, if_neg (by decide), if_pos rfl]
      cases items with
      | nil => rfl
      | cons e es =>
          obtain ⟨t, ht⟩ := exists_intercalate_cons [',', ' '] (printItem e) (es.map printItem)
          have hskip : skipSpace ([',', ' '].intercalate ((e :: es).map printItem) ++ '}' :: s) =
              [',', ' '].intercalate ((e :: es).map printItem) ++ '}' :: s := by
            rw [List.map_cons, ht, List.append_assoc, printItem, quoted, List.cons_append,
              List.cons_append]
            exact skipSpace_cons rfl _
          have hopen : ([',', ' '].intercalate ((e :: es).map printItem) ++ '}' :: s).head? ≠
              some '}' := by
            rw [List.map_cons, ht, printItem, quoted]
            simp
          have hlength : ([',', ' '].intercalate ((e :: es).map printItem)).length + 1 < fuel := by
            simp only [List.length_cons, List.length_append, List.length_nil] at hfuel
            omega
          rw [hskip, if_neg hopen, scanItems_print (List.cons_ne_nil e es) hvalid ih hlength,
            ok_bind]
          simp only [Dict.items_ofList hnodup]

/-! ## Printable characters -/

theorem isPrintable_of_isDigit {c : Char} (hc : c.isDigit = true) : isPrintable c = true := by
  simp only [Char.isDigit, Bool.and_eq_true, decide_eq_true_eq] at hc
  refine decide_eq_true ⟨le_trans (show ' ' ≤ '0' by decide) hc.1, le_trans hc.2 ?_⟩
  decide

theorem isPrintable_text {n : NumberText} (h : n.Wellformed) :
    ∀ c ∈ n.text, isPrintable c = true := by
  have hdigits : ∀ ds : Text, Digits ds → ∀ c ∈ ds, isPrintable c = true :=
    fun ds hds c hc => isPrintable_of_isDigit (hds c hc)
  rw [NumberText.text]
  refine List.forall_mem_append.2 ⟨List.forall_mem_append.2 ⟨hdigits _ h.digits, ?_⟩, ?_⟩
  · split_ifs
    · exact List.forall_mem_nil _
    · exact List.forall_mem_cons.2 ⟨rfl, hdigits _ h.fraction⟩
  · cases hpower : n.power with
    | none => exact List.forall_mem_nil _
    | some p =>
        obtain ⟨negative, ds⟩ := p
        refine List.forall_mem_cons.2 ⟨rfl, List.forall_mem_cons.2 ⟨?_, ?_⟩⟩
        · cases negative <;> rfl
        · exact hdigits _ (h.power negative ds hpower).2

theorem isPrintable_intercalate {parts : List Text}
    (h : ∀ part ∈ parts, ∀ c ∈ part, isPrintable c = true) :
    ∀ c ∈ [',', ' '].intercalate parts, isPrintable c = true := by
  induction parts with
  | nil => simp
  | cons part parts ih =>
      obtain ⟨hpart, hrest⟩ := List.forall_mem_cons.1 h
      cases parts with
      | nil => simpa using hpart
      | cons next parts =>
          rw [List.intercalate_cons_cons]
          refine List.forall_mem_append.2 ⟨List.forall_mem_append.2 ⟨hpart, ?_⟩, ih hrest⟩
          exact List.all_eq_true.1 rfl

/-- There is nothing but printable ASCII characters in the text of a value. -/
theorem Valid.isPrintable {v : Json} (h : Valid v) : ∀ c ∈ v.print, isPrintable c = true := by
  have hsign : ∀ p : Prop, [Decidable p] → ∀ c ∈ (if p then ['-'] else []),
      Json.isPrintable c = true := by
    intro p _
    split_ifs
    · exact List.all_eq_true.1 rfl
    · exact nofun
  induction h with
  | null => exact List.all_eq_true.1 rfl
  | bool b => cases b <;> exact List.all_eq_true.1 rfl
  | int n =>
      rw [print, intText]
      exact List.forall_mem_append.2
        ⟨hsign _, fun c hc => isPrintable_of_isDigit (digits_decimal _ c hc)⟩
  | @float x hx =>
      have habs := isDouble_abs hx
      rw [print, floatRepr]
      exact List.forall_mem_append.2
        ⟨hsign _, isPrintable_text (magnitudeText_spec (abs_nonneg x) habs).1⟩
  | str t => exact isPrintable_quoted t
  | arr _ ih =>
      rw [print, printValues_eq]
      refine List.forall_mem_cons.2 ⟨rfl, List.forall_mem_append.2 ⟨?_, List.all_eq_true.1 rfl⟩⟩
      exact isPrintable_intercalate (List.forall_mem_map.2 ih)
  | obj _ _ ih =>
      rw [print, printItems_eq]
      refine List.forall_mem_cons.2 ⟨rfl, List.forall_mem_append.2 ⟨?_, List.all_eq_true.1 rfl⟩⟩
      refine isPrintable_intercalate (List.forall_mem_map.2 fun e he => ?_)
      refine List.forall_mem_append.2 ⟨isPrintable_quoted e.1, ?_⟩
      exact List.forall_mem_cons.2 ⟨rfl, List.forall_mem_cons.2 ⟨rfl, ih e he⟩⟩

/-! ## loads and dumps -/

/-- `json.loads` of what is printed. -/
theorem loads_print {v : Json} (h : Valid v) : loads v.print = .ok v := by
  have hbom : v.print.head? ≠ some '\ufeff' := by
    intro hhead
    have hprint := h.isPrintable _ (List.mem_of_mem_head? hhead)
    cases hprint
  have hread := h.reads (v.print.length + 1) [] (Nat.lt_succ_self _) trivial
  have hskip := skipSpace_print h []
  rw [List.append_nil] at hread hskip
  rw [loads, if_neg hbom, hskip, hread, ok_bind]
  rfl

/-- What is written with its keys sorted is read back with its keys sorted. -/
theorem loads_dumps {v : Json} (h : Valid v) : loads v.dumps = .ok v.sorted :=
  loads_print h.sorted

end Json
end Foundation
