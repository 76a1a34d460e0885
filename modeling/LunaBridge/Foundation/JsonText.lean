import LunaBridge.Foundation.Bytes
import LunaBridge.Foundation.FloatText

/-!
# JsonText — strings in JSON

* `quoted`, a string as `json.dumps` writes it: in quotes, and in printable ASCII characters only;
* `scanString`, which reads one off the front of a text, behind its opening quote.

A character stands for itself, as a short escape, or as one or two `\u` escapes of four hexadecimal
digits.  What is printed is read back (`scanString_quoted`).
-/

namespace Foundation
namespace Json

open Python Text
open Bytes (ok_bind)

/-! ## Printing -/

/-- Four hexadecimal digits. -/
def hexUnit (n : ℕ) : Text := hexByte (n / 256) ++ hexByte (n % 256)

def unicodeEscape (n : ℕ) : Text := '\\' :: 'u' :: hexUnit n

/-- The letters of the short escapes. -/
def escapeLetters : List (Char × Char) :=
  [('"', '"'), ('\\', '\\'), ('\n', 'n'), ('\r', 'r'), ('\t', 't'), ('\x0c', 'f'), ('\x08', 'b')]

/-- Characters that stand for themselves. -/
def isPrintable (c : Char) : Bool := decide (' ' ≤ c ∧ c ≤ '~')

/-- One character of a string, as `ensure_ascii` has it. -/
def escape (c : Char) : Text :=
  match escapeLetters.find? fun p => decide (p.1 = c) with
  | some p => ['\\', p.2]
  | none =>
      if isPrintable c then [c]
      else if c.toNat < 0x10000 then unicodeEscape c.toNat
      -- a character outside the basic plane takes two
      else unicodeEscape (0xD800 + (c.toNat - 0x10000) / 0x400) ++
        unicodeEscape (0xDC00 + (c.toNat - 0x10000) % 0x400)

/-- A string in quotes. -/
def quoted (s : Text) : Text := '"' :: (s.flatMap escape ++ ['"'])

/-! ## Reading -/

def jsonError {α : Type} (message : String) : Except PyError α := .error (.valueError message)

/-- Four hexadecimal digits in front of a text. -/
def scanUnit (s : Text) : Option (ℕ × Text) :=
  if (s.take 4).length = 4 then (readDigits 16 0 (s.take 4)).map fun n => (n, s.drop 4) else none

def isHigh (unit : ℕ) : Bool := decide (0xD800 ≤ unit ∧ unit < 0xDC00)

def isLow (unit : ℕ) : Bool := decide (0xDC00 ≤ unit ∧ unit < 0xE000)

/-- The second escape of a pair. -/
def scanLow : Text → Option (ℕ × Text)
  | '\\' :: 'u' :: s => (scanUnit s).filter fun unit => isLow unit.1
  | _ => none

/-- What follows a `\u`. -/
def scanUnicode (s : Text) : Except PyError (Option Char × Text) :=
  match scanUnit s with
  | none => jsonError "Invalid \\uXXXX escape"
  | some (unit, s) =>
      if isHigh unit then
        match scanLow s with
        | some (low, s) =>
            .ok (some (Char.ofNat (0x10000 + (unit - 0xD800) * 0x400 + (low - 0xDC00))), s)
        | none => jsonError "surrogate without its pair"
      else if isLow unit then jsonError "surrogate without its pair"
      else .ok (some (Char.ofNat unit), s)

/-- The character a letter behind a backslash stands for. -/
def unescape (letter : Char) : Option Char :=
  if letter = '/' then some '/'
  else (escapeLetters.find? fun p => decide (p.2 = letter)).map Prod.fst

/-- What follows a backslash. -/
def scanEscape : Text → Except PyError (Option Char × Text)
  | [] => jsonError "Unterminated string starting at"
  | letter :: s =>
      if letter = 'u' then scanUnicode s
      else
        match unescape letter with
        | some c => .ok (some c, s)
        | none => jsonError "Invalid \\escape"

/-- The next character of a string; `none` is the closing quote. -/
def scanChar : Text → Except PyError (Option Char × Text)
  | [] => jsonError "Unterminated string starting at"
  | c :: s =>
      if c = '"' then .ok (none, s)
      else if c = '\\' then scanEscape s
      else if c.toNat < 0x20 then jsonError "Invalid control character at"
      else .ok (some c, s)

/-- Up to `fuel` characters, and the closing quote. -/
def scanChars : ℕ → Text → Except PyError (Text × Text)
  | 0, _ => .error .outOfFuel
  | fuel + 1, s => do
      let (c, s) ← scanChar s
      match c with
      | none => .ok ([], s)
      | some c =>
          let (t, s) ← scanChars fuel s
          .ok (c :: t, s)

/-- A string, behind its opening quote. -/
def scanString (s : Text) : Except PyError (Text × Text) := scanChars (s.length + 1) s

/-! ## What is printed is read -/

theorem scanUnit_hexUnit {n : ℕ} (hn : n < 0x10000) (s : Text) :
    scanUnit (hexUnit n ++ s) = some (n, s) := by
  have hfour : (hexUnit n).length = 4 := rfl
  have hread : readDigits 16 0 (hexUnit n) = some n := by
    rw [hexUnit, readDigits_append, readDigits_hexByte (by omega), Option.bind_some,
      readDigits_hexByte (Nat.mod_lt _ (by decide))]
    congr 1
    omega
  have htake : (hexUnit n ++ s).take 4 = hexUnit n := by rw [← hfour, List.take_left]
  have hdrop : (hexUnit n ++ s).drop 4 = s := by rw [← hfour, List.drop_left]
  rw [scanUnit, htake, if_pos hfour, hread, hdrop]
  rfl

/-- The scalar values a character can have. -/
theorem toNat_bounds (c : Char) :
    c.toNat < 0xD800 ∨ 0xE000 ≤ c.toNat ∧ c.toNat < 0x110000 := by
  have hvalid : c.toNat < 0xD800 ∨ 0xDFFF < c.toNat ∧ c.toNat < 0x110000 := c.valid
  omega

/-- A pair of escapes stands for the character they were made for. -/
theorem scanUnicode_pair {c : Char} (hc : 0x10000 ≤ c.toNat) (s : Text) :
    scanUnicode (hexUnit (0xD800 + (c.toNat - 0x10000) / 0x400) ++
      (unicodeEscape (0xDC00 + (c.toNat - 0x10000) % 0x400) ++ s)) = .ok (some c, s) := by
  have hbounds := toNat_bounds c
  have hlow : isLow (0xDC00 + (c.toNat - 0x10000) % 0x400) = true :=
    decide_eq_true (by omega)
  have hhigh : isHigh (0xD800 + (c.toNat - 0x10000) / 0x400) = true :=
    decide_eq_true (by omega)
  have hscan : scanLow (unicodeEscape (0xDC00 + (c.toNat - 0x10000) % 0x400) ++ s) =
      some (0xDC00 + (c.toNat - 0x10000) % 0x400, s) := by
    rw [unicodeEscape, List.cons_append, List.cons_append, scanLow,
      scanUnit_hexUnit (by omega), Option.filter_some, if_pos hlow]
  have hvalue : 0x10000 + (0xD800 + (c.toNat - 0x10000) / 0x400 - 0xD800) * 0x400 +
      (0xDC00 + (c.toNat - 0x10000) % 0x400 - 0xDC00) = c.toNat := by omega
  rw [scanUnicode, scanUnit_hexUnit (by omega)]
  simp only [hhigh, hscan, if_true, hvalue, Char.ofNat_toNat]

theorem scanUnicode_hexUnit {c : Char} (hc : c.toNat < 0x10000) (s : Text) :
    scanUnicode (hexUnit c.toNat ++ s) = .ok (some c, s) := by
  have hbounds := toNat_bounds c
  have hhigh : isHigh c.toNat = false := decide_eq_false (by omega)
  have hlow : isLow c.toNat = false := decide_eq_false (by omega)
  rw [scanUnicode, scanUnit_hexUnit hc]
  simp [hhigh, hlow, Char.ofNat_toNat]

/-- The short escapes. -/
theorem unescape_of_mem : ∀ p ∈ escapeLetters, p.2 ≠ 'u' ∧ unescape p.2 = some p.1 := by decide

theorem scanChar_short {p : Char × Char} (hp : p ∈ escapeLetters) (s : Text) :
    scanChar ('\\' :: p.2 :: s) = .ok (some p.1, s) := by
  obtain ⟨hnotU, hback⟩ := unescape_of_mem p hp
  have hescape : scanChar ('\\' :: p.2 :: s) = scanEscape (p.2 :: s) := rfl
  rw [hescape, scanEscape, if_neg hnotU, hback]

theorem scanChar_unicodeEscape (n : ℕ) (s : Text) :
    scanChar (unicodeEscape n ++ s) = scanUnicode (hexUnit n ++ s) := rfl

/-- A character without an escape stands for itself. -/
theorem scanChar_printable {c : Char} (hshort : ∀ p ∈ escapeLetters, p.1 ≠ c)
    (hprint : isPrintable c = true) (s : Text) : scanChar (c :: s) = .ok (some c, s) := by
  have hquote : c ≠ '"' := fun h => hshort ('"', '"') (by decide) h.symm
  have hslash : c ≠ '\\' := fun h => hshort ('\\', '\\') (by decide) h.symm
  have hcontrol : ¬ c.toNat < 0x20 := by
    have hle : (0x20 : UInt32).toNat ≤ c.val.toNat :=
      UInt32.le_iff_toNat_le.1 (of_decide_eq_true hprint).1
    exact not_lt.2 hle
  rw [scanChar, if_neg hquote, if_neg hslash, if_neg hcontrol]

/-- A printed character is read back. -/
theorem scanChar_escape (c : Char) (s : Text) : scanChar (escape c ++ s) = .ok (some c, s) := by
  rw [escape]
  split
  · rename_i p hp
    have hc : p.1 = c := by simpa using List.find?_some hp
    exact (scanChar_short (List.mem_of_find?_eq_some hp) s).trans (by rw [hc])
  · rename_i hnone
    have hshort : ∀ p ∈ escapeLetters, p.1 ≠ c := fun p hp => by
      simpa using List.find?_eq_none.1 hnone p hp
    split_ifs with hprint hbasic
    · exact scanChar_printable hshort hprint s
    · rw [scanChar_unicodeEscape]
      exact scanUnicode_hexUnit hbasic s
    · rw [List.append_assoc, scanChar_unicodeEscape]
      exact scanUnicode_pair (not_lt.1 hbasic) s

/-- A printed string is read back, and what comes behind it is left. -/
theorem scanChars_quoted {fuel : ℕ} {t : Text} (hfuel : t.length < fuel) (s : Text) :
    scanChars fuel (t.flatMap escape ++ '"' :: s) = .ok (t, s) := by
  induction t generalizing fuel with
  | nil =>
      obtain ⟨fuel, rfl⟩ := Nat.exists_eq_succ_of_ne_zero (Nat.ne_zero_of_lt hfuel)
      rfl
  | cons c t ih =>
      obtain ⟨fuel, rfl⟩ := Nat.exists_eq_succ_of_ne_zero (Nat.ne_zero_of_lt hfuel)
      rw [List.flatMap_cons, List.append_assoc, scanChars, scanChar_escape, ok_bind]
      simp only [ih (Nat.lt_of_succ_lt_succ hfuel), ok_bind]

theorem escape_ne_nil (c : Char) : escape c ≠ [] := by
  rw [escape]
  split
  · simp
  · split_ifs <;> simp [unicodeEscape]

theorem length_le_flatMap_escape (t : Text) : t.length ≤ (t.flatMap escape).length := by
  induction t with
  | nil => exact le_refl _
  | cons c t ih =>
      have hpos := List.length_pos_iff.2 (escape_ne_nil c)
      rw [List.flatMap_cons, List.length_append, List.length_cons]
      omega

theorem scanString_quoted (t s : Text) :
    scanString (t.flatMap escape ++ '"' :: s) = .ok (t, s) := by
  have hlength := length_le_flatMap_escape t
  refine scanChars_quoted ?_ s
  rw [List.length_append]
  omega

/-! ## Printable characters -/

theorem isPrintable_digitChar {d : ℕ} (hd : d < 16) : isPrintable (Nat.digitChar d) = true := by
  have hall : ∀ d < 16, isPrintable (Nat.digitChar d) = true := by decide
  exact hall d hd

theorem isPrintable_hexByte {b : ℕ} (hb : b < 256) : ∀ c ∈ hexByte b, isPrintable c = true := by
  simp only [hexByte, List.forall_mem_cons]
  exact ⟨isPrintable_digitChar (by omega), isPrintable_digitChar (by omega),
    List.forall_mem_nil _⟩

theorem isPrintable_unicodeEscape {n : ℕ} (hn : n < 0x10000) :
    ∀ c ∈ unicodeEscape n, isPrintable c = true := by
  simp only [unicodeEscape, hexUnit, List.forall_mem_cons, List.forall_mem_append]
  exact ⟨rfl, rfl, isPrintable_hexByte (by omega), isPrintable_hexByte (by omega)⟩

theorem isPrintable_escape (c : Char) : ∀ a ∈ escape c, isPrintable a = true := by
  have hbounds := toNat_bounds c
  rw [escape]
  split
  · rename_i p hp
    have hall : ∀ p ∈ escapeLetters, isPrintable p.2 = true := by decide
    have hprint := hall p (List.mem_of_find?_eq_some hp)
    simp only [List.forall_mem_cons]
    exact ⟨rfl, hprint, nofun⟩
  · split_ifs with hprint hbasic
    · simpa using hprint
    · exact isPrintable_unicodeEscape hbasic
    · exact List.forall_mem_append.2
        ⟨isPrintable_unicodeEscape (by omega), isPrintable_unicodeEscape (by omega)⟩

/-- There is nothing but printable ASCII characters in a printed string. -/
theorem isPrintable_quoted (t : Text) : ∀ c ∈ quoted t, isPrintable c = true := by
  simp only [quoted, List.forall_mem_cons, List.forall_mem_append, List.mem_flatMap]
  refine ⟨rfl, ?_, rfl, nofun⟩
  rintro c ⟨a, -, hc⟩
  exact isPrintable_escape a c hc

end Json
end Foundation
