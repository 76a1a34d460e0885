import LunaBridge.Foundation.Python

/-!
# Text — numbers in digits, and fields between separators

Texts are lists of characters, so that Python's `s.split(sep)` is `splitOn`.  This module has

* `parseInt`, Python's `int(s, base)` on the digits of a number;
* `decimal` and `hexByte`, what prints one;
* `isBlank`, the test `not s.strip()`.
-/

namespace Foundation

open Python

abbrev Text := List Char

namespace Text

/-! ## Reading digits -/

/-- The number a digit or letter stands for. -/
def digitCode (c : Char) : Option ℕ :=
  if '0' ≤ c ∧ c ≤ '9' then some (c.toNat - '0'.toNat)
  else if 'a' ≤ c ∧ c ≤ 'z' then some (c.toNat - 'a'.toNat + 10)
  else if 'A' ≤ c ∧ c ≤ 'Z' then some (c.toNat - 'A'.toNat + 10)
  else none

/-- The value of a digit to this base. -/
def digitValue (base : ℕ) (c : Char) : Option ℕ :=
  (digitCode c).filter fun d => decide (d < base)

/-- The number whose digits are those of `acc` followed by `cs`. -/
def readDigits (base : ℕ) : ℕ → Text → Option ℕ
  | acc, [] => some acc
  | acc, c :: cs =>
      match digitValue base c with
      | some d => readDigits base (base * acc + d) cs
      | none => none

/-- `int(s, base)` for a text of digits.  Signs, blanks, prefixes and underscores, which Python
accepts as well, count as malformed. -/
def parseInt (base : ℕ) (s : Text) : Except PyError ℕ :=
  match if s = [] then none else readDigits base 0 s with
  | some n => .ok n
  | none => .error (.valueError ("invalid literal for int() with base " ++ toString base ++ ": '" ++
      String.ofList s ++ "'"))

theorem readDigits_append (base acc : ℕ) (cs ds : Text) :
    readDigits base acc (cs ++ ds) =
      (readDigits base acc cs).bind fun acc' => readDigits base acc' ds := by
  induction cs generalizing acc with
  | nil => rfl
  | cons c cs ih =>
      rw [List.cons_append, readDigits, readDigits]
      cases digitValue base c with
      | none => rfl
      | some d => exact ih _

theorem digitValue_digitChar {base d : ℕ} (hd : d < base) (hbase : base ≤ 16) :
    digitValue base (Nat.digitChar d) = some d := by
  have hcode : ∀ d < 16, digitCode (Nat.digitChar d) = some d := by decide
  rw [digitValue, hcode d (by omega), Option.filter_some, if_pos (by simpa using hd)]

theorem readDigits_digitChar {base d : ℕ} (acc : ℕ) (hd : d < base) (hbase : base ≤ 16) :
    readDigits base acc [Nat.digitChar d] = some (base * acc + d) := by
  rw [readDigits, digitValue_digitChar hd hbase]
  rfl

/-! ## Blanks -/

/-- `c.isspace()`. -/
def isSpace (c : Char) : Bool :=
  decide (c.toNat ∈ [0x20, 0x85, 0xA0, 0x1680, 0x2028, 0x2029, 0x202F, 0x205F, 0x3000] ∨
    0x09 ≤ c.toNat ∧ c.toNat ≤ 0x0D ∨ 0x1C ≤ c.toNat ∧ c.toNat ≤ 0x1F ∨
    0x2000 ≤ c.toNat ∧ c.toNat ≤ 0x200A)

/-- `not s.strip()`. -/
def isBlank (s : Text) : Bool := s.all isSpace

/-! ## Decimal numbers -/

/-- `str(n)`. -/
def decimal (n : ℕ) : Text := Nat.toDigits 10 n

theorem isDigit_of_mem_decimal {n : ℕ} {c : Char} (hc : c ∈ decimal n) : c.isDigit = true :=
  Nat.isDigit_of_mem_toDigits (by decide) (by decide) hc

/-- No separator occurs in a number. -/
theorem not_mem_decimal {n : ℕ} {c : Char} (hc : c.isDigit = false) : c ∉ decimal n :=
  fun hmem => absurd (isDigit_of_mem_decimal hmem) (by simp [hc])

theorem readDigits_decimal (n : ℕ) : readDigits 10 0 (decimal n) = some n := by
  rw [decimal]
  induction n using Nat.strong_induction_on with
  | _ n ih =>
      by_cases hn : n < 10
      · rw [Nat.toDigits_of_lt_base hn, readDigits_digitChar 0 hn (by decide)]
        simp
      · have hdigits := Nat.toDigits_of_base_le (b := 10) (n := n) (by decide) (by omega)
        rw [hdigits, readDigits_append, ih (n / 10) (by omega), Option.bind_some,
          readDigits_digitChar _ (Nat.mod_lt n (by decide)) (by decide), Nat.div_add_mod]

/-- A number is read back from its digits. -/
theorem parseInt_decimal (n : ℕ) : parseInt 10 (decimal n) = .ok n := by
  have hne : decimal n ≠ [] := Nat.toDigits_ne_nil
  rw [parseInt, if_neg hne, readDigits_decimal]

theorem decimal_injective : Function.Injective decimal := by
  intro m n h
  have hread := readDigits_decimal m
  rw [h, readDigits_decimal n] at hread
  exact (Option.some.inj hread).symm

/-! ## Fields -/

/-- What is neither the separator nor in a field is not in the joined text. -/
theorem not_mem_intercalate {sep c : Char} {fields : List Text} (hsep : c ≠ sep)
    (h : ∀ field ∈ fields, c ∉ field) : c ∉ [sep].intercalate fields := by
  induction fields with
  | nil => simp
  | cons field fields ih =>
      obtain ⟨hfield, hrest⟩ := List.forall_mem_cons.1 h
      cases fields with
      | nil => simpa using hfield
      | cons next fields =>
          rw [List.intercalate_cons_cons, List.mem_append, List.mem_append, List.mem_singleton]
          rintro ((hmem | hmem) | hmem)
          · exact hfield hmem
          · exact hsep hmem
          · exact ih hrest hmem

/-- Joined fields can be told apart again. -/
theorem intercalate_inj {sep : Char} {as bs : List Text} (has : ∀ a ∈ as, sep ∉ a)
    (hbs : ∀ b ∈ bs, sep ∉ b) (has_ne : as ≠ []) (hbs_ne : bs ≠ []) :
    [sep].intercalate as = [sep].intercalate bs ↔ as = bs := by
  constructor
  · intro h
    rw [← List.splitOn_intercalate sep has has_ne, h, List.splitOn_intercalate sep hbs hbs_ne]
  · exact congrArg _

/-! ## Bytes in hexadecimal -/

/-- The two digits of a byte. -/
def hexByte (b : ℕ) : Text := [Nat.digitChar (b / 16), Nat.digitChar (b % 16)]

theorem readDigits_hexByte {b : ℕ} (hb : b < 256) (acc : ℕ) :
    readDigits 16 acc (hexByte b) = some (256 * acc + b) := by
  have hsplit : hexByte b = [Nat.digitChar (b / 16)] ++ [Nat.digitChar (b % 16)] := rfl
  rw [hsplit, readDigits_append, readDigits_digitChar acc (by omega) (le_refl 16),
    Option.bind_some, readDigits_digitChar _ (Nat.mod_lt b (by decide)) (le_refl 16)]
  congr 1
  omega

/-- No separator occurs in a byte. -/
theorem not_mem_hexByte {b : ℕ} (hb : b < 256) {c : Char} (hc : digitCode c = none) :
    c ∉ hexByte b := by
  have hcode : ∀ d < 16, digitCode (Nat.digitChar d) = some d := by decide
  have hdigit : ∀ d < 16, c ≠ Nat.digitChar d := by
    rintro d hd rfl
    rw [hcode d hd] at hc
    cases hc
  rw [hexByte, List.mem_cons, List.mem_singleton, not_or]
  exact ⟨hdigit _ (by omega), hdigit _ (by omega)⟩

end Text
end Foundation
