import LunaBridge.Foundation.Double
import LunaBridge.Foundation.Format
import Mathlib.Data.List.DropRight

/-!
# FloatText — how a double is printed, and how a number is read

* `NumberText`, a number in digits: a whole part, a fraction and a power of ten;
* `lexNumber`, which takes one off the front of a text and leaves the rest;
* `floatRepr`, Python's `repr` of a float.

A number in digits is read as it was written, as long as no character that could continue it follows
(`lexNumber_text`), and the double nearest to the digits that `repr` prints is the double they were
printed for (`magnitudeText_spec`).
-/

namespace Foundation
namespace Text

open Python

/-! ## Digits -/

/-- The number some digits stand for. -/
def digitsValue (s : Text) : ℕ := (readDigits 10 0 s).getD 0

/-- Digits only. -/
def Digits (s : Text) : Prop := ∀ c ∈ s, c.isDigit = true

theorem Digits.append {s t : Text} (hs : Digits s) (ht : Digits t) : Digits (s ++ t) :=
  List.forall_mem_append.2 ⟨hs, ht⟩

theorem digits_replicate_zero (k : ℕ) : Digits (List.replicate k '0') := by
  intro c hc
  rw [List.eq_of_mem_replicate hc]
  rfl

theorem digits_decimal (n : ℕ) : Digits (decimal n) := fun _ => isDigit_of_mem_decimal

theorem digitValue_of_isDigit {c : Char} (hc : c.isDigit = true) :
    ∃ d, digitValue 10 c = some d := by
  have hbounds : '0' ≤ c ∧ c ≤ '9' := by
    simp only [Char.isDigit, Bool.and_eq_true, decide_eq_true_eq] at hc
    exact hc
  have hle : c.toNat ≤ 57 := UInt32.le_iff_toNat_le.1 hbounds.2
  refine ⟨c.toNat - '0'.toNat, ?_⟩
  rw [digitValue, digitCode, if_pos hbounds, Option.filter_some, if_pos]
  simp only [decide_eq_true_eq]
  have hzero : '0'.toNat = 48 := rfl
  omega

/-- Digits are read one after the other. -/
theorem readDigits_of_digits {s : Text} (hs : Digits s) (acc : ℕ) :
    readDigits 10 acc s = some (acc * 10 ^ s.length + digitsValue s) := by
  have hall : ∀ acc, ∃ n, readDigits 10 0 s = some n ∧
      readDigits 10 acc s = some (acc * 10 ^ s.length + n) := by
    induction s with
    | nil => exact fun acc => ⟨0, rfl, by simp [readDigits]⟩
    | cons c s ih =>
        obtain ⟨hc, hrest⟩ := List.forall_mem_cons.1 hs
        obtain ⟨d, hd⟩ := digitValue_of_isDigit hc
        intro acc
        obtain ⟨n, hn, hacc⟩ := ih hrest (10 * acc + d)
        obtain ⟨n', hn', hzero⟩ := ih hrest (10 * 0 + d)
        obtain rfl : n' = n := Option.some.inj (hn'.symm.trans hn)
        refine ⟨(10 * 0 + d) * 10 ^ s.length + n', by rw [readDigits, hd]; exact hzero, ?_⟩
        rw [readDigits, hd]
        refine hacc.trans (congrArg some ?_)
        rw [List.length_cons, pow_succ]
        ring
  obtain ⟨n, hn, hacc⟩ := hall acc
  rw [hacc, digitsValue, hn]
  rfl

theorem digitsValue_append {s t : Text} (hs : Digits s) (ht : Digits t) :
    digitsValue (s ++ t) = digitsValue s * 10 ^ t.length + digitsValue t := by
  rw [digitsValue, readDigits_append, readDigits_of_digits hs, Option.bind_some,
    readDigits_of_digits ht]
  simp

@[simp] theorem digitsValue_decimal (n : ℕ) : digitsValue (decimal n) = n := by
  rw [digitsValue, readDigits_decimal]
  rfl

@[simp] theorem digitsValue_replicate_zero (k : ℕ) : digitsValue (List.replicate k '0') = 0 := by
  induction k with
  | zero => rfl
  | succ k ih =>
      have hone : Digits ['0'] := digits_replicate_zero 1
      rw [List.replicate_succ, ← List.singleton_append,
        digitsValue_append hone (digits_replicate_zero k), ih, add_zero]
      exact Nat.mul_eq_zero.2 (Or.inl (by decide))

/-- The first digit of a positive number is not a zero. -/
theorem exists_decimal_cons {n : ℕ} (hn : 0 < n) : ∃ c cs, decimal n = c :: cs ∧ c ≠ '0' := by
  induction n using Nat.strong_induction_on with
  | _ n ih =>
      by_cases hlt : n < 10
      · have hdigit : ∀ d < 10, Nat.digitChar d = '0' → d = 0 := by decide
        exact ⟨Nat.digitChar n, [], Nat.toDigits_of_lt_base hlt,
          fun hzero => hn.ne' (hdigit n hlt hzero)⟩
      · obtain ⟨c, cs, hcs, hc⟩ := ih (n / 10) (Nat.div_lt_self hn (by decide)) (by omega)
        have hsplit : decimal n = decimal (n / 10) ++ [Nat.digitChar (n % 10)] :=
          Nat.toDigits_of_base_le (by decide) (not_lt.1 hlt)
        exact ⟨c, cs ++ [Nat.digitChar (n % 10)], by rw [hsplit, hcs]; rfl, hc⟩

/-! ## Numbers in digits -/

/-- A whole part, a fraction and a power of ten; a power has a sign and digits. -/
structure NumberText where
  whole : Text
  fraction : Text
  power : Option (Bool × Text)
  deriving DecidableEq, Repr

namespace NumberText

variable (n : NumberText)

/-- How it is written. -/
def text : Text :=
  n.whole ++ (if n.fraction = [] then [] else '.' :: n.fraction) ++
    match n.power with
    | none => []
    | some (negative, digits) => 'e' :: (if negative then '-' else '+') :: digits

/-- The exponent of ten. -/
def exponent : ℤ :=
  match n.power with
  | none => 0
  | some (true, digits) => -digitsValue digits
  | some (false, digits) => digitsValue digits

@[simp] theorem exponent_of_no_power (whole fraction : Text) :
    (NumberText.mk whole fraction none).exponent = 0 := rfl

/-- What it stands for. -/
def toRat : ℚ := digitsValue (n.whole ++ n.fraction) * 10 ^ (n.exponent - n.fraction.length)

/-- It is a float unless it is written as a whole number. -/
def isFloat : Bool := decide (n.fraction ≠ [] ∨ n.power ≠ none)

/-- No zero comes first, unless it is alone, and a power has digits. -/
structure Wellformed : Prop where
  whole : n.whole = ['0'] ∨ ∃ c cs, n.whole = c :: cs ∧ c ≠ '0'
  digits : Digits n.whole
  fraction : Digits n.fraction
  power : ∀ negative ds, n.power = some (negative, ds) → ds ≠ [] ∧ Digits ds

end NumberText

/-! ## Reading -/

/-- `0`, or digits that begin with another one. -/
def lexWhole : Text → Option (Text × Text)
  | [] => none
  | c :: s =>
      if c = '0' then some (['0'], s)
      else if c.isDigit then some ((c :: s).span Char.isDigit)
      else none

/-- A point is read with the digits behind it, if there are any. -/
def lexFraction : Text → Text × Text
  | '.' :: s => if (s.span Char.isDigit).1 = [] then ([], '.' :: s) else s.span Char.isDigit
  | s => ([], s)

/-- The sign of a power. -/
def lexSign : Text → Bool × Text
  | '-' :: s => (true, s)
  | '+' :: s => (false, s)
  | s => (false, s)

/-- An `e` is read with the number behind it, if there is one. -/
def lexPower : Text → Option (Bool × Text) × Text
  | [] => (none, [])
  | c :: s =>
      if c = 'e' ∨ c = 'E' then
        let digits := (lexSign s).2.span Char.isDigit
        if digits.1 = [] then (none, c :: s)
        else (some ((lexSign s).1, digits.1), digits.2)
      else (none, c :: s)

/-- The longest number in front of a text, and the rest. -/
def lexNumber (s : Text) : Option (NumberText × Text) :=
  (lexWhole s).map fun whole =>
    let fraction := lexFraction whole.2
    let power := lexPower fraction.2
    ({ whole := whole.1, fraction := fraction.1, power := power.1 }, power.2)

/-- No character that could continue a number. -/
def NumberEnds : Text → Prop
  | [] => True
  | c :: _ => c.isDigit = false ∧ c ≠ '.' ∧ c ≠ 'e' ∧ c ≠ 'E'

theorem span_digits {ds s : Text} (hds : Digits ds) (hs : ∀ c ∈ s.head?, c.isDigit = false) :
    (ds ++ s).span Char.isDigit = (ds, s) := by
  rw [List.span_eq_takeWhile_dropWhile, List.takeWhile_append_of_pos hds,
    List.dropWhile_append_of_pos hds]
  cases s with
  | nil => simp
  | cons c s =>
      have hc : c.isDigit = false := hs c rfl
      simp [hc]

theorem NumberEnds.head {s : Text} (h : NumberEnds s) : ∀ c ∈ s.head?, c.isDigit = false := by
  cases s with
  | nil => exact nofun
  | cons c s =>
      rintro _ ⟨⟩
      exact h.1

theorem lexWhole_append {n : NumberText} (h : n.Wellformed) {s : Text}
    (hs : ∀ c ∈ s.head?, c.isDigit = false) : lexWhole (n.whole ++ s) = some (n.whole, s) := by
  rcases h.whole with hzero | ⟨c, cs, hcons, hc⟩
  · rw [hzero]
    rfl
  · have hdigit : c.isDigit = true := h.digits c (by simp [hcons])
    have hspan := span_digits h.digits hs
    rw [hcons] at hspan ⊢
    rw [List.cons_append, lexWhole, if_neg hc, if_pos hdigit, ← List.cons_append, hspan]

/-- The power of a number in front of `s`. -/
theorem lexPower_append {n : NumberText} (h : n.Wellformed) {s : Text} (hs : NumberEnds s) :
    lexPower ((match n.power with
      | none => []
      | some (negative, digits) => 'e' :: (if negative then '-' else '+') :: digits) ++ s) =
        (n.power, s) := by
  cases hpower : n.power with
  | none =>
      cases s with
      | nil => rfl
      | cons c s => simp [lexPower, hs.2.2.1, hs.2.2.2]
  | some p =>
      obtain ⟨negative, digits⟩ := p
      obtain ⟨hne, hdigits⟩ := h.power negative digits hpower
      have hspan := span_digits hdigits hs.head
      have hsign : lexSign ((if negative then '-' else '+') :: (digits ++ s)) =
          (negative, digits ++ s) := by
        cases negative <;> rfl
      simp only [List.cons_append, lexPower, true_or, if_true, hsign, hspan, if_neg hne]

/-- A point, a power and what ends a number are no digits. -/
theorem head_power_not_digit (n : NumberText) {s : Text} (hs : NumberEnds s) :
    ∀ c ∈ ((match n.power with
      | none => []
      | some (negative, digits) => 'e' :: (if negative then '-' else '+') :: digits) ++ s).head?,
        c.isDigit = false ∧ c ≠ '.' := by
  cases n.power with
  | none =>
      cases s with
      | nil => exact nofun
      | cons c s =>
          rintro _ ⟨⟩
          exact ⟨hs.1, hs.2.1⟩
  | some p =>
      rintro _ ⟨⟩
      decide

/-- The fraction of a number in front of `s`. -/
theorem lexFraction_append {n : NumberText} (h : n.Wellformed) {s : Text}
    (hs : ∀ c ∈ s.head?, c.isDigit = false ∧ c ≠ '.') :
    lexFraction ((if n.fraction = [] then [] else '.' :: n.fraction) ++ s) = (n.fraction, s) := by
  by_cases hnil : n.fraction = []
  · rw [if_pos hnil, hnil, List.nil_append]
    cases s with
    | nil => rfl
    | cons c s =>
        have hc : c ≠ '.' := (hs c rfl).2
        rw [lexFraction]
        rintro s' ⟨⟩
        exact hc rfl
  · have hspan := span_digits h.fraction fun c hc => (hs c hc).1
    rw [if_neg hnil, List.cons_append, lexFraction, hspan, if_neg hnil]

/-- A number is read as it was written, and what comes behind it is left. -/
theorem lexNumber_text {n : NumberText} (h : n.Wellformed) {s : Text} (hs : NumberEnds s) :
    lexNumber (n.text ++ s) = some (n, s) := by
  have hpower := lexPower_append h hs
  have hend := head_power_not_digit n hs
  have hfraction := lexFraction_append h hend
  have hpoint : ∀ c ∈ ((if n.fraction = [] then [] else '.' :: n.fraction) ++ ((match n.power with
      | none => []
      | some (negative, digits) => 'e' :: (if negative then '-' else '+') :: digits) ++ s)).head?,
        c.isDigit = false := by
    by_cases hnil : n.fraction = []
    · rw [if_pos hnil, List.nil_append]
      exact fun c hc => (hend c hc).1
    · rw [if_neg hnil]
      rintro _ ⟨⟩
      rfl
  rw [NumberText.text, List.append_assoc, List.append_assoc, lexNumber, lexWhole_append h hpoint,
    Option.map_some]
  simp only [hfraction, hpower]

/-! ## repr -/

/-- The digits of a decimal, without the zeros at the end. -/
def significant (n : ℕ) : Text := (decimal n).rdropWhile fun c => decide (c = '0')

/-- The digits `ds` with the decimal point behind the first `point` of them. -/
def place (ds : Text) (point : ℤ) : NumberText :=
  if point ≤ -4 ∨ 16 < point then
    { whole := ds.take 1
      fraction := ds.drop 1
      power := some (decide (point - 1 < 0), zeroPadded 2 (point - 1).natAbs) }
  else if point ≤ 0 then
    { whole := ['0'], fraction := List.replicate (-point).toNat '0' ++ ds, power := none }
  else if ds.length ≤ point.toNat then
    { whole := ds ++ List.replicate (point.toNat - ds.length) '0'
      fraction := ['0']
      power := none }
  else
    { whole := ds.take point.toNat, fraction := ds.drop point.toNat, power := none }

/-- The digits of a positive double. -/
def floatDigits (x : ℚ) : NumberText :=
  match shortest x with
  | some d => place (significant d.digits) ((decimal d.digits).length + d.exponent)
  -- no double comes here
  | none => { whole := ['0'], fraction := ['0'], power := none }

/-- The number a non-negative double is printed as. -/
def magnitudeText (x : ℚ) : NumberText :=
  if x = 0 then { whole := ['0'], fraction := ['0'], power := none } else floatDigits x

/-- `repr(x)` of a float. -/
def floatRepr (x : ℚ) : Text :=
  (if x < 0 then ['-'] else []) ++ (magnitudeText |x|).text

/-- How an f-string prints a float. -/
def floatText (x : ℚ) : String := String.ofList (floatRepr x)

/-! ## Printing and reading -/

theorem digits_zeroPadded (d n : ℕ) : Digits (zeroPadded d n) :=
  (digits_replicate_zero _).append (digits_decimal n)

@[simp] theorem digitsValue_zeroPadded (d n : ℕ) : digitsValue (zeroPadded d n) = n := by
  rw [zeroPadded, digitsValue_append (digits_replicate_zero _) (digits_decimal n),
    digitsValue_replicate_zero, digitsValue_decimal, zero_mul, zero_add]

/-- Digits that begin with another one than zero. -/
structure LeadingDigits (ds : Text) : Prop where
  digits : Digits ds
  cons : ∃ c cs, ds = c :: cs ∧ c ≠ '0'

theorem LeadingDigits.length_pos {ds : Text} (h : LeadingDigits ds) : 0 < ds.length := by
  obtain ⟨c, cs, rfl, -⟩ := h.cons
  exact Nat.succ_pos _

/-- Any digits but none begin as all of them do. -/
theorem LeadingDigits.take {ds : Text} (h : LeadingDigits ds) {k : ℕ} (hk : 0 < k) :
    ∃ c cs, ds.take k = c :: cs ∧ c ≠ '0' := by
  obtain ⟨c, cs, rfl, hc⟩ := h.cons
  obtain ⟨k, rfl⟩ := Nat.exists_eq_succ_of_ne_zero hk.ne'
  exact ⟨c, cs.take k, rfl, hc⟩

/-- Zeros in front change nothing. -/
theorem digitsValue_zeros_append (k : ℕ) {ds : Text} (hds : Digits ds) :
    digitsValue (List.replicate k '0' ++ ds) = digitsValue ds := by
  rw [digitsValue_append (digits_replicate_zero k) hds, digitsValue_replicate_zero, zero_mul,
    zero_add]

/-- Zeros behind multiply by ten. -/
theorem digitsValue_append_zeros (k : ℕ) {ds : Text} (hds : Digits ds) :
    digitsValue (ds ++ List.replicate k '0') = digitsValue ds * 10 ^ k := by
  rw [digitsValue_append hds (digits_replicate_zero k), digitsValue_replicate_zero,
    List.length_replicate, add_zero]

/-- The digits of a positive number and the zeros behind them. -/
theorem decimal_eq_significant {n : ℕ} (hn : 0 < n) :
    ∃ k, decimal n = significant n ++ List.replicate k '0' ∧ LeadingDigits (significant n) := by
  have hsplit := (List.rdropWhile_append_rtakeWhile (p := fun c => decide (c = '0'))
    (l := decimal n)).symm
  have hzeros : (decimal n).rtakeWhile (fun c => decide (c = '0')) =
      List.replicate ((decimal n).rtakeWhile fun c => decide (c = '0')).length '0' :=
    List.eq_replicate_of_mem fun c hc => by simpa using List.mem_rtakeWhile_imp hc
  rw [hzeros] at hsplit
  refine ⟨_, hsplit, ?_, ?_⟩
  · exact fun c hc => digits_decimal n c (hsplit ▸ List.mem_append_left _ hc)
  · obtain ⟨c, cs, hcons, hc⟩ := exists_decimal_cons hn
    rw [hcons] at hsplit
    match hsig : significant n with
    | [] =>
        -- the first digit would be one of the zeros
        rw [significant, hcons] at hsig
        rw [hsig, List.nil_append] at hsplit
        exact absurd (List.eq_of_mem_replicate (hsplit ▸ List.mem_cons_self)) hc
    | c' :: cs' =>
        rw [significant, hcons] at hsig
        rw [hsig, List.cons_append] at hsplit
        exact ⟨c', cs', rfl, (List.cons.inj hsplit).1 ▸ hc⟩

/-- Wherever the point is put, the number is written as a float. -/
theorem place_wellformed {ds : Text} (h : LeadingDigits ds) (point : ℤ) :
    (place ds point).Wellformed ∧ (place ds point).isFloat = true := by
  have htake : ∀ k, Digits (ds.take k) := fun k c hc => h.digits c (List.mem_of_mem_take hc)
  have hdrop : ∀ k, Digits (ds.drop k) := fun k c hc => h.digits c (List.mem_of_mem_drop hc)
  have hpos := h.length_pos
  rw [place]
  split_ifs with hexp hzero hwhole
  · refine ⟨⟨Or.inr (h.take Nat.one_pos), htake 1, hdrop 1, ?_⟩, by simp [NumberText.isFloat]⟩
    rintro negative digits ⟨⟩
    refine ⟨?_, digits_zeroPadded _ _⟩
    simp [zeroPadded, decimal, Nat.toDigits_ne_nil]
  · refine ⟨⟨Or.inl rfl, digits_replicate_zero 1, (digits_replicate_zero _).append h.digits,
      fun _ _ hpower => by cases hpower⟩, ?_⟩
    simp [NumberText.isFloat, List.ne_nil_of_length_pos hpos]
  · obtain ⟨c, cs, hcons, hc⟩ := h.cons
    exact ⟨⟨Or.inr ⟨c, cs ++ List.replicate _ '0', by rw [hcons]; rfl, hc⟩,
      h.digits.append (digits_replicate_zero _), digits_replicate_zero 1,
      fun _ _ hpower => by cases hpower⟩, rfl⟩
  · refine ⟨⟨Or.inr (h.take (by omega)), htake _, hdrop _, fun _ _ hpower => by cases hpower⟩, ?_⟩
    have hne : ds.drop point.toNat ≠ [] := List.ne_nil_of_length_pos (by
      rw [List.length_drop]
      omega)
    simp [NumberText.isFloat, hne]

/-- What the digits with the point stand for. -/
theorem place_toRat {ds : Text} (h : LeadingDigits ds) (point : ℤ) :
    (place ds point).toRat = digitsValue ds * 10 ^ (point - ds.length) := by
  have hten : (10 : ℚ) ≠ 0 := by norm_num
  have hpos := h.length_pos
  rw [place]
  split_ifs with hexp hzero hwhole
  · have hexponent : NumberText.exponent
        { whole := ds.take 1, fraction := ds.drop 1,
          power := some (decide (point - 1 < 0), zeroPadded 2 (point - 1).natAbs) } =
        point - 1 := by
      by_cases hneg : point - 1 < 0
      · simp only [NumberText.exponent, decide_eq_true hneg, digitsValue_zeroPadded]
        omega
      · simp only [NumberText.exponent, decide_eq_false hneg, digitsValue_zeroPadded]
        omega
    rw [NumberText.toRat, hexponent, List.take_append_drop, List.length_drop]
    congr 2
    omega
  · have hdigits : digitsValue (['0'] ++ (List.replicate (-point).toNat '0' ++ ds)) =
        digitsValue ds := by
      rw [← List.append_assoc]
      exact digitsValue_zeros_append ((-point).toNat + 1) h.digits
    rw [NumberText.toRat, NumberText.exponent_of_no_power, hdigits, List.length_append,
      List.length_replicate]
    congr 2
    omega
  · have hdigits : digitsValue (ds ++ List.replicate (point.toNat - ds.length) '0' ++ ['0']) =
        digitsValue ds * 10 ^ (point.toNat - ds.length + 1) := by
      rw [List.append_assoc, ← digitsValue_append_zeros _ h.digits, List.replicate_succ']
    rw [NumberText.toRat, NumberText.exponent_of_no_power, hdigits, Nat.cast_mul, mul_assoc,
      Nat.cast_pow, ← zpow_natCast, Nat.cast_ofNat, ← zpow_add₀ hten]
    congr 2
    rw [List.length_singleton]
    omega
  · rw [NumberText.toRat, NumberText.exponent_of_no_power, List.take_append_drop, List.length_drop]
    congr 2
    omega

theorem floatDigits_eq {x : ℚ} {d : Decimal} (h : shortest x = some d) :
    floatDigits x = place (significant d.digits) ((decimal d.digits).length + d.exponent) := by
  unfold floatDigits
  generalize shortest x = found at h ⊢
  subst h
  rfl

/-- The digits of a positive double are its own. -/
theorem floatDigits_spec {x : ℚ} (hpos : 0 < x) (hx : IsDouble x) :
    (floatDigits x).Wellformed ∧ (floatDigits x).isFloat = true ∧
      nearestDouble (floatDigits x).toRat = x := by
  obtain ⟨d, hd, hback, hdigits⟩ := exists_shortest hpos hx
  obtain ⟨k, hsplit, hleading⟩ := decimal_eq_significant hdigits
  have hplace := place_wellformed hleading ((decimal d.digits).length + d.exponent)
  rw [floatDigits_eq hd]
  refine ⟨hplace.1, hplace.2, ?_⟩
  rw [place_toRat hleading]
  have hvalue : (d.digits : ℚ) = digitsValue (significant d.digits) * 10 ^ k := by
    have hdecimal := congrArg digitsValue hsplit
    rw [digitsValue_decimal, digitsValue_append_zeros k hleading.digits] at hdecimal
    exact_mod_cast hdecimal
  have hlength : ((decimal d.digits).length : ℤ) = (significant d.digits).length + k := by
    rw [hsplit, List.length_append, List.length_replicate, Nat.cast_add]
  refine (congrArg nearestDouble ?_).trans hback
  rw [Decimal.toRat, hvalue, mul_assoc, ← zpow_natCast, ← zpow_add₀ (by norm_num), hlength,
    add_assoc, add_sub_cancel_left]

/-- So are those of zero. -/
theorem magnitudeText_spec {x : ℚ} (hnonneg : 0 ≤ x) (hx : IsDouble x) :
    (magnitudeText x).Wellformed ∧ (magnitudeText x).isFloat = true ∧
      nearestDouble (magnitudeText x).toRat = x := by
  rw [magnitudeText]
  split_ifs with hzero
  · refine ⟨⟨Or.inl rfl, digits_replicate_zero 1, digits_replicate_zero 1, nofun⟩, rfl, ?_⟩
    have hdigits : digitsValue (['0'] ++ ['0']) = 0 := digitsValue_replicate_zero 2
    rw [NumberText.toRat, hdigits, hzero]
    simp [nearestDouble]
  · exact floatDigits_spec (lt_of_le_of_ne hnonneg (Ne.symm hzero)) hx

example : floatRepr (1000000 + 1 / 4) = "1000000.25".toList := by decide +kernel

end Text
end Foundation
