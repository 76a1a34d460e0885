import LunaBridge.Foundation.Text

/-!
# Format — numbers with a fixed number of decimals, and texts as bytes

* `fixed d x`, what Python's format code `.df` makes of a number;
* `utf8` and `decodeUtf8`, Python's `encode` and `decode` without an argument.

A text of ASCII characters is one byte for each of them, so it can be cut at a byte as well as at a
character.
-/

namespace Foundation
namespace Text

open Python

/-! ## Fixed point -/

/-- `n` in decimal digits, padded with zeros to at least `d` of them. -/
def zeroPadded (d n : ℕ) : Text :=
  List.replicate (d - (decimal n).length) '0' ++ decimal n

/-- `f"{x:.df}"` for `0 < d`: rounded half to even, with a sign if `x` is negative. -/
def fixed (d : ℕ) (x : ℚ) : Text :=
  let units := (roundHalfEven (|x| * 10 ^ d)).toNat
  (if x < 0 then ['-'] else []) ++ decimal (units / 10 ^ d) ++ '.' :: zeroPadded d (units % 10 ^ d)

theorem not_mem_zeroPadded {d n : ℕ} {c : Char} (hc : c.isDigit = false) : c ∉ zeroPadded d n := by
  intro hmem
  rcases List.mem_append.1 hmem with hmem | hmem
  · rw [List.eq_of_mem_replicate hmem] at hc
    cases hc
  · exact not_mem_decimal hc hmem

/-- Digits, a point and a sign are all there is. -/
theorem not_mem_fixed {d : ℕ} {x : ℚ} {c : Char} (hc : c.isDigit = false) (hpoint : c ≠ '.')
    (hsign : c ≠ '-') : c ∉ fixed d x := by
  have hnumber : ∀ n : ℕ, c ∉ decimal n := fun n => not_mem_decimal hc
  have hdecimals : ∀ n : ℕ, c ∉ zeroPadded d n := fun n => not_mem_zeroPadded hc
  simp only [fixed, List.mem_append, List.mem_cons, hnumber, hdecimals, hpoint, or_false]
  split
  · simpa using hsign
  · simp

/-! ## Bytes -/

/-- `s.encode()`. -/
def utf8 (s : Text) : List UInt8 := s.flatMap String.utf8EncodeChar

/-- `bs.decode()`. -/
def decodeUtf8 (bs : List UInt8) : Except PyError Text :=
  match ByteArray.utf8Decode? bs.toByteArray with
  | some cs => .ok cs.toList
  | none => .error (.valueError "'utf-8' codec can't decode bytes")

theorem decodeUtf8_utf8 (s : Text) : decodeUtf8 (utf8 s) = .ok s := by
  have hbytes : (utf8 s).toByteArray = List.utf8Encode s := rfl
  rw [decodeUtf8, hbytes, List.utf8Decode?_utf8Encode]

/-- The characters that are one byte each. -/
def isAscii (c : Char) : Bool := decide (c.toNat < 128)

theorem utf8EncodeChar_of_isAscii {c : Char} (hc : isAscii c = true) :
    String.utf8EncodeChar c = [UInt8.ofNat c.toNat] := by
  have hval : c.val ≤ 127 := by
    have hlt : c.toNat < 128 := of_decide_eq_true hc
    rw [UInt32.le_iff_toNat_le]
    exact Nat.lt_succ_iff.1 hlt
  have hsize : c.utf8Size = 1 := by simp [Char.utf8Size, hval]
  rw [String.utf8EncodeChar_eq_singleton hsize]
  rfl

theorem utf8_of_isAscii {s : Text} (hs : ∀ c ∈ s, isAscii c = true) :
    utf8 s = s.map fun c => UInt8.ofNat c.toNat := by
  induction s with
  | nil => rfl
  | cons c s ih =>
      rcases List.forall_mem_cons.1 hs with ⟨hc, hrest⟩
      have hcons : utf8 (c :: s) = String.utf8EncodeChar c ++ utf8 s := rfl
      rw [hcons, utf8EncodeChar_of_isAscii hc, ih hrest]
      rfl

/-- A byte that stands for a character of its own is in the bytes of no text without it. -/
theorem not_mem_utf8 {s : Text} {c : Char} (hs : ∀ a ∈ s, isAscii a = true)
    (hc : isAscii c = true) (hnot : c ∉ s) : UInt8.ofNat c.toNat ∉ utf8 s := by
  rw [utf8_of_isAscii hs, List.mem_map]
  rintro ⟨a, ha, heq⟩
  have hlt : a.toNat < 128 := of_decide_eq_true (hs a ha)
  have hlt' : c.toNat < 128 := of_decide_eq_true hc
  have hnat : a.toNat = c.toNat := by
    have := congrArg UInt8.toNat heq
    simpa [Nat.mod_eq_of_lt (show a.toNat < 256 by omega),
      Nat.mod_eq_of_lt (show c.toNat < 256 by omega)] using this
  have hchar : a = c := Char.ext (UInt32.toNat_inj.1 hnat)
  exact hnot (hchar ▸ ha)

theorem isAscii_of_isDigit {c : Char} (hc : c.isDigit = true) : isAscii c = true := by
  simp only [Char.isDigit, Bool.and_eq_true, decide_eq_true_eq, ge_iff_le] at hc
  have hle : c.val.toNat ≤ 57 := UInt32.le_iff_toNat_le.1 hc.2
  exact decide_eq_true (show c.val.toNat < 128 by omega)

example : fixed 3 (1753000000 + 1 / 16) = "1753000000.062".toList := by decide +kernel

end Text
end Foundation
