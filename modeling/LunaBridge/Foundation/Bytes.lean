import LunaBridge.Foundation.Python
import Mathlib.Data.Nat.Digits.Lemmas

/-!
# Bytes — fixed-width integers in byte strings

Byte strings are lists of `UInt8`, sliced by `take` and `drop`.  This module has

* `index`, Python's `bs[i]`, which raises past the end;
* `leBytes` and `Endian.encode`, the bytes of a number in either byte order;
* `unpackI` and `unpackIIII`, what `struct.unpack` makes of one and of four 32-bit integers.
-/

namespace Foundation
namespace Bytes

open Python

/-! ## Indexing -/

/-- `bs[i]`. -/
def index (bs : List UInt8) (i : ℕ) : Except PyError UInt8 :=
  match bs[i]? with
  | some b => .ok b
  | none => .error .indexError

theorem index_of_some {bs : List UInt8} {i : ℕ} {b : UInt8} (h : bs[i]? = some b) :
    index bs i = .ok b := by
  rw [index, h]

theorem index_of_le {bs : List UInt8} {i : ℕ} (h : bs.length ≤ i) :
    index bs i = .error .indexError := by
  rw [index, List.getElem?_eq_none h]

/-- The result of a read goes on to the rest. -/
theorem ok_bind {ε α β : Type} (a : α) (f : α → Except ε β) : (Except.ok a >>= f) = f a := rfl

theorem exists_index (bs : List UInt8) {i : ℕ} (h : i < bs.length) :
    ∃ b, bs[i]? = some b ∧ index bs i = .ok b :=
  ⟨bs[i], List.getElem?_eq_getElem h, index_of_some (List.getElem?_eq_getElem h)⟩

/-! ## Byte orders -/

inductive Endian
  | little
  | big
  deriving DecidableEq, Repr

/-- The `w` low bytes of `n`, least significant first. -/
def leBytes : ℕ → ℕ → List UInt8
  | 0, _ => []
  | w + 1, n => UInt8.ofNat n :: leBytes w (n / 256)

/-- The number whose bytes are `bs`, least significant first. -/
def leNat (bs : List UInt8) : ℕ := Nat.ofDigits 256 (bs.map UInt8.toNat)

@[simp] theorem leBytes_length (w n : ℕ) : (leBytes w n).length = w := by
  induction w generalizing n with
  | zero => rfl
  | succ w ih => simp [leBytes, ih]

theorem leNat_leBytes {w n : ℕ} (h : n < 256 ^ w) : leNat (leBytes w n) = n := by
  induction w generalizing n with
  | zero =>
      have hn : n = 0 := by simpa using h
      subst hn
      rfl
  | succ w ih =>
      have hrest : leNat (leBytes w (n / 256)) = n / 256 :=
        ih (Nat.div_lt_of_lt_mul (by rwa [pow_succ, mul_comm] at h))
      have hlow : (UInt8.ofNat n).toNat = n % 256 := UInt8.toNat_ofNat'
      calc leNat (leBytes (w + 1) n)
          _ = (UInt8.ofNat n).toNat + 256 * leNat (leBytes w (n / 256)) := by
            rw [leNat, leBytes, List.map_cons, Nat.ofDigits_cons]
            rfl
          _ = n := by rw [hlow, hrest, Nat.mod_add_div]

namespace Endian

/-- The `w` low bytes of `n` in byte order `e`. -/
def encode (e : Endian) (w n : ℕ) : List UInt8 :=
  match e with
  | little => leBytes w n
  | big => (leBytes w n).reverse

/-- The number whose bytes in byte order `e` are `bs`. -/
def decode (e : Endian) (bs : List UInt8) : ℕ :=
  match e with
  | little => leNat bs
  | big => leNat bs.reverse

@[simp] theorem encode_length (e : Endian) (w n : ℕ) : (e.encode w n).length = w := by
  cases e <;> simp [encode]

theorem decode_encode (e : Endian) {w n : ℕ} (h : n < 256 ^ w) :
    e.decode (e.encode w n) = n := by
  cases e <;> simp [encode, decode, leNat_leBytes h]

end Endian

/-! ## struct.unpack -/

/-- `struct.unpack("<I", bs)` or `struct.unpack(">I", bs)`; any other length raises. -/
def unpackI (e : Endian) (bs : List UInt8) : Except PyError ℕ :=
  if bs.length = 4 then .ok (e.decode bs) else .error .structError

theorem unpackI_of_length {e : Endian} {bs : List UInt8} (h : bs.length = 4) :
    unpackI e bs = .ok (e.decode bs) := if_pos h

/-- `struct.unpack("<IIII", bs)` or `struct.unpack(">IIII", bs)`. -/
def unpackIIII (e : Endian) (bs : List UInt8) : Except PyError (ℕ × ℕ × ℕ × ℕ) :=
  if bs.length = 16 then
    .ok (e.decode (bs.take 4), e.decode ((bs.drop 4).take 4), e.decode ((bs.drop 8).take 4),
      e.decode ((bs.drop 12).take 4))
  else
    .error .structError

end Bytes
end Foundation
