import LunaBridge.Foundation.Python
import LunaBridge.Gateway.Traffic
import Mathlib.Data.Nat.Bitwise

/-!
# PriorityClassifier — from the DS field of a packet to its traffic class

The sender writes a codepoint into the upper six bits of one byte (`dscpToTos`), which an IPv6
packet splits over two; the interceptor reads them back (`extractDscp`) and looks the codepoint up
(`classifyPacket`).  Marks survive this (`classify_marked`), and no byte string is out of the range
that the lookup accepts (`extractDscp_lt`).
-/

namespace LunaBridge
namespace Gateway

open Foundation.Python

/-! ## Codepoints -/

/-- `DSCP_TO_CLASS`. -/
def dscpToClass : List (ℤ × TrafficClass) :=
  [(46, .emergency), (56, .emergency), (48, .emergency), (40, .emergency),
    (34, .media), (36, .media), (38, .media),
    (26, .telemetry), (28, .telemetry), (30, .telemetry),
    (18, .scienceBulk), (20, .scienceBulk), (22, .scienceBulk),
    (10, .scienceBulk), (12, .scienceBulk), (14, .scienceBulk),
    (16, .telemetry), (8, .scienceBulk), (0, .scienceBulk)]

/-- `DEFAULT_CLASS`. -/
def defaultClass : TrafficClass := .scienceBulk

/-- `classify_packet`. -/
def classifyPacket (dscp : ℤ) : Except PyError TrafficClass :=
  if 0 ≤ dscp ∧ dscp ≤ 63 then
    .ok ((dscpToClass.lookup dscp).getD defaultClass)
  else
    .error (.valueError ("DSCP out of range 0-63: " ++ toString dscp))

/-- `PRIMARY_DSCP`, the mark the traffic model gives to each class. -/
def primaryDscp : TrafficClass → ℕ
  | .emergency => 46
  | .telemetry => 26
  | .scienceBulk => 10
  | .media => 34

/-- `dscp_to_tos`. -/
def dscpToTos (dscp : ℕ) : ℕ := (dscp &&& 0x3F) <<< 2

/-! ## The DS field of a packet -/

/-- The DS field of an IPv6 packet, put together from the halves of its first two bytes. -/
def trafficClassByte (first second : ℕ) : ℕ :=
  ((first &&& 0x0F) <<< 4) ||| ((second &&& 0xF0) >>> 4)

/-- `_extract_dscp`. -/
def extractDscp : List UInt8 → ℕ
  | first :: second :: _ =>
      if first.toNat >>> 4 = 6 then
        (trafficClassByte first.toNat second.toNat >>> 2) &&& 0x3F
      else
        (second.toNat >>> 2) &&& 0x3F
  -- fewer than two bytes
  | _ => 0

/-- The upper six of eight bits. -/
theorem upperSix (n : ℕ) : (n >>> 2) &&& 0x3F = n / 4 % 64 := by
  rw [Nat.shiftRight_eq_div_pow]
  exact Nat.and_two_pow_sub_one_eq_mod _ 6

theorem extractDscp_lt (payload : List UInt8) : extractDscp payload < 64 := by
  have hsix : ∀ n, (n >>> 2) &&& 0x3F < 64 := fun n => by
    rw [upperSix]
    exact Nat.mod_lt _ (by decide)
  unfold extractDscp
  split
  · split_ifs
    · exact hsix _
    · exact hsix _
  · decide

/-- Every packet has a class. -/
theorem classifyPacket_extractDscp (payload : List UInt8) :
    classifyPacket (extractDscp payload) =
      .ok ((dscpToClass.lookup (extractDscp payload : ℤ)).getD defaultClass) := by
  have hlt := extractDscp_lt payload
  rw [classifyPacket, if_pos]
  omega

theorem trafficClassByte_eq {first second : ℕ} (hsecond : second < 256) :
    trafficClassByte first second = first % 16 * 16 + second / 16 := by
  have hlow : first &&& 0x0F = first % 16 := Nat.and_two_pow_sub_one_eq_mod _ 4
  have hhigh : (second &&& 0xF0) >>> 4 = second / 16 := by
    rw [Nat.shiftRight_and_distrib, Nat.shiftRight_eq_div_pow]
    have hmask : second / 2 ^ 4 &&& 0xF0 >>> 4 = second / 2 ^ 4 % 16 :=
      Nat.and_two_pow_sub_one_eq_mod _ 4
    rw [hmask]
    omega
  rw [trafficClassByte, hlow, hhigh, ← Nat.shiftLeft_add_eq_or_of_lt (by omega),
    Nat.shiftLeft_eq]

/-- The two kinds of packets that carry the byte `tos`. -/
inductive Carries (tos : ℕ) : List UInt8 → Prop
  | ipv4 {first second : UInt8} {rest : List UInt8} (hversion : first.toNat >>> 4 ≠ 6)
      (htos : second.toNat = tos) : Carries tos (first :: second :: rest)
  | ipv6 {first second : UInt8} {rest : List UInt8} (hversion : first.toNat >>> 4 = 6)
      (htos : first.toNat % 16 * 16 + second.toNat / 16 = tos) :
      Carries tos (first :: second :: rest)

/-- What is read of the byte are its upper six bits. -/
theorem extractDscp_of_carries {tos : ℕ} {payload : List UInt8} (htos : tos < 256)
    (h : Carries tos payload) : extractDscp payload = tos / 4 := by
  cases h with
  | ipv4 hversion heq =>
      rw [extractDscp, if_neg hversion, upperSix, heq]
      omega
  | ipv6 hversion heq =>
      rw [extractDscp, if_pos hversion, upperSix, trafficClassByte_eq (UInt8.toNat_lt _), heq]
      omega

/-- A packet that was marked for a class is classified as that class, whatever its two ECN bits
say and whichever version of IP it is. -/
theorem classify_marked {c : TrafficClass} {ecn : ℕ} (hecn : ecn < 4) {payload : List UInt8}
    (h : Carries (dscpToTos (primaryDscp c) + ecn) payload) :
    classifyPacket (extractDscp payload) = .ok c := by
  have htos : dscpToTos (primaryDscp c) = 4 * primaryDscp c ∧ primaryDscp c < 64 := by
    cases c <;> decide
  have hdscp : extractDscp payload = primaryDscp c := by
    rw [extractDscp_of_carries (by omega) h]
    omega
  rw [hdscp]
  cases c <;> rfl

end Gateway
end LunaBridge
