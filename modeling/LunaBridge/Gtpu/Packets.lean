import LunaBridge.Gtpu.Extensions

/-!
# Packets — what becomes of one captured packet

Reading the headers up to GTP-U never raises: `gtpOctets_eq` says which packets are parsed.  Of
those, a packet that is `CutOff` raises, one that `Hangs` keeps the loop over the extension headers
busy for ever, and any other one is decoded.
-/

namespace LunaBridge
namespace LinkController

open Foundation.Python Foundation.Bytes

/-! ## The headers in front of GTP-U -/

/-- IP version 4, IP protocol 17 and GTP message type `0xFF`, each at its place. -/
def Marked (ip : List UInt8) : Prop :=
  (ip.getD 0 0).toNat / 16 = 4 ∧ ip.getD 9 0 = 17 ∧
    ip.getD ((ip.getD 0 0).toNat % 16 * 4 + 9) 0 = 0xFF

instance (ip : List UInt8) : Decidable (Marked ip) := inferInstanceAs (Decidable (_ ∧ _))

/-- What follows the IP and the UDP header. -/
def udpPayload (ip : List UInt8) : List UInt8 := ip.drop ((ip.getD 0 0).toNat % 16 * 4 + 8)

theorem shiftRight_eq_four (b : UInt8) : b >>> 4 = 4 ↔ b.toNat / 16 = 4 := by
  rw [← UInt8.toNat_inj, UInt8.toNat_shiftRight]
  exact Iff.of_eq (congrArg (· = 4) (Nat.shiftRight_eq_div_pow b.toNat 4))

theorem and_0F (b : UInt8) : (b &&& 0x0F).toNat = b.toNat % 16 := by
  rw [UInt8.toNat_and]
  exact Nat.and_two_pow_sub_one_eq_mod b.toNat 4

theorem getD_of_some {bs : List UInt8} {i : ℕ} {b : UInt8} (h : bs[i]? = some b) :
    bs.getD i 0 = b := by
  rw [List.getD_eq_getElem?_getD, h]
  rfl

/-- The packets that are parsed. -/
def Parsed (ip : List UInt8) : Prop :=
  28 ≤ ip.length ∧ 8 ≤ (udpPayload ip).length ∧ Marked ip

instance (ip : List UInt8) : Decidable (Parsed ip) := inferInstanceAs (Decidable (_ ∧ _))

/-- No packet raises before its GTP-U octets are reached. -/
theorem gtpOctets_eq (l2 : ℕ) (pkt : List UInt8) :
    gtpOctets l2 pkt =
      .ok (if Parsed (pkt.drop l2) then some (udpPayload (pkt.drop l2)) else none) := by
  rw [gtpOctets]
  generalize pkt.drop l2 = ip
  by_cases hshort : ip.length < 28
  · -- no room for an IPv4 and a UDP header
    have hnot : ¬ Parsed ip := fun h => absurd h.1 (by omega)
    rw [if_neg hnot]
    exact if_pos hshort
  · obtain ⟨first, hfirst, hread₀⟩ := exists_index ip (i := 0) (by omega)
    obtain ⟨protocol, hprotocol, hread₉⟩ := exists_index ip (i := 9) (by omega)
    have hpayload : (ip.drop ((first &&& 0x0F).toNat * 4)).drop 8 = udpPayload ip := by
      rw [List.drop_drop, and_0F, udpPayload, getD_of_some hfirst]
    refine (if_neg hshort).trans ?_
    rw [hread₀, ok_bind]
    by_cases hversion : first >>> 4 = 4
    · rw [if_neg (not_not.2 hversion), hread₉, ok_bind]
      by_cases hudp : protocol = 17
      · rw [if_neg (not_not.2 hudp)]
        dsimp only
        rw [hpayload]
        by_cases hlength : (udpPayload ip).length < 8
        · -- no room for the mandatory GTP-U header
          have hnot : ¬ Parsed ip := fun h => absurd h.2.1 (by omega)
          rw [if_pos hlength, if_neg hnot]
          rfl
        · obtain ⟨kind, hkind, hread₁⟩ := exists_index (udpPayload ip) (i := 1) (by omega)
          have hplace : ip.getD ((ip.getD 0 0).toNat % 16 * 4 + 9) 0 = kind := by
            rw [udpPayload, List.getElem?_drop] at hkind
            exact getD_of_some hkind
          rw [if_neg hlength, hread₁, ok_bind]
          by_cases hgpdu : kind = 0xFF
          · have hparsed : Parsed ip := by
              refine ⟨by omega, by omega, ?_, ?_, hplace.trans hgpdu⟩
              · rw [getD_of_some hfirst]
                exact (shiftRight_eq_four first).1 hversion
              · rw [getD_of_some hprotocol, hudp]
            rw [if_neg (not_not.2 hgpdu), if_pos hparsed]
            rfl
          · -- another message type, such as an echo request
            have hnot : ¬ Parsed ip := fun h => hgpdu (hplace.symm.trans h.2.2.2.2)
            rw [if_pos hgpdu, if_neg hnot]
            rfl
      · -- not UDP
        have hnot : ¬ Parsed ip := fun h =>
          hudp ((getD_of_some hprotocol).symm.trans h.2.2.2.1)
        rw [if_pos hudp, if_neg hnot]
        rfl
    · -- not IPv4
      have hnot : ¬ Parsed ip := fun h => hversion <| by
        have hfour := h.2.2.1
        rw [getD_of_some hfirst] at hfour
        exact (shiftRight_eq_four first).2 hfour
      rw [if_pos hversion, if_neg hnot]
      rfl

theorem udpPayload_length_le (l2 : ℕ) (pkt : List UInt8) :
    (udpPayload (pkt.drop l2)).length ≤ pkt.length := by
  simp only [udpPayload, List.length_drop]
  omega

/-! ## GTP-U -/

/-- Some of the flags E, S and PN is set. -/
def Flagged (g : List UInt8) : Prop := g.getD 0 0 &&& 0x07 ≠ 0

instance (g : List UInt8) : Decidable (Flagged g) := inferInstanceAs (Decidable (_ ≠ _))

/-- An extension header of the chain starts at `off`. -/
def ExtensionAt (g : List UInt8) (off : ℕ) : Prop :=
  ∃ nxt, g[11]? = some nxt ∧ nxt ≠ 0 ∧ Leads g 12 off

/-- The captured octets end before the type of the first extension header, or within one. -/
def CutOff (g : List UInt8) : Prop :=
  Flagged g ∧ (g.length < 12 ∨ ∃ off, ExtensionAt g off ∧ CutShort g off)

/-- The chain comes to an extension header of length zero. -/
def Hangs (g : List UInt8) : Prop := Flagged g ∧ ∃ off, ExtensionAt g off ∧ Endless g off

/-- The TEID field. -/
def teidOf (g : List UInt8) : ℕ := Endian.big.decode ((g.drop 4).take 4)

section Decode

variable {l2 : ℕ} {ts : ℚ} {pkt : List UInt8}

theorem decodePacket_skipped (h : ¬ Parsed (pkt.drop l2)) (ts : ℚ) (fuel : ℕ) :
    decodePacket l2 ts fuel pkt = .ok none := by
  rw [decodePacket, gtpOctets_eq, if_neg h, ok_bind]
  rfl

/-- Neither the flags nor the TEID are ever out of reach. -/
theorem decodePacket_parsed (h : Parsed (pkt.drop l2)) (ts : ℚ) (fuel : ℕ) :
    decodePacket l2 ts fuel pkt =
      if Flagged (udpPayload (pkt.drop l2)) then do
        let nxt ← index (udpPayload (pkt.drop l2)) 11
        let (off, qfi) ← extensionLoop (udpPayload (pkt.drop l2)) fuel nxt 12 none
        pure (some
          { ts := ts, teid := teidOf (udpPayload (pkt.drop l2)), qfi := qfi,
            inner := (udpPayload (pkt.drop l2)).drop off })
      else
        pure (some
          { ts := ts, teid := teidOf (udpPayload (pkt.drop l2)), qfi := none,
            inner := (udpPayload (pkt.drop l2)).drop 8 }) := by
  rw [decodePacket, gtpOctets_eq, if_pos h, ok_bind]
  have hlength := h.2.1
  generalize udpPayload (pkt.drop l2) = g at hlength ⊢
  obtain ⟨flags, hflags, hread⟩ := exists_index g (i := 0) (by omega)
  have hteid : ((g.drop 4).take 4).length = 4 := by
    rw [List.length_take, List.length_drop]
    omega
  have hflagged : Flagged g ↔ flags &&& 0x07 ≠ 0 := by rw [Flagged, getD_of_some hflags]
  dsimp only
  rw [hread, ok_bind, unpackI_of_length hteid, ok_bind]
  by_cases hany : flags &&& 0x07 ≠ 0
  · rw [if_pos hany, if_pos (hflagged.2 hany)]
    rfl
  · rw [if_neg hany, if_neg fun h => hany (hflagged.1 h)]
    rfl

/-- A packet that is cut off raises. -/
theorem decodePacket_cutOff (h : Parsed (pkt.drop l2)) (hcut : CutOff (udpPayload (pkt.drop l2)))
    (ts : ℚ) {fuel : ℕ} (hfuel : pkt.length < fuel) :
    decodePacket l2 ts fuel pkt = .error .indexError := by
  have hle := udpPayload_length_le l2 pkt
  rw [decodePacket_parsed h, if_pos hcut.1]
  generalize udpPayload (pkt.drop l2) = g at hcut hle ⊢
  rcases hcut.2 with hshort | ⟨off, ⟨nxt, hnxt, hmore, hleads⟩, hoff⟩
  · rw [index_of_le (by omega)]
    rfl
  · rw [index_of_some hnxt, ok_bind,
      extensionLoop_of_cutShort hleads hoff hmore none (by omega : g.length - 12 < fuel)]
    rfl

/-- A packet whose chain comes to a header of length zero keeps the loop busy for ever. -/
theorem decodePacket_hangs (h : Parsed (pkt.drop l2)) (hhangs : Hangs (udpPayload (pkt.drop l2)))
    (ts : ℚ) (fuel : ℕ) : decodePacket l2 ts fuel pkt = .error .outOfFuel := by
  rw [decodePacket_parsed h, if_pos hhangs.1]
  generalize udpPayload (pkt.drop l2) = g at hhangs ⊢
  obtain ⟨-, off, ⟨nxt, hnxt, hmore, hleads⟩, hoff⟩ := hhangs
  rw [index_of_some hnxt, ok_bind, extensionLoop_of_endless hleads hoff hmore hnxt]
  rfl

/-- Any other packet is parsed or skipped. -/
theorem decodePacket_settles
    (h : Parsed (pkt.drop l2) → ¬ CutOff (udpPayload (pkt.drop l2)) ∧
      ¬ Hangs (udpPayload (pkt.drop l2))) (ts : ℚ) :
    ∃ o, ∀ fuel, pkt.length < fuel → decodePacket l2 ts fuel pkt = .ok o := by
  by_cases hparsed : Parsed (pkt.drop l2)
  · obtain ⟨hcut, hhangs⟩ := h hparsed
    have hle := udpPayload_length_le l2 pkt
    have hdecode := decodePacket_parsed hparsed ts
    by_cases hflag : Flagged (udpPayload (pkt.drop l2))
    · generalize udpPayload (pkt.drop l2) = g at *
      have hlong : 12 ≤ g.length := by
        by_contra hshort
        exact hcut ⟨hflag, .inl (by omega)⟩
      obtain ⟨nxt, hnxt, hread⟩ := exists_index g (i := 11) (by omega)
      have hloop : ∃ r, ∀ fuel, pkt.length < fuel → extensionLoop g fuel nxt 12 none = .ok r := by
        by_cases hmore : nxt = 0
        · refine ⟨(12, none), fun fuel hfuel => ?_⟩
          obtain ⟨fuel, rfl⟩ : ∃ k, fuel = k + 1 := ⟨fuel - 1, by omega⟩
          rw [hmore, extensionLoop_done]
        · obtain ⟨r, hr⟩ := extensionLoop_of_intact hmore
            (fun off (hleads : Leads g 12 off) => by
              have hext : ExtensionAt g off := ⟨nxt, hnxt, hmore, hleads⟩
              rcases intact_or g off with hintact | hshort | hendless
              · exact hintact
              · exact absurd ⟨hflag, .inr ⟨off, hext, hshort⟩⟩ hcut
              · exact absurd ⟨hflag, off, hext, hendless⟩ hhangs) none
          exact ⟨r, fun fuel hfuel => hr fuel (by omega)⟩
      obtain ⟨⟨off, qfi⟩, hr⟩ := hloop
      refine ⟨some { ts := ts, teid := teidOf g, qfi := qfi, inner := g.drop off },
        fun fuel hfuel => ?_⟩
      rw [hdecode, if_pos hflag, hread, ok_bind, hr fuel hfuel]
      rfl
    · exact ⟨_, fun fuel _ => (hdecode fuel).trans (if_neg hflag)⟩
  · exact ⟨none, fun fuel _ => decodePacket_skipped hparsed ts fuel⟩

end Decode

end LinkController
end LunaBridge
