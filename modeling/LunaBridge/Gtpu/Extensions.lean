import LunaBridge.LinkController.N6Bridge
import Mathlib.Tactic.Linarith

/-!
# Extensions — the chain of extension headers of a G-PDU

Each extension header starts with its length in units of four octets and ends with the type of the
next one.  `Leads` follows the chain; what the loop of the source does depends on the first header
of the chain that is not `Intact`: at one that is `CutShort` it raises, at an `Endless` one it
stays for ever, and where all are intact it comes to the end of the chain.
-/

namespace LunaBridge
namespace LinkController

open Foundation.Python Foundation.Bytes

/-! ## The chain -/

/-- The chain leads from the extension header at `off` to the one at `off'`. -/
inductive Leads (g : List UInt8) : ℕ → ℕ → Prop
  | here (off : ℕ) : Leads g off off
  | next {off off' : ℕ} {units nxt : UInt8} (hunits : g[off]? = some units) (hpos : units ≠ 0)
      (hnxt : g[off + units.toNat * 4 - 1]? = some nxt) (hmore : nxt ≠ 0)
      (hrest : Leads g (off + units.toNat * 4) off') : Leads g off off'

/-- The extension header at `off` has a positive length and lies within the captured octets. -/
def Intact (g : List UInt8) (off : ℕ) : Prop :=
  ∃ units, g[off]? = some units ∧ units ≠ 0 ∧ off + units.toNat * 4 ≤ g.length

/-- The captured octets end within the extension header at `off`. -/
def CutShort (g : List UInt8) (off : ℕ) : Prop :=
  g.length ≤ off ∨ ∃ units, g[off]? = some units ∧ units ≠ 0 ∧ g.length < off + units.toNat * 4

/-- The extension header at `off` has the length octet zero. -/
def Endless (g : List UInt8) (off : ℕ) : Prop := g[off]? = some 0

theorem intact_or (g : List UInt8) (off : ℕ) : Intact g off ∨ CutShort g off ∨ Endless g off := by
  cases hunits : g[off]? with
  | none => exact .inr (.inl (.inl (List.getElem?_eq_none_iff.1 hunits)))
  | some units =>
      by_cases hpos : units = 0
      · exact .inr (.inr (by rw [Endless, hunits, hpos]))
      · rcases Nat.lt_or_ge g.length (off + units.toNat * 4) with hcut | hle
        · exact .inr (.inl (.inr ⟨units, hunits, hpos, hcut⟩))
        · exact .inl ⟨units, hunits, hpos, hle⟩

theorem units_pos {units : UInt8} (h : units ≠ 0) : 0 < units.toNat := by
  rcases Nat.eq_zero_or_pos units.toNat with h0 | hpos
  · exact absurd (UInt8.toNat_inj.1 h0) h
  · exact hpos

/-! ## One round of the loop -/

/-- The QFI after the extension header at `off`, which is of type `nxt`. -/
def qfiAfter (g : List UInt8) (nxt : UInt8) (off : ℕ) (qfi : Option ℕ) : Option ℕ :=
  if nxt = 0x85 then g[off + 2]?.map fun octet => (octet &&& 0x3F).toNat else qfi

section Loop

variable {g : List UInt8} {off : ℕ} {nxt : UInt8}

theorem extensionLoop_done (fuel off : ℕ) (qfi : Option ℕ) :
    extensionLoop g (fuel + 1) 0 off qfi = .ok (off, qfi) := rfl

/-- A round whose first read succeeds. -/
theorem extensionLoop_succ {units : UInt8} (hnxt : nxt ≠ 0) (hunits : g[off]? = some units)
    (fuel : ℕ) (qfi : Option ℕ) :
    extensionLoop g (fuel + 1) nxt off qfi = (do
      let qfi ←
        if nxt = 0x85 ∧ 4 ≤ units.toNat * 4 then do
          let octet ← index g (off + 2)
          pure (some (octet &&& 0x3F).toNat)
        else
          pure qfi
      let nxt ← index g (off + units.toNat * 4 - 1)
      extensionLoop g fuel nxt (off + units.toNat * 4) qfi) := by
  rw [extensionLoop, if_neg hnxt, index_of_some hunits]
  rfl

/-- An intact extension header is passed. -/
theorem extensionLoop_next {units nxt' : UInt8} (hnxt : nxt ≠ 0) (hunits : g[off]? = some units)
    (hpos : units ≠ 0) (hnext : g[off + units.toNat * 4 - 1]? = some nxt') (fuel : ℕ)
    (qfi : Option ℕ) :
    extensionLoop g (fuel + 1) nxt off qfi =
      extensionLoop g fuel nxt' (off + units.toNat * 4) (qfiAfter g nxt off qfi) := by
  have hlen : 0 < units.toNat := units_pos hpos
  have hlast : off + units.toNat * 4 - 1 < g.length := (List.getElem?_eq_some_iff.1 hnext).1
  obtain ⟨octet, hoctet, hread⟩ := exists_index g (i := off + 2) (by omega)
  rw [extensionLoop_succ hnxt hunits, index_of_some hnext, hread, qfiAfter, hoctet]
  by_cases htype : nxt = 0x85
  · rw [if_pos ⟨htype, by omega⟩, if_pos htype]
    rfl
  · rw [if_neg fun h => htype h.1, if_neg htype]
    rfl

/-- A header that is cut short raises. -/
theorem extensionLoop_cutShort (hnxt : nxt ≠ 0) (h : CutShort g off) (fuel : ℕ)
    (qfi : Option ℕ) : extensionLoop g (fuel + 1) nxt off qfi = .error .indexError := by
  rcases h with hend | ⟨units, hunits, hpos, hcut⟩
  · rw [extensionLoop, if_neg hnxt, index_of_le hend]
    rfl
  · have hlen : 0 < units.toNat := units_pos hpos
    have hlast : index g (off + units.toNat * 4 - 1) = .error .indexError :=
      index_of_le (by omega)
    rw [extensionLoop_succ hnxt hunits, hlast]
    split
    · -- the QFI octet may be missing already
      rcases Nat.lt_or_ge (off + 2) g.length with hlt | hle
      · obtain ⟨octet, -, hread⟩ := exists_index g hlt
        rw [hread]
        rfl
      · rw [index_of_le hle]
        rfl
    · rfl

/-- At a header of length zero the loop goes round and round: the type it reads next is the last
octet before the header, which is the type it has. -/
theorem extensionLoop_endless (hnxt : nxt ≠ 0) (htype : g[off - 1]? = some nxt)
    (h : Endless g off) (fuel : ℕ) (qfi : Option ℕ) :
    extensionLoop g fuel nxt off qfi = .error .outOfFuel := by
  induction fuel with
  | zero => rfl
  | succ fuel ih =>
      rw [extensionLoop_succ hnxt h, if_neg fun h => absurd h.2 (by decide)]
      calc ((index g (off - 1)).bind fun nxt => extensionLoop g fuel nxt off qfi)
          _ = extensionLoop g fuel nxt off qfi := by rw [index_of_some htype]; rfl
          _ = .error .outOfFuel := ih

end Loop

/-! ## The whole chain -/

section Chain

variable {g : List UInt8}

/-- Where all extension headers are intact the loop comes to the end of the chain. -/
theorem extensionLoop_of_intact {nxt : UInt8} {off : ℕ} (hnxt : nxt ≠ 0)
    (h : ∀ off', Leads g off off' → Intact g off') (qfi : Option ℕ) :
    ∃ r, ∀ fuel, g.length - off < fuel → extensionLoop g fuel nxt off qfi = .ok r := by
  -- every header brings the offset closer to the end of the octets
  induction hleft : g.length - off using Nat.strong_induction_on generalizing nxt off qfi with
  | _ left ih =>
      subst hleft
      obtain ⟨units, hunits, hpos, hle⟩ := h off (.here off)
      have hlen : 0 < units.toNat := units_pos hpos
      obtain ⟨nxt', hnext, -⟩ :=
        exists_index g (i := off + units.toNat * 4 - 1) (by omega)
      have hround := extensionLoop_next hnxt hunits hpos hnext
      by_cases hmore : nxt' = 0
      · refine ⟨(off + units.toNat * 4, qfiAfter g nxt off qfi), fun fuel hfuel => ?_⟩
        obtain ⟨fuel, rfl⟩ : ∃ k, fuel = k + 2 := ⟨fuel - 2, by omega⟩
        rw [hround, hmore, extensionLoop_done]
      · obtain ⟨r, hr⟩ := ih (g.length - (off + units.toNat * 4)) (by omega) hmore
          (fun off' hleads => h off' (.next hunits hpos hnext hmore hleads))
          (qfiAfter g nxt off qfi) rfl
        refine ⟨r, fun fuel hfuel => ?_⟩
        obtain ⟨fuel, rfl⟩ : ∃ k, fuel = k + 1 := ⟨fuel - 1, by omega⟩
        rw [hround]
        exact hr fuel (by omega)

/-- Where the chain leads to a header that is cut short, the loop raises. -/
theorem extensionLoop_of_cutShort {off off' : ℕ} (hleads : Leads g off off')
    (h : CutShort g off') {nxt : UInt8} (hnxt : nxt ≠ 0) (qfi : Option ℕ) {fuel : ℕ}
    (hfuel : g.length - off < fuel) :
    extensionLoop g fuel nxt off qfi = .error .indexError := by
  obtain ⟨fuel, rfl⟩ : ∃ k, fuel = k + 1 := ⟨fuel - 1, by omega⟩
  induction hleads generalizing nxt qfi fuel with
  | here off => exact extensionLoop_cutShort hnxt h fuel qfi
  | @next off off' units nxt' hunits hpos hnext hmore hrest ih =>
      have hlen : 0 < units.toNat := units_pos hpos
      have hlast : off + units.toNat * 4 - 1 < g.length := (List.getElem?_eq_some_iff.1 hnext).1
      obtain ⟨fuel, rfl⟩ : ∃ k, fuel = k + 1 := ⟨fuel - 1, by omega⟩
      rw [extensionLoop_next hnxt hunits hpos hnext]
      exact ih h hmore _ fuel (by omega)

/-- Where the chain leads to a header of length zero, the loop does not end. -/
theorem extensionLoop_of_endless {off off' : ℕ} (hleads : Leads g off off')
    (h : Endless g off') {nxt : UInt8} (hnxt : nxt ≠ 0) (htype : g[off - 1]? = some nxt)
    (qfi : Option ℕ) (fuel : ℕ) :
    extensionLoop g fuel nxt off qfi = .error .outOfFuel := by
  induction hleads generalizing nxt qfi fuel with
  | here off => exact extensionLoop_endless hnxt htype h fuel qfi
  | @next off off' units nxt' hunits hpos hnext hmore hrest ih =>
      cases fuel with
      | zero => rfl
      | succ fuel =>
          rw [extensionLoop_next hnxt hunits hpos hnext]
          exact ih h hmore hnext _ fuel

end Chain

end LinkController
end LunaBridge
