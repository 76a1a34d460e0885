import LunaBridge.Gtpu.RoundTrip

/-!
# Robustness — arbitrary bytes on the uplink

What one record may do to the generator.  A record that is cut off raises and ends it, a record
with an extension header of length zero keeps it from ever coming to an end, and no other record
disturbs the ones behind it.
-/

namespace LunaBridge
namespace LinkController

open Foundation.Python Foundation.Bytes

/-! ## Records that do not settle -/

namespace FileHeader

/-- The record is a G-PDU with E, S or PN that ends too early. -/
def CutsOff (h : FileHeader) (r : CaptureRecord) : Prop :=
  Parsed (r.packet.drop h.l2) ∧ CutOff (udpPayload (r.packet.drop h.l2))

/-- The record is a G-PDU whose chain comes to an extension header of length zero. -/
def Stalls (h : FileHeader) (r : CaptureRecord) : Prop :=
  Parsed (r.packet.drop h.l2) ∧ Hangs (udpPayload (r.packet.drop h.l2))

variable {h : FileHeader} {r : CaptureRecord}

theorem CutsOff.settles (hr : h.CutsOff r) : h.Settles r (.error .indexError) :=
  fun _ hfuel => decodePacket_cutOff hr.1 hr.2 _ hfuel

theorem Stalls.settles (hr : h.Stalls r) : h.Settles r (.error .outOfFuel) :=
  fun fuel _ => decodePacket_hangs hr.1 hr.2 _ fuel

theorem settles_of_sound (hcut : ¬ h.CutsOff r) (hstalls : ¬ h.Stalls r) :
    ∃ o, h.Settles r (.ok o) :=
  decodePacket_settles (fun hparsed =>
    ⟨fun hc => hcut ⟨hparsed, hc⟩, fun hs => hstalls ⟨hparsed, hs⟩⟩) _

/-- A record settles in one way only. -/
theorem Settles.unique {x y : Except PyError (Option GtpuPacket)} (hx : h.Settles r x)
    (hy : h.Settles r y) : x = y :=
  (hx _ (Nat.lt_add_one _)).symm.trans (hy _ (Nat.lt_add_one _))

/-- Either all records settle, or there is a first one that does not. -/
theorem settles_or_first (h : FileHeader) (rs : List CaptureRecord) :
    (∃ outs, List.Forall₂ (fun r o => h.Settles r (.ok o)) rs outs) ∨
      ∃ pre r post outs, rs = pre ++ r :: post ∧
        List.Forall₂ (fun r o => h.Settles r (.ok o)) pre outs ∧ (h.CutsOff r ∨ h.Stalls r) := by
  induction rs with
  | nil => exact .inl ⟨[], .nil⟩
  | cons r rs ih =>
      by_cases hbad : h.CutsOff r ∨ h.Stalls r
      · exact .inr ⟨[], r, rs, [], rfl, .nil, hbad⟩
      · obtain ⟨o, ho⟩ := settles_of_sound (fun hc => hbad (.inl hc)) fun hs => hbad (.inr hs)
        rcases ih with ⟨outs, hall⟩ | ⟨pre, r', post, outs, hsplit, hpre, hr'⟩
        · exact .inl ⟨o :: outs, .cons ho hall⟩
        · exact .inr ⟨r :: pre, r', post, o :: outs, by rw [hsplit, List.cons_append],
            .cons ho hpre, hr'⟩

end FileHeader

/-- A record that settles is neither cut off nor stalls. -/
theorem sound_of_settles {h : FileHeader} {rs : List CaptureRecord}
    {outs : List (Option GtpuPacket)}
    (hall : List.Forall₂ (fun r o => h.Settles r (.ok o)) rs outs) :
    ∀ r ∈ rs, ¬ h.CutsOff r ∧ ¬ h.Stalls r := by
  intro r hr
  obtain ⟨o, -, ho⟩ : ∃ o ∈ outs, h.Settles r (.ok o) := by
    induction hall with
    | nil => cases hr
    | @cons r' o' rs outs hr' _ ih =>
        rcases List.mem_cons.1 hr with rfl | hmem
        · exact ⟨o', List.mem_cons_self .., hr'⟩
        · obtain ⟨o, hmem', ho⟩ := ih hmem
          exact ⟨o, List.mem_cons_of_mem _ hmem', ho⟩
  refine ⟨fun hc => ?_, fun hs => ?_⟩
  · exact absurd (ho.unique hc.settles) (by simp)
  · exact absurd (ho.unique hs.settles) (by simp)

/-! ## A small capture -/

namespace Small

/-- A packet behind an Ethernet header whose UDP payload is `g`. -/
def frame (g : List UInt8) : List UInt8 :=
  List.replicate 14 0 ++ 0x45 :: List.replicate 8 0 ++ 17 :: List.replicate 18 0 ++ g

def record (g : List UInt8) : CaptureRecord := { sec := 0, frac := 0, packet := frame g }

/-- A capture with this packet only. -/
def stream (g : List UInt8) : List UInt8 :=
  Endian.little.encode 4 0xA1B2C3D4 ++ List.replicate 16 0 ++ Endian.little.encode 4 1 ++
    List.replicate 8 0 ++ Endian.little.encode 4 (frame g).length ++
    Endian.little.encode 4 (frame g).length ++ frame g

end Small

/-! ## Termination -/

/-- The header of a stream. -/
def streamHeader (stream : List UInt8) : FileHeader := fileHeader (stream.take 24)

/-- With enough fuel the generator comes to an end, be it that it returns or that it raises. -/
def Finishes (stream : List UInt8) : Prop :=
  ∃ enough, ∀ fuel, enough ≤ fuel → ∀ s, gtpuPackets fuel (.start stream) ≠ .error .outOfFuel s

/-- A stalling record behind records that settle. -/
theorem not_finishes {stream : List UInt8} {pre post : List CaptureRecord} {r : CaptureRecord}
    {outs : List (Option GtpuPacket)} (hsplit : captured stream = pre ++ r :: post)
    (hpre : List.Forall₂ (fun r o => (streamHeader stream).Settles r (.ok o)) pre outs)
    (hr : (streamHeader stream).Stalls r) : ¬ Finishes stream := by
  rintro ⟨enough, hends⟩
  obtain ⟨rest, hrun⟩ := gtpuPackets_raises hsplit hpre hr.settles
    (Nat.lt_of_lt_of_le (Nat.lt_add_one _) (Nat.le_max_right enough (stream.length + 1)))
  exact hends _ (Nat.le_max_left enough (stream.length + 1)) _ hrun

/-- The generator comes to an end exactly if no record stalls that is not preceded by one that is
cut off. -/
theorem finishes_iff (stream : List UInt8) :
    Finishes stream ↔ ∀ pre r post, captured stream = pre ++ r :: post →
      (streamHeader stream).Stalls r → ∃ q ∈ pre, (streamHeader stream).CutsOff q := by
  constructor
  · intro hfinishes pre r post hsplit hr
    by_contra hnone
    push Not at hnone
    rcases (streamHeader stream).settles_or_first pre with
      ⟨outs, hall⟩ | ⟨pre', q, post', outs, hpre', hall, hq⟩
    · exact not_finishes hsplit hall hr hfinishes
    · have hmem : q ∈ pre := by simp [hpre']
      have hstalls : (streamHeader stream).Stalls q := hq.resolve_left (hnone q hmem)
      have hsplit' : captured stream = pre' ++ q :: (post' ++ r :: post) := by
        rw [hsplit, hpre', List.append_assoc, List.cons_append]
      exact not_finishes hsplit' hall hstalls hfinishes
  · intro hcut
    refine ⟨stream.length + 1, fun fuel hfuel s hrun => ?_⟩
    have hlt : stream.length < fuel := by omega
    rcases (streamHeader stream).settles_or_first (captured stream) with
      ⟨outs, hall⟩ | ⟨pre, r, post, outs, hsplit, hall, hr⟩
    · rw [gtpuPackets_returns hall hlt] at hrun
      cases hrun
    · have hcuts : (streamHeader stream).CutsOff r := by
        refine hr.resolve_right fun hstalls => ?_
        obtain ⟨q, hq, hqcut⟩ := hcut pre r post hsplit hstalls
        exact (sound_of_settles hall q hq).1 hqcut
      obtain ⟨rest, hraises⟩ := gtpuPackets_raises hsplit hall hcuts.settles hlt
      rw [hraises] at hrun
      cases hrun

/-- A capture with one G-PDU whose only extension header has length zero. -/
def Small.zeroLength : List UInt8 := Small.stream [0x34, 0xFF, 0, 5, 0, 0, 0, 7, 0, 0, 0, 0x85, 0]

theorem zeroLength_never_finishes : ¬ Finishes Small.zeroLength := by
  have hcaptured : captured Small.zeroLength =
      [] ++ Small.record [0x34, 0xFF, 0, 5, 0, 0, 0, 7, 0, 0, 0, 0x85, 0] :: [] := by
    rw [captured, if_neg (by decide), records_long _ (by decide), records_short _ (by decide)]
    decide
  refine not_finishes hcaptured .nil ⟨by decide, by decide, 12, ?_, ?_⟩
  · exact ⟨0x85, by decide, by decide, .here 12⟩
  · rw [Endless]
    decide

/-! ## Later records -/

/-- Every record is parsed or skipped: with enough fuel the generator returns, and among the tuples
it has yielded are those of all well-formed G-PDUs in the stream, in order. -/
def Survives (stream : List UInt8) : Prop :=
  ∃ packets, (∃ enough, ∀ fuel, enough ≤ fuel →
      gtpuPackets fuel (.start stream) = .ok ⟨⟩ ⟨[], packets⟩) ∧
    ∀ gs : List (CaptureRecord × GPdu), (gs.map Prod.fst).Sublist (captured stream) →
      (∀ g ∈ gs, ∃ link, link.length = (streamHeader stream).l2 ∧
        g.1.packet = link ++ g.2.encode) →
      (gs.map fun g => g.2.packet (timestamp (streamHeader stream).nano g.1.sec g.1.frac)).Sublist
        packets

/-- What settled records yield contains what the well-formed ones among them are to yield. -/
theorem sublist_of_settles {h : FileHeader} {rs : List CaptureRecord}
    {outs : List (Option GtpuPacket)}
    (hall : List.Forall₂ (fun r o => h.Settles r (.ok o)) rs outs) :
    ∀ gs : List (CaptureRecord × GPdu), (gs.map Prod.fst).Sublist rs →
      (∀ g ∈ gs, ∃ link, link.length = h.l2 ∧ g.1.packet = link ++ g.2.encode) →
      (gs.map fun g => g.2.packet (timestamp h.nano g.1.sec g.1.frac)).Sublist
        outs.reduceOption := by
  induction hall with
  | nil =>
      intro gs hgs _
      have hnil : gs = [] := by simpa using hgs
      rw [hnil]
      exact List.Sublist.refl _
  | @cons r o rs outs hr _ ih =>
      intro gs hgs hformed
      have hskip : outs.reduceOption.Sublist (o :: outs).reduceOption :=
        (List.sublist_cons_self o outs).filterMap id
      cases gs with
      | nil => exact List.nil_sublist _
      | cons g gs =>
          rw [List.map_cons] at hgs
          cases hgs with
          | cons _ hrest => exact (ih (g :: gs) (by simpa using hrest) hformed).trans hskip
          | cons_cons _ hrest =>
              obtain ⟨link, hlink, hpacket⟩ := hformed g (List.mem_cons_self ..)
              have hdecode : h.Settles g.1
                  (.ok (some (g.2.packet (timestamp h.nano g.1.sec g.1.frac)))) := by
                intro fuel hfuel
                rw [FileHeader.handle, hpacket]
                exact g.2.decode hlink _ (hpacket ▸ hfuel)
              have ho : o = some (g.2.packet (timestamp h.nano g.1.sec g.1.frac)) := by
                simpa using hr.unique hdecode
              rw [ho, List.map_cons, List.reduceOption_cons_of_some]
              exact (ih gs hrest fun g' hg' => hformed g' (List.mem_cons_of_mem _ hg')).cons_cons _

/-- A record that raises, or stalls, is not survived. -/
theorem not_survives {stream : List UInt8} {pre post : List CaptureRecord} {r : CaptureRecord}
    {outs : List (Option GtpuPacket)} {e : PyError} (hsplit : captured stream = pre ++ r :: post)
    (hpre : List.Forall₂ (fun r o => (streamHeader stream).Settles r (.ok o)) pre outs)
    (hr : (streamHeader stream).Settles r (.error e)) : ¬ Survives stream := by
  rintro ⟨packets, ⟨enough, hreturns⟩, -⟩
  obtain ⟨rest, hrun⟩ := gtpuPackets_raises hsplit hpre hr
    (Nat.lt_of_lt_of_le (Nat.lt_add_one _) (Nat.le_max_right enough (stream.length + 1)))
  rw [hreturns _ (Nat.le_max_left enough (stream.length + 1))] at hrun
  cases hrun

/-- All records of a stream are parsed or skipped exactly if none is cut off and none stalls. -/
theorem survives_iff (stream : List UInt8) :
    Survives stream ↔ ∀ r ∈ captured stream,
      ¬ (streamHeader stream).CutsOff r ∧ ¬ (streamHeader stream).Stalls r := by
  rcases (streamHeader stream).settles_or_first (captured stream) with
    ⟨outs, hall⟩ | ⟨pre, r, post, outs, hsplit, hall, hr⟩
  · refine iff_of_true ⟨outs.reduceOption, ⟨stream.length + 1, fun fuel hfuel => ?_⟩, ?_⟩
      (sound_of_settles hall)
    · exact gtpuPackets_returns hall (by omega)
    · exact sublist_of_settles hall
  · have hmem : r ∈ captured stream := by simp [hsplit]
    refine iff_of_false ?_ fun hsound => hr.elim (hsound r hmem).1 (hsound r hmem).2
    rcases hr with hcuts | hstalls
    · exact not_survives hsplit hall hcuts.settles
    · exact not_survives hsplit hall hstalls.settles

/-- A capture with one G-PDU that announces a sequence number and ends before it. -/
def Small.noSequence : List UInt8 := Small.stream [0x32, 0xFF, 0, 4, 0, 0, 0, 7]

theorem noSequence_not_survived : ¬ Survives Small.noSequence := by
  have hcaptured : captured Small.noSequence =
      [] ++ Small.record [0x32, 0xFF, 0, 4, 0, 0, 0, 7] :: [] := by
    rw [captured, if_neg (by decide), records_long _ (by decide), records_short _ (by decide)]
    decide
  have hcuts : (streamHeader Small.noSequence).CutsOff
      (Small.record [0x32, 0xFF, 0, 4, 0, 0, 0, 7]) :=
    ⟨by decide, by decide, .inl (by decide)⟩
  exact not_survives hcaptured .nil hcuts.settles

end LinkController
end LunaBridge
