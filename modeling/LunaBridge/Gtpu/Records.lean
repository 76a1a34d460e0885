import LunaBridge.Gtpu.Packets
import Mathlib.Data.List.ReduceOption

/-!
# Records — a capture stream as a list of records

`captured` cuts a stream into its records.  The loop of the source handles them one after the
other: as long as they settle it goes on (`recordLoop_prefix`), and the first one that raises ends
it.  What becomes of one record is decided by its octets: `Packet.CutOff` ones raise,
`Packet.Hangs` ones keep the inner loop busy for ever, all others are parsed or skipped.
-/

namespace LunaBridge
namespace LinkController

open Foundation.Machine Foundation.Python Foundation.Bytes

/-! ## Framing -/

/-- A record: the two fields of its timestamp and the captured bytes. -/
structure CaptureRecord where
  sec : ℕ
  frac : ℕ
  packet : List UInt8
  deriving DecidableEq, Repr

/-- The records of what follows the file header. -/
def records (e : Endian) (bs : List UInt8) : List CaptureRecord :=
  if bs.length < 16 then
    []
  else
    let incl := e.decode ((bs.drop 8).take 4)
    { sec := e.decode (bs.take 4), frac := e.decode ((bs.drop 4).take 4),
      packet := (bs.drop 16).take incl } :: records e ((bs.drop 16).drop incl)
termination_by bs.length
decreasing_by
  simp only [List.length_drop]
  omega

/-- What the file header says. -/
structure FileHeader where
  endian : Endian
  nano : Bool
  l2 : ℕ
  deriving DecidableEq, Repr

def fileHeader (gh : List UInt8) : FileHeader where
  endian := endianOf (leNat (gh.take 4))
  nano := nanoOf (leNat (gh.take 4))
  l2 := linkHeader ((endianOf (leNat (gh.take 4))).decode ((gh.drop 20).take 4))

/-- The records of a stream; there are none where the file header is incomplete. -/
def captured (stream : List UInt8) : List CaptureRecord :=
  if stream.length < 24 then []
  else records (fileHeader (stream.take 24)).endian (stream.drop 24)

/-- What the source makes of a record. -/
def FileHeader.handle (h : FileHeader) (fuel : ℕ) (r : CaptureRecord) :
    Except PyError (Option GtpuPacket) :=
  decodePacket h.l2 (timestamp h.nano r.sec r.frac) fuel r.packet

/-- With fuel enough for its bytes, `x` is what the source makes of the record. -/
def FileHeader.Settles (h : FileHeader) (r : CaptureRecord)
    (x : Except PyError (Option GtpuPacket)) : Prop :=
  ∀ fuel, r.packet.length < fuel → h.handle fuel r = x

/-! ## The loop over the records -/

section Loop

variable {h : FileHeader} {bs : List UInt8} {ys : List GtpuPacket}

theorem records_short (e : Endian) (hbs : bs.length < 16) : records e bs = [] := by
  rw [records, if_pos hbs]

theorem records_long (e : Endian) (hbs : ¬ bs.length < 16) :
    records e bs =
      { sec := e.decode (bs.take 4), frac := e.decode ((bs.drop 4).take 4),
        packet := (bs.drop 16).take (e.decode ((bs.drop 8).take 4)) } ::
      records e ((bs.drop 16).drop (e.decode ((bs.drop 8).take 4))) := by
  rw [records, if_neg hbs]

/-- Without a record the generator returns. -/
theorem recordLoop_nil (hbs : bs.length < 16) (fuel : ℕ) :
    recordLoop h.endian h.nano h.l2 (fuel + 1) ⟨bs, ys⟩ = .ok ⟨⟩ ⟨[], ys⟩ := by
  have hread : read 16 ⟨bs, ys⟩ = .ok bs ⟨[], ys⟩ := by
    show EStateM.Result.ok (bs.take 16) (⟨bs.drop 16, ys⟩ : Capture) = _
    rw [List.take_of_length_le (by omega), List.drop_eq_nil_of_le (by omega)]
  rw [recordLoop, bind_ok hread, if_pos hbs]
  rfl

/-- One round. -/
theorem recordLoop_cons {r : CaptureRecord} {rs : List CaptureRecord}
    (hrecords : records h.endian bs = r :: rs) :
    ∃ rest, records h.endian rest = rs ∧ rest.length + r.packet.length + 16 = bs.length ∧
      ∀ fuel ys, recordLoop h.endian h.nano h.l2 (fuel + 1) ⟨bs, ys⟩ =
        match h.handle fuel r with
        | .ok none => recordLoop h.endian h.nano h.l2 fuel ⟨rest, ys⟩
        | .ok (some p) => recordLoop h.endian h.nano h.l2 fuel ⟨rest, ys ++ [p]⟩
        | .error e => .error e ⟨rest, ys⟩ := by
  have hlong : ¬ bs.length < 16 := fun hshort => by
    rw [records_short _ hshort] at hrecords
    cases hrecords
  rw [records_long _ hlong] at hrecords
  obtain ⟨rfl, rfl⟩ := List.cons.inj hrecords
  refine ⟨_, rfl, ?_, fun fuel ys => ?_⟩
  · simp only [List.length_drop, List.length_take]
    omega
  · -- the four words of the record header are those `records` reads
    have hheader : (bs.take 16).length = 16 := by
      rw [List.length_take]
      omega
    have hsec : (bs.take 16).take 4 = bs.take 4 := by rw [List.take_take]; rfl
    have hfrac : ((bs.take 16).drop 4).take 4 = (bs.drop 4).take 4 := by
      rw [List.drop_take, List.take_take]; rfl
    have hincl : ((bs.take 16).drop 8).take 4 = (bs.drop 8).take 4 := by
      rw [List.drop_take, List.take_take]; rfl
    have hread : read 16 ⟨bs, ys⟩ = .ok (bs.take 16) ⟨bs.drop 16, ys⟩ := rfl
    rw [recordLoop, bind_ok hread, if_neg (by omega), unpackIIII, if_pos hheader, hsec, hfrac,
      hincl]
    generalize h.endian.decode (bs.take 4) = sec
    generalize h.endian.decode ((bs.drop 4).take 4) = frac
    generalize h.endian.decode ((bs.drop 8).take 4) = incl
    -- the packet is what the stream still has of `incl` bytes
    have hpacket : read incl ⟨bs.drop 16, ys⟩ =
        .ok ((bs.drop 16).take incl) ⟨(bs.drop 16).drop incl, ys⟩ := rfl
    rw [run_ofExcept_bind]
    refine (bind_ok hpacket).trans ?_
    show _ = match decodePacket h.l2 (timestamp h.nano sec frac) fuel ((bs.drop 16).take incl) with
      | .ok none => recordLoop h.endian h.nano h.l2 fuel ⟨(bs.drop 16).drop incl, ys⟩
      | .ok (some p) => recordLoop h.endian h.nano h.l2 fuel ⟨(bs.drop 16).drop incl, ys ++ [p]⟩
      | .error e => .error e ⟨(bs.drop 16).drop incl, ys⟩
    cases decodePacket h.l2 (timestamp h.nano sec frac) fuel ((bs.drop 16).take incl) with
    | error e => rfl
    | ok packet => cases packet <;> rfl

/-- The records that settle are handled, and the loop goes on behind them. -/
theorem recordLoop_prefix {pre post : List CaptureRecord} {outs : List (Option GtpuPacket)}
    (hpre : List.Forall₂ (fun r o => h.Settles r (.ok o)) pre outs) :
    ∀ (bs : List UInt8) (ys : List GtpuPacket) (fuel : ℕ),
      records h.endian bs = pre ++ post → bs.length < fuel →
      ∃ rest fuel', records h.endian rest = post ∧ rest.length < fuel' ∧
        recordLoop h.endian h.nano h.l2 fuel ⟨bs, ys⟩ =
          recordLoop h.endian h.nano h.l2 fuel' ⟨rest, ys ++ outs.reduceOption⟩ := by
  induction hpre with
  | nil =>
      intro bs ys fuel hrecords hfuel
      exact ⟨bs, fuel, hrecords, hfuel, by simp⟩
  | @cons r o pre outs hr _ ih =>
      intro bs ys fuel hrecords hfuel
      obtain ⟨rest, hrest, hlength, hround⟩ := recordLoop_cons hrecords
      obtain ⟨fuel, rfl⟩ : ∃ k, fuel = k + 1 := ⟨fuel - 1, by omega⟩
      have hhandle : h.handle fuel r = .ok o := hr fuel (by omega)
      cases o with
      | none =>
          obtain ⟨rest', fuel', hpost, hfuel', hrun⟩ := ih rest ys fuel hrest (by omega)
          refine ⟨rest', fuel', hpost, hfuel', ?_⟩
          rw [hround, hhandle, List.reduceOption_cons_of_none]
          exact hrun
      | some p =>
          obtain ⟨rest', fuel', hpost, hfuel', hrun⟩ :=
            ih rest (ys ++ [p]) fuel hrest (by omega)
          refine ⟨rest', fuel', hpost, hfuel', ?_⟩
          rw [hround, hhandle, List.reduceOption_cons_of_some, List.append_cons]
          exact hrun

end Loop

/-! ## The whole stream -/

section Stream

variable {stream : List UInt8}

/-- An incomplete file header yields nothing. -/
theorem gtpuPackets_short (hstream : stream.length < 24) (fuel : ℕ) :
    gtpuPackets fuel (.start stream) = .ok ⟨⟩ ⟨[], []⟩ := by
  have hread : read 24 (.start stream) = .ok stream ⟨[], []⟩ := by
    show EStateM.Result.ok (stream.take 24) (⟨stream.drop 24, []⟩ : Capture) = _
    rw [List.take_of_length_le (by omega), List.drop_eq_nil_of_le (by omega)]
  rw [gtpuPackets, bind_ok hread, if_pos hstream]
  rfl

/-- The file header is read, and the records follow. -/
theorem gtpuPackets_long (hstream : ¬ stream.length < 24) (fuel : ℕ) :
    gtpuPackets fuel (.start stream) =
      recordLoop (fileHeader (stream.take 24)).endian (fileHeader (stream.take 24)).nano
        (fileHeader (stream.take 24)).l2 fuel ⟨stream.drop 24, []⟩ := by
  have hread : read 24 (.start stream) = .ok (stream.take 24) ⟨stream.drop 24, []⟩ := rfl
  have hlength : (stream.take 24).length = 24 := by
    rw [List.length_take]
    omega
  have hmagic : ((stream.take 24).take 4).length = 4 := by simp [hlength]
  have hlink : (((stream.take 24).drop 20).take 4).length = 4 := by simp [hlength]
  rw [gtpuPackets, bind_ok hread, if_neg (by omega), unpackI_of_length hmagic]
  rw [run_ofExcept_bind, unpackI_of_length hlink]
  rfl

/-- Records that all settle: the generator returns what they yield. -/
theorem gtpuPackets_returns {outs : List (Option GtpuPacket)}
    (h : List.Forall₂ (fun r o => (fileHeader (stream.take 24)).Settles r (.ok o))
      (captured stream) outs) {fuel : ℕ} (hfuel : stream.length < fuel) :
    gtpuPackets fuel (.start stream) = .ok ⟨⟩ ⟨[], outs.reduceOption⟩ := by
  by_cases hshort : stream.length < 24
  · rw [captured, if_pos hshort] at h
    cases h
    exact gtpuPackets_short hshort fuel
  · rw [captured, if_neg hshort] at h
    have hall : records (fileHeader (stream.take 24)).endian (stream.drop 24) =
        records (fileHeader (stream.take 24)).endian (stream.drop 24) ++ [] :=
      (List.append_nil _).symm
    obtain ⟨rest, fuel', hrest, hfuel', hrun⟩ := recordLoop_prefix h
      (stream.drop 24) [] fuel hall (by rw [List.length_drop]; omega)
    obtain ⟨fuel', rfl⟩ : ∃ k, fuel' = k + 1 := ⟨fuel' - 1, by omega⟩
    have hend : rest.length < 16 := by
      by_contra hlong
      rw [records_long _ hlong] at hrest
      cases hrest
    rw [gtpuPackets_long hshort, hrun, recordLoop_nil hend]
    rfl

/-- The first record that raises ends the generator. -/
theorem gtpuPackets_raises {pre post : List CaptureRecord} {r : CaptureRecord}
    {outs : List (Option GtpuPacket)} {e : PyError} (hsplit : captured stream = pre ++ r :: post)
    (hpre : List.Forall₂ (fun r o => (fileHeader (stream.take 24)).Settles r (.ok o)) pre outs)
    (hr : (fileHeader (stream.take 24)).Settles r (.error e)) {fuel : ℕ}
    (hfuel : stream.length < fuel) :
    ∃ rest, gtpuPackets fuel (.start stream) = .error e ⟨rest, outs.reduceOption⟩ := by
  by_cases hshort : stream.length < 24
  · rw [captured, if_pos hshort] at hsplit
    simp at hsplit
  · rw [captured, if_neg hshort] at hsplit
    obtain ⟨rest, fuel', hrest, hfuel', hrun⟩ := recordLoop_prefix hpre
      (stream.drop 24) [] fuel hsplit (by rw [List.length_drop]; omega)
    obtain ⟨fuel', rfl⟩ : ∃ k, fuel' = k + 1 := ⟨fuel' - 1, by omega⟩
    obtain ⟨rest', -, hlength, hround⟩ := recordLoop_cons hrest
    refine ⟨rest', ?_⟩
    have hhandle := hr fuel' (by omega)
    rw [gtpuPackets_long hshort, hrun, hround, hhandle]
    rfl

end Stream

end LinkController
end LunaBridge
