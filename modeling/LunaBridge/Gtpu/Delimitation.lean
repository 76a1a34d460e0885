import LunaBridge.Gtpu.Robustness

/-!
# Delimitation — where the inner packet of a G-PDU starts and ends

A `GPduFrame` is a G-PDU as it is found in a frame: the four optional octets are there when any of
the flags E, S and PN is set, the type of the next extension header among them counts with E only,
and behind the T-PDU, which ends where the length field says, the frame may go on.  The source
follows the type whenever it is there and takes everything up to the end of the frame.
-/

namespace LunaBridge
namespace LinkController

open Foundation.Python Foundation.Bytes

/-! ## Frames -/

/-- The octets between the mandatory GTP-U header and the T-PDU.  Without E the type of the next
extension header is an octet like any other. -/
def GPdu.optional (p : GPdu) (nextType : UInt8) : List UInt8 :=
  if p.flags &&& 0x07 = 0 then []
  else if p.flags &&& 0x04 = 0 then p.sequence ++ [nextType]
  else p.sequence ++ encodeChain p.extensions

/-- A G-PDU in a frame; its `inner` is the T-PDU. -/
structure GPduFrame extends GPdu where
  nextType : UInt8
  trailer : List UInt8
  length_lt : (toGPdu.optional nextType ++ inner).length < 256 ^ 2
  length_eq : length = Endian.big.encode 2 (toGPdu.optional nextType ++ inner).length

namespace GPduFrame

/-- Everything from the flags of the GTP-U header on. -/
def tail (m : GPduFrame) : List UInt8 :=
  m.header ++ m.optional m.nextType ++ m.inner ++ m.trailer

/-- The octets from the IP header to the end of the frame. -/
def frame (m : GPduFrame) : List UInt8 := m.outer ++ m.tail

/-- When the source yields the T-PDU: nothing follows it in the frame, and an octet that is no type
is zero.  If it is not, the T-PDU and what follows have to read as extension headers of that type
with the T-PDU once more behind them. -/
def Delimited (m : GPduFrame) : Prop :=
  if m.flags &&& 0x07 ≠ 0 ∧ m.flags &&& 0x04 = 0 then
    m.nextType = 0 ∧ m.trailer = [] ∨
      m.nextType ≠ 0 ∧ ∃ xs, m.nextType :: (m.inner ++ m.trailer) = encodeChain xs ++ m.inner
  else
    m.trailer = []

end GPduFrame

/-! ## Reading a chain back -/

/-- An intact extension header can be cut out of the octets. -/
theorem exists_extensionHeader {before rest : List UInt8} {nxt : UInt8} (hnxt : nxt ≠ 0)
    (h : Intact (before ++ nxt :: rest) (before.length + 1)) :
    ∃ (x : ExtensionHeader) (nxt' : UInt8) (rest' : List UInt8),
      x.type = nxt ∧ before ++ nxt :: rest =
        (before ++ x.type :: x.units :: x.content) ++ nxt' :: rest' := by
  obtain ⟨units, hunits, hpos, hle⟩ := h
  have hlen := units_pos hpos
  rw [List.getElem?_append_right (by omega)] at hunits
  cases rest with
  | nil => simp at hunits
  | cons first rest =>
      obtain rfl : first = units := by simpa using hunits
      have hroom : first.toNat * 4 - 2 < rest.length := by
        simp only [List.length_append, List.length_cons] at hle
        omega
      have hcontent : (rest.take (first.toNat * 4 - 2)).length + 2 = first.toNat * 4 := by
        rw [List.length_take]
        omega
      refine ⟨⟨nxt, first, rest.take (first.toNat * 4 - 2), hnxt, hpos, hcontent⟩,
        rest[first.toNat * 4 - 2], rest.drop (first.toNat * 4 - 2 + 1), rfl, ?_⟩
      rw [List.append_assoc, List.cons_append, List.cons_append, List.cons_getElem_drop_succ,
        List.take_append_drop]

/-- Where the loop comes to an end it has passed a chain of extension headers. -/
theorem extensionLoop_chain (fuel : ℕ) :
    ∀ (before rest : List UInt8) (nxt : UInt8) (qfi : Option ℕ) (r : ℕ × Option ℕ),
      extensionLoop (before ++ nxt :: rest) fuel nxt (before.length + 1) qfi = .ok r →
      ∃ xs tail, nxt :: rest = encodeChain xs ++ tail ∧
        r.1 = before.length + (encodeChain xs).length := by
  induction fuel with
  | zero =>
      intro before rest nxt qfi r h
      cases h
  | succ fuel ih =>
      intro before rest nxt qfi r h
      by_cases hnxt : nxt = 0
      · rw [hnxt, extensionLoop_done] at h
        cases h
        exact ⟨[], rest, by rw [hnxt]; rfl, rfl⟩
      · have htype : (before ++ nxt :: rest)[before.length + 1 - 1]? = some nxt := by simp
        rcases intact_or (before ++ nxt :: rest) (before.length + 1) with
          hintact | hcut | hendless
        · obtain ⟨x, nxt', rest', rfl, hcut⟩ := exists_extensionHeader hnxt hintact
          rw [hcut, extensionLoop_passed] at h
          obtain ⟨xs, tail, hrest, hoff⟩ := ih _ _ _ _ _ h
          refine ⟨x :: xs, tail, ?_, ?_⟩
          · rw [hrest, List.append_assoc, List.append_cancel_left_eq] at hcut
            rw [hcut, encodeChain, List.append_assoc]
          · rw [hoff, encodeChain]
            simp only [List.length_append, List.length_cons]
            omega
        · rw [extensionLoop_cutShort hnxt hcut] at h
          cases h
        · rw [extensionLoop_endless hnxt htype hendless] at h
          cases h

/-- Where a chain ends can be told from the octets. -/
theorem encodeChain_append_inj {xs ys : List ExtensionHeader} {s t : List UInt8}
    (h : encodeChain xs ++ s = encodeChain ys ++ t) : s = t := by
  have hfirst : firstType xs = firstType ys := by
    obtain ⟨tail, hxs⟩ := encodeChain_head xs
    obtain ⟨tail', hys⟩ := encodeChain_head ys
    rw [hxs, hys] at h
    exact (List.cons.inj h).1
  have hleft := extensionLoop_encodeChain s xs [] none (xs.length + ys.length + 1) (by omega)
  have hright := extensionLoop_encodeChain t ys [] none (xs.length + ys.length + 1) (by omega)
  rw [List.nil_append] at hleft hright
  rw [h, hfirst, hright] at hleft
  have hlength : (encodeChain xs).length = (encodeChain ys).length := by
    have := (Prod.mk.inj (Except.ok.inj hleft)).1
    simpa using this.symm
  exact (List.append_inj h hlength).2

/-! ## One frame -/

namespace GPduFrame

variable (m : GPduFrame)

/-- What follows the twelfth octet, the type included, where the optional octets are there. -/
def body : List UInt8 :=
  if m.flags &&& 0x04 = 0 then m.nextType :: (m.inner ++ m.trailer)
  else encodeChain m.extensions ++ (m.inner ++ m.trailer)

theorem exists_body : ∃ nxt rest, m.body = nxt :: rest := by
  rw [body]
  split
  · exact ⟨_, _, rfl⟩
  · obtain ⟨rest, hrest⟩ := encodeChain_head m.extensions
    exact ⟨_, _, by rw [hrest]; rfl⟩

theorem tail_of_unflagged (h : m.flags &&& 0x07 = 0) :
    m.tail = m.header ++ (m.inner ++ m.trailer) := by
  simp [tail, GPdu.optional, h]

theorem tail_of_flagged (h : m.flags &&& 0x07 ≠ 0) :
    m.tail = (m.header ++ m.sequence) ++ m.body := by
  rw [tail, GPdu.optional, if_neg h, body]
  split <;> simp

theorem before_length : (m.header ++ m.sequence).length = 11 := by
  rw [List.length_append, m.header_length, m.sequence_length]

theorem tail_split : ∃ rest, m.tail = m.flags :: 0xFF :: (m.length ++ rest) := by
  refine ⟨Endian.big.encode 4 m.teid.toNat ++ m.optional m.nextType ++ m.inner ++ m.trailer, ?_⟩
  simp [tail, GPdu.header]

theorem frame_parsed : Parsed m.frame := by
  obtain ⟨rest, hrest⟩ := m.tail_split
  refine m.outer_parsed ?_ (by rw [hrest]; rfl)
  rw [tail, List.append_assoc, List.append_assoc, List.length_append, m.header_length]
  omega

theorem udpPayload_frame : udpPayload m.frame = m.tail := m.udpPayload_outer m.tail

theorem flagged_tail : Flagged m.tail ↔ m.flags &&& 0x07 ≠ 0 := by
  obtain ⟨rest, hrest⟩ := m.tail_split
  rw [Flagged, hrest]
  rfl

/-- With enough fuel the source yields `p` for the frame behind a link header of `l2` octets. -/
def Yields (l2 : ℕ) (link : List UInt8) (ts : ℚ) (p : GtpuPacket) : Prop :=
  ∀ fuel, (link ++ m.frame).length < fuel →
    decodePacket l2 ts fuel (link ++ m.frame) = .ok (some p)

variable {m} {l2 : ℕ} {link : List UInt8} (hlink : link.length = l2) (ts : ℚ)
include hlink

theorem decodePacket_frame (fuel : ℕ) :
    decodePacket l2 ts fuel (link ++ m.frame) =
      if m.flags &&& 0x07 ≠ 0 then do
        let nxt ← index m.tail 11
        let (off, qfi) ← extensionLoop m.tail fuel nxt 12 none
        pure (some { ts := ts, teid := teidOf m.tail, qfi := qfi, inner := m.tail.drop off })
      else
        pure (some { ts := ts, teid := teidOf m.tail, qfi := none, inner := m.tail.drop 8 }) := by
  have hip : (link ++ m.frame).drop l2 = m.frame := List.drop_left' hlink
  have hparsed : Parsed ((link ++ m.frame).drop l2) := by
    rw [hip]
    exact m.frame_parsed
  rw [decodePacket_parsed hparsed, hip, m.udpPayload_frame]
  exact if_congr m.flagged_tail rfl rfl

/-- Without the optional octets all that follows the header is yielded. -/
theorem yields_of_unflagged (h : m.flags &&& 0x07 = 0) :
    m.Yields l2 link ts
      { ts := ts, teid := teidOf m.tail, qfi := none, inner := m.inner ++ m.trailer } := by
  intro fuel _
  have hinner : m.tail.drop 8 = m.inner ++ m.trailer := by
    rw [m.tail_of_unflagged h, List.drop_left' m.header_length]
  rw [decodePacket_frame hlink, if_neg (not_not.2 h), hinner]
  rfl

/-- With them the walk starts behind the octet of the first type. -/
theorem decodePacket_flagged (h : m.flags &&& 0x07 ≠ 0) {nxt : UInt8} {rest : List UInt8}
    (hbody : m.body = nxt :: rest) (fuel : ℕ) :
    decodePacket l2 ts fuel (link ++ m.frame) = (do
      let (off, qfi) ← extensionLoop m.tail fuel nxt 12 none
      pure (some { ts := ts, teid := teidOf m.tail, qfi := qfi, inner := m.tail.drop off })) := by
  have hnxt : m.tail[11]? = some nxt := by
    rw [m.tail_of_flagged h, List.getElem?_append_right m.before_length.le, m.before_length, hbody]
    rfl
  rw [decodePacket_frame hlink, if_pos h, index_of_some hnxt, ok_bind]

/-- What is yielded then stood behind a chain of extension headers. -/
theorem chain_of_yields (h : m.flags &&& 0x07 ≠ 0) {p : GtpuPacket} (hp : m.Yields l2 link ts p) :
    ∃ xs, m.body = encodeChain xs ++ p.inner := by
  obtain ⟨nxt, rest, hbody⟩ := m.exists_body
  have hrun := hp _ (Nat.lt_add_one _)
  rw [decodePacket_flagged hlink ts h hbody] at hrun
  cases hloop : extensionLoop m.tail ((link ++ m.frame).length + 1) nxt 12 none with
  | error e =>
      rw [hloop] at hrun
      cases hrun
  | ok r =>
      obtain ⟨off, qfi⟩ := r
      rw [hloop] at hrun
      cases hrun
      have htail : m.tail = (m.header ++ m.sequence) ++ nxt :: rest := by
        rw [m.tail_of_flagged h, hbody]
      have hstart : (12 : ℕ) = (m.header ++ m.sequence).length + 1 := by
        rw [m.before_length]
      rw [htail, hstart] at hloop
      obtain ⟨xs, behind, hxs, hoff⟩ := extensionLoop_chain _ _ _ _ _ _ hloop
      have hdrop : m.tail.drop off = behind := by
        rw [htail, hxs, ← List.append_assoc]
        exact List.drop_left' (by rw [List.length_append]; exact hoff.symm)
      exact ⟨xs, by rw [hbody, hdrop, hxs]⟩

/-- What stands behind such a chain is yielded. -/
theorem yields_of_chain (h : m.flags &&& 0x07 ≠ 0) {xs : List ExtensionHeader}
    {inner : List UInt8} (hxs : m.body = encodeChain xs ++ inner) :
    m.Yields l2 link ts
      { ts := ts, teid := teidOf m.tail, qfi := lastQfi xs, inner := inner } := by
  intro fuel hfuel
  obtain ⟨chain, hhead⟩ := encodeChain_head xs
  have hbody : m.body = firstType xs :: (chain ++ inner) := by
    rw [hxs, hhead, List.cons_append]
  have hchain : m.tail = (m.header ++ m.sequence) ++ encodeChain xs ++ inner := by
    rw [m.tail_of_flagged h, hxs, ← List.append_assoc]
  have hshort : xs.length < fuel := by
    have := length_lt_encodeChain xs
    rw [frame, hchain] at hfuel
    simp only [List.length_append] at hfuel
    omega
  have hloop := extensionLoop_encodeChain inner xs (m.header ++ m.sequence) none fuel hshort
  rw [← hchain, m.before_length, Option.or_none] at hloop
  have hinner : m.tail.drop (11 + (encodeChain xs).length) = inner := by
    rw [hchain]
    exact List.drop_left' (by rw [List.length_append, m.before_length])
  rw [decodePacket_flagged hlink ts h hbody, hloop, ok_bind]
  show Except.ok _ = _
  rw [hinner]

theorem yields_inner_iff (h : m.flags &&& 0x07 ≠ 0) (inner : List UInt8) :
    (∃ p, m.Yields l2 link ts p ∧ p.inner = inner) ↔
      ∃ xs, m.body = encodeChain xs ++ inner := by
  constructor
  · rintro ⟨p, hp, rfl⟩
    exact chain_of_yields hlink ts h hp
  · rintro ⟨xs, hxs⟩
    exact ⟨_, yields_of_chain hlink ts h hxs, rfl⟩

/-- The source yields the T-PDU of a frame exactly if the frame is delimited. -/
theorem yields_tpdu_iff :
    (∃ p, m.Yields l2 link ts p ∧ p.inner = m.inner) ↔ m.Delimited := by
  rw [Delimited]
  by_cases hflags : m.flags &&& 0x07 = 0
  · -- no optional octets
    have hyields := yields_of_unflagged hlink ts hflags
    rw [if_neg fun h => h.1 hflags]
    constructor
    · rintro ⟨p, hp, hinner⟩
      have hsame := (hyields _ (Nat.lt_add_one _)).symm.trans (hp _ (Nat.lt_add_one _))
      rw [← Option.some.inj (Except.ok.inj hsame)] at hinner
      simpa using hinner
    · intro htrailer
      exact ⟨_, hyields, by rw [htrailer, List.append_nil]⟩
  · rw [yields_inner_iff hlink ts hflags, body]
    by_cases he : m.flags &&& 0x04 = 0
    · -- an octet that is no type
      rw [if_pos he, if_pos ⟨hflags, he⟩]
      by_cases hzero : m.nextType = 0
      · rw [or_iff_left fun h => h.1 hzero, hzero]
        constructor
        · rintro ⟨xs, hxs⟩
          have hempty : encodeChain [] ++ (m.inner ++ m.trailer) = encodeChain xs ++ m.inner := hxs
          have hbehind := encodeChain_append_inj hempty
          exact ⟨rfl, by simpa using hbehind⟩
        · rintro ⟨-, htrailer⟩
          exact ⟨[], by rw [htrailer, List.append_nil]; rfl⟩
      · rw [or_iff_right fun h => hzero h.1, and_iff_right hzero]
    · rw [if_neg he, if_neg fun h => he h.2]
      constructor
      · rintro ⟨xs, hxs⟩
        simpa using encodeChain_append_inj hxs
      · intro htrailer
        exact ⟨m.extensions, by rw [htrailer, List.append_nil]⟩

/-- A frame is never passed over. -/
theorem decodePacket_frame_ne_none (fuel : ℕ) :
    decodePacket l2 ts fuel (link ++ m.frame) ≠ .ok none := by
  rw [decodePacket_frame hlink]
  split
  · cases index m.tail 11 with
    | error e => exact fun h => by cases h
    | ok nxt =>
        rw [ok_bind]
        cases extensionLoop m.tail fuel nxt 12 none with
        | error e => exact fun h => by cases h
        | ok r => exact fun h => by cases h
  · exact fun h => by cases h

end GPduFrame

/-! ## The stream -/

/-- What a record holds: a G-PDU behind its link header, or a packet that is none. -/
def FileHeader.Carries (h : FileHeader) (r : CaptureRecord) : Option GPduFrame → Prop
  | some m => ∃ link, link.length = h.l2 ∧ r.packet = link ++ m.frame
  | none => ¬ Parsed (r.packet.drop h.l2)

/-- With enough fuel the generator returns, and the inner packets it has yielded are the T-PDUs of
the G-PDUs, in order. -/
def Delimits (stream : List UInt8) (frames : List (Option GPduFrame)) : Prop :=
  ∃ packets, (∃ enough, ∀ fuel, enough ≤ fuel →
      gtpuPackets fuel (.start stream) = .ok ⟨⟩ ⟨[], packets⟩) ∧
    packets.map GtpuPacket.inner = frames.reduceOption.map fun m => m.inner

section Stream

variable {h : FileHeader} {r : CaptureRecord}

theorem FileHeader.Carries.settles_none (hr : h.Carries r none) : h.Settles r (.ok none) :=
  fun fuel _ => decodePacket_skipped hr _ fuel

/-- A record with a G-PDU that settles yields a tuple, with the T-PDU iff the frame is delimited. -/
theorem FileHeader.Carries.exists_packet {m : GPduFrame} {o : Option GtpuPacket}
    (hr : h.Carries r (some m)) (ho : h.Settles r (.ok o)) :
    ∃ p, o = some p ∧ (p.inner = m.inner ↔ m.Delimited) := by
  obtain ⟨link, hlink, hpacket⟩ := hr
  simp only [FileHeader.Settles, FileHeader.handle, hpacket] at ho
  cases o with
  | none =>
      exact absurd (ho _ (Nat.lt_add_one _)) (GPduFrame.decodePacket_frame_ne_none hlink _ _)
  | some p =>
      have hiff := GPduFrame.yields_tpdu_iff (m := m) hlink (timestamp h.nano r.sec r.frac)
      refine ⟨p, rfl, fun hinner => hiff.1 ⟨p, ho, hinner⟩, fun hdelimited => ?_⟩
      obtain ⟨p', hp', hinner⟩ := hiff.2 hdelimited
      have hsame := (ho _ (Nat.lt_add_one _)).symm.trans (hp' _ (Nat.lt_add_one _))
      rw [Option.some.inj (Except.ok.inj hsame), hinner]

/-- A delimited frame settles. -/
theorem FileHeader.Carries.settles {m : GPduFrame} (hr : h.Carries r (some m))
    (hm : m.Delimited) : ∃ p, h.Settles r (.ok (some p)) := by
  obtain ⟨link, hlink, hpacket⟩ := hr
  obtain ⟨p, hp, -⟩ :=
    (GPduFrame.yields_tpdu_iff hlink (timestamp h.nano r.sec r.frac)).2 hm
  refine ⟨p, ?_⟩
  simp only [FileHeader.Settles, FileHeader.handle, hpacket]
  exact hp

/-- What settled records yield are the T-PDUs iff all frames are delimited. -/
theorem map_inner_iff {rs : List CaptureRecord} {outs : List (Option GtpuPacket)}
    (hall : List.Forall₂ (fun r o => h.Settles r (.ok o)) rs outs) :
    ∀ frames : List (Option GPduFrame), List.Forall₂ h.Carries rs frames →
      (outs.reduceOption.map GtpuPacket.inner = (frames.reduceOption.map fun m => m.inner) ↔
        ∀ m ∈ frames.reduceOption, m.Delimited) := by
  induction hall with
  | nil =>
      intro frames hframes
      cases hframes
      simp
  | @cons r o rs outs hr _ ih =>
      intro frames hframes
      cases hframes with
      | @cons _ frame _ frames hframe hframes =>
          cases frame with
          | none =>
              have ho : o = none := Except.ok.inj (hr.unique hframe.settles_none)
              rw [ho, List.reduceOption_cons_of_none, List.reduceOption_cons_of_none]
              exact ih frames hframes
          | some m =>
              obtain ⟨p, rfl, hp⟩ := hframe.exists_packet hr
              rw [List.reduceOption_cons_of_some, List.reduceOption_cons_of_some, List.map_cons,
                List.map_cons, List.cons_eq_cons, hp, ih frames hframes, List.forall_mem_cons]

/-- A record that does not settle keeps the T-PDUs from being yielded. -/
theorem not_delimits {stream : List UInt8} {frames : List (Option GPduFrame)}
    {pre post : List CaptureRecord} {outs : List (Option GtpuPacket)} {e : PyError}
    (hsplit : captured stream = pre ++ r :: post)
    (hpre : List.Forall₂ (fun r o => (streamHeader stream).Settles r (.ok o)) pre outs)
    (hr : (streamHeader stream).Settles r (.error e)) : ¬ Delimits stream frames := by
  rintro ⟨packets, ⟨enough, hreturns⟩, -⟩
  obtain ⟨rest, hrun⟩ := gtpuPackets_raises hsplit hpre hr
    (Nat.lt_of_lt_of_le (Nat.lt_add_one _) (Nat.le_max_right enough (stream.length + 1)))
  rw [hreturns _ (Nat.le_max_left enough (stream.length + 1))] at hrun
  cases hrun

/-- Where all records settle, what is yielded decides. -/
theorem delimits_of_settles {stream : List UInt8} {outs : List (Option GtpuPacket)}
    (hall : List.Forall₂ (fun r o => (streamHeader stream).Settles r (.ok o)) (captured stream)
      outs) (frames : List (Option GPduFrame)) :
    Delimits stream frames ↔
      outs.reduceOption.map GtpuPacket.inner = frames.reduceOption.map fun m => m.inner := by
  constructor
  · rintro ⟨packets, ⟨enough, hreturns⟩, hinner⟩
    have hrun := hreturns _ (Nat.le_max_left enough (stream.length + 1))
    rw [gtpuPackets_returns hall
      (Nat.lt_of_lt_of_le (Nat.lt_add_one _) (Nat.le_max_right enough (stream.length + 1)))] at hrun
    have hpackets : outs.reduceOption = packets := by
      injection hrun with _ hstate
      injection hstate
    rw [hpackets, hinner]
  · intro hinner
    exact ⟨_, ⟨stream.length + 1, fun fuel hfuel => gtpuPackets_returns hall (by omega)⟩, hinner⟩

variable {stream : List UInt8} {frames : List (Option GPduFrame)}

/-- Delimited frames all settle, so their T-PDUs are yielded. -/
theorem delimits_of_delimited
    (hframes : List.Forall₂ (streamHeader stream).Carries (captured stream) frames)
    (hdelimited : ∀ m ∈ frames.reduceOption, m.Delimited) : Delimits stream frames := by
  obtain ⟨outs, hall⟩ : ∃ outs, List.Forall₂
      (fun r o => (streamHeader stream).Settles r (.ok o)) (captured stream) outs := by
    generalize captured stream = rs at hframes
    induction hframes with
    | nil => exact ⟨[], .nil⟩
    | @cons r frame rs frames hframe _ ih =>
        cases frame with
        | none =>
            obtain ⟨outs, hall⟩ := ih (by simpa [List.reduceOption_cons_of_none] using hdelimited)
            exact ⟨_, .cons hframe.settles_none hall⟩
        | some m =>
            rw [List.reduceOption_cons_of_some, List.forall_mem_cons] at hdelimited
            obtain ⟨outs, hall⟩ := ih hdelimited.2
            obtain ⟨p, hp⟩ := hframe.settles hdelimited.1
            exact ⟨_, .cons hp hall⟩
  rw [delimits_of_settles hall, map_inner_iff hall frames hframes]
  exact hdelimited

/-- Where the T-PDUs are yielded all records settle, so all frames are delimited. -/
theorem delimited_of_delimits
    (hframes : List.Forall₂ (streamHeader stream).Carries (captured stream) frames)
    (h : Delimits stream frames) : ∀ m ∈ frames.reduceOption, m.Delimited := by
  rcases (streamHeader stream).settles_or_first (captured stream) with
    ⟨outs, hall⟩ | ⟨pre, r, post, outs, hsplit, hall, hr⟩
  · rwa [delimits_of_settles hall, map_inner_iff hall frames hframes] at h
  · obtain ⟨e, he⟩ : ∃ e, (streamHeader stream).Settles r (.error e) :=
      hr.elim (fun hcuts => ⟨_, hcuts.settles⟩) fun hstalls => ⟨_, hstalls.settles⟩
    exact absurd h (not_delimits hsplit hall he)

end Stream

/-! ## Small captures -/

namespace Small

/-- An inner IPv4 packet without payload. -/
def tpdu : List UInt8 := [0x45, 0, 0, 20, 0, 0, 0, 0, 64, 17, 0, 0, 10, 0, 0, 1, 10, 0, 0, 2]

/-- A G-PDU without optional octets, and the frame goes on with four octets behind it. -/
def padded : GPduFrame where
  ihl := 5
  front := [0, 0, 56, 0, 0, 0, 0, 64]
  rest := [0, 0, 192, 168, 0, 1, 192, 168, 0, 2]
  udp := [8, 104, 8, 104, 0, 36, 0, 0]
  flags := 0x30
  length := [0, 20]
  teid := 7
  sequence := [0, 0, 0]
  extensions := []
  inner := tpdu
  nextType := 0
  trailer := [0xDE, 0xAD, 0xBE, 0xEF]
  ihl_ge := uplink.ihl_ge
  ihl_le := uplink.ihl_le
  front_length := rfl
  rest_length := rfl
  udp_length := rfl
  length_length := rfl
  sequence_length := uplink.sequence_length
  extensions_flag := fun _ => rfl
  length_lt := by decide
  length_eq := by decide

/-- A G-PDU with a sequence number and no extension header, whose octet in the place of an
extension type is not zero. -/
def numbered : GPduFrame where
  ihl := 5
  front := [0, 0, 60, 0, 0, 0, 0, 64]
  rest := [0, 0, 192, 168, 0, 1, 192, 168, 0, 2]
  udp := [8, 104, 8, 104, 0, 40, 0, 0]
  flags := 0x32
  length := [0, 24]
  teid := 7
  sequence := [0, 1, 0]
  extensions := []
  inner := tpdu
  nextType := 0x85
  trailer := []
  ihl_ge := uplink.ihl_ge
  ihl_le := uplink.ihl_le
  front_length := rfl
  rest_length := rfl
  udp_length := rfl
  length_length := rfl
  sequence_length := rfl
  extensions_flag := fun _ => rfl
  length_lt := by decide
  length_eq := by decide

/-- The same one with a zero in that place. -/
def plain : GPduFrame :=
  { numbered with nextType := 0, length_lt := by decide, length_eq := by decide }

/-- The octets of the frame behind an Ethernet header. -/
def packet (m : GPduFrame) : List UInt8 := List.replicate 14 0 ++ m.frame

/-- A capture with this frame only. -/
def onWire (m : GPduFrame) : List UInt8 :=
  Endian.little.encode 4 0xA1B2C3D4 ++ List.replicate 16 0 ++ Endian.little.encode 4 1 ++
    List.replicate 8 0 ++ Endian.little.encode 4 (packet m).length ++
    Endian.little.encode 4 (packet m).length ++ packet m

/-- The capture carries the frame. -/
theorem onWire_carries {m : GPduFrame} (hfits : (packet m).length < 256 ^ 4) :
    List.Forall₂ (streamHeader (onWire m)).Carries (captured (onWire m)) [some m] := by
  let empty : CaptureFile := ⟨.little, false, List.replicate 16 0, .ethernet, [], rfl⟩
  have hsplit : onWire m = empty.header ++ (Endian.little.encode 4 0 ++ Endian.little.encode 4 0 ++
      Endian.little.encode 4 (packet m).length ++ Endian.little.encode 4 (packet m).length ++
      packet m ++ []) := by
    have hzeros : List.replicate 8 (0 : UInt8) =
        Endian.little.encode 4 0 ++ Endian.little.encode 4 0 := by decide
    rw [onWire, hzeros]
    simp [empty, CaptureFile.header, CaptureFile.magic, LinkType.number]
  have hheader : streamHeader (onWire m) = ⟨.little, false, 14⟩ := by
    rw [streamHeader, hsplit, List.take_left' empty.header_length, empty.fileHeader_header]
    rfl
  have hcaptured : captured (onWire m) = [⟨0, 0, packet m⟩] := by
    have hlong : ¬ (onWire m).length < 24 := by
      rw [hsplit, List.length_append, empty.header_length]
      omega
    have hendian : (fileHeader ((onWire m).take 24)).endian = .little :=
      congrArg FileHeader.endian hheader
    rw [captured, if_neg hlong, hendian, hsplit, List.drop_left' empty.header_length,
      records_cons .little (by decide) (by decide) _ hfits, records_short _ (by decide)]
  rw [hcaptured, hheader]
  exact .cons ⟨List.replicate 14 0, rfl, rfl⟩ .nil

theorem padded_not_delimited : ¬ padded.Delimited := by
  rw [GPduFrame.Delimited, if_neg (by decide)]
  decide

theorem numbered_not_delimited : ¬ numbered.Delimited := by
  rw [GPduFrame.Delimited, if_pos (by decide)]
  rintro (⟨h, -⟩ | ⟨-, xs, hxs⟩)
  · exact absurd h (by decide)
  · -- one octet in front of the T-PDU leaves no room for an extension header
    have hlength := congrArg List.length hxs
    have hshort := length_lt_encodeChain xs
    have hroom : (numbered.nextType :: (numbered.inner ++ numbered.trailer)).length =
        numbered.inner.length + 1 := rfl
    rw [List.length_append] at hlength
    have hnil : xs = [] := List.eq_nil_of_length_eq_zero (by omega)
    rw [hnil] at hxs
    exact absurd (List.cons.inj hxs).1 (by decide)

end Small

/-- The inner packets yielded from a capture are the T-PDUs of its G-PDUs exactly if every frame is
delimited: nothing follows the T-PDU and, without E, the octet in the place of an extension type is
zero, the one coincidence described there apart. -/
theorem gtpuPackets_delimits_iff {stream : List UInt8} {frames : List (Option GPduFrame)}
    (hframes : List.Forall₂ (streamHeader stream).Carries (captured stream) frames) :
    Delimits stream frames ↔ ∀ m ∈ frames.reduceOption, m.Delimited :=
  ⟨delimited_of_delimits hframes, delimits_of_delimited hframes⟩

theorem gtpuPackets_delimits_iff_plain :
    Delimits (Small.onWire Small.plain) [some Small.plain] ↔
      ∀ m ∈ [some Small.plain].reduceOption, m.Delimited :=
  gtpuPackets_delimits_iff (Small.onWire_carries (by decide))

/-- With the frame check sequence left on, the source yields it along with the T-PDU; with a stray
octet in the place of an extension type, it goes looking for an extension header. -/
theorem padded_and_numbered_not_delimits :
    (List.Forall₂ (streamHeader (Small.onWire Small.padded)).Carries
        (captured (Small.onWire Small.padded)) [some Small.padded] ∧
      ¬ Delimits (Small.onWire Small.padded) [some Small.padded]) ∧
    (List.Forall₂ (streamHeader (Small.onWire Small.numbered)).Carries
        (captured (Small.onWire Small.numbered)) [some Small.numbered] ∧
      ¬ Delimits (Small.onWire Small.numbered) [some Small.numbered]) := by
  have hpadded := Small.onWire_carries (m := Small.padded) (by decide)
  have hnumbered := Small.onWire_carries (m := Small.numbered) (by decide)
  refine ⟨⟨hpadded, fun h => ?_⟩, ⟨hnumbered, fun h => ?_⟩⟩
  · exact Small.padded_not_delimited
      (delimited_of_delimits hpadded h _ (List.reduceOption_mem_iff.2 (by simp)))
  · exact Small.numbered_not_delimited
      (delimited_of_delimits hnumbered h _ (List.reduceOption_mem_iff.2 (by simp)))

end LinkController
end LunaBridge
