import LunaBridge.LinkController.BridgeFiles

/-!
# Receiving — a header is read back as it was written

The relay hands the receiver payloads that the nodes were given, in any order, any number of times,
or never.  The header in front of a payload is found whatever the inner packet holds, and its first
field is the number of the packet.
-/

namespace LunaBridge
namespace LinkController

open Foundation Foundation.Machine Foundation.Python Foundation.Text Gateway
open scoped List

/-! ## Headers -/

namespace Encapsulated

variable (e : Encapsulated)

/-- The fields of the header. -/
def fields : List Text :=
  [decimal e.seq, e.cls.value.toList, decimal e.teid, qfiText e.qfi, decimal e.fiveqi, fixed 3 e.t]

/-- A character that is no digit and none of the others that are printed is in no field. -/
theorem not_mem_field {c : Char} (hdigit : c.isDigit = false) (hpoint : c ≠ '.') (hsign : c ≠ '-')
    (hclass : ∀ cls : TrafficClass, c ∉ cls.value.toList) (hnone : c ∉ "None".toList) :
    ∀ field ∈ e.fields, c ∉ field := by
  intro field hfield
  simp only [fields, List.mem_cons, List.not_mem_nil, or_false] at hfield
  rcases hfield with rfl | rfl | rfl | rfl | rfl | rfl
  · exact not_mem_decimal hdigit
  · exact hclass e.cls
  · exact not_mem_decimal hdigit
  · cases e.qfi with
    | none => exact hnone
    | some qfi => exact not_mem_decimal hdigit
  · exact not_mem_decimal hdigit
  · exact not_mem_fixed hdigit hpoint hsign

theorem colon_not_mem_field : ∀ field ∈ e.fields, ':' ∉ field :=
  e.not_mem_field rfl (by decide) (by decide) (fun cls => by cases cls <;> decide +kernel)
      (by decide +kernel)

theorem bar_not_mem_header : '|' ∉ e.header :=
  not_mem_intercalate (by decide)
    (e.not_mem_field rfl (by decide) (by decide) (fun cls => by cases cls <;> decide +kernel)
      (by decide +kernel))

theorem isAscii_of_mem_header : ∀ c ∈ e.header, isAscii c = true := by
  intro c hc
  by_contra hnot
  have hascii : ∀ a : Char, isAscii a = true → c ≠ a := fun a ha heq => hnot (heq ▸ ha)
  have htext : ∀ t : Text, t.all isAscii = true → c ∉ t := fun t ht hmem =>
    hnot (List.all_eq_true.1 ht c hmem)
  refine not_mem_intercalate (hascii ':' rfl) (e.not_mem_field ?_ (hascii '.' rfl)
    (hascii '-' rfl) (fun cls => htext _ (by cases cls <;> rfl)) (htext _ rfl)) hc
  cases hdigit : c.isDigit with
  | false => rfl
  | true => exact absurd (isAscii_of_isDigit hdigit) hnot

/-- The number is the first field. -/
theorem headerSeq_header : headerSeq e.header = .ok e.seq := by
  have hsplit : e.header.splitOn ':' = e.fields :=
    List.splitOn_intercalate ':' e.colon_not_mem_field (List.cons_ne_nil _ _)
  rw [headerSeq, hsplit]
  exact parseInt_decimal e.seq

/-- The receiver finds the header in front of the first bar, whatever comes behind it. -/
theorem receiveLine_payload (t : ℚ) : receiveLine (some e.payload) t =
    .ok (some { h := e.header, n := e.payload.length, t := t }) := by
  have hbar : (0x7C : UInt8) ∉ utf8 e.header :=
    not_mem_utf8 e.isAscii_of_mem_header (c := '|') rfl e.bar_not_mem_header
  have hfront : e.payload.takeWhile (fun b => decide (b ≠ 0x7C)) = utf8 e.header := by
    rw [payload, List.takeWhile_append_of_pos fun b hb => ?_]
    · simp
    · exact decide_eq_true fun heq => hbar (heq ▸ hb)
  have hmem : (0x7C : UInt8) ∈ e.payload := by simp [payload]
  cases hpl : e.payload with
  | nil => simp [hpl] at hmem
  | cons b bs =>
      rw [hpl] at hfront hmem
      simp only [receiveLine]
      rw [if_pos hmem, hfront, decodeUtf8_utf8]
      rfl

/-- A payload is not mistaken for that of another packet. -/
theorem seq_eq_of_payload {e e' : Encapsulated} (h : e.payload = e'.payload) : e.seq = e'.seq := by
  have hline := e.receiveLine_payload 0
  rw [h, e'.receiveLine_payload 0, Except.ok.injEq, Option.some.injEq, RecvLine.mk.injEq] at hline
  have hseq := e.headerSeq_header
  rw [← hline.1, e'.headerSeq_header] at hseq
  exact (Except.ok.inj hseq).symm

end Encapsulated

/-! ## The receiver -/

/-- The packets of which some copy is among the messages. -/
def Arrived (messages : List (Option (List UInt8) × ℚ)) (e : Encapsulated) : Prop :=
  some e.payload ∈ messages.map Prod.fst

instance (messages : List (Option (List UInt8) × ℚ)) (e : Encapsulated) :
    Decidable (Arrived messages e) := inferInstanceAs (Decidable (_ ∈ _))

/-- Messages that carry nothing, or a payload of one of the packets `es`. -/
def Carried (es : List Encapsulated) (messages : List (Option (List UInt8) × ℚ)) : Prop :=
  ∀ m ∈ messages, ∀ pl, m.1 = some pl → pl ∈ es.map Encapsulated.payload

/-- The receiver keeps going, and writes down the number of every packet that arrives. -/
theorem receiveLoop_spec (es : List Encapsulated) : ∀ (messages : List (Option (List UInt8) × ℚ))
    (lines : List RecvLine), Carried es messages →
      Returns (receiveLoop messages) lines fun _ lines' => ∃ new seqs, lines' = lines ++ new ∧
        new.mapM (fun l => headerSeq l.h) = .ok seqs ∧
        ∀ seq, seq ∈ seqs ↔ ∃ e ∈ es, e.seq = seq ∧ Arrived messages e := by
  intro messages
  induction messages with
  | nil =>
      intro lines _
      refine Returns.pure ⟨[], [], (List.append_nil _).symm, rfl, fun seq => ?_⟩
      simp [Arrived]
  | cons m messages ih =>
      intro lines hcarried
      obtain ⟨hm, hrest⟩ := List.forall_mem_cons.1 hcarried
      obtain ⟨payload, t⟩ := m
      -- a message without a payload leaves no line
      have hskip : receiveLine payload t = .ok none → (∀ e ∈ es, payload ≠ some e.payload) →
          Returns (receiveLoop ((payload, t) :: messages)) lines fun _ lines' =>
            ∃ new seqs, lines' = lines ++ new ∧ new.mapM (fun l => headerSeq l.h) = .ok seqs ∧
              ∀ seq, seq ∈ seqs ↔ ∃ e ∈ es, e.seq = seq ∧ Arrived ((payload, t) :: messages) e := by
        intro hline hother
        refine Returns.ok_bind (a := none) (by rw [hline]; rfl) (Returns.modify_bind ?_)
        rw [Option.toList_none, List.append_nil]
        refine (ih lines hrest).mono fun _ lines' h' => ?_
        obtain ⟨new, seqs, hlines, hseqs, hmem⟩ := h'
        refine ⟨new, seqs, hlines, hseqs, fun seq => (hmem seq).trans ?_⟩
        refine exists_congr fun e => and_congr_right fun he => and_congr_right fun _ => ?_
        rw [Arrived, Arrived, List.map_cons, List.mem_cons, or_iff_right (hother e he).symm]
      cases payload with
      | none => exact hskip rfl fun e _ => nofun
      | some pl =>
          obtain ⟨e, he, rfl⟩ := List.mem_map.1 (hm pl rfl)
          have hline := e.receiveLine_payload t
          refine Returns.ok_bind (a := some _) (by rw [hline]; rfl) (Returns.modify_bind ?_)
          refine (ih _ hrest).mono fun _ lines' h' => ?_
          obtain ⟨new, seqs, hlines, hseqs, hmem⟩ := h'
          rw [Option.toList_some, List.append_assoc, List.singleton_append] at hlines
          refine ⟨_, e.seq :: seqs, hlines, ?_, fun seq => ?_⟩
          · rw [List.mapM_cons, e.headerSeq_header, hseqs]
            rfl
          · rw [List.mem_cons, hmem]
            constructor
            · rintro (rfl | ⟨e', he', hseq, harrived⟩)
              · exact ⟨e, he, rfl, List.mem_cons_self ..⟩
              · exact ⟨e', he', hseq, List.mem_cons_of_mem _ harrived⟩
            · rintro ⟨e', he', rfl, harrived⟩
              rcases List.mem_cons.1 harrived with heq | harrived
              · exact Or.inl (Encapsulated.seq_eq_of_payload (Option.some.inj heq))
              · exact Or.inr ⟨e', he', rfl, harrived⟩

end LinkController
end LunaBridge
