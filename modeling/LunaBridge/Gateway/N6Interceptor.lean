import LunaBridge.Foundation.Bytes
import LunaBridge.Foundation.Text

/-!
# N6Interceptor — the flow id of a captured packet

`deriveFlowId` prints addresses, ports and protocol of a packet into one text.  `portPair` says
which ports there are and `flowText` what is printed (`deriveFlowId_eq`); no field holds one of the
separators around it, which makes the text unambiguous (`flowText_inj`).
-/

namespace LunaBridge
namespace Gateway

open Foundation Foundation.Bytes Foundation.Python Foundation.Text

/-- What could be raised: by an index past the end, or by `inet_ntoa`. -/
inductive FlowIdError
  | raised (e : PyError)
  | osError (message : String)
  deriving DecidableEq, Repr

/-- `payload[i:j]`. -/
def slice (payload : List UInt8) (i j : ℕ) : List UInt8 := (payload.take j).drop i

/-- `payload[i]`. -/
def byteAt (payload : List UInt8) (i : ℕ) : Except FlowIdError UInt8 :=
  match index payload i with
  | .ok b => .ok b
  | .error e => .error (.raised e)

/-- `socket.inet_ntoa`: the dotted quad of four bytes. -/
def inetNtoa : List UInt8 → Except FlowIdError Text
  | [a, b, c, d] => .ok (['.'].intercalate
      [decimal a.toNat, decimal b.toNat, decimal c.toNat, decimal d.toNat])
  | _ => .error (.osError "packed IP wrong length")

/-- `{1: "icmp", 6: "tcp", 17: "udp"}.get(proto, str(proto))`. -/
def protoName (proto : UInt8) : Text :=
  if proto = 1 then "icmp".toList
  else if proto = 6 then "tcp".toList
  else if proto = 17 then "udp".toList
  else decimal proto.toNat

/-- `derive_flow_id`. -/
def deriveFlowId (payload : List UInt8) : Except FlowIdError Text :=
  if payload.length < 20 then
    .ok "malformed".toList
  else do
    let first ← byteAt payload 0
    let ihl := (first.toNat &&& 0x0F) * 4
    let proto ← byteAt payload 9
    let src ← inetNtoa (slice payload 12 16)
    let dst ← inetNtoa (slice payload 16 20)
    if (proto = 6 ∨ proto = 17) ∧ ihl + 4 ≤ payload.length then
      -- a header that carries ports, and they have been captured
      let sport := Endian.big.decode (slice payload ihl (ihl + 2))
      let dport := Endian.big.decode (slice payload (ihl + 2) (ihl + 4))
      .ok (src ++ [':'] ++ decimal sport ++ ['-'] ++ dst ++ [':'] ++ decimal dport ++ ['-'] ++
        protoName proto)
    else
      .ok (src ++ ['-'] ++ dst ++ ['-'] ++ protoName proto)

/-! ## What a flow id names -/

/-- The header length in bytes. -/
def headerLength (payload : List UInt8) : ℕ := 4 * ((payload.headD 0).toNat % 16)

/-- The two ports, of a TCP or UDP packet that is long enough to hold them. -/
def portPair (payload : List UInt8) : Option (ℕ × ℕ) :=
  if (payload[9]? = some 6 ∨ payload[9]? = some 17) ∧ headerLength payload + 4 ≤ payload.length then
    some (Endian.big.decode (slice payload (headerLength payload) (headerLength payload + 2)),
      Endian.big.decode (slice payload (headerLength payload + 2) (headerLength payload + 4)))
  else
    none

/-- An address as text, with its port if there is one. -/
def endpoint (address : Text) (port : Option ℕ) : Text :=
  [':'].intercalate (address :: (port.map decimal).toList)

/-- The text of a flow id. -/
def flowText (src dst : Text) (ports : Option (ℕ × ℕ)) (proto : UInt8) : Text :=
  ['-'].intercalate
    [endpoint src (ports.map Prod.fst), endpoint dst (ports.map Prod.snd), protoName proto]

/-! ## Protocol names -/

theorem not_mem_protoName {c : Char} (hdigit : c.isDigit = false)
    (hnames : ∀ name ∈ ["icmp", "tcp", "udp"], c ∉ name.toList) (proto : UInt8) :
    c ∉ protoName proto := by
  rw [protoName]
  split_ifs
  · exact hnames "icmp" (by simp)
  · exact hnames "tcp" (by simp)
  · exact hnames "udp" (by simp)
  · exact not_mem_decimal hdigit

/-- All three names have a letter in common, which no number has. -/
theorem mem_protoName_iff (proto : UInt8) :
    'p' ∈ protoName proto ↔ proto = 1 ∨ proto = 6 ∨ proto = 17 := by
  by_cases hnamed : proto = 1 ∨ proto = 6 ∨ proto = 17
  · refine iff_of_true ?_ hnamed
    rcases hnamed with rfl | rfl | rfl <;> decide
  · refine iff_of_false ?_ hnamed
    simp only [not_or] at hnamed
    rw [protoName, if_neg hnamed.1, if_neg hnamed.2.1, if_neg hnamed.2.2]
    exact not_mem_decimal (by decide)

theorem protoName_injective : Function.Injective protoName := by
  intro proto proto' h
  have hiff := mem_protoName_iff proto
  rw [h, mem_protoName_iff] at hiff
  by_cases hnamed : proto = 1 ∨ proto = 6 ∨ proto = 17
  · -- two of the three names
    rcases hnamed with rfl | rfl | rfl <;> rcases hiff.2 (by simp) with rfl | rfl | rfl <;>
      first | rfl | exact absurd h (by decide)
  · -- two numbers
    have hnamed' := mt hiff.1 hnamed
    simp only [not_or] at hnamed hnamed'
    rw [protoName, protoName, if_neg hnamed.1, if_neg hnamed.2.1, if_neg hnamed.2.2,
      if_neg hnamed'.1, if_neg hnamed'.2.1, if_neg hnamed'.2.2] at h
    exact UInt8.toNat_inj.1 (decimal_injective h)

/-! ## Addresses -/

theorem inetNtoa_eq_ok {bs : List UInt8} {t : Text} (h : inetNtoa bs = .ok t) :
    bs.length = 4 ∧ t = ['.'].intercalate (bs.map fun b => decimal b.toNat) := by
  unfold inetNtoa at h
  split at h
  · exact ⟨rfl, (Except.ok.inj h).symm⟩
  · cases h

theorem inetNtoa_of_length {bs : List UInt8} (h : bs.length = 4) :
    ∃ t, inetNtoa bs = .ok t := by
  match bs, h with
  | [a, b, c, d], _ => exact ⟨_, rfl⟩

/-- Only dots and digits are printed. -/
theorem not_mem_inetNtoa {bs : List UInt8} {t : Text} (h : inetNtoa bs = .ok t) {c : Char}
    (hdigit : c.isDigit = false) (hdot : c ≠ '.') : c ∉ t := by
  rw [(inetNtoa_eq_ok h).2]
  refine not_mem_intercalate hdot fun field hfield => ?_
  obtain ⟨b, _, rfl⟩ := List.mem_map.1 hfield
  exact not_mem_decimal hdigit

theorem inetNtoa_inj {bs bs' : List UInt8} {t t' : Text} (h : inetNtoa bs = .ok t)
    (h' : inetNtoa bs' = .ok t') : t = t' ↔ bs = bs' := by
  constructor
  · rintro rfl
    obtain ⟨hlen, htext⟩ := inetNtoa_eq_ok h
    obtain ⟨hlen', htext'⟩ := inetNtoa_eq_ok h'
    have hfields : ∀ bs : List UInt8, ∀ field ∈ bs.map fun b => decimal b.toNat, '.' ∉ field := by
      intro bs field hfield
      obtain ⟨b, _, rfl⟩ := List.mem_map.1 hfield
      exact not_mem_decimal (by decide)
    have hne : ∀ bs : List UInt8, bs.length = 4 → bs.map (fun b => decimal b.toNat) ≠ [] := by
      rintro _ hfour hnil
      rw [List.map_eq_nil_iff.1 hnil] at hfour
      cases hfour
    have hmap := (intercalate_inj (hfields bs) (hfields bs') (hne bs hlen) (hne bs' hlen')).1
      (htext.symm.trans htext')
    exact (List.map_injective_iff.2 fun b b' hb => UInt8.toNat_inj.1 (decimal_injective hb)) hmap
  · rintro rfl
    exact Except.ok.inj (h.symm.trans h')

/-! ## Endpoints -/

theorem not_mem_endpointFields {address : Text} {c : Char} (haddress : c ∉ address)
    (hdigit : c.isDigit = false) (port : Option ℕ) :
    ∀ field ∈ address :: (port.map decimal).toList, c ∉ field := by
  intro field hfield
  rcases List.mem_cons.1 hfield with rfl | hport
  · exact haddress
  · rw [Option.mem_toList] at hport
    obtain ⟨n, _, rfl⟩ := Option.map_eq_some_iff.1 hport
    exact not_mem_decimal hdigit

theorem not_mem_endpoint {address : Text} {c : Char} (haddress : c ∉ address)
    (hdigit : c.isDigit = false) (hcolon : c ≠ ':') (port : Option ℕ) :
    c ∉ endpoint address port :=
  not_mem_intercalate hcolon (not_mem_endpointFields haddress hdigit port)

theorem endpoint_inj {address address' : Text} {port port' : Option ℕ} (haddress : ':' ∉ address)
    (haddress' : ':' ∉ address') :
    endpoint address port = endpoint address' port' ↔ address = address' ∧ port = port' := by
  have hfields := not_mem_endpointFields haddress (by decide) port
  have hfields' := not_mem_endpointFields haddress' (by decide) port'
  have hport : (port.map decimal).toList = (port'.map decimal).toList ↔ port = port' := by
    cases port <;> cases port' <;> simp [decimal_injective.eq_iff]
  rw [endpoint, endpoint, intercalate_inj hfields hfields' (List.cons_ne_nil _ _)
    (List.cons_ne_nil _ _), List.cons.injEq, hport]

/-! ## Flow ids -/

/-- Ports are there for both endpoints or for none. -/
theorem ports_eq_iff {ports ports' : Option (ℕ × ℕ)} :
    ports.map Prod.fst = ports'.map Prod.fst ∧ ports.map Prod.snd = ports'.map Prod.snd ↔
      ports = ports' := by
  cases ports <;> cases ports' <;> simp [Prod.ext_iff]

/-- The separators make a flow id unambiguous. -/
theorem flowText_inj {src dst src' dst' : Text} {ports ports' : Option (ℕ × ℕ)}
    {proto proto' : UInt8} (hfields : ∀ t ∈ [src, dst, src', dst'], '-' ∉ t ∧ ':' ∉ t) :
    flowText src dst ports proto = flowText src' dst' ports' proto' ↔
      src = src' ∧ dst = dst' ∧ proto = proto' ∧ ports = ports' := by
  simp only [List.forall_mem_cons] at hfields
  obtain ⟨⟨hsrc, hsrc₂⟩, ⟨hdst, hdst₂⟩, ⟨hsrc', hsrc'₂⟩, ⟨hdst', hdst'₂⟩, -⟩ := hfields
  -- none of the three parts holds the dash that separates them
  have hdash : ∀ {src dst : Text} (ports : Option (ℕ × ℕ)) (proto : UInt8), '-' ∉ src → '-' ∉ dst →
      ∀ t ∈ [endpoint src (ports.map Prod.fst), endpoint dst (ports.map Prod.snd),
        protoName proto], '-' ∉ t := by
    intro src dst ports proto hsrc hdst
    simp only [List.forall_mem_cons]
    exact ⟨not_mem_endpoint hsrc (by decide) (by decide) _,
      not_mem_endpoint hdst (by decide) (by decide) _,
      not_mem_protoName (by decide) (by decide) proto, nofun⟩
  rw [flowText, flowText, intercalate_inj (hdash ports proto hsrc hdst)
    (hdash ports' proto' hsrc' hdst') (List.cons_ne_nil _ _) (List.cons_ne_nil _ _)]
  simp only [List.cons.injEq, endpoint_inj hsrc₂ hsrc'₂, endpoint_inj hdst₂ hdst'₂,
    protoName_injective.eq_iff, and_true, ← @ports_eq_iff ports]
  tauto

/-- On a packet with a whole fixed header no error path is taken. -/
theorem deriveFlowId_eq {payload : List UInt8} (h : 20 ≤ payload.length) :
    ∃ src dst proto, inetNtoa (slice payload 12 16) = .ok src ∧
      inetNtoa (slice payload 16 20) = .ok dst ∧ payload[9]? = some proto ∧
      deriveFlowId payload = .ok (flowText src dst (portPair payload) proto) := by
  have hlength : ∀ i, i + 4 ≤ payload.length → (slice payload i (i + 4)).length = 4 := by
    intro i hi
    rw [slice, List.length_drop, List.length_take]
    omega
  obtain ⟨src, hsrc⟩ := inetNtoa_of_length (hlength 12 (by omega))
  obtain ⟨dst, hdst⟩ := inetNtoa_of_length (hlength 16 (by omega))
  obtain ⟨first, hfirst, hindex⟩ := exists_index payload (i := 0) (by omega)
  obtain ⟨proto, hproto, hindex'⟩ := exists_index payload (i := 9) (by omega)
  refine ⟨src, dst, proto, hsrc, hdst, hproto, ?_⟩
  -- the offset of the ports, as the source computes it
  have hihl : (first.toNat &&& 0x0F) * 4 = headerLength payload := by
    have hhead : payload.headD 0 = first := by
      rw [List.headD_eq_head?_getD, List.head?_eq_getElem?, hfirst, Option.getD_some]
    have hmask : first.toNat &&& 0x0F = first.toNat % 16 :=
      Nat.and_two_pow_sub_one_eq_mod first.toNat 4
    rw [headerLength, hhead, hmask, mul_comm]
  rw [deriveFlowId, if_neg (by omega)]
  simp only [byteAt, hindex, hindex', hsrc, hdst, ok_bind, hihl]
  rw [portPair, hproto]
  simp only [Option.some.injEq]
  split
  · simp [flowText, endpoint, List.intercalate_cons_cons]
  · simp [flowText, endpoint, List.intercalate_cons_cons]

/-- A flow id is derived from every byte string, and two packets with a whole fixed header have the
same flow id exactly if they agree on addresses, protocol and ports. -/
theorem deriveFlowId_names_flow :
    (∀ payload, ∃ flowId, deriveFlowId payload = .ok flowId) ∧
    ∀ payload payload' : List UInt8, 20 ≤ payload.length → 20 ≤ payload'.length →
      (deriveFlowId payload = deriveFlowId payload' ↔
        slice payload 12 16 = slice payload' 12 16 ∧ slice payload 16 20 = slice payload' 16 20 ∧
          payload[9]? = payload'[9]? ∧ portPair payload = portPair payload') := by
  refine ⟨fun payload => ?_, fun payload payload' h h' => ?_⟩
  · by_cases hlen : payload.length < 20
    · exact ⟨_, by rw [deriveFlowId, if_pos hlen]⟩
    · obtain ⟨_, _, _, -, -, -, hid⟩ := deriveFlowId_eq (not_lt.1 hlen)
      exact ⟨_, hid⟩
  · obtain ⟨src, dst, proto, hsrc, hdst, hproto, hid⟩ := deriveFlowId_eq h
    obtain ⟨src', dst', proto', hsrc', hdst', hproto', hid'⟩ := deriveFlowId_eq h'
    have hfields : ∀ t ∈ [src, dst, src', dst'], '-' ∉ t ∧ ':' ∉ t := by
      have haddress : ∀ {bs : List UInt8} {t : Text}, inetNtoa bs = .ok t → '-' ∉ t ∧ ':' ∉ t :=
        fun ht => ⟨not_mem_inetNtoa ht (by decide) (by decide),
          not_mem_inetNtoa ht (by decide) (by decide)⟩
      simp only [List.forall_mem_cons]
      exact ⟨haddress hsrc, haddress hdst, haddress hsrc', haddress hdst', nofun⟩
    rw [hid, hid', Except.ok.injEq, flowText_inj hfields, inetNtoa_inj hsrc hsrc',
      inetNtoa_inj hdst hdst', hproto, hproto', Option.some.injEq]

/-- The first bytes of a TCP segment, with its ports. -/
def Small.segment : List UInt8 :=
  [0x45, 0, 0, 44, 0, 0, 0, 0, 64, 6, 0, 0, 10, 45, 0, 2, 192, 168, 1, 7, 0x1F, 0x90, 0, 80]

/-- Cut off before its ports, the segment has another flow id. -/
theorem deriveFlowId_names_flow_small :
    deriveFlowId Small.segment = deriveFlowId (Small.segment.take 20) ↔
      slice Small.segment 12 16 = slice (Small.segment.take 20) 12 16 ∧
      slice Small.segment 16 20 = slice (Small.segment.take 20) 16 20 ∧
      Small.segment[9]? = (Small.segment.take 20)[9]? ∧
      portPair Small.segment = portPair (Small.segment.take 20) :=
  deriveFlowId_names_flow.2 Small.segment (Small.segment.take 20) (by decide) (by decide)

end Gateway
end LunaBridge
