import DpdkFolder.EventdevPacketParsing.Ipv4Parsing

/-!
# What the parser makes of an IPv6 frame

The label has two values for three kinds of frames, so every frame that is
not IPv4 is called IPv6.  The text of an address must fit a buffer of the size
of the address itself, and the transport header is looked for at an offset
made of the version field instead of the header length.
-/

namespace DpdkFolder
namespace EventdevPacketParsing
namespace Parse

open Scan

/-- The fixed header of the transport protocol, if it is TCP or UDP, lies in
the frame from `l4` on. -/
def HoldsTransport (m : Mbuf) (proto l4 : ℕ) : Prop :=
  l4 ≤ m.dataLen ∧ (proto = ipprotoTcp → l4 + tcpHdrSize ≤ m.dataLen) ∧
    (proto = ipprotoUdp → l4 + udpHdrSize ≤ m.dataLen)

/-- The frame is long enough for its headers. -/
structure ContainsHeaders (m : Mbuf) : Prop where
  ether : etherHdrSize ≤ m.dataLen
  ipv4 : etherType m = etherTypeIpv4 →
    HoldsTransport m (proto m) (etherHdrSize + max ipv4HdrSize (4 * ihl m))
  ipv6 : etherType m = etherTypeIpv6 →
    HoldsTransport m (nextHeader m) (etherHdrSize + ipv6HdrSize)

/-- The address that the frame holds at an offset. -/
def ipv6Address (m : Mbuf) (offset : ℕ) : List UInt8 :=
  (List.range 16).map fun k => m.data (offset + k)

/-- The label is right, and an IPv6 frame is reported with its addresses and
the fields of its transport header. -/
structure Ipv6Decoded (buffers : Buffers) (m : Mbuf) : Prop where
  label_iff : .ipIpv6 ∈ report buffers m ↔ etherType m = etherTypeIpv6
  src_iff : etherType m = etherTypeIpv6 → ∀ text,
    .sourceIpAddress text ∈ report buffers m ↔
      text = Inet6.text (ipv6Address m 22)
  dst_iff : etherType m = etherTypeIpv6 → ∀ text,
    .destinationIpAddress text ∈ report buffers m ↔
      text = Inet6.text (ipv6Address m 38)
  tcp : etherType m = etherTypeIpv6 → nextHeader m = ipprotoTcp →
    (∀ p, .tcpSourcePort p ∈ report buffers m ↔
      p = bigEndian m.data 54 2) ∧
    (∀ p, .tcpDestinationPort p ∈ report buffers m ↔
      p = bigEndian m.data 56 2) ∧
    ∀ n, .tcpSequenceNumber n ∈ report buffers m ↔
      n = bigEndian m.data 58 4
  udp : etherType m = etherTypeIpv6 → nextHeader m = ipprotoUdp →
    (∀ p, .udpSourcePort p ∈ report buffers m ↔
      p = bigEndian m.data 54 2) ∧
    ∀ p, .udpDestinationPort p ∈ report buffers m ↔
      p = bigEndian m.data 56 2

/-- The first bytes behind the IPv6 header are the same as those the parser
takes for the transport header. -/
def SameBytes (m : Mbuf) (size : ℕ) : Prop :=
  ∀ k < size, m.data (14 + 4 * version m + k) = m.data (54 + k)

/-- The condition on an IPv6 frame. -/
structure Ipv6Unharmed (m : Mbuf) : Prop where
  src_fits : (Inet6.text (ipv6Address m 22)).length < rteIpv6AddrSize
  dst_fits : (Inet6.text (ipv6Address m 38)).length < rteIpv6AddrSize
  tcp : nextHeader m = ipprotoTcp → SameBytes m 8
  udp : nextHeader m = ipprotoUdp → SameBytes m 4

/-- The condition on a frame. -/
def Unharmed (m : Mbuf) : Prop :=
  etherType m = etherTypeIpv4 ∨
    (etherType m = etherTypeIpv6 ∧ Ipv6Unharmed m)

/-! ## The report of an IPv6 frame -/

variable (buffers : Buffers) {m : Mbuf}

/-- The version field gives an offset of at most 60. -/
theorem version_mod (m : Mbuf) :
    (version m &&& 0x0F) * 4 % 2 ^ 8 = 4 * version m := by
  have hbyte := (m.data etherHdrSize).toNat_lt
  have hmask : version m &&& 0x0F = version m % 16 :=
    Nat.and_two_pow_sub_one_eq_mod _ 4
  have hversion : version m = (m.data etherHdrSize).toNat / 16 :=
    Nat.shiftRight_eq_div_pow _ 4
  omega

/-- The lines of `ipv6_parsing`. -/
theorem lines_ipv6Parsing (m : Mbuf) :
    (ipv6Parsing buffers etherHdrSize etherHdrSize).lines m.data =
      .sourceIpAddress
          (inetNtop (ipv6Address m 22) buffers.src rteIpv6AddrSize) ::
        .destinationIpAddress
          (inetNtop (ipv6Address m 38) buffers.dst rteIpv6AddrSize) ::
        transportSection m.data (nextHeader m) (14 + 4 * version m) := by
  have hversion : (ipv6Version (m.data etherHdrSize) &&& 0x0F) * 4 % 2 ^ 8 =
      4 * version m := version_mod m
  have hproto : (m.data (etherHdrSize + ipv6Proto)).toNat = nextHeader m :=
    rfl
  simp only [ipv6Parsing, lines_bind, lines_emit, lines_bytes, lines_byte,
    value_bytes, value_byte, hversion, hproto, lines_parseTransport,
    List.nil_append, List.cons_append]
  rfl

theorem report_of_ipv6 (h : etherType m = etherTypeIpv6) :
    report buffers m = macSection m ++
      .ipIpv6 ::
        .sourceIpAddress
          (inetNtop (ipv6Address m 22) buffers.src rteIpv6AddrSize) ::
        .destinationIpAddress
          (inetNtop (ipv6Address m 38) buffers.dst rteIpv6AddrSize) ::
        transportSection m.data (nextHeader m) (14 + 4 * version m) := by
  have hother : etherType m ≠ etherTypeIpv4 := by
    rw [h]
    decide
  rw [(parsingLogic_spec buffers m).2, if_neg hother, ipSection,
    if_neg hother, if_pos h, lines_ipv6Parsing]

/-- The label is IPv6 for whatever is not IPv4. -/
theorem ipIpv6_mem_report_iff (m : Mbuf) :
    .ipIpv6 ∈ report buffers m ↔ etherType m ≠ etherTypeIpv4 := by
  by_cases h : etherType m = etherTypeIpv4
  · rw [(parsingLogic_of_ipv4 m buffers h).2, ipv4Reference]
    obtain hsection | hsection | hsection :=
      transportSection_cases m.data (proto m) (14 + 4 * ihl m)
    all_goals simp [hsection, macSection, macLines, h]
  · rw [(parsingLogic_spec buffers m).2, if_neg h]
    simp [h]

section Ipv6

variable (h : etherType m = etherTypeIpv6)

include h

theorem sourceIpAddress_mem_iff (text : List Char) :
    .sourceIpAddress text ∈ report buffers m ↔
      text = inetNtop (ipv6Address m 22) buffers.src rteIpv6AddrSize := by
  rw [report_of_ipv6 buffers h]
  obtain hsection | hsection | hsection :=
    transportSection_cases m.data (nextHeader m) (14 + 4 * version m)
  all_goals simp [hsection, macSection, macLines]

theorem destinationIpAddress_mem_iff (text : List Char) :
    .destinationIpAddress text ∈ report buffers m ↔
      text = inetNtop (ipv6Address m 38) buffers.dst rteIpv6AddrSize := by
  rw [report_of_ipv6 buffers h]
  obtain hsection | hsection | hsection :=
    transportSection_cases m.data (nextHeader m) (14 + 4 * version m)
  all_goals simp [hsection, macSection, macLines]

theorem tcp_mem_iff (hproto : nextHeader m = ipprotoTcp) :
    (∀ p, .tcpSourcePort p ∈ report buffers m ↔
      p = bigEndian m.data (14 + 4 * version m) 2) ∧
    (∀ p, .tcpDestinationPort p ∈ report buffers m ↔
      p = bigEndian m.data (14 + 4 * version m + 2) 2) ∧
    ∀ n, .tcpSequenceNumber n ∈ report buffers m ↔
      n = bigEndian m.data (14 + 4 * version m + 4) 4 := by
  rw [report_of_ipv6 buffers h, transportSection, if_pos hproto]
  simp [macSection, macLines]

theorem udp_mem_iff (hproto : nextHeader m = ipprotoUdp) :
    (∀ p, .udpSourcePort p ∈ report buffers m ↔
      p = bigEndian m.data (14 + 4 * version m) 2) ∧
    ∀ p, .udpDestinationPort p ∈ report buffers m ↔
      p = bigEndian m.data (14 + 4 * version m + 2) 2 := by
  have hother : nextHeader m ≠ ipprotoTcp := by
    rw [hproto]
    decide
  rw [report_of_ipv6 buffers h, transportSection, if_neg hother,
    if_pos hproto]
  simp [macSection, macLines]

end Ipv6

/-! ## Where the parser goes wrong -/

/-- The text arrives in a buffer whatever that held before if and only if it
fits with its terminator. -/
theorem inetNtop_eq_text_iff (addr : List UInt8) (size : ℕ) :
    (∀ buffer, inetNtop addr buffer size = Inet6.text addr) ↔
      (Inet6.text addr).length < size := by
  constructor
  · intro h
    by_contra hsize
    have hfails := h ('?' :: Inet6.text addr)
    rw [inetNtop, if_neg (mt Nat.lt_of_succ_le hsize)] at hfails
    exact List.cons_ne_self _ _ hfails
  · intro hsize buffer
    rw [inetNtop, if_pos (Nat.succ_le_of_lt hsize)]

/-- The ports and the sequence number are those at offset 54. -/
theorem sameBytes_eight_iff (m : Mbuf) :
    SameBytes m 8 ↔
      bigEndian m.data (14 + 4 * version m) 2 = bigEndian m.data 54 2 ∧
        bigEndian m.data (14 + 4 * version m + 2) 2 =
          bigEndian m.data 56 2 ∧
        bigEndian m.data (14 + 4 * version m + 4) 4 =
          bigEndian m.data 58 4 := by
  rw [bigEndian_eq_iff, bigEndian_eq_iff, bigEndian_eq_iff, SameBytes,
    bytes_eq_add_iff m.data _ 4 54 4, bytes_eq_add_iff m.data _ 2 54 2,
    and_assoc]

/-- The ports are those at offset 54. -/
theorem sameBytes_four_iff (m : Mbuf) :
    SameBytes m 4 ↔
      bigEndian m.data (14 + 4 * version m) 2 = bigEndian m.data 54 2 ∧
        bigEndian m.data (14 + 4 * version m + 2) 2 =
          bigEndian m.data 56 2 := by
  rw [bigEndian_eq_iff, bigEndian_eq_iff, SameBytes,
    bytes_eq_add_iff m.data _ 2 54 2]

theorem Unharmed.decoded (hok : Unharmed m) : Ipv6Decoded buffers m := by
  obtain hipv4 | ⟨hipv6, hsrc, hdst, htcp, hudp⟩ := hok
  · have hother : etherType m ≠ etherTypeIpv6 := by
      rw [hipv4]
      decide
    constructor
    · rw [ipIpv6_mem_report_iff]
      exact iff_of_false (not_not.mpr hipv4) hother
    all_goals exact fun hipv6 => absurd hipv6 hother
  · have hother : etherType m ≠ etherTypeIpv4 := by
      rw [hipv6]
      decide
    constructor
    · rw [ipIpv6_mem_report_iff]
      exact iff_of_true hother hipv6
    · intro _ text
      rw [sourceIpAddress_mem_iff buffers hipv6,
        (inetNtop_eq_text_iff _ _).mpr hsrc]
    · intro _ text
      rw [destinationIpAddress_mem_iff buffers hipv6,
        (inetNtop_eq_text_iff _ _).mpr hdst]
    · intro _ hproto
      obtain ⟨hsrcPort, hdstPort, hseq⟩ :=
        (sameBytes_eight_iff m).mp (htcp hproto)
      rw [← hsrcPort, ← hdstPort, ← hseq]
      exact tcp_mem_iff buffers hipv6 hproto
    · intro _ hproto
      obtain ⟨hsrcPort, hdstPort⟩ :=
        (sameBytes_four_iff m).mp (hudp hproto)
      rw [← hsrcPort, ← hdstPort]
      exact udp_mem_iff buffers hipv6 hproto

theorem unharmed_of_decoded (hdecoded : ∀ buffers, Ipv6Decoded buffers m) :
    Unharmed m := by
  by_cases hipv4 : etherType m = etherTypeIpv4
  · exact Or.inl hipv4
  have hlabel := (hdecoded ⟨[], []⟩).label_iff
  have hipv6 : etherType m = etherTypeIpv6 :=
    hlabel.mp ((ipIpv6_mem_report_iff _ m).mpr hipv4)
  refine Or.inr ⟨hipv6, ?_, ?_, ?_, ?_⟩
  · apply (inetNtop_eq_text_iff _ _).mp
    intro buffer
    have hprinted := sourceIpAddress_mem_iff ⟨buffer, []⟩ hipv6
    exact ((hdecoded ⟨buffer, []⟩).src_iff hipv6 _).mp
      ((hprinted _).mpr rfl)
  · apply (inetNtop_eq_text_iff _ _).mp
    intro buffer
    have hprinted := destinationIpAddress_mem_iff ⟨[], buffer⟩ hipv6
    exact ((hdecoded ⟨[], buffer⟩).dst_iff hipv6 _).mp
      ((hprinted _).mpr rfl)
  · intro hproto
    obtain ⟨hsrc, hdst, hseq⟩ := tcp_mem_iff ⟨[], []⟩ hipv6 hproto
    obtain ⟨hsrc', hdst', hseq'⟩ := (hdecoded ⟨[], []⟩).tcp hipv6 hproto
    exact (sameBytes_eight_iff m).mpr
      ⟨(hsrc' _).mp ((hsrc _).mpr rfl), (hdst' _).mp ((hdst _).mpr rfl),
        (hseq' _).mp ((hseq _).mpr rfl)⟩
  · intro hproto
    obtain ⟨hsrc, hdst⟩ := udp_mem_iff ⟨[], []⟩ hipv6 hproto
    obtain ⟨hsrc', hdst'⟩ := (hdecoded ⟨[], []⟩).udp hipv6 hproto
    exact (sameBytes_four_iff m).mpr
      ⟨(hsrc' _).mp ((hsrc _).mpr rfl), (hdst' _).mp ((hdst _).mpr rfl)⟩

/-- For every frame that contains its headers, whatever the buffers held
before: it is labelled and reported as claimed if and only if it is an IPv4
frame, or an IPv6 frame whose addresses have short texts and whose transport
header begins with the bytes the parser finds at the offset it computes. -/
theorem ipv6_decoded_iff (m : Mbuf) :
    (ContainsHeaders m → ∀ buffers, Ipv6Decoded buffers m) ↔
      (ContainsHeaders m → Unharmed m) := by
  constructor
  · intro hdecoded hcontains
    exact unharmed_of_decoded (hdecoded hcontains)
  · intro hok hcontains buffers
    exact (hok hcontains).decoded buffers

/-- A UDP packet from 2001:db8::1 to 2001:db8::2, from port 5353 to port
53. -/
def ipv6UdpFrame : List UInt8 :=
  List.replicate etherTypeOffset 0 ++ [0x86, 0xDD] ++
    [0x60, 0, 0, 0, 0, 8, 17, 64] ++
    [0x20, 0x01, 0x0D, 0xB8] ++ List.replicate 11 0 ++ [1] ++
    [0x20, 0x01, 0x0D, 0xB8] ++ List.replicate 11 0 ++ [2] ++
    [0x14, 0xE9, 0, 53, 0, 8, 0, 0]

/-- The ports of that packet are looked for in its destination address. -/
theorem ipv6UdpFrame_not_decoded :
    ¬∀ m, ContainsHeaders m → ∀ buffers, Ipv6Decoded buffers m := by
  intro hall
  have hcontains : ContainsHeaders (.ofFrame ipv6UdpFrame) := by
    constructor
    · decide
    · intro htype
      exact absurd htype (by decide)
    · intro _
      refine ⟨by decide, ?_, fun _ => by decide⟩
      intro hproto
      exact absurd hproto (by decide)
  have hdecoded := hall (.ofFrame ipv6UdpFrame) hcontains ⟨[], []⟩
  have hprinted : .udpSourcePort 0x2001 ∈
      report ⟨[], []⟩ (.ofFrame ipv6UdpFrame) := by decide
  obtain ⟨hsrc, -⟩ := hdecoded.udp (by decide) (by decide)
  exact absurd ((hsrc 0x2001).mp hprinted) (by decide)

end Parse
end EventdevPacketParsing
end DpdkFolder
