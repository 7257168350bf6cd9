import DpdkFolder.PacketParsing.Decoder

/-!
# What print_mbuf_data makes of an IPv4 frame

The ports and the sequence number are converted from network byte order, the
addresses are not.  On a little-endian host an address therefore comes out
backwards, which is right only for an address that reads the same in both
directions.  The header length is not compared with its minimum, so a
transport header may be looked for inside the IPv4 header.
-/

namespace DpdkFolder
namespace PacketParsing
namespace Decoder

/-- The header is reported with its ports, and it lies in the frame behind an
IPv4 header of a valid length. -/
structure TransportDecoded (m : Mbuf) (hdrSize srcPort dstPort : ℕ) :
    Prop where
  ihl_ge : 5 ≤ ihl m
  complete : l4Offset m + hdrSize ≤ m.dataLen
  srcPort_iff : ∀ p, .srcPort p ∈ report m ↔
    p = bigEndian m.data (l4Offset m + srcPort) 2
  dstPort_iff : ∀ p, .dstPort p ∈ report m ↔
    p = bigEndian m.data (l4Offset m + dstPort) 2

/-- The addresses are reported in network byte order, and a transport section
is printed only for a header as above. -/
structure Ipv4Decoded (m : Mbuf) : Prop where
  srcIp_iff : ∀ a b c d, .srcIp a b c d ∈ report m ↔
    a = (m.data 26).toNat ∧ b = (m.data 27).toNat ∧
      c = (m.data 28).toNat ∧ d = (m.data 29).toNat
  dstIp_iff : ∀ a b c d, .dstIp a b c d ∈ report m ↔
    a = (m.data 30).toNat ∧ b = (m.data 31).toNat ∧
      c = (m.data 32).toNat ∧ d = (m.data 33).toNat
  tcp : .l4Tcp ∈ report m →
    TransportDecoded m tcpHdrSize tcpSrcPort tcpDstPort ∧
      ∀ n, .seqNo n ∈ report m ↔
        n = bigEndian m.data (l4Offset m + tcpSentSeq) 4
  udp : .l4Udp ∈ report m →
    TransportDecoded m udpHdrSize udpSrcPort udpDstPort

/-- The address at the offset reads the same in both directions. -/
def Palindromic (m : Mbuf) (offset : ℕ) : Prop :=
  m.data offset = m.data (offset + 3) ∧
    m.data (offset + 1) = m.data (offset + 2)

/-- The condition on a frame. -/
structure Unharmed (m : Mbuf) : Prop where
  src : Palindromic m 26
  dst : Palindromic m 30
  ihl_ge : HasTransport m → 5 ≤ ihl m

variable {m : Mbuf}

/-! ## Membership in the report -/

theorem IsIpv4.report_eq (h : IsIpv4 m) : ∃ srcMac dstMac, report m =
    [.l2, .srcMac srcMac, .dstMac dstMac] ++ ipv4Section m := by
  obtain ⟨hlength, htype⟩ := h
  apply report_of_ipv4 _ htype (Nat.not_lt.mpr hlength)
  exact Nat.not_lt.mpr (Nat.le_trans (Nat.le_add_right _ _) hlength)

theorem l3Ipv4_notMem_ipv6Section (m : Mbuf) : .l3Ipv4 ∉ ipv6Section m := by
  simp only [ipv6Section]
  split
  · simp [tcpSection]
  · split
    · simp [udpSection]
    · simp

theorem l3Ipv4_mem_l3Section_iff (m : Mbuf) :
    .l3Ipv4 ∈ l3Section m ↔
      etherHdrSize + ipv4HdrSize ≤ m.dataLen ∧
        bigEndian m.data etherTypeOffset 2 = etherTypeIpv4 := by
  rw [l3Section]
  by_cases htype : bigEndian m.data etherTypeOffset 2 = etherTypeIpv4
  · rw [if_pos htype]
    by_cases hlength : m.dataLen < etherHdrSize + ipv4HdrSize
    · simp [hlength, Nat.not_le.mpr hlength]
    · simp [hlength, htype, Nat.not_lt.mp hlength, ipv4Section]
  · rw [if_neg htype]
    simp only [htype, and_false, iff_false]
    split
    · split
      · exact List.not_mem_nil
      · exact l3Ipv4_notMem_ipv6Section m
    · split
      · simp
      · simp

/-- Only frames with both headers are reported as IPv4. -/
theorem l3Ipv4_mem_report_iff (m : Mbuf) :
    .l3Ipv4 ∈ report m ↔ IsIpv4 m := by
  constructor
  · intro hmem
    by_cases hether : m.dataLen < etherHdrSize
    · simp [report, printMbufData, hether] at hmem
    obtain ⟨srcMac, dstMac, hreport⟩ := report_eq hether
    rw [hreport] at hmem
    apply (l3Ipv4_mem_l3Section_iff m).mp
    simpa using hmem
  · intro h
    obtain ⟨srcMac, dstMac, hreport⟩ := h.report_eq
    simp [hreport, ipv4Section]

/-- The transport section is that of a header in the frame, or there is
none. -/
theorem transportSection_cases (m : Mbuf) :
    (proto m = ipprotoTcp ∧ l4Offset m + tcpHdrSize ≤ m.dataLen ∧
      transportSection m = tcpSection m.data (l4Offset m)) ∨
    (proto m = ipprotoUdp ∧ l4Offset m + udpHdrSize ≤ m.dataLen ∧
      transportSection m = udpSection m.data (l4Offset m)) ∨
    (¬HasTransport m ∧ (transportSection m = [] ∨
      transportSection m = [.l4Unknown (proto m)])) := by
  rw [transportSection, HasTransport]
  by_cases htcp : proto m = ipprotoTcp
  · rw [if_pos htcp]
    by_cases hlength : m.dataLen < l4Offset m + tcpHdrSize
    · rw [if_pos hlength]
      refine Or.inr (Or.inr ⟨?_, Or.inl rfl⟩)
      rintro (⟨-, hle⟩ | ⟨hudp, -⟩)
      · exact Nat.not_le.mpr hlength hle
      · exact ipprotoUdp_ne_tcp (hudp.symm.trans htcp)
    · rw [if_neg hlength]
      exact Or.inl ⟨htcp, Nat.not_lt.mp hlength, rfl⟩
  rw [if_neg htcp]
  by_cases hudp : proto m = ipprotoUdp
  · rw [if_pos hudp]
    by_cases hlength : m.dataLen < l4Offset m + udpHdrSize
    · rw [if_pos hlength]
      refine Or.inr (Or.inr ⟨?_, Or.inl rfl⟩)
      rintro (⟨htcp', -⟩ | ⟨-, hle⟩)
      · exact htcp htcp'
      · exact Nat.not_le.mpr hlength hle
    · rw [if_neg hlength]
      exact Or.inr (Or.inl ⟨hudp, Nat.not_lt.mp hlength, rfl⟩)
  · rw [if_neg hudp]
    refine Or.inr (Or.inr ⟨?_, Or.inr rfl⟩)
    rintro (⟨htcp', -⟩ | ⟨hudp', -⟩)
    · exact htcp htcp'
    · exact hudp hudp'

theorem IsIpv4.srcIp_mem_iff (h : IsIpv4 m) (a b c d : ℕ) :
    .srcIp a b c d ∈ report m ↔
      a = (m.data 29).toNat ∧ b = (m.data 28).toNat ∧
        c = (m.data 27).toNat ∧ d = (m.data 26).toNat := by
  obtain ⟨srcMac, dstMac, hreport⟩ := h.report_eq
  obtain ⟨-, -, hsection⟩ | ⟨-, -, hsection⟩ | ⟨-, hsection | hsection⟩ :=
    transportSection_cases m
  all_goals simp [hreport, ipv4Section, hsection, tcpSection, udpSection]

theorem IsIpv4.dstIp_mem_iff (h : IsIpv4 m) (a b c d : ℕ) :
    .dstIp a b c d ∈ report m ↔
      a = (m.data 33).toNat ∧ b = (m.data 32).toNat ∧
        c = (m.data 31).toNat ∧ d = (m.data 30).toNat := by
  obtain ⟨srcMac, dstMac, hreport⟩ := h.report_eq
  obtain ⟨-, -, hsection⟩ | ⟨-, -, hsection⟩ | ⟨-, hsection | hsection⟩ :=
    transportSection_cases m
  all_goals simp [hreport, ipv4Section, hsection, tcpSection, udpSection]

/-- A transport section is that of a header in the frame, with its fields. -/
theorem IsIpv4.l4Tcp_mem (h : IsIpv4 m) (hmem : .l4Tcp ∈ report m) :
    proto m = ipprotoTcp ∧ l4Offset m + tcpHdrSize ≤ m.dataLen ∧
      (∀ p, .srcPort p ∈ report m ↔
        p = bigEndian m.data (l4Offset m + tcpSrcPort) 2) ∧
      (∀ p, .dstPort p ∈ report m ↔
        p = bigEndian m.data (l4Offset m + tcpDstPort) 2) ∧
      ∀ n, .seqNo n ∈ report m ↔
        n = bigEndian m.data (l4Offset m + tcpSentSeq) 4 := by
  obtain ⟨srcMac, dstMac, hreport⟩ := h.report_eq
  rw [hreport] at hmem ⊢
  obtain ⟨hproto, hlength, hsection⟩ | ⟨-, -, hsection⟩ |
      ⟨-, hsection | hsection⟩ := transportSection_cases m
  · refine ⟨hproto, hlength, ?_⟩
    simp [ipv4Section, hsection, tcpSection]
  all_goals simp [ipv4Section, hsection, udpSection] at hmem

theorem IsIpv4.l4Udp_mem (h : IsIpv4 m) (hmem : .l4Udp ∈ report m) :
    proto m = ipprotoUdp ∧ l4Offset m + udpHdrSize ≤ m.dataLen ∧
      (∀ p, .srcPort p ∈ report m ↔
        p = bigEndian m.data (l4Offset m + udpSrcPort) 2) ∧
      ∀ p, .dstPort p ∈ report m ↔
        p = bigEndian m.data (l4Offset m + udpDstPort) 2 := by
  obtain ⟨srcMac, dstMac, hreport⟩ := h.report_eq
  rw [hreport] at hmem ⊢
  obtain ⟨-, -, hsection⟩ | ⟨hproto, hlength, hsection⟩ |
      ⟨-, hsection | hsection⟩ := transportSection_cases m
  · simp [ipv4Section, hsection, tcpSection] at hmem
  · refine ⟨hproto, hlength, ?_⟩
    simp [ipv4Section, hsection, udpSection]
  all_goals simp [ipv4Section, hsection] at hmem

theorem IsIpv4.hasTransport_iff (h : IsIpv4 m) :
    HasTransport m ↔ .l4Tcp ∈ report m ∨ .l4Udp ∈ report m := by
  obtain ⟨srcMac, dstMac, hreport⟩ := h.report_eq
  rw [hreport]
  obtain ⟨hproto, hlength, hsection⟩ | ⟨hproto, hlength, hsection⟩ |
      ⟨hnone, hsection | hsection⟩ := transportSection_cases m
  · simp [HasTransport, hproto, hlength, ipv4Section, hsection, tcpSection]
  · simp [HasTransport, hproto, hlength, ipv4Section, hsection, udpSection]
  · simp [hnone, ipv4Section, hsection]
  · simp [hnone, ipv4Section, hsection]

/-! ## When the frame is decoded as claimed -/

theorem IsIpv4.decoded_of_unharmed (h : IsIpv4 m) (hok : Unharmed m) :
    Ipv4Decoded m := by
  obtain ⟨⟨hsrc0, hsrc1⟩, ⟨hdst0, hdst1⟩, hihl⟩ := hok
  rw [h.hasTransport_iff] at hihl
  constructor
  · intro a b c d
    rw [h.srcIp_mem_iff, hsrc0, hsrc1]
  · intro a b c d
    rw [h.dstIp_mem_iff, hdst0, hdst1]
  · intro htcp
    obtain ⟨-, hlength, hsrc, hdst, hseq⟩ := h.l4Tcp_mem htcp
    exact ⟨⟨hihl (Or.inl htcp), hlength, hsrc, hdst⟩, hseq⟩
  · intro hudp
    obtain ⟨-, hlength, hsrc, hdst⟩ := h.l4Udp_mem hudp
    exact ⟨hihl (Or.inr hudp), hlength, hsrc, hdst⟩

theorem Ipv4Decoded.unharmed (hdecoded : Ipv4Decoded m) (h : IsIpv4 m) :
    Unharmed m := by
  constructor
  · have hprinted := (h.srcIp_mem_iff _ _ _ _).mpr ⟨rfl, rfl, rfl, rfl⟩
    obtain ⟨houter, hinner, -, -⟩ :=
      (hdecoded.srcIp_iff _ _ _ _).mp hprinted
    exact ⟨(UInt8.toNat.inj houter).symm, (UInt8.toNat.inj hinner).symm⟩
  · have hprinted := (h.dstIp_mem_iff _ _ _ _).mpr ⟨rfl, rfl, rfl, rfl⟩
    obtain ⟨houter, hinner, -, -⟩ :=
      (hdecoded.dstIp_iff _ _ _ _).mp hprinted
    exact ⟨(UInt8.toNat.inj houter).symm, (UInt8.toNat.inj hinner).symm⟩
  · intro htransport
    obtain htcp | hudp := h.hasTransport_iff.mp htransport
    · exact (hdecoded.tcp htcp).1.ihl_ge
    · exact (hdecoded.udp hudp).ihl_ge

/-- For every frame: if it is reported as IPv4 it is decoded as it should be,
exactly if it is no IPv4 frame, or its addresses read the same in both
directions and it has no transport header after a header length below 5. -/
theorem ipv4_decoded_iff (m : Mbuf) :
    (.l3Ipv4 ∈ report m → Ipv4Decoded m) ↔ (IsIpv4 m → Unharmed m) := by
  rw [l3Ipv4_mem_report_iff]
  constructor
  · intro hdecoded h
    exact (hdecoded h).unharmed h
  · intro hok h
    exact h.decoded_of_unharmed (hok h)

/-- A TCP packet from 10.0.0.1 to 10.0.0.2. -/
def tcpFrame : List UInt8 :=
  List.replicate etherTypeOffset 0 ++ [0x08, 0x00] ++
    [0x45, 0, 0, 40, 0, 0, 0, 0, 64, 6, 0, 0, 10, 0, 0, 1, 10, 0, 0, 2] ++
    [0, 80, 0x1F, 0x90, 0, 0, 0, 1] ++ List.replicate 12 0

/-- The source address of that packet is printed as 1.0.0.10. -/
theorem tcpFrame_not_decoded :
    ¬(.l3Ipv4 ∈ report (.ofFrame tcpFrame) →
      Ipv4Decoded (.ofFrame tcpFrame)) := by
  intro hdecoded
  have hipv4 : .l3Ipv4 ∈ report (.ofFrame tcpFrame) := by decide
  have hprinted : .srcIp 1 0 0 10 ∈ report (.ofFrame tcpFrame) := by decide
  obtain ⟨hfirst, -⟩ := ((hdecoded hipv4).srcIp_iff 1 0 0 10).mp hprinted
  exact absurd hfirst (by decide)

end Decoder
end PacketParsing
end DpdkFolder
