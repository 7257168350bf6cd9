import DpdkFolder.PacketParsing.Decoder

/-!
# Where print_mbuf_data reads

The Ethernet and IPv4 headers and the transport header behind an IPv4 header
are read only after a comparison of the length of the frame with their end.
The transport header behind an IPv6 header is read without one.
-/

namespace DpdkFolder
namespace PacketParsing
namespace Decoder

open Scan

/-- Every byte that is read belongs to the frame. -/
def ReadsWithinFrame (m : Mbuf) : Prop :=
  ∀ k ∈ (printMbufData m.dataLen).reads m.data, k < m.dataLen

/-- The next header field of an IPv6 header. -/
def nextHeader (m : Mbuf) : ℕ := (m.data (etherHdrSize + ipv6Proto)).toNat

/-- The frame contains an IPv6 header but ends before the ports or the
sequence number that are printed next. -/
def EndsInTransport (m : Mbuf) : Prop :=
  bigEndian m.data etherTypeOffset 2 = etherTypeIpv6 ∧
    etherHdrSize + ipv6HdrSize ≤ m.dataLen ∧
    ((nextHeader m = ipprotoTcp ∧
        m.dataLen < etherHdrSize + ipv6HdrSize + tcpSentSeq + 4) ∨
      (nextHeader m = ipprotoUdp ∧
        m.dataLen < etherHdrSize + ipv6HdrSize + udpDstPort + 2))

/-! ## Each part of the report -/

section Parts

variable {data : ℕ → UInt8} {n : ℕ}

theorem printTcp_staysBelow_iff (l4 : ℕ) :
    (printTcp l4).StaysBelow data n ↔ l4 + tcpSentSeq + 4 ≤ n := by
  simp only [printTcp, staysBelow_bind_iff, staysBelow_emit,
    staysBelow_load_iff, true_and, and_true, tcpSrcPort, tcpDstPort,
    tcpSentSeq]
  omega

theorem printUdp_staysBelow_iff (l4 : ℕ) :
    (printUdp l4).StaysBelow data n ↔ l4 + udpDstPort + 2 ≤ n := by
  simp only [printUdp, staysBelow_bind_iff, staysBelow_emit,
    staysBelow_load_iff, true_and, and_true, udpSrcPort, udpDstPort]
  omega

end Parts

section Branches

variable {m : Mbuf} (hether : ¬m.dataLen < etherHdrSize)

include hether

theorem etherHdr_lt : etherSrcAddr + 5 < m.dataLen ∧
    etherDstAddr + 5 < m.dataLen ∧ etherTypeOffset + 1 < m.dataLen := by
  simp only [etherHdrSize, etherSrcAddr, etherDstAddr,
    etherTypeOffset] at *
  omega

theorem staysBelow_of_ipv4
    (htype : bigEndian m.data etherTypeOffset 2 = etherTypeIpv4) :
    (printMbufData m.dataLen).StaysBelow m.data m.dataLen := by
  obtain ⟨hsrc, hdst, hlast⟩ := etherHdr_lt hether
  by_cases hlength : m.dataLen < etherHdrSize + ipv4HdrSize
  · simp [printMbufData, hether, hlength, rteBeToCpu16_etherType, htype,
      hsrc, hdst, hlast]
  simp only [printMbufData, hether, hlength, rteBeToCpu16_etherType, htype,
    etherTypeIpv4_ne_arp, if_false, if_true, staysBelow_bind_iff,
    staysBelow_emit, staysBelow_bytes_iff, staysBelow_load_iff,
    staysBelow_byte_iff, value_load, value_byte, hsrc, hdst, hlast, true_and]
  have hfields : etherHdrSize + ipv4VersionIhl < m.dataLen ∧
      etherHdrSize + ipv4SrcAddr + 3 < m.dataLen ∧
      etherHdrSize + ipv4DstAddr + 3 < m.dataLen ∧
      etherHdrSize + ipv4NextProtoId < m.dataLen := by
    simp only [ipv4HdrSize, ipv4VersionIhl, ipv4SrcAddr, ipv4DstAddr,
      ipv4NextProtoId] at *
    omega
  obtain ⟨hihl, hsrcAddr, hdstAddr, hproto⟩ := hfields
  refine ⟨hihl, hsrcAddr, hdstAddr, hproto, ?_⟩
  by_cases htcp : (m.data (etherHdrSize + ipv4NextProtoId)).toNat = ipprotoTcp
  · by_cases hshort : m.dataLen < etherHdrSize +
        ((m.data (etherHdrSize + ipv4VersionIhl)).toNat &&& 0x0F) * 4 +
          tcpHdrSize
    · simp [htcp, hshort]
    · simp only [htcp, hshort, if_true, if_false, staysBelow_bind_iff,
        staysBelow_pure, and_true, printTcp_staysBelow_iff]
      simp only [tcpHdrSize, tcpSentSeq] at *
      omega
  by_cases hudp : (m.data (etherHdrSize + ipv4NextProtoId)).toNat = ipprotoUdp
  · by_cases hshort : m.dataLen < etherHdrSize +
        ((m.data (etherHdrSize + ipv4VersionIhl)).toNat &&& 0x0F) * 4 +
          udpHdrSize
    · simp [hudp, hshort]
    · simp only [hudp, ipprotoUdp_ne_tcp, hshort, if_true, if_false,
        staysBelow_bind_iff, staysBelow_pure, and_true,
        printUdp_staysBelow_iff]
      simp only [udpHdrSize, udpDstPort] at *
      omega
  · simp [htcp, hudp]

theorem staysBelow_of_ipv6_iff
    (htype : bigEndian m.data etherTypeOffset 2 = etherTypeIpv6) :
    (printMbufData m.dataLen).StaysBelow m.data m.dataLen ↔
      ¬EndsInTransport m := by
  obtain ⟨hsrc, hdst, hlast⟩ := etherHdr_lt hether
  rw [EndsInTransport]
  by_cases hlength : m.dataLen < etherHdrSize + ipv6HdrSize
  · simp [printMbufData, hether, hlength, rteBeToCpu16_etherType, htype,
      hsrc, hdst, hlast, Nat.not_le.mpr hlength]
  have hproto : etherHdrSize + ipv6Proto < m.dataLen := by
    simp only [ipv6HdrSize, ipv6Proto] at *
    omega
  simp only [printMbufData, hether, hlength, rteBeToCpu16_etherType, htype,
    etherTypeIpv6_ne_ipv4, etherTypeIpv6_ne_arp, if_false, if_true,
    staysBelow_bind_iff, staysBelow_emit, staysBelow_bytes_iff,
    staysBelow_load_iff, staysBelow_byte_iff, value_load, value_byte, hsrc,
    hdst, hlast, hproto, true_and, Nat.not_lt.mp hlength, nextHeader]
  by_cases htcp : (m.data (etherHdrSize + ipv6Proto)).toNat = ipprotoTcp
  · simp [htcp, printTcp_staysBelow_iff]
  by_cases hudp : (m.data (etherHdrSize + ipv6Proto)).toNat = ipprotoUdp
  · simp [hudp, printUdp_staysBelow_iff]
  · simp [htcp, hudp]

theorem staysBelow_of_other
    (hipv4 : bigEndian m.data etherTypeOffset 2 ≠ etherTypeIpv4)
    (hipv6 : bigEndian m.data etherTypeOffset 2 ≠ etherTypeIpv6) :
    (printMbufData m.dataLen).StaysBelow m.data m.dataLen := by
  obtain ⟨hsrc, hdst, hlast⟩ := etherHdr_lt hether
  simp only [printMbufData, hether, rteBeToCpu16_etherType, hipv4, hipv6,
    if_false, staysBelow_bind_iff, staysBelow_emit, staysBelow_bytes_iff,
    staysBelow_load_iff, value_load, hsrc, hdst, hlast, true_and]
  by_cases harp : bigEndian m.data etherTypeOffset 2 = etherTypeArp
  · simp [harp]
  · simp [harp]

end Branches

/-! ## When the report stays within the frame -/

/-- For every frame: every byte read for the report lies in the frame if and
only if it is no IPv6 frame that ends before the ports or the sequence number
of its transport header. -/
theorem readsWithinFrame_iff (m : Mbuf) :
    ReadsWithinFrame m ↔ ¬EndsInTransport m := by
  by_cases hether : m.dataLen < etherHdrSize
  · apply iff_of_true
    · simp [ReadsWithinFrame, printMbufData, hether]
    · rintro ⟨-, hlength, -⟩
      simp only [etherHdrSize, ipv6HdrSize] at *
      omega
  by_cases hipv6 : bigEndian m.data etherTypeOffset 2 = etherTypeIpv6
  · exact staysBelow_of_ipv6_iff hether hipv6
  have hnot : ¬EndsInTransport m := fun h => hipv6 h.1
  refine iff_of_true ?_ hnot
  by_cases hipv4 : bigEndian m.data etherTypeOffset 2 = etherTypeIpv4
  · exact staysBelow_of_ipv4 hether hipv4
  · exact staysBelow_of_other hether hipv4 hipv6

/-- An Ethernet and an IPv6 header that announces TCP, and nothing else. -/
def ipv6HeaderOnly : List UInt8 :=
  List.replicate etherTypeOffset 0 ++ [0x86, 0xDD] ++
    [0x60, 0, 0, 0, 0, 0, 6, 64] ++ List.replicate 32 0

theorem ipv6HeaderOnly_not_within :
    ¬∀ m : Mbuf, m.dataLen ≤ 65535 → ReadsWithinFrame m := by
  intro hall
  have hread : 54 ∈ (printMbufData (Mbuf.ofFrame ipv6HeaderOnly).dataLen).reads
      (Mbuf.ofFrame ipv6HeaderOnly).data := by decide
  have hlt := hall (.ofFrame ipv6HeaderOnly) (by decide) 54 hread
  exact absurd hlt (by decide)

end Decoder
end PacketParsing
end DpdkFolder
