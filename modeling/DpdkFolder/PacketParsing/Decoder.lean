import DpdkFolder.Dpdk.Mbuf
import DpdkFolder.Support.Scan

/-!
# The report of print_mbuf_data

The function checks the length of the frame step by step and prints what it
finds.  A line of the report is one call of `printf`, with the values of its
arguments.
-/

namespace DpdkFolder
namespace PacketParsing
namespace Decoder

/-- The lines that `print_mbuf_data` may print. -/
inductive Line
  | l2
  | srcMac (addrBytes : List UInt8)
  | dstMac (addrBytes : List UInt8)
  | l3Ipv4
  | srcIp (a b c d : ℕ)
  | dstIp (a b c d : ℕ)
  | l4Tcp
  | l4Udp
  | srcPort (port : ℕ)
  | dstPort (port : ℕ)
  | seqNo (seq : ℕ)
  | l4Unknown (proto : ℕ)
  | l4UnknownNextHeader (proto : ℕ)
  | l3UnknownEtherType (etherType : ℕ)
  | l3Arp
deriving DecidableEq, Repr

open Scan

/-- The section "L4: TCP", which the IPv4 and the IPv6 branch share. -/
def printTcp (l4 : ℕ) : Scan Line Unit := do
  emit .l4Tcp
  emit (.srcPort (rteBeToCpu16 (← load (l4 + tcpSrcPort) 2)))
  emit (.dstPort (rteBeToCpu16 (← load (l4 + tcpDstPort) 2)))
  emit (.seqNo (rteBeToCpu32 (← load (l4 + tcpSentSeq) 4)))

/-- The section "L4: UDP", which the IPv4 and the IPv6 branch share. -/
def printUdp (l4 : ℕ) : Scan Line Unit := do
  emit .l4Udp
  emit (.srcPort (rteBeToCpu16 (← load (l4 + udpSrcPort) 2)))
  emit (.dstPort (rteBeToCpu16 (← load (l4 + udpDstPort) 2)))

/-- `print_mbuf_data`, on a frame of the given length. -/
def printMbufData (pktLen : ℕ) : Scan Line Unit := do
  if pktLen < etherHdrSize then return
  emit .l2
  emit (.srcMac (← bytes etherSrcAddr 6))
  emit (.dstMac (← bytes etherDstAddr 6))
  let etherType := rteBeToCpu16 (← load etherTypeOffset 2)
  let l3 := etherHdrSize
  if etherType = etherTypeIpv4 then
    if pktLen < etherHdrSize + ipv4HdrSize then return
    let ipHdrLen := ((← byte (l3 + ipv4VersionIhl)).toNat &&& 0x0F) * 4
    emit .l3Ipv4
    let srcAddr ← load (l3 + ipv4SrcAddr) 4
    emit (.srcIp (srcAddr >>> 24 &&& 0xff) (srcAddr >>> 16 &&& 0xff)
      (srcAddr >>> 8 &&& 0xff) (srcAddr &&& 0xff))
    let dstAddr ← load (l3 + ipv4DstAddr) 4
    emit (.dstIp (dstAddr >>> 24 &&& 0xff) (dstAddr >>> 16 &&& 0xff)
      (dstAddr >>> 8 &&& 0xff) (dstAddr &&& 0xff))
    let proto := (← byte (l3 + ipv4NextProtoId)).toNat
    let l4 := l3 + ipHdrLen
    if proto = ipprotoTcp then
      if pktLen < etherHdrSize + ipHdrLen + tcpHdrSize then return
      printTcp l4
    else if proto = ipprotoUdp then
      if pktLen < etherHdrSize + ipHdrLen + udpHdrSize then return
      printUdp l4
    else
      emit (.l4Unknown proto)
  else if etherType = etherTypeIpv6 then
    if pktLen < etherHdrSize + ipv6HdrSize then return
    let proto := (← byte (l3 + ipv6Proto)).toNat
    let l4 := l3 + ipv6HdrSize
    if proto = ipprotoTcp then
      printTcp l4
    else if proto = ipprotoUdp then
      printUdp l4
    else
      emit (.l4UnknownNextHeader proto)
  else
    emit (.l3UnknownEtherType etherType)
  if etherType = etherTypeArp then
    emit .l3Arp

/-- What is printed for an mbuf. -/
def report (m : Mbuf) : List Line := (printMbufData m.dataLen).lines m.data

/-! ## The fields of a frame -/

/-- The frame contains an Ethernet and an IPv4 header. -/
def IsIpv4 (m : Mbuf) : Prop :=
  etherHdrSize + ipv4HdrSize ≤ m.dataLen ∧
    bigEndian m.data etherTypeOffset 2 = etherTypeIpv4

/-- The header length field, in words of four bytes. -/
def ihl (m : Mbuf) : ℕ :=
  (m.data (etherHdrSize + ipv4VersionIhl)).toNat &&& 0x0F

/-- The protocol field. -/
def proto (m : Mbuf) : ℕ :=
  (m.data (etherHdrSize + ipv4NextProtoId)).toNat

/-- Where the transport header begins. -/
def l4Offset (m : Mbuf) : ℕ := etherHdrSize + 4 * ihl m

/-- The frame contains the fixed header of its transport protocol. -/
def HasTransport (m : Mbuf) : Prop :=
  (proto m = ipprotoTcp ∧ l4Offset m + tcpHdrSize ≤ m.dataLen) ∨
    (proto m = ipprotoUdp ∧ l4Offset m + udpHdrSize ≤ m.dataLen)

/-- The section of a TCP header. -/
def tcpSection (data : ℕ → UInt8) (l4 : ℕ) : List Line :=
  [.l4Tcp, .srcPort (bigEndian data (l4 + tcpSrcPort) 2),
    .dstPort (bigEndian data (l4 + tcpDstPort) 2),
    .seqNo (bigEndian data (l4 + tcpSentSeq) 4)]

/-- The section of a UDP header. -/
def udpSection (data : ℕ → UInt8) (l4 : ℕ) : List Line :=
  [.l4Udp, .srcPort (bigEndian data (l4 + udpSrcPort) 2),
    .dstPort (bigEndian data (l4 + udpDstPort) 2)]

theorem lines_printTcp (data : ℕ → UInt8) (l4 : ℕ) :
    (printTcp l4).lines data = tcpSection data l4 := by
  simp [printTcp, tcpSection, rteBeToCpu16, rteBeToCpu32,
    swapBytes_littleEndian]

theorem lines_printUdp (data : ℕ → UInt8) (l4 : ℕ) :
    (printUdp l4).lines data = udpSection data l4 := by
  simp [printUdp, udpSection, rteBeToCpu16, swapBytes_littleEndian]

/-! ## The report as a whole -/

/-- What the IPv4 branch prints about the transport header. -/
def transportSection (m : Mbuf) : List Line :=
  if proto m = ipprotoTcp then
    if m.dataLen < l4Offset m + tcpHdrSize then []
    else tcpSection m.data (l4Offset m)
  else if proto m = ipprotoUdp then
    if m.dataLen < l4Offset m + udpHdrSize then []
    else udpSection m.data (l4Offset m)
  else [.l4Unknown (proto m)]

/-- What the IPv4 branch prints.  An address is printed with its bytes in the
order of their significance on the host, which is the reverse of their order
in the frame. -/
def ipv4Section (m : Mbuf) : List Line :=
  [.l3Ipv4,
    .srcIp (m.data 29).toNat (m.data 28).toNat (m.data 27).toNat
      (m.data 26).toNat,
    .dstIp (m.data 33).toNat (m.data 32).toNat (m.data 31).toNat
      (m.data 30).toNat] ++ transportSection m

/-- What the IPv6 branch prints. -/
def ipv6Section (m : Mbuf) : List Line :=
  let proto := (m.data (etherHdrSize + ipv6Proto)).toNat
  let l4 := etherHdrSize + ipv6HdrSize
  if proto = ipprotoTcp then tcpSection m.data l4
  else if proto = ipprotoUdp then udpSection m.data l4
  else [.l4UnknownNextHeader proto]

/-- What is printed after the MAC addresses. -/
def l3Section (m : Mbuf) : List Line :=
  let etherType := bigEndian m.data etherTypeOffset 2
  if etherType = etherTypeIpv4 then
    if m.dataLen < etherHdrSize + ipv4HdrSize then [] else ipv4Section m
  else if etherType = etherTypeIpv6 then
    if m.dataLen < etherHdrSize + ipv6HdrSize then [] else ipv6Section m
  else .l3UnknownEtherType etherType ::
    if etherType = etherTypeArp then [.l3Arp] else []

/-- The bytes of an address, from the most significant one on the host. -/
theorem addr_bytes (data : ℕ → UInt8) (offset : ℕ) :
    littleEndian data offset 4 >>> 24 &&& 0xff = (data (offset + 3)).toNat ∧
      littleEndian data offset 4 >>> 16 &&& 0xff =
        (data (offset + 2)).toNat ∧
      littleEndian data offset 4 >>> 8 &&& 0xff =
        (data (offset + 1)).toNat ∧
      littleEndian data offset 4 &&& 0xff = (data offset).toNat :=
  ⟨littleEndian_shiftRight data offset 4 (k := 3) (by decide),
    littleEndian_shiftRight data offset 4 (k := 2) (by decide),
    littleEndian_shiftRight data offset 4 (k := 1) (by decide),
    littleEndian_shiftRight data offset 4 (k := 0) (by decide)⟩

theorem rteBeToCpu16_etherType (m : Mbuf) :
    rteBeToCpu16 (littleEndian m.data etherTypeOffset 2) =
      bigEndian m.data etherTypeOffset 2 := by
  rw [rteBeToCpu16, swapBytes_littleEndian]

section Report

variable {m : Mbuf} (hether : ¬m.dataLen < etherHdrSize)

include hether

theorem report_of_ipv4
    (htype : bigEndian m.data etherTypeOffset 2 = etherTypeIpv4)
    (hlength : ¬m.dataLen < etherHdrSize + ipv4HdrSize) :
    ∃ srcMac dstMac, report m =
      [.l2, .srcMac srcMac, .dstMac dstMac] ++ ipv4Section m := by
  obtain ⟨hsrc3, hsrc2, hsrc1, hsrc0⟩ :=
    addr_bytes m.data (etherHdrSize + ipv4SrcAddr)
  obtain ⟨hdst3, hdst2, hdst1, hdst0⟩ :=
    addr_bytes m.data (etherHdrSize + ipv4DstAddr)
  have hihl : ((m.data (etherHdrSize + ipv4VersionIhl)).toNat &&& 0x0F) * 4 =
      4 * ihl m := Nat.mul_comm _ _
  have hproto : (m.data (etherHdrSize + ipv4NextProtoId)).toNat = proto m :=
    rfl
  have hl4 : etherHdrSize + 4 * ihl m = l4Offset m := rfl
  refine ⟨(bytes etherSrcAddr 6 : Scan Line _).value m.data,
    (bytes etherDstAddr 6 : Scan Line _).value m.data, ?_⟩
  simp only [report, printMbufData, hether, hlength, if_false, if_true,
    lines_bind, lines_emit, lines_bytes, lines_load, lines_byte, value_load,
    value_byte, rteBeToCpu16_etherType, htype, etherTypeIpv4_ne_arp, hsrc3,
    hsrc2, hsrc1, hsrc0, hdst3, hdst2, hdst1, hdst0, hihl, hproto, hl4,
    ipv4Section, List.nil_append, List.cons_append, List.cons.injEq, true_and]
  refine ⟨rfl, rfl, ?_⟩
  rw [transportSection]
  by_cases htcp : proto m = ipprotoTcp
  · rw [if_pos htcp, if_pos htcp]
    split
    · rfl
    · simp [lines_printTcp]
  · rw [if_neg htcp, if_neg htcp]
    by_cases hudp : proto m = ipprotoUdp
    · rw [if_pos hudp, if_pos hudp]
      split
      · rfl
      · simp [lines_printUdp]
    · rw [if_neg hudp, if_neg hudp]
      simp

theorem report_of_ipv6
    (htype : bigEndian m.data etherTypeOffset 2 = etherTypeIpv6)
    (hlength : ¬m.dataLen < etherHdrSize + ipv6HdrSize) :
    ∃ srcMac dstMac, report m =
      [.l2, .srcMac srcMac, .dstMac dstMac] ++ ipv6Section m := by
  refine ⟨(bytes etherSrcAddr 6 : Scan Line _).value m.data,
    (bytes etherDstAddr 6 : Scan Line _).value m.data, ?_⟩
  by_cases htcp : (m.data (etherHdrSize + ipv6Proto)).toNat = ipprotoTcp
  · simp [report, printMbufData, hether, hlength, rteBeToCpu16_etherType,
      htype, htcp, lines_printTcp, ipv6Section]
  by_cases hudp : (m.data (etherHdrSize + ipv6Proto)).toNat = ipprotoUdp
  · simp [report, printMbufData, hether, hlength, rteBeToCpu16_etherType,
      htype, hudp, lines_printUdp, ipv6Section]
  · simp [report, printMbufData, hether, hlength, rteBeToCpu16_etherType,
      htype, htcp, hudp, ipv6Section]

/-- The report of a frame that contains an Ethernet header. -/
theorem report_eq : ∃ srcMac dstMac, report m =
    [.l2, .srcMac srcMac, .dstMac dstMac] ++ l3Section m := by
  rw [l3Section]
  by_cases hipv4 : bigEndian m.data etherTypeOffset 2 = etherTypeIpv4
  · rw [if_pos hipv4]
    by_cases hlength : m.dataLen < etherHdrSize + ipv4HdrSize
    · rw [if_pos hlength]
      simp [report, printMbufData, hether, rteBeToCpu16_etherType, hipv4,
        hlength]
    · rw [if_neg hlength]
      exact report_of_ipv4 hether hipv4 hlength
  rw [if_neg hipv4]
  by_cases hipv6 : bigEndian m.data etherTypeOffset 2 = etherTypeIpv6
  · rw [if_pos hipv6]
    by_cases hlength : m.dataLen < etherHdrSize + ipv6HdrSize
    · rw [if_pos hlength]
      simp [report, printMbufData, hether, rteBeToCpu16_etherType, hipv6,
        hlength]
    · rw [if_neg hlength]
      exact report_of_ipv6 hether hipv6 hlength
  rw [if_neg hipv6]
  simp only [report, printMbufData, hether, rteBeToCpu16_etherType, hipv4,
    hipv6, if_false, lines_bind, lines_emit, lines_bytes, lines_load,
    value_load]
  by_cases harp : bigEndian m.data etherTypeOffset 2 = etherTypeArp
  · simp [harp]
  · simp [harp]

end Report

end Decoder
end PacketParsing
end DpdkFolder
