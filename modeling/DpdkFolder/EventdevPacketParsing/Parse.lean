import DpdkFolder.Dpdk.Mbuf
import DpdkFolder.Support.Inet6
import DpdkFolder.Support.Scan

/-!
# The parser of eventdev_packet_parsing

`parsing_logic` finds out the EtherType and, unless it is asked for nothing
else, prints the addresses and the transport header of the packet.  Each call
of `printf` is a line of the report, with the values of its arguments.
-/

namespace DpdkFolder
namespace EventdevPacketParsing
namespace Parse

/-- What the functions of parse.c may print. -/
inductive Line
  | sourceMacAddress
  | destinationMacAddress
  | hexByte (b : UInt8)
  | colon
  | newline
  | ipIpv4
  | ipIpv6
  | sourceAddress
  | destinationAddress
  | ipv4Address (a b c d : ℕ)
  | sourceIpAddress (src : List Char)
  | destinationIpAddress (dst : List Char)
  | nextHeader
  | tcp
  | udp
  | unknown
  | tcpSourcePort (port : ℕ)
  | tcpDestinationPort (port : ℕ)
  | tcpSequenceNumber (seq : ℕ)
  | udpSourcePort (port : ℕ)
  | udpDestinationPort (port : ℕ)
  | unknownEtherType
deriving DecidableEq, Repr

/-- The strings that the local arrays of `ipv6_parsing` hold before they are
written. -/
structure Buffers where
  src : List Char
  dst : List Char

/-- The string that a buffer holds after `inet_ntop`, which fails where the
text and its terminator do not fit the given size. -/
def inetNtop (addr : List UInt8) (buffer : List Char) (size : ℕ) :
    List Char :=
  if (Inet6.text addr).length + 1 ≤ size then Inet6.text addr else buffer

open Scan

/-- `print_ipv4_address`. -/
def printIpv4Address (addr : ℕ) : Scan Line Unit :=
  emit (.ipv4Address (addr >>> 24 &&& 0xFF) (addr >>> 16 &&& 0xFF)
    (addr >>> 8 &&& 0xFF) (addr &&& 0xFF))

/-- `parse_TCP`. -/
def parseTCP (tcpHdr : ℕ) : Scan Line Unit := do
  emit (.tcpSourcePort (rteBeToCpu16 (← load (tcpHdr + tcpSrcPort) 2)))
  emit (.tcpDestinationPort (rteBeToCpu16 (← load (tcpHdr + tcpDstPort) 2)))
  emit (.tcpSequenceNumber (rteBeToCpu32 (← load (tcpHdr + tcpSentSeq) 4)))

/-- `parse_UDP`. -/
def parseUDP (udpHdr : ℕ) : Scan Line Unit := do
  emit (.udpSourcePort (rteBeToCpu16 (← load (udpHdr + udpSrcPort) 2)))
  emit (.udpDestinationPort (rteBeToCpu16 (← load (udpHdr + udpDstPort) 2)))

/-- The test of the protocol and what follows it, which `ipv4_parsing` and
`ipv6_parsing` share. -/
def parseTransport (protoOffset offset : ℕ) : Scan Line Unit := do
  emit .nextHeader
  if (← byte protoOffset).toNat = ipprotoTcp then
    emit .tcp
    parseTCP offset
  else if (← byte protoOffset).toNat = ipprotoUdp then
    emit .udp
    parseUDP offset
  else
    emit .unknown

/-- `ipv4_parsing`. -/
def ipv4Parsing (ipv4Hdr offset : ℕ) : Scan Line Unit := do
  emit .sourceAddress
  printIpv4Address (rteBeToCpu32 (← load (ipv4Hdr + ipv4SrcAddr) 4))
  emit .destinationAddress
  printIpv4Address (rteBeToCpu32 (← load (ipv4Hdr + ipv4DstAddr) 4))
  let versionIhl ← byte (ipv4Hdr + ipv4VersionIhl)
  -- `ihl` is a `uint8_t`.
  let ihl := (versionIhl.toNat &&& 0x0F) * 4 % 2 ^ 8
  parseTransport (ipv4Hdr + ipv4NextProtoId) (offset + ihl)

/-- `ipv6_parsing`. -/
def ipv6Parsing (buffers : Buffers) (ipv6Hdr offset : ℕ) :
    Scan Line Unit := do
  let srcAddr ← bytes (ipv6Hdr + ipv6SrcAddr) 16
  emit (.sourceIpAddress (inetNtop srcAddr buffers.src rteIpv6AddrSize))
  let dstAddr ← bytes (ipv6Hdr + ipv6DstAddr) 16
  emit (.destinationIpAddress (inetNtop dstAddr buffers.dst rteIpv6AddrSize))
  let version := ipv6Version (← byte ipv6Hdr)
  let ihl := (version &&& 0x0F) * 4 % 2 ^ 8
  parseTransport (ipv6Hdr + ipv6Proto) (offset + ihl)

/-- The loop that prints a MAC address, with `n` bytes left from the `i`-th
one on. -/
def printAddrBytes (addrBytes i : ℕ) : ℕ → Scan Line Unit
  | 0 => pure ()
  | n + 1 => do
      emit (.hexByte (← byte (addrBytes + i)))
      if i < rteEtherAddrLen - 1 then emit .colon
      printAddrBytes addrBytes (i + 1) n

/-- The first part of `parsing_logic`, which finds out `ip_type`. -/
def ipType : Scan Line ℕ := do
  if (← load etherTypeOffset 2) = rteCpuToBe16 etherTypeIpv4 then
    return 4
  else if (← load etherTypeOffset 2) = rteCpuToBe16 etherTypeIpv6 then
    return 6
  else
    return 0

/-- `parsing_logic`. -/
def parsingLogic (buffers : Buffers) (typeFinder : Bool) : Scan Line ℕ := do
  let ipType ← ipType
  if typeFinder then return ipType
  emit .sourceMacAddress
  printAddrBytes etherSrcAddr 0 rteEtherAddrLen
  emit .newline
  emit .destinationMacAddress
  printAddrBytes etherDstAddr 0 rteEtherAddrLen
  emit .newline
  if ipType = 4 then emit .ipIpv4 else emit .ipIpv6
  let offset := etherHdrSize
  if ipType = 4 then
    ipv4Parsing offset offset
  else if ipType = 6 then
    ipv6Parsing buffers offset offset
  else
    emit .unknownEtherType
  return ipType

/-- What is printed for an mbuf by `parsing_logic(packet, 0)`. -/
def report (buffers : Buffers) (m : Mbuf) : List Line :=
  (parsingLogic buffers false).lines m.data

/-! ## The fields of a frame -/

/-- The EtherType. -/
def etherType (m : Mbuf) : ℕ := bigEndian m.data etherTypeOffset 2

/-- The header length field of an IPv4 header, in words of four bytes. -/
def ihl (m : Mbuf) : ℕ :=
  (m.data (etherHdrSize + ipv4VersionIhl)).toNat &&& 0x0F

/-- The protocol field of an IPv4 header. -/
def proto (m : Mbuf) : ℕ := (m.data (etherHdrSize + ipv4NextProtoId)).toNat

/-- The version field of an IPv6 header. -/
def version (m : Mbuf) : ℕ := ipv6Version (m.data etherHdrSize)

/-- The next header field of an IPv6 header. -/
def nextHeader (m : Mbuf) : ℕ := (m.data (etherHdrSize + ipv6Proto)).toNat

/-- A MAC address, with colons between its bytes. -/
def macLines (data : ℕ → UInt8) (addrBytes : ℕ) : List Line :=
  [.hexByte (data addrBytes), .colon, .hexByte (data (addrBytes + 1)),
    .colon, .hexByte (data (addrBytes + 2)), .colon,
    .hexByte (data (addrBytes + 3)), .colon,
    .hexByte (data (addrBytes + 4)), .colon,
    .hexByte (data (addrBytes + 5)), .newline]

/-- Both MAC addresses. -/
def macSection (m : Mbuf) : List Line :=
  .sourceMacAddress :: macLines m.data etherSrcAddr ++
    .destinationMacAddress :: macLines m.data etherDstAddr

/-- The transport header at an offset. -/
def transportSection (data : ℕ → UInt8) (proto offset : ℕ) : List Line :=
  if proto = ipprotoTcp then
    [.nextHeader, .tcp, .tcpSourcePort (bigEndian data offset 2),
      .tcpDestinationPort (bigEndian data (offset + 2) 2),
      .tcpSequenceNumber (bigEndian data (offset + 4) 4)]
  else if proto = ipprotoUdp then
    [.nextHeader, .udp, .udpSourcePort (bigEndian data offset 2),
      .udpDestinationPort (bigEndian data (offset + 2) 2)]
  else [.nextHeader, .unknown]

theorem transportSection_cases (data : ℕ → UInt8) (proto offset : ℕ) :
    transportSection data proto offset =
      [.nextHeader, .tcp, .tcpSourcePort (bigEndian data offset 2),
        .tcpDestinationPort (bigEndian data (offset + 2) 2),
        .tcpSequenceNumber (bigEndian data (offset + 4) 4)] ∨
    transportSection data proto offset =
      [.nextHeader, .udp, .udpSourcePort (bigEndian data offset 2),
        .udpDestinationPort (bigEndian data (offset + 2) 2)] ∨
    transportSection data proto offset = [.nextHeader, .unknown] := by
  rw [transportSection]
  split
  · exact Or.inl rfl
  · split
    · exact Or.inr (Or.inl rfl)
    · exact Or.inr (Or.inr rfl)

/-! ## Running the parts of the parser -/

variable (data : ℕ → UInt8)

theorem lines_printAddrBytes (addrBytes : ℕ) :
    (printAddrBytes addrBytes 0 rteEtherAddrLen).lines data ++ [.newline] =
      macLines data addrBytes := rfl

theorem lines_printIpv4Address (offset : ℕ) :
    (printIpv4Address (bigEndian data offset 4)).lines data =
      [.ipv4Address (data offset).toNat (data (offset + 1)).toNat
        (data (offset + 2)).toNat (data (offset + 3)).toNat] := by
  have h0 := bigEndian_shiftRight data offset 0 3
  have h1 := bigEndian_shiftRight data offset 1 2
  have h2 := bigEndian_shiftRight data offset 2 1
  have h3 := bigEndian_shiftRight data offset 3 0
  simp only [Nat.mul_zero, Nat.shiftRight_zero] at h3
  rw [printIpv4Address, lines_emit, h0, h1, h2, h3, Nat.add_zero]

@[simp] theorem lines_parseTransport (protoOffset offset : ℕ) :
    (parseTransport protoOffset offset).lines data =
      transportSection data (data protoOffset).toNat offset := by
  rw [transportSection]
  by_cases htcp : (data protoOffset).toNat = ipprotoTcp
  · simp [parseTransport, htcp, parseTCP, rteBeToCpu16, rteBeToCpu32,
      swapBytes_littleEndian, tcpSrcPort, tcpDstPort, tcpSentSeq]
  by_cases hudp : (data protoOffset).toNat = ipprotoUdp
  · simp [parseTransport, hudp, parseUDP, rteBeToCpu16,
      swapBytes_littleEndian, udpSrcPort, udpDstPort]
  · simp [parseTransport, htcp, hudp]

/-- The comparison of what is loaded with a swapped constant. -/
theorem load_etherType_iff {x : ℕ} (hx : rteBeToCpu16 (rteCpuToBe16 x) = x) :
    littleEndian data etherTypeOffset 2 = rteCpuToBe16 x ↔
      bigEndian data etherTypeOffset 2 = x :=
  littleEndian_eq_swapBytes_iff data etherTypeOffset 2 hx

theorem value_ipType (m : Mbuf) : ipType.value m.data =
    if etherType m = etherTypeIpv4 then 4
    else if etherType m = etherTypeIpv6 then 6 else 0 := by
  have hipv4 := load_etherType_iff m.data (x := etherTypeIpv4) (by decide)
  have hipv6 := load_etherType_iff m.data (x := etherTypeIpv6) (by decide)
  rw [etherType]
  by_cases h4 : bigEndian m.data etherTypeOffset 2 = etherTypeIpv4
  · simp [ipType, hipv4.mpr h4, h4]
  by_cases h6 : bigEndian m.data etherTypeOffset 2 = etherTypeIpv6
  · simp [ipType, hipv4, hipv6, h6]
  · simp [ipType, hipv4, h4, hipv6, h6]

theorem lines_ipType : ipType.lines data = [] := by
  by_cases h4 : littleEndian data etherTypeOffset 2 =
      rteCpuToBe16 etherTypeIpv4
  · simp [ipType, h4]
  by_cases h6 : littleEndian data etherTypeOffset 2 =
      rteCpuToBe16 etherTypeIpv6
  · simp [ipType, h6]
  · simp [ipType, h4, h6]

/-! ## The report as a whole -/

/-- What is printed behind the label. -/
def ipSection (buffers : Buffers) (m : Mbuf) : List Line :=
  if etherType m = etherTypeIpv4 then
    (ipv4Parsing etherHdrSize etherHdrSize).lines m.data
  else if etherType m = etherTypeIpv6 then
    (ipv6Parsing buffers etherHdrSize etherHdrSize).lines m.data
  else [.unknownEtherType]

/-- `parsing_logic(packet, 0)` returns what `ip_type` holds, and prints the MAC
addresses, a label for one of two families, and a section for one of three. -/
theorem parsingLogic_spec (buffers : Buffers) (m : Mbuf) :
    (parsingLogic buffers false).value m.data = ipType.value m.data ∧
      report buffers m =
        macSection m ++
          (if etherType m = etherTypeIpv4 then .ipIpv4 else .ipIpv6) ::
            ipSection buffers m := by
  have hsrc := lines_printAddrBytes m.data etherSrcAddr
  have hdst := lines_printAddrBytes m.data etherDstAddr
  rw [ipSection]
  by_cases h4 : etherType m = etherTypeIpv4
  · have htype : ipType.value m.data = 4 := by
      rw [value_ipType, if_pos h4]
    simp [report, parsingLogic, lines_ipType, htype, h4, macSection, ← hsrc,
      ← hdst]
  by_cases h6 : etherType m = etherTypeIpv6
  · have htype : ipType.value m.data = 6 := by
      rw [value_ipType, if_neg h4, if_pos h6]
    simp [report, parsingLogic, lines_ipType, htype, h6, macSection,
      ← hsrc, ← hdst]
  · have htype : ipType.value m.data = 0 := by
      rw [value_ipType, if_neg h4, if_neg h6]
    simp [report, parsingLogic, lines_ipType, htype, h4, h6, macSection,
      ← hsrc, ← hdst]

end Parse
end EventdevPacketParsing
end DpdkFolder
