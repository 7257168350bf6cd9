import DpdkFolder.EventdevPacketParsing.Ipv6Parsing

/-!
# Where the parser reads

No function of parse.c compares anything with the length of the frame, and
neither does its caller.  The bytes that are read lie in the frame only if it
reaches as far as its EtherType, its header length or version and its protocol
make the parser read.
-/

namespace DpdkFolder
namespace EventdevPacketParsing
namespace Parse

open Scan

/-- Every byte that is read belongs to the frame. -/
def ReadsWithinFrame (buffers : Buffers) (typeFinder : Bool) (m : Mbuf) :
    Prop :=
  ∀ k ∈ (parsingLogic buffers typeFinder).reads m.data, k < m.dataLen

/-- The frame reaches to the end of what is read of the transport header that
is looked for at `l4`. -/
def ReachesTransport (m : Mbuf) (proto l4 : ℕ) : Prop :=
  (proto = ipprotoTcp → l4 + tcpSentSeq + 4 ≤ m.dataLen) ∧
    (proto = ipprotoUdp → l4 + udpDstPort + 2 ≤ m.dataLen)

/-- The frame reaches to the end of all that is read of it. -/
def LongEnough (typeFinder : Bool) (m : Mbuf) : Prop :=
  etherHdrSize ≤ m.dataLen ∧
    (typeFinder = false →
      (etherType m = etherTypeIpv4 →
        etherHdrSize + ipv4HdrSize ≤ m.dataLen ∧
          ReachesTransport m (proto m) (14 + 4 * ihl m)) ∧
      (etherType m = etherTypeIpv6 →
        etherHdrSize + ipv6HdrSize ≤ m.dataLen ∧
          ReachesTransport m (nextHeader m) (14 + 4 * version m)))

/-! ## Each part of the parser -/

section Parts

variable (data : ℕ → UInt8) {n : ℕ}

theorem printAddrBytes_staysBelow_iff (addrBytes : ℕ) :
    (printAddrBytes addrBytes 0 rteEtherAddrLen).StaysBelow data n ↔
      addrBytes + 5 < n := by
  simp only [printAddrBytes, rteEtherAddrLen, staysBelow_bind_iff,
    staysBelow_byte_iff, staysBelow_emit, staysBelow_pure, Nat.reduceSub,
    Nat.reduceLT, Nat.reduceAdd, Nat.lt_irrefl, if_true, if_false,
    true_and, and_true]
  omega

theorem ipType_staysBelow_iff :
    ipType.StaysBelow data n ↔ etherHdrSize ≤ n := by
  have hend : etherTypeOffset + 1 < n ↔ etherHdrSize ≤ n := Iff.rfl
  by_cases h4 : littleEndian data etherTypeOffset 2 =
      rteCpuToBe16 etherTypeIpv4
  · simp [ipType, h4, hend]
  by_cases h6 : littleEndian data etherTypeOffset 2 =
      rteCpuToBe16 etherTypeIpv6
  · simp [ipType, h6, hend]
  · simp [ipType, h4, h6, hend]

theorem parseTCP_staysBelow_iff (tcpHdr : ℕ) :
    (parseTCP tcpHdr).StaysBelow data n ↔ tcpHdr + tcpSentSeq + 4 ≤ n := by
  simp only [parseTCP, staysBelow_bind_iff, staysBelow_emit,
    staysBelow_load_iff, true_and, and_true, tcpSrcPort, tcpDstPort,
    tcpSentSeq]
  omega

theorem parseUDP_staysBelow_iff (udpHdr : ℕ) :
    (parseUDP udpHdr).StaysBelow data n ↔ udpHdr + udpDstPort + 2 ≤ n := by
  simp only [parseUDP, staysBelow_bind_iff, staysBelow_emit,
    staysBelow_load_iff, true_and, and_true, udpSrcPort, udpDstPort]
  omega

end Parts

section Frame

variable (m : Mbuf)

theorem parseTransport_staysBelow_iff (protoOffset l4 : ℕ) :
    (parseTransport protoOffset l4).StaysBelow m.data m.dataLen ↔
      protoOffset < m.dataLen ∧
        ReachesTransport m (m.data protoOffset).toNat l4 := by
  rw [ReachesTransport]
  by_cases htcp : (m.data protoOffset).toNat = ipprotoTcp
  · simp [parseTransport, htcp, parseTCP_staysBelow_iff]
  by_cases hudp : (m.data protoOffset).toNat = ipprotoUdp
  · simp [parseTransport, hudp, parseUDP_staysBelow_iff]
  · simp [parseTransport, htcp, hudp]

theorem ipv4Parsing_staysBelow_iff :
    (ipv4Parsing etherHdrSize etherHdrSize).StaysBelow m.data m.dataLen ↔
      etherHdrSize + ipv4HdrSize ≤ m.dataLen ∧
        ReachesTransport m (proto m) (14 + 4 * ihl m) := by
  have hihl : ((m.data (etherHdrSize + ipv4VersionIhl)).toNat &&& 0x0F) * 4 %
      2 ^ 8 = 4 * ihl m := ihl_mod m
  have hproto : (m.data (etherHdrSize + ipv4NextProtoId)).toNat = proto m :=
    rfl
  have hl4 : etherHdrSize + 4 * ihl m = 14 + 4 * ihl m := rfl
  simp only [ipv4Parsing, printIpv4Address, staysBelow_bind_iff,
    staysBelow_emit, staysBelow_load_iff, staysBelow_byte_iff, value_byte,
    parseTransport_staysBelow_iff, hihl, hproto, hl4, true_and,
    ← and_assoc]
  apply and_congr_left'
  simp only [etherHdrSize, ipv4HdrSize, ipv4SrcAddr, ipv4DstAddr,
    ipv4VersionIhl, ipv4NextProtoId]
  omega

theorem ipv6Parsing_staysBelow_iff (buffers : Buffers) :
    (ipv6Parsing buffers etherHdrSize etherHdrSize).StaysBelow m.data
        m.dataLen ↔
      etherHdrSize + ipv6HdrSize ≤ m.dataLen ∧
        ReachesTransport m (nextHeader m) (14 + 4 * version m) := by
  have hversion : (ipv6Version (m.data etherHdrSize) &&& 0x0F) * 4 % 2 ^ 8 =
      4 * version m := version_mod m
  have hproto : (m.data (etherHdrSize + ipv6Proto)).toNat = nextHeader m :=
    rfl
  have hl4 : etherHdrSize + 4 * version m = 14 + 4 * version m := rfl
  simp only [ipv6Parsing, staysBelow_bind_iff, staysBelow_emit,
    staysBelow_bytes_iff, staysBelow_byte_iff, value_byte,
    parseTransport_staysBelow_iff, hversion, hproto, hl4, true_and,
    ← and_assoc]
  apply and_congr_left'
  simp only [etherHdrSize, ipv6HdrSize, ipv6SrcAddr, ipv6DstAddr, ipv6Proto]
  omega

/-! ## When the parser stays within the frame -/

/-- What is read for the MAC addresses belongs to the Ethernet header. -/
theorem macs_lt (h : etherHdrSize ≤ m.dataLen) :
    etherSrcAddr + 5 < m.dataLen ∧ etherDstAddr + 5 < m.dataLen := by
  simp only [etherHdrSize, etherSrcAddr, etherDstAddr] at *
  omega

/-- For every frame and both modes: every byte that is read lies in the frame
if and only if the frame reaches to the end of the headers as the parser finds
them. -/
theorem parsingLogic_within_iff (buffers : Buffers) (typeFinder : Bool) :
    ReadsWithinFrame buffers typeFinder m ↔ LongEnough typeFinder m := by
  have hdef : ReadsWithinFrame buffers typeFinder m ↔
      (parsingLogic buffers typeFinder).StaysBelow m.data m.dataLen :=
    Iff.rfl
  rw [hdef, parsingLogic, staysBelow_bind_iff, ipType_staysBelow_iff,
    LongEnough]
  apply and_congr_right
  intro hether
  obtain ⟨hsrc, hdst⟩ := macs_lt m hether
  cases typeFinder with
  | true => simp
  | false =>
      simp only [Bool.false_eq_true, if_false, staysBelow_bind_iff,
        staysBelow_emit, printAddrBytes_staysBelow_iff, hsrc, hdst,
        true_and, forall_const, value_ipType]
      by_cases h4 : etherType m = etherTypeIpv4
      · simp [h4, ipv4Parsing_staysBelow_iff]
      by_cases h6 : etherType m = etherTypeIpv6
      · simp [h6, ipv6Parsing_staysBelow_iff]
      · simp [h4, h6]

end Frame

/-- An Ethernet header with the EtherType of IPv4 and nothing behind it. -/
def etherHdrOnly : List UInt8 :=
  List.replicate etherTypeOffset 0 ++ [0x08, 0x00]

/-- The source address is read from behind that frame. -/
theorem etherHdrOnly_not_within :
    ¬∀ (buffers : Buffers) (typeFinder : Bool) (m : Mbuf),
      ReadsWithinFrame buffers typeFinder m := by
  intro hall
  have hread : 26 ∈ (parsingLogic ⟨[], []⟩ false).reads
      (Mbuf.ofFrame etherHdrOnly).data := by decide
  exact absurd (hall ⟨[], []⟩ false (.ofFrame etherHdrOnly) 26 hread)
    (by decide)

end Parse
end EventdevPacketParsing
end DpdkFolder
