import DpdkFolder.EventdevPacketParsing.Parse

/-!
# What the parser makes of an IPv4 frame

A reference decoder that reads the frame byte by byte, and the proof that
`parsing_logic` prints what it says for every address, header length and
protocol.
-/

namespace DpdkFolder
namespace EventdevPacketParsing
namespace Parse

open Scan

/-- What the parser should print for an IPv4 frame. -/
def ipv4Reference (m : Mbuf) : List Line :=
  macSection m ++
    [.ipIpv4,
      .sourceAddress,
      .ipv4Address (m.data 26).toNat (m.data 27).toNat (m.data 28).toNat
        (m.data 29).toNat,
      .destinationAddress,
      .ipv4Address (m.data 30).toNat (m.data 31).toNat (m.data 32).toNat
        (m.data 33).toNat] ++
    transportSection m.data (proto m) (14 + 4 * ihl m)

variable (m : Mbuf)

/-- The header length fits the `uint8_t` it is computed in. -/
theorem ihl_mod : ihl m * 4 % 2 ^ 8 = 4 * ihl m := by
  have hle : ihl m ≤ 15 := Nat.and_le_right
  omega

theorem lines_ipv4Parsing :
    (ipv4Parsing etherHdrSize etherHdrSize).lines m.data =
      [.sourceAddress,
        .ipv4Address (m.data 26).toNat (m.data 27).toNat (m.data 28).toNat
          (m.data 29).toNat,
        .destinationAddress,
        .ipv4Address (m.data 30).toNat (m.data 31).toNat (m.data 32).toNat
          (m.data 33).toNat] ++
        transportSection m.data (proto m) (14 + 4 * ihl m) := by
  have hsrc := lines_printIpv4Address m.data (etherHdrSize + ipv4SrcAddr)
  have hdst := lines_printIpv4Address m.data (etherHdrSize + ipv4DstAddr)
  have hihl : ((m.data (etherHdrSize + ipv4VersionIhl)).toNat &&& 0x0F) * 4 %
      2 ^ 8 = 4 * ihl m := ihl_mod m
  have hproto : (m.data (etherHdrSize + ipv4NextProtoId)).toNat = proto m :=
    rfl
  simp only [ipv4Parsing, lines_bind, lines_emit, lines_load, lines_byte,
    value_load, value_byte, rteBeToCpu32, swapBytes_littleEndian, hsrc, hdst,
    hihl, hproto, lines_parseTransport, List.nil_append, List.cons_append]
  rfl

/-- For every frame with the EtherType of IPv4, whatever its length, its header
length and its protocol: the parser returns 4 and prints what the reference
decoder says. -/
theorem parsingLogic_of_ipv4 (buffers : Buffers)
    (h : etherType m = etherTypeIpv4) :
    (parsingLogic buffers false).value m.data = 4 ∧
      report buffers m = ipv4Reference m := by
  obtain ⟨hvalue, hreport⟩ := parsingLogic_spec buffers m
  constructor
  · rw [hvalue, value_ipType, if_pos h]
  · rw [hreport, if_pos h, ipSection, if_pos h, lines_ipv4Parsing,
      ipv4Reference, List.append_assoc]
    rfl

/-- A UDP packet with a header of 24 bytes, from 10.0.0.1 to 10.0.0.2. -/
def udpFrame : List UInt8 :=
  List.replicate etherTypeOffset 0 ++ [0x08, 0x00] ++
    [0x46, 0, 0, 32, 0, 0, 0, 0, 64, 17, 0, 0, 10, 0, 0, 1, 10, 0, 0, 2] ++
    [1, 1, 1, 0] ++ [0, 53, 0x1F, 0x90, 0, 8, 0, 0]

theorem udpFrame_parsed :
    (parsingLogic ⟨[], []⟩ false).value (Mbuf.ofFrame udpFrame).data = 4 ∧
      report ⟨[], []⟩ (.ofFrame udpFrame) =
        ipv4Reference (.ofFrame udpFrame) :=
  parsingLogic_of_ipv4 (.ofFrame udpFrame) ⟨[], []⟩ (by decide)

end Parse
end EventdevPacketParsing
end DpdkFolder
