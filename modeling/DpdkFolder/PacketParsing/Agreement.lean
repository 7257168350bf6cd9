import DpdkFolder.PacketParsing.Ipv4Decoding
import DpdkFolder.PacketParsing.MbufInfo

/-!
# The two reports of an mbuf

`print_mbuff_info` and `print_mbuf_data` each say what is behind the Ethernet
header.  The latter prints no such line for IPv6, and two of them for ARP,
whose test is detached from the others.
-/

namespace DpdkFolder
namespace PacketParsing

/-- What a report may say about layer 3. -/
inductive L3Class
  | ipv4
  | ipv6
  | arp
  | unknown
deriving DecidableEq, Repr

/-- What a line of `print_mbuff_info` says about layer 3. -/
def MbufInfo.Line.l3Class : MbufInfo.Line → Option L3Class
  | .l3Ipv4 => some .ipv4
  | .l3Ipv6 => some .ipv6
  | .l3Arp => some .arp
  | .l3UnknownEtherType _ => some .unknown
  | _ => none

/-- What a line of `print_mbuf_data` says about layer 3. -/
def Decoder.Line.l3Class : Decoder.Line → Option L3Class
  | .l3Ipv4 => some .ipv4
  | .l3Arp => some .arp
  | .l3UnknownEtherType _ => some .unknown
  | _ => none

/-- The classifications in the report of `print_mbuff_info`. -/
def infoClasses (f : MbufInfo.Fields) (rteSocketId : ℕ) (m : Mbuf) :
    List L3Class :=
  (MbufInfo.report f rteSocketId m).filterMap MbufInfo.Line.l3Class

/-- The classifications in the report of `print_mbuf_data`. -/
def dataClasses (m : Mbuf) : List L3Class :=
  (Decoder.report m).filterMap Decoder.Line.l3Class

/-- The frame ends before its Ethernet header or the header announced by its
EtherType does. -/
def TooShort (m : Mbuf) : Prop :=
  m.dataLen < etherHdrSize ∨
    (bigEndian m.data etherTypeOffset 2 = etherTypeIpv4 ∧
      m.dataLen < etherHdrSize + ipv4HdrSize) ∨
    (bigEndian m.data etherTypeOffset 2 = etherTypeIpv6 ∧
      m.dataLen < etherHdrSize + ipv6HdrSize)

/-- Both reports give one classification, the same, or none since the frame
is too short. -/
def Agree (f : MbufInfo.Fields) (rteSocketId : ℕ) (m : Mbuf) : Prop :=
  (∃ c, infoClasses f rteSocketId m = [c] ∧ dataClasses m = [c]) ∨
    (TooShort m ∧ infoClasses f rteSocketId m = [] ∧ dataClasses m = [])

/-! ## The classifications of each report -/

/-- What is printed before the headers says nothing about layer 3. -/
theorem filterMap_printMetadata (f : MbufInfo.Fields)
    (rteSocketId dataLen l2Type : ℕ) (data : ℕ → UInt8) :
    ((MbufInfo.printMetadata f rteSocketId dataLen l2Type).lines
      data).filterMap MbufInfo.Line.l3Class = [] := rfl

theorem filterMap_tcpSection (data : ℕ → UInt8) (l4 : ℕ) :
    (Decoder.tcpSection data l4).filterMap Decoder.Line.l3Class = [] := rfl

theorem filterMap_udpSection (data : ℕ → UInt8) (l4 : ℕ) :
    (Decoder.udpSection data l4).filterMap Decoder.Line.l3Class = [] := rfl

theorem filterMap_ipv4Section (m : Mbuf) :
    (Decoder.ipv4Section m).filterMap Decoder.Line.l3Class = [.ipv4] := by
  have htransport : (Decoder.transportSection m).filterMap
      Decoder.Line.l3Class = [] := by
    obtain ⟨-, -, hsection⟩ | ⟨-, -, hsection⟩ | ⟨-, hsection | hsection⟩ :=
      Decoder.transportSection_cases m
    · rw [hsection, filterMap_tcpSection]
    · rw [hsection, filterMap_udpSection]
    · rw [hsection, List.filterMap_nil]
    · rw [hsection]
      rfl
  rw [Decoder.ipv4Section, List.filterMap_append, htransport]
  rfl

theorem filterMap_ipv6Section (m : Mbuf) :
    (Decoder.ipv6Section m).filterMap Decoder.Line.l3Class = [] := by
  rw [Decoder.ipv6Section]
  split
  · exact filterMap_tcpSection _ _
  · split
    · exact filterMap_udpSection _ _
    · rfl

section Classes

variable {m : Mbuf} (hether : ¬m.dataLen < etherHdrSize)

include hether

theorem infoClasses_eq (f : MbufInfo.Fields) (rteSocketId : ℕ) :
    infoClasses f rteSocketId m =
      if bigEndian m.data etherTypeOffset 2 = etherTypeIpv4 then
        if m.dataLen < etherHdrSize + ipv4HdrSize then [] else [.ipv4]
      else if bigEndian m.data etherTypeOffset 2 = etherTypeIpv6 then [.ipv6]
      else if bigEndian m.data etherTypeOffset 2 = etherTypeArp then [.arp]
      else [.unknown] := by
  simp only [infoClasses, MbufInfo.report, MbufInfo.printMbuffInfo, hether,
    if_false, Scan.lines_bind, Scan.lines_load, Scan.value_load,
    Decoder.rteBeToCpu16_etherType, List.filterMap_append,
    filterMap_printMetadata, List.nil_append]
  by_cases hipv4 : bigEndian m.data etherTypeOffset 2 = etherTypeIpv4
  · by_cases hlength : m.dataLen < etherHdrSize + ipv4HdrSize
    · simp [hipv4, hlength]
    by_cases htcp : (m.data (etherHdrSize + ipv4NextProtoId)).toNat =
        ipprotoTcp
    · simp [hipv4, hlength, htcp, MbufInfo.printDetails,
        MbufInfo.Line.l3Class]
    by_cases hudp : (m.data (etherHdrSize + ipv4NextProtoId)).toNat =
        ipprotoUdp
    · simp [hipv4, hlength, hudp, MbufInfo.printDetails,
        MbufInfo.Line.l3Class]
    · simp [hipv4, hlength, htcp, hudp, MbufInfo.printDetails,
        MbufInfo.Line.l3Class]
  by_cases hipv6 : bigEndian m.data etherTypeOffset 2 = etherTypeIpv6
  · simp [hipv6, MbufInfo.printDetails, MbufInfo.Line.l3Class]
  by_cases harp : bigEndian m.data etherTypeOffset 2 = etherTypeArp
  · simp [harp, MbufInfo.printDetails, MbufInfo.Line.l3Class]
  · simp [hipv4, hipv6, harp, MbufInfo.printDetails, MbufInfo.Line.l3Class]

theorem dataClasses_eq :
    dataClasses m =
      if bigEndian m.data etherTypeOffset 2 = etherTypeIpv4 then
        if m.dataLen < etherHdrSize + ipv4HdrSize then [] else [.ipv4]
      else if bigEndian m.data etherTypeOffset 2 = etherTypeIpv6 then []
      else if bigEndian m.data etherTypeOffset 2 = etherTypeArp then
        [.unknown, .arp]
      else [.unknown] := by
  obtain ⟨srcMac, dstMac, hreport⟩ := Decoder.report_eq hether
  rw [dataClasses, hreport, List.filterMap_append, Decoder.l3Section]
  have hmacs : [Decoder.Line.l2, .srcMac srcMac, .dstMac dstMac].filterMap
      Decoder.Line.l3Class = [] := rfl
  rw [hmacs, List.nil_append]
  by_cases hipv4 : bigEndian m.data etherTypeOffset 2 = etherTypeIpv4
  · rw [if_pos hipv4, if_pos hipv4]
    by_cases hlength : m.dataLen < etherHdrSize + ipv4HdrSize
    · rw [if_pos hlength, if_pos hlength, List.filterMap_nil]
    · rw [if_neg hlength, if_neg hlength, filterMap_ipv4Section]
  rw [if_neg hipv4, if_neg hipv4]
  by_cases hipv6 : bigEndian m.data etherTypeOffset 2 = etherTypeIpv6
  · rw [if_pos hipv6, if_pos hipv6]
    by_cases hlength : m.dataLen < etherHdrSize + ipv6HdrSize
    · rw [if_pos hlength, List.filterMap_nil]
    · rw [if_neg hlength, filterMap_ipv6Section]
  rw [if_neg hipv6, if_neg hipv6]
  by_cases harp : bigEndian m.data etherTypeOffset 2 = etherTypeArp
  · rw [if_pos harp, if_pos harp]
    rfl
  · rw [if_neg harp, if_neg harp]
    rfl

end Classes

/-! ## When the reports agree -/

/-- The frame is too short, or its EtherType is neither IPv6 nor ARP. -/
def ReportedAlike (m : Mbuf) : Prop :=
  m.dataLen < etherHdrSize ∨
    (bigEndian m.data etherTypeOffset 2 ≠ etherTypeIpv6 ∧
      bigEndian m.data etherTypeOffset 2 ≠ etherTypeArp)

theorem agree_of_reportedAlike (f : MbufInfo.Fields) (rteSocketId : ℕ)
    {m : Mbuf} (h : ReportedAlike m) : Agree f rteSocketId m := by
  by_cases hether : m.dataLen < etherHdrSize
  · refine Or.inr ⟨Or.inl hether, ?_, ?_⟩
    · simp [infoClasses, MbufInfo.report, MbufInfo.printMbuffInfo, hether]
    · simp [dataClasses, Decoder.report, Decoder.printMbufData, hether]
  obtain hshort | ⟨hipv6, harp⟩ := h
  · exact absurd hshort hether
  rw [Agree, infoClasses_eq hether, dataClasses_eq hether]
  by_cases hipv4 : bigEndian m.data etherTypeOffset 2 = etherTypeIpv4
  · by_cases hlength : m.dataLen < etherHdrSize + ipv4HdrSize
    · have hshort : TooShort m := Or.inr (Or.inl ⟨hipv4, hlength⟩)
      simp [hipv4, hlength, hshort]
    · simp [hipv4, hlength]
  · simp [hipv4, hipv6, harp]

theorem Agree.reportedAlike {f : MbufInfo.Fields} {rteSocketId : ℕ}
    {m : Mbuf} (h : Agree f rteSocketId m) : ReportedAlike m := by
  by_cases hether : m.dataLen < etherHdrSize
  · exact Or.inl hether
  refine Or.inr ⟨?_, ?_⟩
  · intro hipv6
    rw [Agree, infoClasses_eq hether, dataClasses_eq hether] at h
    simp [hipv6] at h
  · intro harp
    rw [Agree, infoClasses_eq hether, dataClasses_eq hether] at h
    simp [harp] at h

/-- For every frame: the two reports agree on layer 3 if and only if the frame
ends within its Ethernet header, or its EtherType is neither IPv6 nor ARP. -/
theorem agree_iff (f : MbufInfo.Fields) (rteSocketId : ℕ) (m : Mbuf) :
    Agree f rteSocketId m ↔ ReportedAlike m :=
  ⟨Agree.reportedAlike, agree_of_reportedAlike f rteSocketId⟩

/-- An Ethernet header and an IPv6 header that announces UDP, with its
ports. -/
def ipv6UdpFrame : List UInt8 :=
  List.replicate etherTypeOffset 0 ++ [0x86, 0xDD] ++
    [0x60, 0, 0, 0, 0, 8, 17, 64] ++ List.replicate 32 0 ++
    [0, 53, 0, 53, 0, 8, 0, 0]

theorem ipv6UdpFrame_not_agree :
    ¬∀ (f : MbufInfo.Fields) (rteSocketId : ℕ) (m : Mbuf),
      Agree f rteSocketId m := by
  intro hall
  have hinfo : infoClasses ⟨0, 62, 128, 0, 2176, 1, 0, 0, 0, 0⟩ 0
      (.ofFrame ipv6UdpFrame) = [.ipv6] := by decide
  have hdata : dataClasses (.ofFrame ipv6UdpFrame) = [] := by decide
  obtain ⟨c, hc, hc'⟩ | ⟨-, hnone, -⟩ :=
    hall ⟨0, 62, 128, 0, 2176, 1, 0, 0, 0, 0⟩ 0 (.ofFrame ipv6UdpFrame)
  · rw [hdata] at hc'
    exact List.cons_ne_nil _ _ hc'.symm
  · rw [hinfo] at hnone
    exact List.cons_ne_nil _ _ hnone

end PacketParsing
end DpdkFolder
