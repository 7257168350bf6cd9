import DpdkFolder.Dpdk.Mbuf
import DpdkFolder.Support.Inet6
import DpdkFolder.Support.Scan
import Mathlib.Data.List.Forall2

/-!
# What the report of packet_info depends on

`packet_info` prints the headers of each packet of a burst without a look at
its length, and keeps the text of the addresses in local arrays.  For an IPv6
packet the calls of `inet_ntop` are commented out, so the arrays are printed
as they are found.
-/

namespace DpdkFolder
namespace PacketParseerRing
namespace PacketInfo

/-- What `packet_info` may print. -/
inductive Line
  | newline
  | packet (number : ℕ)
  | srcMac (addr : List UInt8)
  | dstMac (addr : List UInt8)
  | protocolIpv4
  | protocolIpv6
  | srcIp (text : List Char)
  | dstIp (text : List Char)
  | protocolUnknown (etherType : ℕ)
deriving DecidableEq, Repr

/-- The strings that `src_ip` and `dst_ip` hold before they are written. -/
structure Buffers where
  src : List Char
  dst : List Char

/-- `INET_ADDRSTRLEN`. -/
def inetAddrstrlen : ℕ := 16

/-- The string that a buffer holds after `inet_ntop` of an IPv4 address, which
fails where the text and its terminator do not fit. -/
def inetNtop (addr : List UInt8) (buffer : List Char) (size : ℕ) :
    List Char :=
  if (Inet6.dottedQuad addr).length + 1 ≤ size then Inet6.dottedQuad addr
  else buffer

open Scan

/-- The body of the loop of `packet_info`. -/
def printPacket (buffers : Buffers) (i : ℕ) : Scan Line Unit := do
  emit (.packet (i + 1))
  emit (.srcMac (← bytes etherSrcAddr rteEtherAddrLen))
  emit (.dstMac (← bytes etherDstAddr rteEtherAddrLen))
  emit .newline
  emit .newline
  let etherType := rteBeToCpu16 (← load etherTypeOffset 2)
  if etherType = etherTypeIpv4 then
    let ip := etherHdrSize
    let srcIp := inetNtop (← bytes (ip + ipv4SrcAddr) 4) buffers.src
      inetAddrstrlen
    let dstIp := inetNtop (← bytes (ip + ipv4DstAddr) 4) buffers.dst
      inetAddrstrlen
    emit .protocolIpv4
    emit (.srcIp srcIp)
    emit (.dstIp dstIp)
    emit .newline
    emit .newline
  else if etherType = etherTypeIpv6 then
    emit .protocolIpv6
    emit (.srcIp buffers.src)
    emit (.dstIp buffers.dst)
    emit .newline
    emit .newline
  else
    emit (.protocolUnknown etherType)

/-- The loop of `packet_info` from the `i`-th packet on, where `stack i` is
what the arrays hold in its `i`-th turn.  A burst is far too short for the
`uint16_t` of the loop to wrap around. -/
def printPackets (stack : ℕ → Buffers) : ℕ → List Mbuf → List Line
  | _, [] => []
  | i, m :: rest =>
      (printPacket (stack i) i).lines m.data ++
        printPackets stack (i + 1) rest

/-- `packet_info`. -/
def packetInfo (stack : ℕ → Buffers) (packets : List Mbuf) : List Line :=
  .newline :: .newline :: printPackets stack 0 packets

/-- The report on a burst is the same whatever its buffers hold behind the
frames, and whatever the stack holds. -/
def Noninterference (packets : List Mbuf) : Prop :=
  ∀ packets' stack stack', List.Forall₂ SameFrame packets packets' →
    packetInfo stack' packets' = packetInfo stack packets

/-- The EtherType. -/
def etherType (m : Mbuf) : ℕ := bigEndian m.data etherTypeOffset 2

/-- The frame contains its Ethernet header, and the addresses of its IPv4
header if it has one; it is not an IPv6 frame. -/
structure Complete (m : Mbuf) : Prop where
  ether : etherHdrSize ≤ m.dataLen
  ipv4 : etherType m = etherTypeIpv4 →
    etherHdrSize + ipv4HdrSize ≤ m.dataLen
  not_ipv6 : etherType m ≠ etherTypeIpv6

/-! ## The text of an IPv4 address -/

theorem length_toDigits_le_three (b : UInt8) :
    (Nat.toDigits 10 b.toNat).length ≤ 3 := by
  have hlt := b.toNat_lt
  exact (Nat.length_toDigits_le_iff (by decide) (by decide)).mpr (by omega)

theorem dottedQuad_four (a b c d : UInt8) :
    Inet6.dottedQuad [a, b, c, d] =
      Nat.toDigits 10 a.toNat ++ '.' :: (Nat.toDigits 10 b.toNat ++
        '.' :: (Nat.toDigits 10 c.toNat ++ '.' ::
          Nat.toDigits 10 d.toNat)) := by
  simp [Inet6.dottedQuad, List.intercalate]

/-- The text of an IPv4 address always fits the array. -/
theorem inetNtop_eq (a b c d : UInt8) (buffer : List Char) :
    inetNtop [a, b, c, d] buffer inetAddrstrlen =
      Inet6.dottedQuad [a, b, c, d] := by
  have ha := length_toDigits_le_three a
  have hb := length_toDigits_le_three b
  have hc := length_toDigits_le_three c
  have hd := length_toDigits_le_three d
  apply if_pos
  rw [dottedQuad_four, inetAddrstrlen]
  simp only [List.length_append, List.length_cons]
  omega

/-! ## The report on one packet -/

/-- The bytes of an IPv4 address. -/
def ipv4Address (data : ℕ → UInt8) (offset : ℕ) : List UInt8 :=
  [data offset, data (offset + 1), data (offset + 2), data (offset + 3)]

/-- What follows the EtherType. -/
def ipSection (buffers : Buffers) (data : ℕ → UInt8) : List Line :=
  if bigEndian data etherTypeOffset 2 = etherTypeIpv4 then
    [.protocolIpv4, .srcIp (Inet6.dottedQuad (ipv4Address data 26)),
      .dstIp (Inet6.dottedQuad (ipv4Address data 30)), .newline, .newline]
  else if bigEndian data etherTypeOffset 2 = etherTypeIpv6 then
    [.protocolIpv6, .srcIp buffers.src, .dstIp buffers.dst, .newline,
      .newline]
  else [.protocolUnknown (bigEndian data etherTypeOffset 2)]

/-- The bytes of a MAC address. -/
def macAddress (data : ℕ → UInt8) (offset : ℕ) : List UInt8 :=
  (List.range rteEtherAddrLen).map fun k => data (offset + k)

theorem lines_printPacket (buffers : Buffers) (i : ℕ) (data : ℕ → UInt8) :
    (printPacket buffers i).lines data =
      [.packet (i + 1), .srcMac (macAddress data etherSrcAddr),
        .dstMac (macAddress data etherDstAddr), .newline, .newline] ++
          ipSection buffers data := by
  have hsrc : (List.range 4).map (fun k =>
      data (etherHdrSize + ipv4SrcAddr + k)) = ipv4Address data 26 := rfl
  have hdst : (List.range 4).map (fun k =>
      data (etherHdrSize + ipv4DstAddr + k)) = ipv4Address data 30 := rfl
  rw [ipSection]
  by_cases h4 : bigEndian data etherTypeOffset 2 = etherTypeIpv4
  · simp [printPacket, rteBeToCpu16, swapBytes_littleEndian, h4, hsrc, hdst,
      macAddress, ipv4Address, inetNtop_eq]
  by_cases h6 : bigEndian data etherTypeOffset 2 = etherTypeIpv6
  · simp [printPacket, rteBeToCpu16, swapBytes_littleEndian, h6, macAddress]
  · simp [printPacket, rteBeToCpu16, swapBytes_littleEndian, h4, h6,
      macAddress]

/-! ## Complete frames -/

section Same

variable {m m' : Mbuf}

theorem macAddress_congr (hsame : SameFrame m m') (offset : ℕ)
    (hlength : offset + rteEtherAddrLen ≤ m.dataLen) :
    macAddress m'.data offset = macAddress m.data offset := by
  apply List.map_congr_left
  intro k hk
  rw [List.mem_range] at hk
  exact hsame.2 _ (by omega)

theorem ipv4Address_congr (hsame : SameFrame m m') {offset : ℕ}
    (hlength : offset + 4 ≤ m.dataLen) :
    ipv4Address m'.data offset = ipv4Address m.data offset := by
  rw [ipv4Address, hsame.2 offset (by omega), hsame.2 (offset + 1) (by omega),
    hsame.2 (offset + 2) (by omega), hsame.2 (offset + 3) (by omega)]
  rfl

theorem etherType_congr (hsame : SameFrame m m')
    (hlength : etherHdrSize ≤ m.dataLen) : etherType m' = etherType m := by
  apply bigEndian_congr
  intro k hk
  apply hsame.2
  rw [etherHdrSize] at hlength
  rw [etherTypeOffset]
  omega

/-- The report on a complete frame is about the frame only. -/
theorem Complete.lines_eq (h : Complete m) (hsame : SameFrame m m')
    (buffers buffers' : Buffers) (i : ℕ) :
    (printPacket buffers' i).lines m'.data =
      (printPacket buffers i).lines m.data := by
  have hether := h.ether
  have htype := etherType_congr hsame hether
  simp only [etherHdrSize] at hether
  have hsrcMac := macAddress_congr hsame etherSrcAddr
    (Nat.le_trans (by decide) hether)
  have hdstMac := macAddress_congr hsame etherDstAddr
    (Nat.le_trans (by decide) hether)
  rw [lines_printPacket, lines_printPacket, hsrcMac, hdstMac]
  simp only [etherType] at htype
  rw [ipSection, ipSection, htype]
  by_cases h4 : bigEndian m.data etherTypeOffset 2 = etherTypeIpv4
  · have hlength := h.ipv4 h4
    simp only [etherHdrSize, ipv4HdrSize] at hlength
    rw [if_pos h4, if_pos h4, ipv4Address_congr hsame (by omega),
      ipv4Address_congr hsame (by omega)]
  · have h6 : bigEndian m.data etherTypeOffset 2 ≠ etherTypeIpv6 := h.not_ipv6
    rw [if_neg h4, if_neg h4, if_neg h6, if_neg h6]

end Same

theorem noninterference_of_complete {packets : List Mbuf}
    (h : ∀ m ∈ packets, Complete m) : Noninterference packets := by
  have hloop : ∀ packets', List.Forall₂ SameFrame packets packets' →
      ∀ stack stack' i,
        printPackets stack' i packets' = printPackets stack i packets := by
    intro packets' hsame
    induction hsame with
    | nil => exact fun _ _ _ => rfl
    | @cons m m' rest rest' hm _ ih =>
        intro stack stack' i
        obtain ⟨hfirst, hrest⟩ := List.forall_mem_cons.mp h
        rw [printPackets, printPackets,
          hfirst.lines_eq hm (stack i) (stack' i) i,
          ih hrest stack stack' (i + 1)]
  intro packets' stack stack' hsame
  rw [packetInfo, packetInfo, hloop packets' hsame stack stack' 0]

/-! ## Frames that are not complete -/

theorem printPackets_append (stack : ℕ → Buffers) (i : ℕ)
    (before packets : List Mbuf) :
    printPackets stack i (before ++ packets) =
      printPackets stack i before ++
        printPackets stack (i + before.length) packets := by
  induction before generalizing i with
  | nil => rfl
  | cons m before ih =>
      have hindex : i + 1 + before.length = i + (before.length + 1) := by
        omega
      simp only [List.cons_append, printPackets, ih, List.length_cons,
        List.append_assoc, hindex]

/-- The turns before the `n`-th one do not depend on what the stack holds
then, and neither do those after it. -/
theorem printPackets_congr {stack stack' : ℕ → Buffers} {n i : ℕ}
    (hstack : ∀ j, j ≠ n → stack' j = stack j) {packets : List Mbuf}
    (hn : n < i ∨ i + packets.length ≤ n) :
    printPackets stack' i packets = printPackets stack i packets := by
  induction packets generalizing i with
  | nil => rfl
  | cons m rest ih =>
      rw [List.length_cons] at hn
      rw [printPackets, printPackets, hstack i (by omega),
        ih (by omega)]

theorem forall₂_sameFrame_refl (packets : List Mbuf) :
    List.Forall₂ SameFrame packets packets := by
  rw [List.forall₂_same]
  exact fun _ _ => ⟨rfl, fun _ _ => rfl⟩

/-- If the report on a burst does not depend on the rest of its buffers, then
neither does the report on each packet. -/
theorem Noninterference.packet {before after : List Mbuf} {m : Mbuf}
    (h : Noninterference (before ++ m :: after)) {m' : Mbuf}
    (hsame : SameFrame m m') (buffers buffers' : Buffers) :
    (printPacket buffers' before.length).lines m'.data =
      (printPacket buffers before.length).lines m.data := by
  have hbefore : List.Forall₂ SameFrame (before ++ m :: after)
      (before ++ m' :: after) :=
    List.rel_append (forall₂_sameFrame_refl before)
      (.cons hsame (forall₂_sameFrame_refl after))
  -- The stack is changed in the turn of `m` alone.
  have hburst := h _ (fun _ => buffers)
    (Function.update (fun _ => buffers) before.length buffers') hbefore
  have hstack : ∀ j, j ≠ before.length →
      Function.update (fun _ => buffers) before.length buffers' j =
        buffers := fun j hj => Function.update_of_ne hj _ _
  rw [packetInfo, packetInfo, List.cons.injEq, List.cons.injEq,
    printPackets_append, printPackets_append,
    printPackets_congr hstack (Or.inr (Nat.le_of_eq (Nat.zero_add _))),
    Nat.zero_add, printPackets, printPackets,
    printPackets_congr hstack (Or.inl (Nat.lt_succ_self _)),
    Function.update_self] at hburst
  exact List.append_cancel_right (List.append_cancel_left hburst.2.2)

/-- A frame followed by the same byte over and over. -/
def filled (m : Mbuf) (b : UInt8) : Mbuf := m.withTail fun _ => b

theorem filled_data_of_not_lt (m : Mbuf) (b : UInt8) {k : ℕ}
    (hk : ¬k < m.dataLen) : (filled m b).data k = b :=
  m.withTail_of_not_lt _ hk

/-- Neither EtherType of the IP protocols ends in the byte 1 or 2. -/
theorem ipSection_of_low_byte (buffers : Buffers) {data : ℕ → UInt8}
    (hbyte : data 13 = 1 ∨ data 13 = 2) : ipSection buffers data =
      [.protocolUnknown (256 * (data 12).toNat + (data 13).toNat)] := by
  have htype : bigEndian data etherTypeOffset 2 =
      256 * (data 12).toNat + (data 13).toNat := by
    simp [bigEndian, etherTypeOffset]
  have hlow : (data 13).toNat = 1 ∨ (data 13).toNat = 2 := by
    obtain hbyte | hbyte := hbyte
    · exact Or.inl (congrArg UInt8.toNat hbyte)
    · exact Or.inr (congrArg UInt8.toNat hbyte)
  have h4 : ¬bigEndian data etherTypeOffset 2 = etherTypeIpv4 := by
    rw [htype, etherTypeIpv4]
    omega
  have h6 : ¬bigEndian data etherTypeOffset 2 = etherTypeIpv6 := by
    rw [htype, etherTypeIpv6]
    omega
  rw [ipSection, if_neg h4, if_neg h6, htype]

/-- The last byte of an IPv4 address can be told from its text. -/
theorem dottedQuad_one_ne_two (a b c a' b' c' : UInt8) :
    Inet6.dottedQuad [a, b, c, 1] ≠ Inet6.dottedQuad [a', b', c', 2] := by
  intro h
  have hone : Nat.toDigits 10 (1 : UInt8).toNat = ['1'] := rfl
  have htwo : Nat.toDigits 10 (2 : UInt8).toNat = ['2'] := rfl
  have hsplit : ∀ (xs ys zs : List Char) (last : Char),
      xs ++ '.' :: (ys ++ '.' :: (zs ++ '.' :: [last])) =
        xs ++ '.' :: (ys ++ '.' :: (zs ++ ['.'])) ++ [last] := by simp
  rw [dottedQuad_four, dottedQuad_four, hone, htwo, hsplit, hsplit] at h
  obtain ⟨-, hlast⟩ := List.append_inj' h rfl
  exact absurd hlast (by decide)

section Incomplete

variable {m : Mbuf} {i : ℕ}
  (h : ∀ m' buffers buffers', SameFrame m m' →
    (printPacket buffers' i).lines m'.data =
      (printPacket buffers i).lines m.data)

include h

/-- Two fillings of the buffer give the same report. -/
theorem section_filled_eq (buffers : Buffers) :
    macAddress (filled m 1).data etherSrcAddr =
        macAddress (filled m 2).data etherSrcAddr ∧
      ipSection buffers (filled m 1).data =
        ipSection buffers (filled m 2).data := by
  have hone := h (filled m 1) buffers buffers (m.sameFrame_withTail _)
  have htwo := h (filled m 2) buffers buffers (m.sameFrame_withTail _)
  have hsame := hone.trans htwo.symm
  rw [lines_printPacket, lines_printPacket] at hsame
  obtain ⟨hhead, hsection⟩ := List.append_inj hsame rfl
  simp only [List.cons.injEq, Line.srcMac.injEq] at hhead
  exact ⟨hhead.2.1, hsection⟩

theorem etherHdrSize_le : etherHdrSize ≤ m.dataLen := by
  obtain ⟨hmac, hsection⟩ := section_filled_eq h ⟨[], []⟩
  by_contra hshort
  rw [etherHdrSize] at hshort
  have hlast : ¬13 < m.dataLen := by omega
  by_cases hsrc : 11 < m.dataLen
  · rw [ipSection_of_low_byte _ (Or.inl (filled_data_of_not_lt m 1 hlast)),
      ipSection_of_low_byte _ (Or.inr (filled_data_of_not_lt m 2 hlast)),
      filled_data_of_not_lt m 1 hlast,
      filled_data_of_not_lt m 2 hlast] at hsection
    have hone : (1 : UInt8).toNat = 1 := rfl
    have htwo : (2 : UInt8).toNat = 2 := rfl
    simp only [List.cons.injEq, Line.protocolUnknown.injEq, hone, htwo,
      and_true] at hsection
    omega
  · have hbyte : (filled m 1).data 11 = (filled m 2).data 11 :=
      List.map_inj_left.mp hmac 5 (by decide)
    rw [filled_data_of_not_lt m 1 hsrc,
      filled_data_of_not_lt m 2 hsrc] at hbyte
    exact absurd hbyte (by decide)

theorem not_ipv6 : etherType m ≠ etherTypeIpv6 := by
  intro htype
  have h6 : bigEndian m.data etherTypeOffset 2 = etherTypeIpv6 := htype
  have hother : bigEndian m.data etherTypeOffset 2 ≠ etherTypeIpv4 := by
    rw [h6]
    exact etherTypeIpv6_ne_ipv4
  have hsame := h m ⟨[], []⟩ ⟨['x'], []⟩ ⟨rfl, fun _ _ => rfl⟩
  rw [lines_printPacket, lines_printPacket, ipSection, ipSection,
    if_neg hother, if_neg hother, if_pos h6, if_pos h6] at hsame
  simp at hsame

theorem ipv4Hdr_le (h4 : etherType m = etherTypeIpv4) :
    etherHdrSize + ipv4HdrSize ≤ m.dataLen := by
  have hether := etherHdrSize_le h
  obtain ⟨-, hsection⟩ := section_filled_eq h ⟨[], []⟩
  by_contra hshort
  rw [etherHdrSize, ipv4HdrSize] at hshort
  have hlast : ¬30 + 3 < m.dataLen := by omega
  have htype : ∀ b, bigEndian (filled m b).data etherTypeOffset 2 =
      etherTypeIpv4 := fun b =>
    (etherType_congr (m.sameFrame_withTail _) hether).trans h4
  rw [ipSection, ipSection, if_pos (htype 1), if_pos (htype 2)] at hsection
  simp only [List.cons.injEq, Line.dstIp.injEq, ipv4Address,
    filled_data_of_not_lt m 1 hlast,
    filled_data_of_not_lt m 2 hlast] at hsection
  exact dottedQuad_one_ne_two _ _ _ _ _ _ hsection.2.2.1

end Incomplete

/-! ## When the report is about the frames only -/

theorem Noninterference.complete {packets : List Mbuf}
    (h : Noninterference packets) {m : Mbuf} (hm : m ∈ packets) :
    Complete m := by
  obtain ⟨before, after, rfl⟩ := List.append_of_mem hm
  have hpacket : ∀ m' buffers buffers', SameFrame m m' →
      (printPacket buffers' before.length).lines m'.data =
        (printPacket buffers before.length).lines m.data :=
    fun _ buffers buffers' hsame => h.packet hsame buffers buffers'
  exact ⟨etherHdrSize_le hpacket, ipv4Hdr_le hpacket, not_ipv6 hpacket⟩

/-- For every burst: the report is about the received frames only if and only
if each of them contains its Ethernet header, and that of IPv4 if it is an
IPv4 frame, and none is an IPv6 frame. -/
theorem packetInfo_noninterference_iff (packets : List Mbuf) :
    Noninterference packets ↔ ∀ m ∈ packets, Complete m :=
  ⟨fun h _ hm => h.complete hm, noninterference_of_complete⟩

/-- An Ethernet and an IPv6 header, with nothing missing. -/
def ipv6Frame : List UInt8 :=
  List.replicate etherTypeOffset 0 ++ [0x86, 0xDD] ++
    [0x60, 0, 0, 0, 0, 0, 59, 64] ++ List.replicate 32 0

/-- What is printed for its source address is what the stack held. -/
theorem ipv6Frame_interferes : ¬∀ packets, Noninterference packets := by
  intro hall
  have hsame := hall [.ofFrame ipv6Frame] [.ofFrame ipv6Frame]
    (fun _ => ⟨"10.0.0.1".toList, []⟩) (fun _ => ⟨"10.0.0.2".toList, []⟩)
    (forall₂_sameFrame_refl _)
  exact absurd hsame (by decide)

end PacketInfo
end PacketParseerRing
end DpdkFolder
