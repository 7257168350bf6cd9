import DpdkFolder.Support.BigEndian

/-!
# Mbufs and packet headers

An mbuf as the receiving code sees it: the bytes from the data pointer on,
of which the first `dataLen` are the frame and the others whatever the buffer
holds, and the layout of the headers.
-/

namespace DpdkFolder

/-- The memory behind `rte_pktmbuf_mtod` and the length of the frame. -/
structure Mbuf where
  data : ℕ → UInt8
  dataLen : ℕ

/-- An mbuf that holds the given frame, with zeros behind it. -/
def Mbuf.ofFrame (frame : List UInt8) : Mbuf where
  data k := frame.getD k 0
  dataLen := frame.length

/-- Two mbufs hold the same frame. -/
def SameFrame (m m' : Mbuf) : Prop :=
  m'.dataLen = m.dataLen ∧ ∀ k < m.dataLen, m'.data k = m.data k

/-- The mbuf with other bytes behind its frame. -/
def Mbuf.withTail (m : Mbuf) (tail : ℕ → UInt8) : Mbuf where
  data k := if k < m.dataLen then m.data k else tail k
  dataLen := m.dataLen

theorem Mbuf.withTail_of_lt (m : Mbuf) (tail : ℕ → UInt8) {k : ℕ}
    (h : k < m.dataLen) : (m.withTail tail).data k = m.data k := if_pos h

theorem Mbuf.withTail_of_not_lt (m : Mbuf) (tail : ℕ → UInt8) {k : ℕ}
    (h : ¬k < m.dataLen) : (m.withTail tail).data k = tail k := if_neg h

theorem Mbuf.sameFrame_withTail (m : Mbuf) (tail : ℕ → UInt8) :
    SameFrame m (m.withTail tail) :=
  ⟨rfl, fun _ hk => m.withTail_of_lt tail hk⟩

/-! ## `struct rte_ether_hdr` -/

def etherHdrSize : ℕ := 14

def etherDstAddr : ℕ := 0

def etherSrcAddr : ℕ := 6

def etherTypeOffset : ℕ := 12

/-- `RTE_ETHER_ADDR_LEN`. -/
def rteEtherAddrLen : ℕ := 6

/-- `RTE_ETHER_TYPE_IPV4`. -/
def etherTypeIpv4 : ℕ := 0x0800

/-- `RTE_ETHER_TYPE_IPV6`. -/
def etherTypeIpv6 : ℕ := 0x86DD

/-- `RTE_ETHER_TYPE_ARP`. -/
def etherTypeArp : ℕ := 0x0806

@[simp] theorem etherTypeIpv4_ne_ipv6 : etherTypeIpv4 ≠ etherTypeIpv6 := by
  decide

@[simp] theorem etherTypeIpv4_ne_arp : etherTypeIpv4 ≠ etherTypeArp := by
  decide

@[simp] theorem etherTypeIpv6_ne_ipv4 : etherTypeIpv6 ≠ etherTypeIpv4 := by
  decide

@[simp] theorem etherTypeIpv6_ne_arp : etherTypeIpv6 ≠ etherTypeArp := by
  decide

@[simp] theorem etherTypeArp_ne_ipv4 : etherTypeArp ≠ etherTypeIpv4 := by
  decide

@[simp] theorem etherTypeArp_ne_ipv6 : etherTypeArp ≠ etherTypeIpv6 := by
  decide

/-- `eth->ether_type == rte_cpu_to_be_16(RTE_ETHER_TYPE_IPV4)`. -/
def Mbuf.isIpv4 (m : Mbuf) : Bool :=
  bigEndian m.data etherTypeOffset 2 = etherTypeIpv4

/-! ## `struct rte_ipv4_hdr` -/

def ipv4HdrSize : ℕ := 20

def ipv4VersionIhl : ℕ := 0

def ipv4NextProtoId : ℕ := 9

def ipv4SrcAddr : ℕ := 12

def ipv4DstAddr : ℕ := 16

/-- `IPPROTO_TCP`. -/
def ipprotoTcp : ℕ := 6

/-- `IPPROTO_UDP`. -/
def ipprotoUdp : ℕ := 17

@[simp] theorem ipprotoTcp_ne_udp : ipprotoTcp ≠ ipprotoUdp := by decide

@[simp] theorem ipprotoUdp_ne_tcp : ipprotoUdp ≠ ipprotoTcp := by decide

/-- `RTE_IPV4`. -/
def rteIpv4 (a b c d : ℕ) : ℕ := ((a * 256 + b) * 256 + c) * 256 + d

/-! ## `struct rte_ipv6_hdr` -/

def ipv6HdrSize : ℕ := 40

def ipv6Proto : ℕ := 6

def ipv6SrcAddr : ℕ := 8

def ipv6DstAddr : ℕ := 24

/-- `RTE_IPV6_ADDR_SIZE`. -/
def rteIpv6AddrSize : ℕ := 16

/-- `ipv6_hdr->version`, the high four bits of the first byte. -/
def ipv6Version (first : UInt8) : ℕ := first.toNat >>> 4

/-! ## `struct rte_tcp_hdr` -/

def tcpHdrSize : ℕ := 20

def tcpSrcPort : ℕ := 0

def tcpDstPort : ℕ := 2

def tcpSentSeq : ℕ := 4

/-! ## `struct rte_udp_hdr` -/

def udpHdrSize : ℕ := 8

def udpSrcPort : ℕ := 0

def udpDstPort : ℕ := 2

/-! ## Byte order -/

/-- `rte_cpu_to_be_16`, on a little-endian host. -/
def rteCpuToBe16 (x : ℕ) : ℕ := swapBytes 2 x

@[simp] theorem rteCpuToBe16_ipv6_ne_ipv4 :
    rteCpuToBe16 etherTypeIpv6 ≠ rteCpuToBe16 etherTypeIpv4 := by decide

/-- `rte_be_to_cpu_16`, on a little-endian host. -/
def rteBeToCpu16 (x : ℕ) : ℕ := swapBytes 2 x

/-- `rte_be_to_cpu_32`, on a little-endian host. -/
def rteBeToCpu32 (x : ℕ) : ℕ := swapBytes 4 x

end DpdkFolder
