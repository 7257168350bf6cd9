import DpdkFolder.Dpdk.Mbuf
import DpdkFolder.Support.Scan

/-!
# The report of print_mbuff_info

The function prints fields of `struct rte_mbuf` around a short description of
the headers.  A line of the report is one call of `printf`, with the values of
its arguments.
-/

namespace DpdkFolder
namespace PacketParsing
namespace MbufInfo

/-- The fields of `struct rte_mbuf` that are printed, apart from the length of
the data. -/
structure Fields where
  port : ℕ
  pktLen : ℕ
  dataOff : ℕ
  packetType : ℕ
  bufLen : ℕ
  nbSegs : ℕ
  olFlags : ℕ
  innerL2Type : ℕ
  innerL3Type : ℕ
  innerL4Type : ℕ

/-- The lines that `print_mbuff_info` may print. -/
inductive Line
  | banner
  | ports (port : ℕ)
  | socketId (id : ℕ)
  | packetLength (pktLen : ℕ)
  | dataLength (dataLen : ℕ)
  | dataOffset (dataOff : ℕ)
  | l2Type (name : String) (l2Type : ℕ)
  | l3Ipv4
  | srcIp (a b c d : ℕ)
  | dstIp (a b c d : ℕ)
  | l4Tcp
  | l4Udp
  | l4Unknown
  | l3Ipv6
  | l3Arp
  | l3UnknownEtherType (l2Type : ℕ)
  | rawPacketType (packetType : ℕ)
  | bufferLength (bufLen : ℕ)
  | noOfSegments (nbSegs : ℕ)
  | offloadFlg (olFlags : ℕ)
  | innerTypes
  | inner (l2 l3 l4 : ℕ)
deriving DecidableEq, Repr

/-- `l2_to_str`. -/
def l2ToStr : ℕ → String
  | 1 => "Ethernet"
  | 2 => "VLAN (802.1Q)"
  | 3 => "QinQ (802.1ad)"
  | 4 => "ARP"
  | _ => "Unknown"

open Scan

/-- What is printed before the headers. -/
def printMetadata (f : Fields) (rteSocketId dataLen l2Type : ℕ) :
    Scan Line Unit := do
  emit .banner
  emit (.ports f.port)
  emit (.socketId rteSocketId)
  emit (.packetLength f.pktLen)
  emit (.dataLength dataLen)
  emit (.dataOffset f.dataOff)
  emit (.l2Type (l2ToStr l2Type) l2Type)

/-- What is printed after the headers. -/
def printDetails (f : Fields) : Scan Line Unit := do
  emit (.rawPacketType f.packetType)
  emit (.bufferLength f.bufLen)
  emit (.noOfSegments f.nbSegs)
  emit (.offloadFlg f.olFlags)
  emit .innerTypes
  emit (.inner f.innerL2Type f.innerL3Type f.innerL4Type)

/-- `print_mbuff_info`, on a frame of the given length. -/
def printMbuffInfo (f : Fields) (rteSocketId pktLen : ℕ) :
    Scan Line Unit := do
  if pktLen < etherHdrSize then return
  let l2Type := rteBeToCpu16 (← load etherTypeOffset 2)
  printMetadata f rteSocketId pktLen l2Type
  let l3 := etherHdrSize
  if l2Type = etherTypeIpv4 then
    if pktLen < etherHdrSize + ipv4HdrSize then return
    emit .l3Ipv4
    let srcAddr ← load (l3 + ipv4SrcAddr) 4
    emit (.srcIp (srcAddr >>> 24 &&& 0xff) (srcAddr >>> 16 &&& 0xff)
      (srcAddr >>> 8 &&& 0xff) (srcAddr &&& 0xff))
    let dstAddr ← load (l3 + ipv4DstAddr) 4
    emit (.dstIp (dstAddr >>> 24 &&& 0xff) (dstAddr >>> 16 &&& 0xff)
      (dstAddr >>> 8 &&& 0xff) (dstAddr &&& 0xff))
    let proto := (← byte (l3 + ipv4NextProtoId)).toNat
    if proto = ipprotoTcp then
      emit .l4Tcp
    else if proto = ipprotoUdp then
      emit .l4Udp
    else
      emit .l4Unknown
  else if l2Type = etherTypeIpv6 then
    emit .l3Ipv6
  else if l2Type = etherTypeArp then
    emit .l3Arp
  else
    emit (.l3UnknownEtherType l2Type)
  printDetails f

/-- What is printed for an mbuf. -/
def report (f : Fields) (rteSocketId : ℕ) (m : Mbuf) : List Line :=
  (printMbuffInfo f rteSocketId m.dataLen).lines m.data

end MbufInfo
end PacketParsing
end DpdkFolder
