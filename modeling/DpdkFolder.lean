import DpdkFolder.Support.TransitionSystem
import DpdkFolder.Support.BoundedFifo
import DpdkFolder.Dpdk.Ring
import DpdkFolder.PacketParseerRing.Model
import DpdkFolder.PacketParseerRing.Invariant
import DpdkFolder.PacketParseerRing.Conservation
import DpdkFolder.PacketParseerRing.Shutdown
import DpdkFolder.FullDuplex2Rings.Model
import DpdkFolder.FullDuplex2Rings.Baton
import DpdkFolder.FullDuplex2Rings.HandOver
import DpdkFolder.FullDuplex2Rings.Protocol
import DpdkFolder.Dpdk.Qsbr
import DpdkFolder.RcuDpdk.Model
import DpdkFolder.RcuDpdk.Invariant
import DpdkFolder.RcuDpdk.Safety
import DpdkFolder.Dpdk.Ethdev
import DpdkFolder.PacketParsing.Custody
import DpdkFolder.AclDpdk2.Model
import DpdkFolder.AclDpdk2.Policy
import DpdkFolder.Dpdk.Eventdev
import DpdkFolder.Eventdev.Model
import DpdkFolder.Eventdev.Delivery
import DpdkFolder.Eventdev.Shutdown
import DpdkFolder.GetStats.Model
import DpdkFolder.GetStats.Counting
import DpdkFolder.GetStats.Correlation
import DpdkFolder.PacketParseerRing.Starvation
import DpdkFolder.AclDpdk2.Custody
import DpdkFolder.Dpdk.Graph
import DpdkFolder.TwoSourceGraph.Model
import DpdkFolder.TwoSourceGraph.Steering
import DpdkFolder.TwoSourceGraph.Conservation
import DpdkFolder.GraphDpdk.Model
import DpdkFolder.GraphDpdk.Steering
import DpdkFolder.Dpdk.EventQueues
import DpdkFolder.EventdevPacketParsing.Model
import DpdkFolder.EventdevPacketParsing.Routing
import DpdkFolder.EventdevPacketParsing.Conservation
import DpdkFolder.IpcEventdev.Model
import DpdkFolder.IpcEventdev.Conservation
import DpdkFolder.IpcEventdev.Roles
import DpdkFolder.Support.Scan
import DpdkFolder.PacketParsing.Decoder
import DpdkFolder.PacketParsing.Ipv4Decoding
import DpdkFolder.AclDpdk2.Noninterference
import DpdkFolder.AclDpdk2.Totality
import DpdkFolder.EventdevPacketParsing.Ipv4Parsing
import DpdkFolder.EventdevPacketParsing.Ipv6Parsing
import DpdkFolder.EventdevPacketParsing.ParseBounds
import DpdkFolder.PacketParsing.Agreement
import DpdkFolder.PacketParsing.Bounds
import DpdkFolder.DisableNode.Equivalence
import DpdkFolder.Prefetch.Meter
import DpdkFolder.Prefetch.Model
import DpdkFolder.Prefetch.Schedule
import DpdkFolder.Dpdk.Reorder
import DpdkFolder.Dpdk.ReorderOrder
import DpdkFolder.Eventdev.Ports
import DpdkFolder.GetStats.StatsReply
import DpdkFolder.PacketParseerRing.PacketInfo
import DpdkFolder.ReorderPacket.Draining
import DpdkFolder.DisableNode.Graph
import DpdkFolder.DisableNode.Simulation
import DpdkFolder.DisableNode.Walks
import DpdkFolder.FullDuplex2Rings.Termination
import DpdkFolder.IpcRingPriSec.Delivery
import DpdkFolder.RcuDpdk.Termination
import DpdkFolder.AclDpdk.Policy
import DpdkFolder.Dpdk.ReorderRoom
import DpdkFolder.GetStats.Termination
import DpdkFolder.PacketParseerRing.Report
import DpdkFolder.PacketParseerRing.Termination
import DpdkFolder.GetStats.Undisturbed
import DpdkFolder.Eventdev.Handled
import DpdkFolder.Eventdev.Progress
import DpdkFolder.EventdevPacketParsing.Draining
import DpdkFolder.IpcEventdev.Backlog
