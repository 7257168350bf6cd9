import DpdkFolder.DisableNode.Model
import DpdkFolder.GraphDpdk.Ipv4Node
import DpdkFolder.Support.Loop

/-!
# The two IPv4 nodes

The node of disable_node sorts a burst into two arrays before it enqueues
them, that of graph_dpdk enqueues packet by packet.  For a burst that fits the
arrays they leave the same streams and return the same number.
-/

namespace DpdkFolder
namespace DisableNode

open EdgeStreams

variable {μ : Type*}

/-- The streams after a burst: the IPv4 packets are appended to the stream of
edge 0 and the others to that of edge 1, each packet once and both in input
order. -/
structure Steered (frame : μ → Mbuf) (obj : List μ)
    (streams streams' : EdgeStreams μ) : Prop where
  tx : streams' 0 = streams 0 ++ obj.filter fun p => (frame p).isIpv4
  drop : streams' 1 = streams 1 ++ obj.filter fun p => !(frame p).isIpv4
  others : ∀ next, next ≠ 0 → next ≠ 1 → streams' next = streams next
  once : ((obj.filter fun p => (frame p).isIpv4) ++
    obj.filter fun p => !(frame p).isIpv4).Perm obj

/-- What `ipv4_node_process` leaves, for a burst that fits its arrays. -/
theorem ipv4NodeProcess_eq (frame : μ → Mbuf) {obj : List μ}
    (hsize : obj.length ≤ rteGraphBurstSize) (streams : EdgeStreams μ) :
    ipv4NodeProcess frame obj streams =
      some (rteNodeEnqueue 1 (obj.filter fun p => !(frame p).isIpv4)
        (rteNodeEnqueue 0 (obj.filter fun p => (frame p).isIpv4) streams),
        obj.length) := by
  have hloop : ∃ s, obj.foldlM (sortPkt frame) (Sorted.fresh μ) = some s ∧
      s.Holds frame obj := by
    apply Loop.exists_foldlM (Sorted.Holds frame) _ (fresh_holds frame)
    intro seen pkt hfirst s hs
    exact exists_sortPkt (hfirst.length_le.trans hsize) hs
  obtain ⟨s, hfold, htx, hdrop⟩ := hloop
  rw [ipv4NodeProcess, hfold, Option.bind_eq_bind, Option.bind_some,
    enqueueSorted_of_holds htx, Option.bind_eq_bind, Option.bind_some,
    enqueueSorted_of_holds hdrop]
  rfl

/-- The streams that the node of graph_dpdk leaves. -/
theorem steered_of_enqueues (frame : μ → Mbuf) (obj : List μ)
    (streams : EdgeStreams μ) :
    Steered frame obj streams
      (rteNodeEnqueue 1 (obj.filter fun p => !(frame p).isIpv4)
        (rteNodeEnqueue 0 (obj.filter fun p => (frame p).isIpv4)
          streams)) := by
  constructor
  · simp [rteNodeEnqueue]
  · simp [rteNodeEnqueue]
  · intro next hzero hone
    simp [rteNodeEnqueue, hzero, hone]
  · exact List.filter_append_perm _ obj

/-- For every burst that is not longer than `RTE_GRAPH_BURST_SIZE` and all
streams: the batching node stays within its arrays and leaves the streams and
the result of the node that enqueues packet by packet. -/
theorem ipv4NodeProcess_equiv (frame : μ → Mbuf) (obj : List μ)
    (hsize : obj.length ≤ rteGraphBurstSize) (streams : EdgeStreams μ) :
    ∃ streams',
      ipv4NodeProcess frame obj streams = some (streams', obj.length) ∧
        GraphDpdk.Ipv4Node.ipv4NodeProcess frame obj streams =
          (streams', obj.length) ∧
        Steered frame obj streams streams' := by
  refine ⟨_, ipv4NodeProcess_eq frame hsize streams, ?_,
    steered_of_enqueues frame obj streams⟩
  rw [GraphDpdk.Ipv4Node.ipv4NodeProcess,
    GraphDpdk.Ipv4Node.foldl_enqueuePkt]

/-- An Ethernet header with the EtherType of ARP, one with that of IPv4. -/
def arpThenIpv4 : List Mbuf :=
  [.ofFrame (List.replicate etherTypeOffset 0 ++ [0x08, 0x06]),
    .ofFrame (List.replicate etherTypeOffset 0 ++ [0x08, 0x00])]

theorem arpThenIpv4_equiv : ∃ streams',
    ipv4NodeProcess id arpThenIpv4 (fun _ => []) = some (streams', 2) ∧
      GraphDpdk.Ipv4Node.ipv4NodeProcess id arpThenIpv4 (fun _ => []) =
        (streams', 2) ∧
      Steered id arpThenIpv4 (fun _ => []) streams' :=
  ipv4NodeProcess_equiv id arpThenIpv4 (by decide) fun _ => []

end DisableNode
end DpdkFolder
