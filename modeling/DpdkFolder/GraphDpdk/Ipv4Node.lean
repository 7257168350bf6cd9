import DpdkFolder.GraphDpdk.Model

/-!
# The IPv4 node of graph_dpdk and its streams

`ipv4_node_process` enqueues each packet by a call of its own.  Here it is
given packets and leaves the streams of its edges; the node of the whole graph
makes the same calls.
-/

namespace DpdkFolder
namespace GraphDpdk
namespace Ipv4Node

variable {μ : Type*}

/-- The body of the loop. -/
def enqueuePkt (frame : μ → Mbuf) (streams : EdgeStreams μ) (pkt : μ) :
    EdgeStreams μ :=
  if (frame pkt).isIpv4 then EdgeStreams.rteNodeEnqueueX1 0 pkt streams
  else EdgeStreams.rteNodeEnqueueX1 1 pkt streams

/-- `ipv4_node_process`, with the streams it leaves and what it returns. -/
def ipv4NodeProcess (frame : μ → Mbuf) (objs : List μ)
    (streams : EdgeStreams μ) : EdgeStreams μ × ℕ :=
  (objs.foldl (enqueuePkt frame) streams, objs.length)

/-- The streams with pointers to the packets. -/
def pointers (streams : EdgeStreams μ) : EdgeStreams (Option μ) :=
  fun next => (streams next).map some

/-- The calls of the node in the graph, one after the other. -/
def enqueueCalls (out : List (ℕ × List (Option μ)))
    (streams : EdgeStreams (Option μ)) : EdgeStreams (Option μ) :=
  out.foldl
    (fun streams call => EdgeStreams.rteNodeEnqueue call.1 call.2 streams)
    streams

theorem pointers_rteNodeEnqueueX1 (next : ℕ) (pkt : μ)
    (streams : EdgeStreams μ) :
    pointers (EdgeStreams.rteNodeEnqueueX1 next pkt streams) =
      EdgeStreams.rteNodeEnqueue next [some pkt] (pointers streams) := by
  funext e
  by_cases he : e = next
  · subst he
    simp [pointers, EdgeStreams.rteNodeEnqueueX1,
      EdgeStreams.rteNodeEnqueue]
  · simp [pointers, EdgeStreams.rteNodeEnqueueX1,
      EdgeStreams.rteNodeEnqueue, he]

/-- The node of the graph makes the calls that lead to these streams. -/
theorem ipv4NodeProcess_calls (frame : μ → Mbuf) (objs : List μ)
    (w : Traffic μ) (streams : EdgeStreams μ) :
    ∃ w' out,
      GraphDpdk.ipv4NodeProcess frame (objs.map some) w = some (w', out) ∧
        enqueueCalls out (pointers streams) =
          pointers (ipv4NodeProcess frame objs streams).1 := by
  have hloop : ∃ out, (objs.map some).mapM (steer frame) = some out ∧
      enqueueCalls out (pointers streams) =
        pointers (objs.foldl (enqueuePkt frame) streams) := by
    induction objs generalizing streams with
    | nil => exact ⟨[], rfl, rfl⟩
    | cons pkt objs ih =>
        obtain ⟨out, hmapM, hstreams⟩ := ih (enqueuePkt frame streams pkt)
        refine ⟨(if (frame pkt).isIpv4 then 0 else 1, [some pkt]) :: out,
          ?_, ?_⟩
        · simp [steer, hmapM]
        · rw [List.foldl_cons, ← hstreams, enqueueCalls, List.foldl_cons]
          by_cases hp : (frame pkt).isIpv4
          · rw [enqueuePkt, if_pos hp, if_pos hp, pointers_rteNodeEnqueueX1]
            rfl
          · rw [enqueuePkt, if_neg hp, if_neg hp, pointers_rteNodeEnqueueX1]
            rfl
  obtain ⟨out, hmapM, hstreams⟩ := hloop
  exact ⟨_, out, by rw [GraphDpdk.ipv4NodeProcess, hmapM]; rfl, hstreams⟩

/-! ## The loop -/

/-- The loop appends the IPv4 packets to the stream of edge 0 and the others
to that of edge 1. -/
theorem foldl_enqueuePkt (frame : μ → Mbuf) (objs : List μ)
    (streams : EdgeStreams μ) :
    objs.foldl (enqueuePkt frame) streams =
      EdgeStreams.rteNodeEnqueue 1
        (objs.filter fun p => !(frame p).isIpv4)
        (EdgeStreams.rteNodeEnqueue 0
          (objs.filter fun p => (frame p).isIpv4) streams) := by
  have hedges : (0 : ℕ) ≠ 1 := Nat.zero_ne_one
  induction objs generalizing streams with
  | nil =>
      rw [List.filter_nil, List.filter_nil, EdgeStreams.rteNodeEnqueue_nil,
        EdgeStreams.rteNodeEnqueue_nil, List.foldl_nil]
  | cons pkt objs ih =>
      rw [List.foldl_cons, ih]
      by_cases hp : (frame pkt).isIpv4
      · rw [enqueuePkt, if_pos hp, EdgeStreams.rteNodeEnqueueX1_eq,
          EdgeStreams.rteNodeEnqueue_append]
        simp [hp]
      · rw [enqueuePkt, if_neg hp, EdgeStreams.rteNodeEnqueueX1_eq,
          EdgeStreams.rteNodeEnqueue_comm hedges,
          EdgeStreams.rteNodeEnqueue_append]
        simp [hp]

end Ipv4Node
end GraphDpdk
end DpdkFolder
