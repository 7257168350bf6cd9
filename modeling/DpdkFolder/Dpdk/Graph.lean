import DpdkFolder.Dpdk.Mbuf
import DpdkFolder.Support.NodeGraph

/-!
# rte_graph

The walk of `rte_graph` is that of a graph of nodes with streams.  The nodes
of the examples talk to a NIC, whose answers are part of the label of a step.
-/

namespace DpdkFolder

/-- `RTE_GRAPH_BURST_SIZE`. -/
def rteGraphBurstSize : ℕ := 256

/-- The streams behind the edges of a node. -/
abbrev EdgeStreams (α : Type*) := ℕ → List α

namespace EdgeStreams

variable {α : Type*}

/-- `rte_node_enqueue`. -/
def rteNodeEnqueue (next : ℕ) (objs : List α)
    (streams : EdgeStreams α) : EdgeStreams α :=
  Function.update streams next (streams next ++ objs)

/-- `rte_node_enqueue_x1`. -/
def rteNodeEnqueueX1 (next : ℕ) (obj : α)
    (streams : EdgeStreams α) : EdgeStreams α :=
  Function.update streams next (streams next ++ [obj])

theorem rteNodeEnqueueX1_eq (next : ℕ) (obj : α) (streams : EdgeStreams α) :
    rteNodeEnqueueX1 next obj streams = rteNodeEnqueue next [obj] streams :=
  rfl

theorem rteNodeEnqueue_nil (next : ℕ) (streams : EdgeStreams α) :
    rteNodeEnqueue next [] streams = streams := by
  rw [rteNodeEnqueue, List.append_nil, Function.update_eq_self]

theorem rteNodeEnqueue_append (next : ℕ) (objs objs' : List α)
    (streams : EdgeStreams α) :
    rteNodeEnqueue next objs' (rteNodeEnqueue next objs streams) =
      rteNodeEnqueue next (objs ++ objs') streams := by
  simp [rteNodeEnqueue]

/-- Calls for different edges may be exchanged. -/
theorem rteNodeEnqueue_comm {next next' : ℕ} (h : next ≠ next')
    (objs objs' : List α) (streams : EdgeStreams α) :
    rteNodeEnqueue next objs (rteNodeEnqueue next' objs' streams) =
      rteNodeEnqueue next' objs' (rteNodeEnqueue next objs streams) := by
  rw [rteNodeEnqueue, rteNodeEnqueue, rteNodeEnqueue, rteNodeEnqueue,
    Function.update_of_ne h, Function.update_of_ne h.symm,
    Function.update_comm h]

end EdgeStreams

/-- What the NIC answers while a node runs: the packets `rte_eth_rx_burst`
returns and the number of packets `rte_eth_tx_burst` accepts. -/
structure Nic (μ : Type*) where
  rxBurst : List μ
  txAccepted : ℕ

/-- The call of `rte_eth_rx_burst` returns packets. -/
def Nic.receiving {μ : Type*} (pkts : List μ) : Nic μ := ⟨pkts, 0⟩

/-- The call of `rte_eth_tx_burst` returns a number. -/
def Nic.accepting {μ : Type*} (n : ℕ) : Nic μ := ⟨[], n⟩

/-- No call is made. -/
def Nic.silent {μ : Type*} : Nic μ := ⟨[], 0⟩

end DpdkFolder
