import Mathlib.Data.Finset.Insert
import DpdkFolder.Dpdk.Graph

/-!
# The graph of graph_dpdk

`rx_node_process` hands one array to the driver and another one to
`rte_node_enqueue`.  The model therefore keeps the contents of both.  An
object is an entry of such an array: a pointer to an mbuf, or nothing as long
as nobody has stored to the entry.
-/

namespace DpdkFolder
namespace GraphDpdk

/-- The registered nodes. -/
inductive Node
  | rxNode
  | ipv4Node
  | txNode
  | dropNode
deriving DecidableEq, Repr

instance : Fintype Node where
  elems := {.rxNode, .ipv4Node, .txNode, .dropNode}
  complete := by
    intro n
    cases n <;> decide

/-- `next_nodes` of each node. -/
def nextNodes : Node → List Node
  | .rxNode => [.ipv4Node]
  | .ipv4Node => [.txNode, .dropNode]
  | .txNode => []
  | .dropNode => []

/-- `BURST_SIZE`. -/
def burstSize : ℕ := rteGraphBurstSize

/-- The arrays that `rx_node_process` names: the null pointer, which stands
for whatever the driver writes to when it is given one, and the array of the
node. -/
inductive ObjArray
  | null
  | nodeObjs
deriving DecidableEq, Repr

/-- The contents of the arrays and what happened so far, each list in the
order of the calls: the packets returned by `rte_eth_rx_burst`, the objects
passed along an edge, those given to `ipv4_node_process`, those offered to
`rte_eth_tx_burst` and those freed. -/
structure Traffic (μ : Type*) where
  array : ObjArray → ℕ → Option μ
  received : List μ
  passed : List (Option μ)
  arrived : List (Option μ)
  offered : List (Option μ)
  freed : List (Option μ)

variable {μ : Type*}

/-- What a node process leaves behind: the traffic so far and the objects it
enqueued, by the number of the edge. -/
abbrev Outcome (μ : Type*) := Traffic μ × List (ℕ × List (Option μ))

/-- `rte_eth_rx_burst` stores the received pointers in the array passed to
it. -/
def rteEthRxBurst (rxPkts : ObjArray) (burst : List μ) (w : Traffic μ) :
    Traffic μ :=
  { w with
    array := Function.update w.array rxPkts fun k =>
      if k < burst.length then burst[k]? else w.array rxPkts k
    received := w.received ++ burst }

/-- The first `nb` entries of an array. -/
def Traffic.entries (w : Traffic μ) (a : ObjArray) (nb : ℕ) :
    List (Option μ) :=
  (List.range nb).map (w.array a)

/-- Enqueue objects, by the number of the edge. -/
def rteNodeEnqueue (out : List (ℕ × List (Option μ))) (w : Traffic μ) :
    Outcome μ :=
  ({ w with passed := w.passed ++ out.flatMap Prod.snd }, out)

/-- `rx_node_process`. -/
def rxNodeProcess (nic : Nic μ) (w : Traffic μ) : Option (Outcome μ) :=
  let pkts := ObjArray.null
  let nbRx := nic.rxBurst.length
  if nbRx ≤ burstSize then
    let w := rteEthRxBurst pkts nic.rxBurst w
    some (rteNodeEnqueue
      (if nbRx ≠ 0 then [(0, w.entries .nodeObjs nbRx)] else []) w)
  else none

/-- The body of the loop in `ipv4_node_process`.  The node looks into the
packet, so it cannot go on with an object that is no pointer. -/
def steer (frame : μ → Mbuf) (pkt : Option μ) :
    Option (ℕ × List (Option μ)) :=
  pkt.map fun m => (if (frame m).isIpv4 then 0 else 1, [pkt])

/-- `ipv4_node_process`. -/
def ipv4NodeProcess (frame : μ → Mbuf) (objs : List (Option μ))
    (w : Traffic μ) : Option (Outcome μ) :=
  (objs.mapM (steer frame)).map fun out =>
    rteNodeEnqueue out { w with arrived := w.arrived ++ objs }

/-- `tx_node_process`.  The number of accepted packets is not looked at. -/
def txNodeProcess (objs : List (Option μ)) (w : Traffic μ) :
    Option (Outcome μ) :=
  some ({ w with offered := w.offered ++ objs }, [])

/-- `drop_node_process`. -/
def dropNodeProcess (objs : List (Option μ)) (w : Traffic μ) :
    Option (Outcome μ) :=
  some ({ w with freed := w.freed ++ objs }, [])

/-- The `process` field of each node. -/
def process (frame : μ → Mbuf) (n : Node) (objs : List (Option μ))
    (nic : Nic μ) (w : Traffic μ) : Option (Outcome μ) :=
  match n with
  | .rxNode => rxNodeProcess nic w
  | .ipv4Node => ipv4NodeProcess frame objs w
  | .txNode => txNodeProcess objs w
  | .dropNode => dropNodeProcess objs w

/-- The graph that `main` creates and walks. -/
def ipv4Graph (frame : μ → Mbuf) :
    NodeGraph Node (Option μ) (Traffic μ) (Nic μ) where
  start := ⟨fun _ _ => none, [], [], [], [], []⟩
  sources := [.rxNode]
  nextNodes := nextNodes
  process := process frame

abbrev State (μ : Type*) := NodeGraph.State Node (Option μ) (Traffic μ)

abbrev Label (μ : Type*) := NodeGraph.Label Node (Nic μ)

end GraphDpdk
end DpdkFolder
