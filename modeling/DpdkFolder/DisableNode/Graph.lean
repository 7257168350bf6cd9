import DpdkFolder.DisableNode.Equivalence
import DpdkFolder.Support.AcyclicWalks
import DpdkFolder.TwoSourceGraph.Conservation

/-!
# The graph of disable_node

One source polls the NIC and passes its burst to the IPv4 node, which sorts
it into its arrays; the rest is the graph of 2_source_graph without its
second source.  `Matches` relates the states of the two graphs: a run here is
one there in which the second source finds nothing to receive.
-/

namespace DpdkFolder
namespace DisableNode

open NodeGraph

/-- The registered nodes. -/
inductive Node
  | rxNode
  | ipv4Node
  | txNode
  | dropNode
deriving DecidableEq, Repr

instance : Fintype Node where
  elems := {.rxNode, .ipv4Node, .txNode, .dropNode}
  complete := by
    intro n
    cases n <;> decide

/-- `next_nodes` of each node. -/
def nextNodes : Node → List Node
  | .rxNode => [.ipv4Node]
  | .ipv4Node => [.txNode, .dropNode]
  | .txNode => []
  | .dropNode => []

/-- The number of packets that `rte_eth_rx_burst` is asked for. -/
def rxBurstSize : ℕ := 32

/-- What happened to the packets so far, each list in the order of the calls:
the packets returned by `rte_eth_rx_burst`, those offered to
`rte_eth_tx_burst`, accepted by it and left over by it, and those freed. -/
structure Traffic (μ : Type*) where
  received : List μ
  offered : List μ
  accepted : List μ
  leftOver : List μ
  freed : List μ

variable {μ : Type*}

/-- What a node process leaves behind: the traffic so far and the objects it
enqueued, by the number of the edge. -/
abbrev Outcome (μ : Type*) := Traffic μ × List (ℕ × List μ)

/-- `rx_node_process`. -/
def rxNodeProcess (nic : Nic μ) (w : Traffic μ) : Option (Outcome μ) :=
  let pkt := nic.rxBurst
  let nbRx := pkt.length
  if nbRx ≤ rxBurstSize then
    some ({ w with received := w.received ++ pkt },
      if nbRx ≠ 0 then [(0, pkt)] else [])
  else none

/-- `tx_node_process`.  The packets that the driver does not accept are left
to nobody. -/
def txNodeProcess (obj : List μ) (nic : Nic μ) (w : Traffic μ) :
    Option (Outcome μ) :=
  let nbTx := nic.txAccepted
  if nbTx ≤ obj.length then
    some ({ w with
      offered := w.offered ++ obj
      accepted := w.accepted ++ obj.take nbTx
      leftOver := w.leftOver ++ obj.drop nbTx }, [])
  else none

/-- `drop_node_process`. -/
def dropNodeProcess (obj : List μ) (w : Traffic μ) : Option (Outcome μ) :=
  some ({ w with freed := w.freed ++ obj }, [])

/-- The `process` field of each node.  The IPv4 node is given streams to
which nothing has been enqueued yet. -/
def process (frame : μ → Mbuf) (n : Node) (obj : List μ) (nic : Nic μ)
    (w : Traffic μ) : Option (Outcome μ) :=
  match n with
  | .rxNode => rxNodeProcess nic w
  | .ipv4Node =>
      (ipv4NodeProcess frame obj fun _ => []).map fun r =>
        (w, [(0, r.1 0), (1, r.1 1)])
  | .txNode => txNodeProcess obj nic w
  | .dropNode => dropNodeProcess obj w

/-- The graph that `main` creates and walks. -/
def ipv4Graph (frame : μ → Mbuf) : NodeGraph Node μ (Traffic μ) (Nic μ) where
  start := ⟨[], [], [], [], []⟩
  sources := [.rxNode]
  nextNodes := nextNodes
  process := process frame

abbrev State (μ : Type*) := NodeGraph.State Node μ (Traffic μ)

abbrev Label (μ : Type*) := NodeGraph.Label Node (Nic μ)

/-! ## Effect of one step -/

section Effect

variable {frame : μ → Mbuf} {s t : State μ} {nic : Nic μ}

theorem run_rxNode (h : (ipv4Graph frame).step s (.run .rxNode nic) = some t) :
    nic.rxBurst.length ≤ rxBurstSize ∧
      t = ⟨{ s.prog with received := s.prog.received ++ nic.rxBurst },
        Function.update (Function.update s.stream .rxNode []) .ipv4Node
          (s.stream .ipv4Node ++ nic.rxBurst), s.todo.erase .rxNode⟩ := by
  obtain ⟨-, prog, out, hprocess, rfl⟩ := step_run h
  have hedge : ((ipv4Graph frame).nextNodes .rxNode)[0]? =
      some .ipv4Node := rfl
  simp only [ipv4Graph, process, rxNodeProcess] at hprocess
  split at hprocess
  · next hlength =>
      simp only [Option.some.injEq, Prod.mk.injEq] at hprocess
      obtain ⟨rfl, rfl⟩ := hprocess
      refine ⟨hlength, ?_⟩
      rw [deliver_guarded hedge, Function.update_of_ne (by decide)]
  · exact nomatch hprocess

/-- The IPv4 node has what it needs for a burst that fits its arrays. -/
theorem process_ipv4Node (frame : μ → Mbuf) {obj : List μ}
    (hsize : obj.length ≤ rteGraphBurstSize) (nic : Nic μ) (w : Traffic μ) :
    process frame .ipv4Node obj nic w =
      some (w, [(0, obj.filter fun p => (frame p).isIpv4),
        (1, obj.filter fun p => !(frame p).isIpv4)]) := by
  rw [process, ipv4NodeProcess_eq frame hsize]
  simp [EdgeStreams.rteNodeEnqueue]

theorem run_ipv4Node (hsize : (s.stream .ipv4Node).length ≤ rteGraphBurstSize)
    (h : (ipv4Graph frame).step s (.run .ipv4Node nic) = some t) :
    t = ⟨s.prog,
      Function.update (Function.update (Function.update s.stream .ipv4Node [])
        .txNode (s.stream .txNode ++
          (s.stream .ipv4Node).filter fun p => (frame p).isIpv4))
        .dropNode (s.stream .dropNode ++
          (s.stream .ipv4Node).filter fun p => !(frame p).isIpv4),
      s.todo.erase .ipv4Node⟩ := by
  obtain ⟨-, prog, out, hprocess, rfl⟩ := step_run h
  have hsorted := process_ipv4Node frame hsize nic s.prog
  rw [show process frame .ipv4Node (s.stream .ipv4Node) nic s.prog = _
    from hprocess, Option.some.injEq, Prod.mk.injEq] at hsorted
  obtain ⟨rfl, rfl⟩ := hsorted
  simp [deliver, ipv4Graph, nextNodes]

theorem run_txNode (h : (ipv4Graph frame).step s (.run .txNode nic) = some t) :
    nic.txAccepted ≤ (s.stream .txNode).length ∧
      t = ⟨{ s.prog with
          offered := s.prog.offered ++ s.stream .txNode
          accepted := s.prog.accepted ++
            (s.stream .txNode).take nic.txAccepted
          leftOver := s.prog.leftOver ++
            (s.stream .txNode).drop nic.txAccepted },
        Function.update s.stream .txNode [], s.todo.erase .txNode⟩ := by
  obtain ⟨-, prog, out, hprocess, rfl⟩ := step_run h
  simp only [ipv4Graph, process, txNodeProcess] at hprocess
  split at hprocess
  · next hlength =>
      simp only [Option.some.injEq, Prod.mk.injEq] at hprocess
      obtain ⟨rfl, rfl⟩ := hprocess
      exact ⟨hlength, rfl⟩
  · exact nomatch hprocess

theorem run_dropNode
    (h : (ipv4Graph frame).step s (.run .dropNode nic) = some t) :
    t = ⟨{ s.prog with freed := s.prog.freed ++ s.stream .dropNode },
      Function.update s.stream .dropNode [], s.todo.erase .dropNode⟩ := by
  obtain ⟨-, prog, out, hprocess, rfl⟩ := step_run h
  simp only [ipv4Graph, process, dropNodeProcess, Option.some.injEq,
    Prod.mk.injEq] at hprocess
  obtain ⟨rfl, rfl⟩ := hprocess
  rfl

end Effect

end DisableNode
end DpdkFolder
