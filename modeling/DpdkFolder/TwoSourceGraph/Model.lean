import Mathlib.Data.Finset.Insert
import Mathlib.Data.List.Induction
import DpdkFolder.Dpdk.Graph

/-!
# The graph of 2_source_graph

Two source nodes poll the same queue of the NIC and share the node that
tells IPv4 from other packets.  `ipv4_node_process` sorts its objects into two
arrays of a fixed size before it enqueues them; the index of each of its
stores is recorded.
-/

namespace DpdkFolder
namespace TwoSourceGraph

/-- The registered nodes. -/
inductive Node
  | rxNode1
  | rxNode2
  | ipv4Node
  | txNode
  | dropNode
deriving DecidableEq, Repr

instance : Fintype Node where
  elems := {.rxNode1, .rxNode2, .ipv4Node, .txNode, .dropNode}
  complete := by
    intro n
    cases n <;> decide

/-- `next_nodes` of each node. -/
def nextNodes : Node → List Node
  | .rxNode1 => [.ipv4Node]
  | .rxNode2 => [.ipv4Node]
  | .ipv4Node => [.txNode, .dropNode]
  | .txNode => []
  | .dropNode => []

/-- The number of packets that `rte_eth_rx_burst` is asked for. -/
def rxBurstSize : ℕ := 32

/-- What happened to the packets so far, each list in the order of the calls:
the packets returned by `rte_eth_rx_burst`, those offered to
`rte_eth_tx_burst`, accepted by it and left over by it, and those freed.  The
last list holds the indices at which `tx_pkts` or `drop_pkts` was written. -/
structure Traffic (μ : Type*) where
  received : List μ
  offered : List μ
  accepted : List μ
  leftOver : List μ
  freed : List μ
  writes : List ℕ

variable {μ : Type*}

/-- What a node process leaves behind: the traffic so far and the objects it
enqueued, by the number of the edge. -/
abbrev Outcome (μ : Type*) := Traffic μ × List (ℕ × List μ)

/-- The body shared by the two source nodes. -/
def rxNodeProcess (nic : Nic μ) (w : Traffic μ) : Option (Outcome μ) :=
  let pkt := nic.rxBurst
  let nbRx := pkt.length
  if nbRx ≤ rxBurstSize then
    some ({ w with received := w.received ++ pkt },
      if nbRx ≠ 0 then [(0, pkt)] else [])
  else none

/-- `rx_node_process1`. -/
def rxNodeProcess1 (nic : Nic μ) (w : Traffic μ) : Option (Outcome μ) :=
  rxNodeProcess nic w

/-- `rx_node_process2`. -/
def rxNodeProcess2 (nic : Nic μ) (w : Traffic μ) : Option (Outcome μ) :=
  rxNodeProcess nic w

/-- The filled parts of `tx_pkts` and `drop_pkts`, and the indices at which
one of them was written. -/
structure Sorted (μ : Type*) where
  txPkts : List μ
  dropPkts : List μ
  writes : List ℕ

/-- The body of the loop in `ipv4_node_process`. -/
def sortPkt (frame : μ → Mbuf) (s : Sorted μ) (pkt : μ) : Sorted μ :=
  if (frame pkt).isIpv4 then
    { s with
      txPkts := s.txPkts ++ [pkt]
      writes := s.writes ++ [s.txPkts.length] }
  else
    { s with
      dropPkts := s.dropPkts ++ [pkt]
      writes := s.writes ++ [s.dropPkts.length] }

/-- The loop in `ipv4_node_process`. -/
def sortPkts (frame : μ → Mbuf) (obj : List μ) : Sorted μ :=
  obj.foldl (sortPkt frame) ⟨[], [], []⟩

/-- `ipv4_node_process`. -/
def ipv4NodeProcess (frame : μ → Mbuf) (obj : List μ) (w : Traffic μ) :
    Option (Outcome μ) :=
  let s := sortPkts frame obj
  let nbTx := s.txPkts.length
  let nbDrop := s.dropPkts.length
  some ({ w with writes := w.writes ++ s.writes },
    (if nbTx ≠ 0 then [(0, s.txPkts)] else []) ++
      if nbDrop ≠ 0 then [(1, s.dropPkts)] else [])

/-- `tx_node_process`.  The packets that the driver does not accept are left
to nobody. -/
def txNodeProcess (obj : List μ) (nic : Nic μ) (w : Traffic μ) :
    Option (Outcome μ) :=
  let nbTx := nic.txAccepted
  if nbTx ≤ obj.length then
    some ({ w with
      offered := w.offered ++ obj
      accepted := w.accepted ++ obj.take nbTx
      leftOver := w.leftOver ++ obj.drop nbTx }, [])
  else none

/-- `drop_node_process`. -/
def dropNodeProcess (obj : List μ) (w : Traffic μ) : Option (Outcome μ) :=
  some ({ w with freed := w.freed ++ obj }, [])

/-- The `process` field of each node. -/
def process (frame : μ → Mbuf) (n : Node) (obj : List μ) (nic : Nic μ)
    (w : Traffic μ) : Option (Outcome μ) :=
  match n with
  | .rxNode1 => rxNodeProcess1 nic w
  | .rxNode2 => rxNodeProcess2 nic w
  | .ipv4Node => ipv4NodeProcess frame obj w
  | .txNode => txNodeProcess obj nic w
  | .dropNode => dropNodeProcess obj w

/-- The graph that `main` creates and walks. -/
def ipv4Graph (frame : μ → Mbuf) : NodeGraph Node μ (Traffic μ) (Nic μ) where
  start := ⟨[], [], [], [], [], []⟩
  sources := [.rxNode1, .rxNode2]
  nextNodes := nextNodes
  process := process frame

abbrev State (μ : Type*) := NodeGraph.State Node μ (Traffic μ)

abbrev Label (μ : Type*) := NodeGraph.Label Node (Nic μ)

/-! ## The sorting loop -/

/-- What the loop has done with the packets it has seen: they are split by
their type, each part in their order, and all writes were below their
number. -/
structure Sorted.Holds (frame : μ → Mbuf) (seen : List μ) (s : Sorted μ) :
    Prop where
  txPkts_eq : s.txPkts = seen.filter fun p => (frame p).isIpv4
  dropPkts_eq : s.dropPkts = seen.filter fun p => !(frame p).isIpv4
  writes_lt : ∀ i ∈ s.writes, i < seen.length

theorem sortPkt_holds {frame : μ → Mbuf} {seen : List μ} {s : Sorted μ}
    (h : s.Holds frame seen) (pkt : μ) :
    (sortPkt frame s pkt).Holds frame (seen ++ [pkt]) := by
  have htxLength : s.txPkts.length ≤ seen.length := by
    rw [h.txPkts_eq]
    exact List.length_filter_le _ _
  have hdropLength : s.dropPkts.length ≤ seen.length := by
    rw [h.dropPkts_eq]
    exact List.length_filter_le _ _
  have hwrites : ∀ k ≤ seen.length, ∀ i ∈ s.writes ++ [k],
      i < (seen ++ [pkt]).length := by
    intro k hk i hi
    rw [List.length_append, List.length_singleton]
    obtain hi | hi := List.mem_append.mp hi
    · exact Nat.lt_succ_of_lt (h.writes_lt i hi)
    · rw [List.mem_singleton.mp hi]
      exact Nat.lt_succ_of_le hk
  by_cases hp : (frame pkt).isIpv4
  · rw [sortPkt, if_pos hp]
    constructor
    · simp [h.txPkts_eq, hp]
    · simp [h.dropPkts_eq, hp]
    · exact hwrites _ htxLength
  · rw [sortPkt, if_neg hp]
    constructor
    · simp [h.txPkts_eq, hp]
    · simp [h.dropPkts_eq, hp]
    · exact hwrites _ hdropLength

theorem sortPkts_holds (frame : μ → Mbuf) (obj : List μ) :
    (sortPkts frame obj).Holds frame obj := by
  induction obj using List.reverseRecOn with
  | nil => exact ⟨rfl, rfl, by simp [sortPkts]⟩
  | append_singleton obj pkt ih =>
      rw [sortPkts, List.foldl_append]
      exact sortPkt_holds ih pkt

end TwoSourceGraph
end DpdkFolder
