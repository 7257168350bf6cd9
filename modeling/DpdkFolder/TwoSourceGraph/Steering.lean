import DpdkFolder.Support.AcyclicWalks
import DpdkFolder.TwoSourceGraph.Model

/-!
# Where the packets of 2_source_graph go

In every state the IPv4 packets received so far are those offered for
transmission followed by those on their way, in the order of reception, and
likewise for the others and `drop_node`.  Since each source runs once in a
walk, `ipv4_node` is never given more than two bursts at a time.  Every walk
that begins ends, since each node that is due can run and at most five run.
-/

namespace DpdkFolder
namespace TwoSourceGraph

open NodeGraph

variable {μ : Type*}

/-- What holds in every state, within walks and between them. -/
structure Inv (frame : μ → Mbuf) (s : State μ) : Prop where
  steered : s.prog.received.filter (fun p => (frame p).isIpv4) =
    s.prog.offered ++ s.stream .txNode ++
      (s.stream .ipv4Node).filter fun p => (frame p).isIpv4
  dropped : s.prog.received.filter (fun p => !(frame p).isIpv4) =
    s.prog.freed ++ s.stream .dropNode ++
      (s.stream .ipv4Node).filter fun p => !(frame p).isIpv4
  offered_perm : s.prog.offered.Perm (s.prog.accepted ++ s.prog.leftOver)
  fits : (s.stream .ipv4Node).length + rxBurstSize * s.todo.length ≤
    rxBurstSize * 2
  writes_lt : ∀ i ∈ s.prog.writes, i < rteGraphBurstSize

/-! ## Effect of one step -/

section Effect

variable {frame : μ → Mbuf} {s t : State μ} {nic : Nic μ}

theorem run_rxNode {n : Node} (hn : n ∈ [Node.rxNode1, .rxNode2])
    (h : (ipv4Graph frame).step s (.run n nic) = some t) :
    nic.rxBurst.length ≤ rxBurstSize ∧
      t = ⟨{ s.prog with received := s.prog.received ++ nic.rxBurst },
        Function.update (Function.update s.stream n []) .ipv4Node
          (s.stream .ipv4Node ++ nic.rxBurst), s.todo.erase n⟩ := by
  obtain ⟨-, prog, out, hprocess, rfl⟩ := step_run h
  have hnot : Node.ipv4Node ≠ n := by
    rintro rfl
    exact absurd hn (by decide)
  have hedge : ((ipv4Graph frame).nextNodes n)[0]? = some .ipv4Node := by
    obtain rfl | rfl : n = .rxNode1 ∨ n = .rxNode2 := by simpa using hn
    · rfl
    · rfl
  have hrx : rxNodeProcess nic s.prog = some (prog, out) := by
    obtain rfl | rfl : n = .rxNode1 ∨ n = .rxNode2 := by simpa using hn
    · exact hprocess
    · exact hprocess
  simp only [rxNodeProcess] at hrx
  split at hrx
  · next hlength =>
      simp only [Option.some.injEq, Prod.mk.injEq] at hrx
      obtain ⟨rfl, rfl⟩ := hrx
      refine ⟨hlength, ?_⟩
      rw [deliver_guarded hedge, Function.update_of_ne hnot]
  · exact nomatch hrx

theorem run_ipv4Node
    (h : (ipv4Graph frame).step s (.run .ipv4Node nic) = some t) :
    t = ⟨{ s.prog with
        writes := s.prog.writes ++
          (sortPkts frame (s.stream .ipv4Node)).writes },
      Function.update (Function.update (Function.update s.stream .ipv4Node [])
        .txNode (s.stream .txNode ++
          (s.stream .ipv4Node).filter fun p => (frame p).isIpv4))
        .dropNode (s.stream .dropNode ++
          (s.stream .ipv4Node).filter fun p => !(frame p).isIpv4),
      s.todo.erase .ipv4Node⟩ := by
  obtain ⟨-, prog, out, hprocess, rfl⟩ := step_run h
  have hsort := sortPkts_holds frame (s.stream .ipv4Node)
  simp only [ipv4Graph, process, ipv4NodeProcess, Option.some.injEq,
    Prod.mk.injEq] at hprocess
  obtain ⟨rfl, rfl⟩ := hprocess
  have htx : ((ipv4Graph frame).nextNodes .ipv4Node)[0]? = some .txNode :=
    rfl
  have hdrop : ((ipv4Graph frame).nextNodes .ipv4Node)[1]? =
      some .dropNode := rfl
  rw [deliver_append, deliver_guarded htx, deliver_guarded hdrop,
    hsort.txPkts_eq, hsort.dropPkts_eq]
  simp

theorem run_txNode
    (h : (ipv4Graph frame).step s (.run .txNode nic) = some t) :
    nic.txAccepted ≤ (s.stream .txNode).length ∧
      t = ⟨{ s.prog with
          offered := s.prog.offered ++ s.stream .txNode
          accepted := s.prog.accepted ++
            (s.stream .txNode).take nic.txAccepted
          leftOver := s.prog.leftOver ++
            (s.stream .txNode).drop nic.txAccepted },
        Function.update s.stream .txNode [], s.todo.erase .txNode⟩ := by
  obtain ⟨-, prog, out, hprocess, rfl⟩ := step_run h
  simp only [ipv4Graph, process, txNodeProcess] at hprocess
  split at hprocess
  · next hlength =>
      simp only [Option.some.injEq, Prod.mk.injEq] at hprocess
      obtain ⟨rfl, rfl⟩ := hprocess
      exact ⟨hlength, rfl⟩
  · exact nomatch hprocess

theorem run_dropNode
    (h : (ipv4Graph frame).step s (.run .dropNode nic) = some t) :
    t = ⟨{ s.prog with freed := s.prog.freed ++ s.stream .dropNode },
      Function.update s.stream .dropNode [], s.todo.erase .dropNode⟩ := by
  obtain ⟨-, prog, out, hprocess, rfl⟩ := step_run h
  simp only [ipv4Graph, process, dropNodeProcess, Option.some.injEq,
    Prod.mk.injEq] at hprocess
  obtain ⟨rfl, rfl⟩ := hprocess
  rfl

end Effect

/-! ## The invariant -/

theorem launch_inv (frame : μ → Mbuf) :
    Inv frame (ipv4Graph frame).launch where
  steered := rfl
  dropped := rfl
  offered_perm := List.Perm.refl _
  fits := Nat.zero_le _
  writes_lt := by simp [ipv4Graph, launch]

section Preservation

variable {frame : μ → Mbuf} {s t : State μ} {nic : Nic μ}

theorem Inv.begin (h : Inv frame s)
    (hstep : (ipv4Graph frame).step s .begin = some t) : Inv frame t := by
  obtain ⟨⟨-, hstreams⟩, rfl⟩ := step_begin hstep
  refine { h with fits := ?_ }
  simp [hstreams, ipv4Graph, rxBurstSize]

theorem Inv.rxNode {n : Node} (h : Inv frame s)
    (hreach : (ipv4Graph frame).walks.Reachable s)
    (hn : n ∈ [Node.rxNode1, .rxNode2])
    (hstep : (ipv4Graph frame).step s (.run n nic) = some t) :
    Inv frame t := by
  have hunfed : ∀ m, n ∉ (ipv4Graph frame).nextNodes m := by
    intro m hmem
    obtain rfl | rfl : n = .rxNode1 ∨ n = .rxNode2 := by simpa using hn
    · cases m <;> simp [ipv4Graph, nextNodes] at hmem
    · cases m <;> simp [ipv4Graph, nextNodes] at hmem
  have hmem : n ∈ s.todo := (step_run hstep).1.mem_todo hreach hunfed
  obtain ⟨hlength, rfl⟩ := run_rxNode hn hstep
  have htx : Node.txNode ≠ n := by
    rintro rfl
    exact absurd hn (by decide)
  have hdrop : Node.dropNode ≠ n := by
    rintro rfl
    exact absurd hn (by decide)
  constructor
  · simp [h.steered, Function.update_of_ne htx]
  · simp [h.dropped, Function.update_of_ne hdrop]
  · exact h.offered_perm
  · have hfits := h.fits
    have hpos := List.length_pos_of_mem hmem
    simp only [Function.update_self, List.length_append,
      List.length_erase_of_mem hmem, rxBurstSize] at *
    omega
  · exact h.writes_lt

theorem Inv.ipv4Node (h : Inv frame s) (htodo : s.todo = [])
    (hstep : (ipv4Graph frame).step s (.run .ipv4Node nic) = some t) :
    Inv frame t := by
  obtain rfl := run_ipv4Node hstep
  have hsort := sortPkts_holds frame (s.stream .ipv4Node)
  constructor
  · simp [h.steered]
  · simp [h.dropped]
  · exact h.offered_perm
  · simp [htodo]
  · intro i hi
    obtain hi | hi := List.mem_append.mp hi
    · exact h.writes_lt i hi
    · have hlt := hsort.writes_lt i hi
      have hfits := h.fits
      simp only [htodo, rxBurstSize, rteGraphBurstSize, List.length_nil] at *
      omega

theorem Inv.txNode (h : Inv frame s) (htodo : s.todo = [])
    (hstep : (ipv4Graph frame).step s (.run .txNode nic) = some t) :
    Inv frame t := by
  obtain ⟨-, rfl⟩ := run_txNode hstep
  constructor
  · simp [h.steered]
  · simp [h.dropped]
  · have hburst := List.take_append_drop nic.txAccepted (s.stream .txNode)
    apply (h.offered_perm.append_right (s.stream .txNode)).trans
    conv_lhs => rw [← hburst]
    simp only [List.append_assoc]
    apply List.Perm.append_left
    simp only [← List.append_assoc]
    exact List.perm_append_comm.append_right _
  · simpa [htodo] using h.fits
  · exact h.writes_lt

theorem Inv.dropNode (h : Inv frame s) (htodo : s.todo = [])
    (hstep : (ipv4Graph frame).step s (.run .dropNode nic) = some t) :
    Inv frame t := by
  obtain rfl := run_dropNode hstep
  constructor
  · simp [h.steered]
  · simp [h.dropped]
  · exact h.offered_perm
  · simpa [htodo] using h.fits
  · exact h.writes_lt

theorem step_inv {l : Label μ} (h : Inv frame s)
    (hreach : (ipv4Graph frame).walks.Reachable s)
    (hstep : (ipv4Graph frame).step s l = some t) : Inv frame t := by
  cases l with
  | begin => exact h.begin hstep
  | run n nic =>
      have htodo : n ∉ (ipv4Graph frame).sources → s.todo = [] :=
        (step_run hstep).1.todo_eq_nil hreach
      cases n with
      | rxNode1 => exact h.rxNode hreach (by decide) hstep
      | rxNode2 => exact h.rxNode hreach (by decide) hstep
      | ipv4Node => exact h.ipv4Node (htodo (by simp [ipv4Graph])) hstep
      | txNode => exact h.txNode (htodo (by simp [ipv4Graph])) hstep
      | dropNode => exact h.dropNode (htodo (by simp [ipv4Graph])) hstep

end Preservation

theorem reachable_inv {frame : μ → Mbuf} {s : State μ}
    (h : (ipv4Graph frame).walks.Reachable s) : Inv frame s :=
  h.invariant (launch_inv frame) fun _ _ _ hreach hs hstep =>
    step_inv hs hreach hstep

/-! ## The end of a walk -/

/-- The NIC returns no more packets than are asked for and accepts no more
than are offered. -/
def Permitted (s : State μ) (nic : Nic μ) : Prop :=
  nic.rxBurst.length ≤ rxBurstSize ∧
    nic.txAccepted ≤ (s.stream .txNode).length

/-- No process gets stuck. -/
theorem process_isSome (frame : μ → Mbuf) (n : Node) {s : State μ}
    {nic : Nic μ} (h : Permitted s nic) :
    (process frame n (s.stream n) nic s.prog).isSome := by
  cases n with
  | rxNode1 | rxNode2 =>
      change (rxNodeProcess nic s.prog).isSome
      rw [rxNodeProcess]
      simp only [h.1, if_true, Option.isSome_some]
  | ipv4Node => rfl
  | txNode =>
      change (txNodeProcess (s.stream .txNode) nic s.prog).isSome
      rw [txNodeProcess]
      simp only [h.2, if_true, Option.isSome_some]
  | dropNode => rfl

/-- A node that is due can run, whatever the NIC answers. -/
theorem exists_step_of_runnable (frame : μ → Mbuf) {s : State μ} {n : Node}
    {nic : Nic μ} (hn : s.Runnable n) (hnic : Permitted s nic) :
    ∃ t, (ipv4Graph frame).step s (.run n nic) = some t := by
  obtain ⟨⟨prog, out⟩, hprocess⟩ :=
    Option.isSome_iff_exists.mp (process_isSome frame n hnic)
  exact ⟨_, step_run_of_process hn hprocess⟩

/-- Weights that show that the graph has no cycle: each node is one more than
its next nodes. -/
def nodeWeight : Node → ℕ
  | .rxNode1 => 4
  | .rxNode2 => 4
  | .ipv4Node => 3
  | .txNode => 1
  | .dropNode => 1

theorem ipv4Graph_acyclic (frame : μ → Mbuf) :
    (ipv4Graph frame).Acyclic nodeWeight := by
  intro n
  cases n <;> simp [ipv4Graph, nextNodes, nodeWeight]

/-- No more than five nodes run in a walk, from whatever state it begins. -/
theorem length_walk_le {frame : μ → Mbuf} {s t : State μ}
    (hreach : (ipv4Graph frame).walks.Reachable s)
    {runs : List (Node × Nic μ)}
    (hexec : (ipv4Graph frame).walks.exec s (walk runs) = some t) :
    runs.length ≤ 5 := by
  have hbound := (ipv4Graph_acyclic frame).length_walk_le hreach hexec
  have hsources : (ipv4Graph frame).sources.length = 2 := rfl
  have hweight : (ipv4Graph frame).sourceWeight nodeWeight = 3 := rfl
  rwa [hsources, hweight] at hbound

/-! ## Between the walks -/

/-- For every sequence of walks and every sequence of bursts: the stack arrays
are written within their bounds, and after each walk the packets offered for
transmission are the received IPv4 packets and those freed are the others,
both in the order of reception.  Each walk gets there: some node is due until
then, each one that is due can run whatever the NIC answers, and no more than
five run in any walk that begins. -/
theorem walks_steer {frame : μ → Mbuf} {s : State μ}
    (h : (ipv4Graph frame).walks.Reachable s) :
    (∀ i ∈ s.prog.writes, i < rteGraphBurstSize) ∧
      (s.Idle →
        s.prog.offered =
            s.prog.received.filter (fun p => (frame p).isIpv4) ∧
          s.prog.freed =
            s.prog.received.filter fun p => !(frame p).isIpv4) ∧
      (¬s.Idle → ∃ n, s.Runnable n) ∧
      (∀ n nic, s.Runnable n → Permitted s nic →
        ∃ t, (ipv4Graph frame).step s (.run n nic) = some t) ∧
      ∀ runs t, (ipv4Graph frame).walks.exec s (walk runs) = some t →
        runs.length ≤ 5 := by
  have hinv := reachable_inv h
  refine ⟨hinv.writes_lt, ?_, State.exists_runnable,
    fun n nic => exists_step_of_runnable frame, fun runs t => length_walk_le h⟩
  rintro ⟨-, hstream⟩
  rw [hinv.steered, hinv.dropped]
  simp [hstream]

/-- Even packets are IPv4 packets. -/
def evenIpv4 (k : ℕ) : Mbuf :=
  .ofFrame (List.replicate etherTypeOffset 0 ++
    if k % 2 = 0 then [0x08, 0x00] else [0x86, 0xDD])

/-- Both sources receive packets, and the driver accepts two of the three it
is offered. -/
def mergedRuns : List (Node × Nic ℕ) :=
  [(.rxNode1, .receiving [0, 1, 2]), (.rxNode2, .receiving [3, 4]),
    (.ipv4Node, .silent), (.txNode, .accepting 2), (.dropNode, .silent)]

/-- The walk in which these nodes run. -/
def mergedWalk : List (Label ℕ) := walk mergedRuns

theorem walks_steer_mergedWalk :
    ∃ s, (ipv4Graph evenIpv4).walks.exec (ipv4Graph evenIpv4).launch
        mergedWalk = some s ∧
      mergedRuns.length ≤ 5 ∧
      s.prog.received = [0, 1, 2, 3, 4] ∧
      (∀ i ∈ s.prog.writes, i < rteGraphBurstSize) ∧
      s.prog.offered =
        s.prog.received.filter (fun p => (evenIpv4 p).isIpv4) ∧
      s.prog.freed =
        s.prog.received.filter fun p => !(evenIpv4 p).isIpv4 := by
  have hend : ∃ s, (ipv4Graph evenIpv4).walks.exec
      (ipv4Graph evenIpv4).launch mergedWalk = some s ∧
      s.prog.received = [0, 1, 2, 3, 4] ∧ s.Idle := by
    refine ⟨_, rfl, rfl, ?_⟩
    decide
  obtain ⟨s, hexec, hreceived, hidle⟩ := hend
  have hlaunch : (ipv4Graph evenIpv4).walks.Reachable
      (ipv4Graph evenIpv4).launch := TransitionSystem.reachable_start
  obtain ⟨-, -, -, -, hlength⟩ := walks_steer hlaunch
  obtain ⟨hwrites, hsteer, -⟩ := walks_steer ⟨mergedWalk, hexec⟩
  exact ⟨s, hexec, hlength mergedRuns s hexec, hreceived, hwrites,
    hsteer hidle⟩

end TwoSourceGraph
end DpdkFolder
