import DpdkFolder.GraphDpdk.Model

/-!
# Where the packets of graph_dpdk go

The driver stores the received pointers in an array that nobody reads, and
what is enqueued to `ipv4_node` instead are entries nobody has stored to.
So the first received packet already never reaches that node.
-/

namespace DpdkFolder
namespace GraphDpdk

open NodeGraph

variable {μ : Type*} {frame : μ → Mbuf} {s t : State μ}

/-- The object is an IPv4 packet. -/
def isIpv4Object (frame : μ → Mbuf) (o : Option μ) : Bool :=
  o.any fun m => (frame m).isIpv4

/-- Only received packets are passed along the edges, each of them comes to
`ipv4_node_process` once, and is then offered for transmission once if it is
an IPv4 packet and freed once otherwise.  What waits in a stream is counted
with the node it waits for. -/
structure Steered (frame : μ → Mbuf) (s : State μ) : Prop where
  passed_received : ∀ o ∈ s.prog.passed, ∃ m ∈ s.prog.received, o = some m
  arrives : (s.prog.received.map some).Perm
    (s.prog.arrived ++ s.stream .ipv4Node)
  offers : (s.prog.arrived.filter (isIpv4Object frame)).Perm
    (s.prog.offered ++ s.stream .txNode)
  frees : (s.prog.arrived.filter fun o => !isIpv4Object frame o).Perm
    (s.prog.freed ++ s.stream .dropNode)

/-- The condition on a step: no packet is received. -/
def ReceivesNothing : State μ → Label μ → Prop
  | _, .run .rxNode nic => nic.rxBurst = []
  | _, _ => True

/-- What holds in every state: nothing is ever stored in the array of
`rx_node`, and what that node has enqueued still waits. -/
structure Inv (s : State μ) : Prop where
  objs_empty : s.prog.array .nodeObjs = fun _ => none
  passed_eq : s.prog.passed = List.replicate s.prog.received.length none
  arrived_eq : s.prog.arrived = []
  offered_eq : s.prog.offered = []
  freed_eq : s.prog.freed = []
  ipv4Stream_eq : s.stream .ipv4Node =
    List.replicate s.prog.received.length none
  txStream_eq : s.stream .txNode = []
  dropStream_eq : s.stream .dropNode = []

/-! ## Effect of one step -/

/-- What `rx_node_process` enqueues. -/
theorem entries_nodeObjs (w : Traffic μ) (burst : List μ) (nb : ℕ)
    (h : w.array .nodeObjs = fun _ => none) :
    (rteEthRxBurst .null burst w).entries .nodeObjs nb =
      List.replicate nb none := by
  simp [Traffic.entries, rteEthRxBurst, h]

theorem rxNodeProcess_eq {nic : Nic μ} {w w' : Traffic μ}
    {out : List (ℕ × List (Option μ))}
    (hempty : w.array .nodeObjs = fun _ => none)
    (h : rxNodeProcess nic w = some (w', out)) :
    w' = { rteEthRxBurst .null nic.rxBurst w with
        passed := w.passed ++ List.replicate nic.rxBurst.length none } ∧
      out = if (List.replicate nic.rxBurst.length (none : Option μ)).length ≠ 0
        then [(0, List.replicate nic.rxBurst.length none)] else [] := by
  simp only [rxNodeProcess] at h
  split at h
  · simp only [rteNodeEnqueue, entries_nodeObjs _ _ _ hempty,
      Option.some.injEq, Prod.mk.injEq] at h
    obtain ⟨rfl, rfl⟩ := h
    rw [List.length_replicate]
    refine ⟨?_, rfl⟩
    by_cases hnone : nic.rxBurst = []
    · simp [hnone, rteEthRxBurst]
    · simp [hnone, rteEthRxBurst]
  · exact nomatch h

theorem run_rxNode (h : Inv s) {nic : Nic μ}
    (hstep : (ipv4Graph frame).step s (.run .rxNode nic) = some t) :
    Inv t ∧ t.prog.received = s.prog.received ++ nic.rxBurst := by
  obtain ⟨-, prog, out, hprocess, rfl⟩ := step_run hstep
  have hedge : ((ipv4Graph frame).nextNodes .rxNode)[0]? =
      some .ipv4Node := rfl
  obtain ⟨rfl, rfl⟩ := rxNodeProcess_eq h.objs_empty hprocess
  rw [deliver_guarded hedge]
  refine ⟨?_, rfl⟩
  constructor
  · simp [rteEthRxBurst, h.objs_empty]
  · simp [rteEthRxBurst, h.passed_eq]
  · exact h.arrived_eq
  · exact h.offered_eq
  · exact h.freed_eq
  · simp [rteEthRxBurst, h.ipv4Stream_eq]
  · simp [h.txStream_eq]
  · simp [h.dropStream_eq]

/-- No other node ever runs. -/
theorem Inv.run_eq_rxNode (h : Inv s)
    (hreach : (ipv4Graph frame).walks.Reachable s) {n : Node} {nic : Nic μ}
    (hstep : (ipv4Graph frame).step s (.run n nic) = some t) :
    n = .rxNode := by
  obtain ⟨hrun, prog, out, hprocess, -⟩ := step_run hstep
  have hfed : n ≠ .rxNode → s.stream n ≠ [] := by
    intro hne
    obtain hmem | ⟨-, hstream⟩ := hrun
    · have hsource := (todo_sublist hreach).subset hmem
      exact absurd (List.mem_singleton.mp hsource) hne
    · exact hstream
  cases n with
  | rxNode => rfl
  | ipv4Node =>
      have hstream := hfed (by decide)
      rw [h.ipv4Stream_eq] at hprocess hstream
      obtain ⟨k, hk⟩ : ∃ k, s.prog.received.length = k + 1 := by
        apply Nat.exists_eq_succ_of_ne_zero
        intro hzero
        exact hstream (by rw [hzero]; rfl)
      simp [ipv4Graph, process, ipv4NodeProcess, hk, List.replicate_succ,
        steer] at hprocess
  | txNode => exact absurd h.txStream_eq (hfed (by decide))
  | dropNode => exact absurd h.dropStream_eq (hfed (by decide))

theorem launch_inv (frame : μ → Mbuf) : Inv (ipv4Graph frame).launch :=
  ⟨rfl, rfl, rfl, rfl, rfl, rfl, rfl, rfl⟩

/-- A step keeps the invariant, and the received packets grow by exactly the
steps that receive something. -/
theorem step_inv {l : Label μ} (h : Inv s)
    (hreach : (ipv4Graph frame).walks.Reachable s)
    (hstep : (ipv4Graph frame).step s l = some t) :
    Inv t ∧ (t.prog.received = [] ↔
      s.prog.received = [] ∧ ReceivesNothing s l) := by
  cases l with
  | begin =>
      obtain ⟨-, rfl⟩ := step_begin hstep
      exact ⟨{ h with }, (and_iff_left trivial).symm⟩
  | run n nic =>
      obtain rfl := h.run_eq_rxNode hreach hstep
      obtain ⟨hinv, hreceived⟩ := run_rxNode h hstep
      rw [hreceived, List.append_eq_nil_iff]
      exact ⟨hinv, Iff.rfl⟩

theorem reachable_inv (h : (ipv4Graph frame).walks.Reachable s) :
    Inv s := by
  refine h.invariant (launch_inv frame) ?_
  intro s l t hreach hs hstep
  exact (step_inv hs hreach hstep).1

/-! ## Steering -/

theorem Inv.steered_iff_received (h : Inv s) :
    Steered frame s ↔ s.prog.received = [] := by
  constructor
  · intro hsteered
    by_contra hne
    obtain ⟨m, ms, hcons⟩ := List.exists_cons_of_ne_nil hne
    obtain ⟨m', -, hm'⟩ := hsteered.passed_received none (by
      rw [h.passed_eq, hcons]
      exact List.mem_cons_self)
    exact nomatch hm'
  · intro hnone
    constructor
    · simp [h.passed_eq, hnone]
    · simp [h.arrived_eq, h.ipv4Stream_eq, hnone]
    · simp [h.arrived_eq, h.offered_eq, h.txStream_eq]
    · simp [h.arrived_eq, h.freed_eq, h.dropStream_eq]

/-- For every sequence of walks and every sequence of bursts: the packets are
steered as intended if and only if no packet has been received. -/
theorem steered_iff {ls : List (Label μ)}
    (h : (ipv4Graph frame).walks.exec (ipv4Graph frame).launch ls = some s) :
    Steered frame s ↔ (ipv4Graph frame).walks.MeetsAlong ReceivesNothing
      (ipv4Graph frame).launch ls := by
  rw [(reachable_inv ⟨ls, h⟩).steered_iff_received]
  symm
  apply TransitionSystem.meetsAlong_iff_kept
    (G := fun s : State μ => s.prog.received = []) _
    TransitionSystem.reachable_start rfl h
  intro s l t hreach hstep
  exact (step_inv (reachable_inv hreach) hreach hstep).2

/-- The packet of every mbuf is an IPv4 packet. -/
def ipv4Frame (_ : ℕ) : Mbuf :=
  .ofFrame (List.replicate etherTypeOffset 0 ++ [0x08, 0x00])

/-- Two walks that receive nothing. -/
def idleWalks : List (Label ℕ) :=
  [.begin, .run .rxNode (.receiving []), .begin,
    .run .rxNode (.receiving [])]

theorem steered_iff_idleWalks :
    ∃ s, (ipv4Graph ipv4Frame).walks.exec (ipv4Graph ipv4Frame).launch
      idleWalks = some s ∧ Steered ipv4Frame s := by
  have hend : ∃ s, (ipv4Graph ipv4Frame).walks.exec
      (ipv4Graph ipv4Frame).launch idleWalks = some s := ⟨_, rfl⟩
  obtain ⟨s, hexec⟩ := hend
  refine ⟨s, hexec, (steered_iff hexec).mpr ?_⟩
  exact ⟨trivial, fun _ _ => ⟨rfl, fun _ _ => ⟨trivial, fun _ _ =>
    ⟨rfl, fun _ _ => trivial⟩⟩⟩⟩

/-- One received packet is already lost. -/
theorem onePacket_not_steered :
    ¬∀ s, (ipv4Graph ipv4Frame).walks.Reachable s → Steered ipv4Frame s := by
  intro hall
  have hend : ∃ s, (ipv4Graph ipv4Frame).walks.exec
      (ipv4Graph ipv4Frame).launch
        [.begin, .run .rxNode (.receiving [0])] = some s ∧
      s.prog.passed = [none] := ⟨_, rfl, rfl⟩
  obtain ⟨s, hexec, hpassed⟩ := hend
  obtain ⟨m, -, hm⟩ :=
    (hall s ⟨_, hexec⟩).passed_received none (by simp [hpassed])
  exact nomatch hm

end GraphDpdk
end DpdkFolder
