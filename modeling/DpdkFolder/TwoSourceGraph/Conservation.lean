import DpdkFolder.Support.Custody
import DpdkFolder.TwoSourceGraph.Steering

/-!
# Who owns an mbuf in 2_source_graph

`tx_node_process` does not free the packets that the driver leaves over, and
the graph forgets the objects of a node that has run.  What has been left
over once is owned by nobody from then on.
-/

namespace DpdkFolder
namespace TwoSourceGraph

open NodeGraph

variable {μ : Type*} {frame : μ → Mbuf} {s t : State μ} {l : Label μ}

/-- Each received mbuf has been accepted or freed, once. -/
def Conserved (s : State μ) : Prop :=
  s.prog.received.Perm (s.prog.accepted ++ s.prog.freed)

/-- The condition on a step: the driver accepts all that `tx_node_process`
offers. -/
def AcceptsAll (s : State μ) : Label μ → Prop
  | .run .txNode nic => nic.txAccepted = (s.stream .txNode).length
  | _ => True

/-- The packets left over in a step. -/
def leavesOver (s : State μ) : Label μ → List μ
  | .run .txNode nic => (s.stream .txNode).drop nic.txAccepted
  | _ => []

theorem step_leftOver (hstep : (ipv4Graph frame).step s l = some t) :
    t.prog.leftOver = s.prog.leftOver ++ leavesOver s l := by
  cases l with
  | begin =>
      obtain ⟨-, rfl⟩ := step_begin hstep
      exact (List.append_nil _).symm
  | run n nic =>
      cases n with
      | rxNode1 =>
          obtain ⟨-, rfl⟩ := run_rxNode (by decide) hstep
          exact (List.append_nil _).symm
      | rxNode2 =>
          obtain ⟨-, rfl⟩ := run_rxNode (by decide) hstep
          exact (List.append_nil _).symm
      | ipv4Node =>
          obtain rfl := run_ipv4Node hstep
          exact (List.append_nil _).symm
      | txNode =>
          obtain ⟨-, rfl⟩ := run_txNode hstep
          rfl
      | dropNode =>
          obtain rfl := run_dropNode hstep
          exact (List.append_nil _).symm

theorem acceptsAll_iff (hstep : (ipv4Graph frame).step s l = some t) :
    AcceptsAll s l ↔ leavesOver s l = [] := by
  cases l with
  | begin => simp [AcceptsAll, leavesOver]
  | run n nic =>
      cases n with
      | txNode =>
          have hle := (run_txNode hstep).1
          rw [AcceptsAll, leavesOver, List.drop_eq_nil_iff]
          exact ⟨fun h => h.ge, fun h => Nat.le_antisymm hle h⟩
      | _ => simp [AcceptsAll, leavesOver]

/-- Nothing was left over in a run if and only if the driver always accepted
all it was offered. -/
theorem meetsAlong_acceptsAll_iff {ls : List (Label μ)}
    (h : (ipv4Graph frame).walks.exec (ipv4Graph frame).launch ls = some s) :
    (ipv4Graph frame).walks.MeetsAlong AcceptsAll (ipv4Graph frame).launch
      ls ↔ s.prog.leftOver = [] := by
  apply TransitionSystem.meetsAlong_iff_kept
    (G := fun s : State μ => s.prog.leftOver = []) _
    TransitionSystem.reachable_start rfl h
  intro s l t _ hstep
  rw [acceptsAll_iff hstep, step_leftOver hstep, List.append_eq_nil_iff]

/-- After a walk each received mbuf was accepted, freed or left over. -/
theorem Inv.received_perm (h : Inv frame s) (hidle : s.Idle) :
    s.prog.received.Perm
      (s.prog.accepted ++ s.prog.freed ++ s.prog.leftOver) := by
  have hstream := hidle.2
  have hoffered := h.steered
  have hfreed := h.dropped
  simp only [hstream, List.filter_nil, List.append_nil] at hoffered hfreed
  apply (List.filter_append_perm
    (fun p => (frame p).isIpv4) s.prog.received).symm.trans
  rw [hoffered, hfreed]
  apply (h.offered_perm.append_right _).trans
  rw [List.append_assoc, List.append_assoc]
  exact List.perm_append_comm.append_left _

/-- For every sequence of walks, every burst and every number of accepted
packets: after a walk each mbuf received so far has been accepted or freed,
exactly once, if and only if the driver always accepted all it was offered. -/
theorem conserved_iff {ls : List (Label μ)}
    (h : (ipv4Graph frame).walks.exec (ipv4Graph frame).launch ls = some s)
    (hidle : s.Idle) :
    Conserved s ↔ (ipv4Graph frame).walks.MeetsAlong AcceptsAll
      (ipv4Graph frame).launch ls := by
  have hperm := (reachable_inv ⟨ls, h⟩).received_perm hidle
  rw [meetsAlong_acceptsAll_iff h]
  exact hperm.perm_iff_eq_nil

/-- A walk in which the driver accepts all packets. -/
def acceptedWalk : List (Label ℕ) :=
  [.begin, .run .rxNode1 (.receiving [0, 1, 2]), .run .rxNode2 (.receiving []),
    .run .ipv4Node .silent, .run .txNode (.accepting 2),
    .run .dropNode .silent]

theorem conserved_iff_acceptedWalk :
    ∃ s, (ipv4Graph evenIpv4).walks.exec (ipv4Graph evenIpv4).launch
        acceptedWalk = some s ∧ s.prog.received = [0, 1, 2] ∧
      Conserved s := by
  have hend : ∃ s, (ipv4Graph evenIpv4).walks.exec
      (ipv4Graph evenIpv4).launch acceptedWalk = some s ∧
      s.prog.received = [0, 1, 2] ∧ s.prog.leftOver = [] ∧ s.Idle := by
    refine ⟨_, rfl, rfl, rfl, ?_⟩
    decide
  obtain ⟨s, hexec, hreceived, hnone, hidle⟩ := hend
  refine ⟨s, hexec, hreceived, (conserved_iff hexec hidle).mpr ?_⟩
  exact (meetsAlong_acceptsAll_iff hexec).mpr hnone

/-- In `mergedWalk` an mbuf is left to nobody. -/
theorem mergedWalk_not_conserved :
    ¬∀ s, (ipv4Graph evenIpv4).walks.Reachable s → s.Idle → Conserved s := by
  intro hall
  have hend : ∃ s, (ipv4Graph evenIpv4).walks.exec
      (ipv4Graph evenIpv4).launch mergedWalk = some s ∧
      s.prog.received = [0, 1, 2, 3, 4] ∧ s.prog.accepted = [0, 2] ∧
      s.prog.freed = [1, 3] ∧ s.Idle := by
    refine ⟨_, rfl, rfl, rfl, rfl, ?_⟩
    decide
  obtain ⟨s, hexec, hreceived, haccepted, hfreed, hidle⟩ := hend
  have hlength := (hall s ⟨mergedWalk, hexec⟩ hidle).length_eq
  rw [hreceived, haccepted, hfreed] at hlength
  exact absurd hlength (by decide)

end TwoSourceGraph
end DpdkFolder
