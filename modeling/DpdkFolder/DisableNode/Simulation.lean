import DpdkFolder.DisableNode.Graph

/-!
# disable_node is 2_source_graph with a silent second source

The graphs of the two programs differ in the second source and in the way the
IPv4 node sorts its packets.  A walk of disable_node is matched by a walk of
2_source_graph that first runs `rx_node2` and finds nothing to receive, and a
walk in which that node receives nothing, whenever it runs, is matched by a
walk of disable_node.  So between the walks the two programs show the same
traffic.

The bursts fit the arrays of the IPv4 node because they fit there, so the node
never fails, and where the packets go and who owns them is read off from the
invariant of that graph.
-/

namespace DpdkFolder
namespace DisableNode

open NodeGraph

variable {μ : Type*}

/-- The node of 2_source_graph with the same purpose. -/
def twin : Node → TwoSourceGraph.Node
  | .rxNode => .rxNode1
  | .ipv4Node => .ipv4Node
  | .txNode => .txNode
  | .dropNode => .dropNode

/-- What 2_source_graph records of the packets, without the stores to its
arrays. -/
def traffic (w : TwoSourceGraph.Traffic μ) : Traffic μ :=
  ⟨w.received, w.offered, w.accepted, w.leftOver, w.freed⟩

/-- The states of the two graphs agree on what happened to the packets and on
what waits in the streams. -/
structure Agrees (s : State μ) (u : TwoSourceGraph.State μ) : Prop where
  traffic_eq : traffic u.prog = s.prog
  stream_eq : ∀ n, u.stream (twin n) = s.stream n

/-- Moreover the second source has run in the current walk. -/
structure Matches (s : State μ) (u : TwoSourceGraph.State μ) : Prop
    extends Agrees s u where
  todo : s.todo = [] ∧ u.todo = [] ∨
    s.todo = [.rxNode] ∧ u.todo = [.rxNode1]

/-- The second source may still have to run. -/
structure Trails (s : State μ) (u : TwoSourceGraph.State μ) : Prop
    extends Agrees s u where
  todo : s.todo = [] ∧ (u.todo = [] ∨ u.todo = [.rxNode2]) ∨
    s.todo = [.rxNode] ∧
      (u.todo = [.rxNode1] ∨ u.todo = [.rxNode1, .rxNode2])

/-- The second source receives nothing. -/
def SecondSilent : TwoSourceGraph.Label μ → Prop
  | .run .rxNode2 nic => nic.rxBurst = []
  | _ => True

theorem exists_twin {m : TwoSourceGraph.Node} (hm : m ≠ .rxNode2) :
    ∃ n, twin n = m := by
  cases m with
  | rxNode1 => exact ⟨.rxNode, rfl⟩
  | rxNode2 => exact absurd rfl hm
  | ipv4Node => exact ⟨.ipv4Node, rfl⟩
  | txNode => exact ⟨.txNode, rfl⟩
  | dropNode => exact ⟨.dropNode, rfl⟩

/-! ## One node, in both graphs -/

section Step

variable {frame : μ → Mbuf} {s t : State μ} {u v : TwoSourceGraph.State μ}
  {nic : Nic μ} {n : Node}

/-- A node can run for the same packets and answers in both graphs. -/
theorem isSome_process_iff (frame : μ → Mbuf) (n : Node) {obj : List μ}
    (hsize : n = .ipv4Node → obj.length ≤ rteGraphBurstSize) (nic : Nic μ)
    (w : Traffic μ) (w' : TwoSourceGraph.Traffic μ) :
    (process frame n obj nic w).isSome ↔
      (TwoSourceGraph.process frame (twin n) obj nic w').isSome := by
  cases n with
  | rxNode =>
      by_cases hlength : nic.rxBurst.length ≤ rxBurstSize
      · have hsame : nic.rxBurst.length ≤ TwoSourceGraph.rxBurstSize :=
          hlength
        simp [process, TwoSourceGraph.process, twin, rxNodeProcess,
          TwoSourceGraph.rxNodeProcess1, TwoSourceGraph.rxNodeProcess,
          hlength, hsame]
      · have hsame : ¬nic.rxBurst.length ≤ TwoSourceGraph.rxBurstSize :=
          hlength
        simp [process, TwoSourceGraph.process, twin, rxNodeProcess,
          TwoSourceGraph.rxNodeProcess1, TwoSourceGraph.rxNodeProcess,
          hlength, hsame]
  | ipv4Node =>
      rw [process_ipv4Node frame (hsize rfl)]
      simp [TwoSourceGraph.process, twin, TwoSourceGraph.ipv4NodeProcess]
  | txNode =>
      by_cases hlength : nic.txAccepted ≤ obj.length
      · simp [process, TwoSourceGraph.process, twin, txNodeProcess,
          TwoSourceGraph.txNodeProcess, hlength]
      · simp [process, TwoSourceGraph.process, twin, txNodeProcess,
          TwoSourceGraph.txNodeProcess, hlength]
  | dropNode =>
      simp [process, TwoSourceGraph.process, twin, dropNodeProcess,
        TwoSourceGraph.dropNodeProcess]

/-- `ipv4_node` is never given more packets than its arrays hold. -/
theorem Agrees.fits (h : Agrees s u) (hu : TwoSourceGraph.Inv frame u) :
    (s.stream .ipv4Node).length ≤ rteGraphBurstSize := by
  have hfits := hu.fits
  rw [show u.stream .ipv4Node = _ from h.stream_eq .ipv4Node] at hfits
  simp only [TwoSourceGraph.rxBurstSize, rteGraphBurstSize] at hfits ⊢
  omega

/-- The states still agree when a node has run in both. -/
theorem Agrees.run (h : Agrees s u) (hu : TwoSourceGraph.Inv frame u)
    (hst : (ipv4Graph frame).step s (.run n nic) = some t)
    (huv : (TwoSourceGraph.ipv4Graph frame).step u (.run (twin n) nic) =
      some v) : Agrees t v := by
  have hipv4 := h.stream_eq .ipv4Node
  have htx := h.stream_eq .txNode
  have hdrop := h.stream_eq .dropNode
  simp only [twin] at hipv4 htx hdrop
  cases n with
  | rxNode =>
      obtain ⟨-, rfl⟩ := run_rxNode hst
      obtain ⟨-, rfl⟩ := TwoSourceGraph.run_rxNode (by decide) huv
      refine ⟨?_, fun n => ?_⟩
      · rw [← h.traffic_eq]
        rfl
      · cases n <;> simp [twin, hipv4, htx, hdrop]
  | ipv4Node =>
      obtain rfl := run_ipv4Node (h.fits hu) hst
      obtain rfl := TwoSourceGraph.run_ipv4Node huv
      refine ⟨h.traffic_eq, fun n => ?_⟩
      have hn := h.stream_eq n
      cases n <;> simp [twin, hipv4, htx, hdrop]
      exact hn
  | txNode =>
      obtain ⟨-, rfl⟩ := run_txNode hst
      obtain ⟨-, rfl⟩ := TwoSourceGraph.run_txNode huv
      refine ⟨?_, fun n => ?_⟩
      · rw [← h.traffic_eq, ← htx]
        rfl
      · have hn := h.stream_eq n
        cases n <;> simp [twin, hipv4, hdrop]
        exact hn
  | dropNode =>
      obtain rfl := run_dropNode hst
      obtain rfl := TwoSourceGraph.run_dropNode huv
      refine ⟨?_, fun n => ?_⟩
      · rw [← h.traffic_eq, ← hdrop]
        rfl
      · have hn := h.stream_eq n
        cases n <;> simp [twin, hipv4, htx]
        exact hn

/-- A source that receives nothing changes nothing. -/
theorem Agrees.silent (h : Agrees s u) (hnic : nic.rxBurst = [])
    (huv : (TwoSourceGraph.ipv4Graph frame).step u (.run .rxNode2 nic) =
      some v) : Agrees s v ∧ v.todo = u.todo.erase .rxNode2 := by
  obtain ⟨-, rfl⟩ := TwoSourceGraph.run_rxNode (by decide) huv
  rw [hnic, List.append_nil, List.append_nil]
  refine ⟨⟨h.traffic_eq, fun n => ?_⟩, rfl⟩
  rw [← h.stream_eq n]
  cases n <;> simp [twin]

theorem unfed (frame : μ → Mbuf) :
    (∀ m, Node.rxNode ∉ (ipv4Graph frame).nextNodes m) ∧
      (∀ m, TwoSourceGraph.Node.rxNode1 ∉
        (TwoSourceGraph.ipv4Graph frame).nextNodes m) ∧
      ∀ m, TwoSourceGraph.Node.rxNode2 ∉
        (TwoSourceGraph.ipv4Graph frame).nextNodes m := by
  refine ⟨fun m => ?_, fun m => ?_, fun m => ?_⟩
  · cases m <;> simp [ipv4Graph, nextNodes]
  · cases m <;> simp [TwoSourceGraph.ipv4Graph, TwoSourceGraph.nextNodes]
  · cases m <;> simp [TwoSourceGraph.ipv4Graph, TwoSourceGraph.nextNodes]

/-- Both graphs are idle at the same time. -/
theorem Agrees.idle_iff (h : Agrees s u)
    (hu : (TwoSourceGraph.ipv4Graph frame).walks.Reachable u)
    (htodo : s.todo = [] ↔ u.todo = []) : s.Idle ↔ u.Idle := by
  rw [State.Idle, State.Idle, htodo]
  refine and_congr_right fun _ => ⟨fun hs m => ?_, fun hs n => ?_⟩
  · by_cases hm : m = .rxNode2
    · rw [hm]
      exact stream_eq_nil hu (unfed frame).2.2
    · obtain ⟨n, rfl⟩ := exists_twin hm
      exact (h.stream_eq n).trans (hs n)
  · exact (h.stream_eq n).symm.trans (hs _)

/-- Where a node has run its twin can run too, if it may. -/
theorem Agrees.exists_run (h : Agrees s u) (hu : TwoSourceGraph.Inv frame u)
    (hrun : u.Runnable (twin n))
    (hst : (ipv4Graph frame).step s (.run n nic) = some t) :
    ∃ v, (TwoSourceGraph.ipv4Graph frame).step u (.run (twin n) nic) =
      some v ∧ Agrees t v ∧ v.todo = u.todo.erase (twin n) := by
  obtain ⟨-, prog, out, hprocess, -⟩ := step_run hst
  have hsize : n = .ipv4Node → (s.stream n).length ≤ rteGraphBurstSize := by
    rintro rfl
    exact h.fits hu
  have hsome := (isSome_process_iff frame n hsize nic s.prog u.prog).mp
    (Option.isSome_of_eq_some hprocess)
  rw [← h.stream_eq n] at hsome
  obtain ⟨⟨prog', out'⟩, hprocess'⟩ := Option.isSome_iff_exists.mp hsome
  have huv := step_run_of_process (G := TwoSourceGraph.ipv4Graph frame) hrun
    hprocess'
  exact ⟨_, huv, h.run hu hst huv, rfl⟩

/-- And the other way round. -/
theorem Agrees.exists_run_of_twin (h : Agrees s u)
    (hu : TwoSourceGraph.Inv frame u) (hrun : s.Runnable n)
    (huv : (TwoSourceGraph.ipv4Graph frame).step u (.run (twin n) nic) =
      some v) :
    ∃ t, (ipv4Graph frame).step s (.run n nic) = some t ∧ Agrees t v ∧
      t.todo = s.todo.erase n := by
  obtain ⟨-, prog, out, hprocess, -⟩ := step_run huv
  have hsize : n = .ipv4Node → (s.stream n).length ≤ rteGraphBurstSize := by
    rintro rfl
    exact h.fits hu
  rw [h.stream_eq n] at hprocess
  have hsome := (isSome_process_iff frame n hsize nic s.prog u.prog).mpr
    (Option.isSome_of_eq_some hprocess)
  obtain ⟨⟨prog', out'⟩, hprocess'⟩ := Option.isSome_iff_exists.mp hsome
  have hst := step_run_of_process (G := ipv4Graph frame) hrun hprocess'
  exact ⟨_, hst, h.run hu hst huv, rfl⟩

/-! ## The walks of disable_node, followed by the other graph -/

/-- A node and its twin may run in the same states. -/
theorem Matches.runnable_twin (h : Matches s u)
    (hs : (ipv4Graph frame).walks.Reachable s) (hrun : s.Runnable n) :
    u.Runnable (twin n) := by
  by_cases hn : n = .rxNode
  · subst hn
    have hmem := hrun.mem_todo hs (unfed frame).1
    rcases h.todo with ⟨hnil, -⟩ | ⟨-, hu⟩
    · rw [hnil] at hmem
      exact absurd hmem List.not_mem_nil
    · exact Or.inl (by simp [hu, twin])
  · have hsource : n ∉ (ipv4Graph frame).sources := by
      simpa [ipv4Graph] using hn
    have hnil := hrun.todo_eq_nil hs hsource
    have hfed : s.stream n ≠ [] := by
      rcases hrun with hmem | ⟨-, hfed⟩
      · rw [hnil] at hmem
        exact absurd hmem List.not_mem_nil
      · exact hfed
    rcases h.todo with ⟨-, hu⟩ | ⟨hs, -⟩
    · exact Or.inr ⟨hu, by rwa [h.stream_eq n]⟩
    · rw [hnil] at hs
      cases hs

/-- Running a node leaves the pending sources matched. -/
theorem Matches.todo_erase (h : Matches s u) (n : Node) :
    s.todo.erase n = [] ∧ u.todo.erase (twin n) = [] ∨
      s.todo.erase n = [.rxNode] ∧ u.todo.erase (twin n) = [.rxNode1] := by
  rcases h.todo with ⟨hs, hu⟩ | ⟨hs, hu⟩ <;> rw [hs, hu] <;>
    cases n <;> decide

/-- A walk begins, and the second source has nothing. -/
theorem Matches.begin (h : Matches s u)
    (hu : (TwoSourceGraph.ipv4Graph frame).walks.Reachable u)
    (hst : (ipv4Graph frame).step s .begin = some t) :
    ∃ v, (TwoSourceGraph.ipv4Graph frame).walks.exec u
        [.begin, .run .rxNode2 .silent] = some v ∧ Matches t v := by
  obtain ⟨hidle, rfl⟩ := step_begin hst
  have htodo : s.todo = [] ↔ u.todo = [] := by
    rcases h.todo with ⟨hs, hu⟩ | ⟨hs, hu⟩ <;> simp [hs, hu]
  have hbegin : (TwoSourceGraph.ipv4Graph frame).walks.step u .begin =
      some { u with todo := [.rxNode1, .rxNode2] } :=
    if_pos ((h.idle_iff hu htodo).mp hidle)
  have hsource : State.Runnable { u with todo := [.rxNode1, .rxNode2] }
      TwoSourceGraph.Node.rxNode2 :=
    Or.inl (List.mem_cons_of_mem _ (List.mem_singleton_self _))
  obtain ⟨v, hv⟩ : ∃ v, (TwoSourceGraph.ipv4Graph frame).step
      { u with todo := [.rxNode1, .rxNode2] } (.run .rxNode2 .silent) =
        some v := ⟨_, step_run_of_process hsource rfl⟩
  have hagrees : Agrees { s with todo := [.rxNode] }
      { u with todo := [.rxNode1, .rxNode2] } :=
    ⟨h.traffic_eq, h.stream_eq⟩
  obtain ⟨hsilent, htodo⟩ := hagrees.silent rfl hv
  exact ⟨v, TransitionSystem.exec_trans
    (TransitionSystem.exec_singleton hbegin)
    (TransitionSystem.exec_singleton
      (T := (TwoSourceGraph.ipv4Graph frame).walks) hv), hsilent,
    Or.inr ⟨rfl, htodo⟩⟩

theorem Matches.step {l : Label μ} (h : Matches s u)
    (hs : (ipv4Graph frame).walks.Reachable s)
    (hu : (TwoSourceGraph.ipv4Graph frame).walks.Reachable u)
    (hst : (ipv4Graph frame).step s l = some t) :
    ∃ ls v, (TwoSourceGraph.ipv4Graph frame).walks.exec u ls = some v ∧
      (∀ l ∈ ls, SecondSilent l) ∧ Matches t v := by
  cases l with
  | begin =>
      obtain ⟨v, hexec, hmatch⟩ := h.begin hu hst
      refine ⟨_, v, hexec, ?_, hmatch⟩
      intro l hl
      rcases List.mem_cons.mp hl with rfl | hl
      · trivial
      · rw [List.mem_singleton.mp hl]
        rfl
  | run n nic =>
      have hrun := h.runnable_twin hs (step_run hst).1
      obtain ⟨v, hv, hagrees, htodo⟩ :=
        h.exists_run (TwoSourceGraph.reachable_inv hu) hrun hst
      have hstodo : t.todo = s.todo.erase n := by
        obtain ⟨-, prog, out, -, rfl⟩ := step_run hst
        rfl
      refine ⟨[.run (twin n) nic], v, TransitionSystem.exec_singleton hv, ?_,
        hagrees, ?_⟩
      · intro l hl
        rw [List.mem_singleton.mp hl]
        cases n <;> trivial
      · rw [hstodo, htodo]
        exact h.todo_erase n

theorem Trails.runnable_of_twin (h : Trails s u)
    (hu : (TwoSourceGraph.ipv4Graph frame).walks.Reachable u)
    (hrun : u.Runnable (twin n)) : s.Runnable n := by
  by_cases hn : n = .rxNode
  · subst hn
    have hmem : TwoSourceGraph.Node.rxNode1 ∈ u.todo :=
      hrun.mem_todo hu (unfed frame).2.1
    rcases h.todo with ⟨-, hnil | hsecond⟩ | ⟨hs, -⟩
    · rw [hnil] at hmem
      exact absurd hmem List.not_mem_nil
    · rw [hsecond] at hmem
      exact absurd hmem (by decide)
    · exact Or.inl (by simp [hs])
  · have hsource : twin n ∉ (TwoSourceGraph.ipv4Graph frame).sources := by
      cases n with
      | rxNode => exact absurd rfl hn
      | _ => simp [TwoSourceGraph.ipv4Graph, twin]
    have hnil := hrun.todo_eq_nil hu hsource
    have hfed : u.stream (twin n) ≠ [] := by
      rcases hrun with hmem | ⟨-, hfed⟩
      · rw [hnil] at hmem
        exact absurd hmem List.not_mem_nil
      · exact hfed
    rcases h.todo with ⟨hs, -⟩ | ⟨-, hu | hu⟩
    · exact Or.inr ⟨hs, by rwa [← h.stream_eq n]⟩
    · rw [hnil] at hu
      cases hu
    · rw [hnil] at hu
      cases hu

theorem Trails.todo_erase (h : Trails s u) (n : Node) :
    s.todo.erase n = [] ∧
        (u.todo.erase (twin n) = [] ∨
          u.todo.erase (twin n) = [.rxNode2]) ∨
      s.todo.erase n = [.rxNode] ∧
        (u.todo.erase (twin n) = [.rxNode1] ∨
          u.todo.erase (twin n) = [.rxNode1, .rxNode2]) := by
  rcases h.todo with ⟨hs, hu | hu⟩ | ⟨hs, hu | hu⟩ <;> rw [hs, hu] <;>
    cases n <;> decide

theorem Trails.step {l : TwoSourceGraph.Label μ} (h : Trails s u)
    (hu : (TwoSourceGraph.ipv4Graph frame).walks.Reachable u)
    (hl : SecondSilent l)
    (huv : (TwoSourceGraph.ipv4Graph frame).step u l = some v) :
    ∃ ls t, (ipv4Graph frame).walks.exec s ls = some t ∧ Trails t v := by
  cases l with
  | begin =>
      obtain ⟨hidle, rfl⟩ := step_begin huv
      have htodo : s.todo = [] ↔ u.todo = [] := by
        rcases h.todo with ⟨hs, -⟩ | ⟨-, hu | hu⟩
        · exact iff_of_true hs hidle.1
        · rw [hidle.1] at hu
          cases hu
        · rw [hidle.1] at hu
          cases hu
      have hbegin : (ipv4Graph frame).step s .begin =
          some { s with todo := [.rxNode] } :=
        if_pos ((h.idle_iff hu htodo).mpr hidle)
      exact ⟨[.begin], _, TransitionSystem.exec_singleton
        (T := (ipv4Graph frame).walks) hbegin,
        ⟨h.traffic_eq, h.stream_eq⟩, Or.inr ⟨rfl, Or.inr rfl⟩⟩
  | run m nic =>
      by_cases hm : m = .rxNode2
      · subst hm
        obtain ⟨hagrees, htodo⟩ := h.silent hl huv
        refine ⟨[], s, rfl, hagrees, ?_⟩
        rw [htodo]
        rcases h.todo with ⟨hs, hu | hu⟩ | ⟨hs, hu | hu⟩ <;>
          rw [hs, hu] <;> decide
      · obtain ⟨n, rfl⟩ := exists_twin hm
        have hrun := h.runnable_of_twin hu (step_run huv).1
        have hvtodo : v.todo = u.todo.erase (twin n) := by
          obtain ⟨-, prog, out, -, rfl⟩ := step_run huv
          rfl
        obtain ⟨t, ht, hagrees, htodo⟩ :=
          h.exists_run_of_twin (TwoSourceGraph.reachable_inv hu) hrun huv
        refine ⟨[.run n nic], t, TransitionSystem.exec_singleton ht, hagrees,
          ?_⟩
        rw [htodo, hvtodo]
        exact h.todo_erase n

end Step

end DisableNode
end DpdkFolder
