import Mathlib.Algebra.BigOperators.Group.Finset.Piecewise
import Mathlib.Algebra.GroupWithZero.Nat
import Mathlib.Algebra.Order.BigOperators.Group.Finset
import DpdkFolder.Support.NodeGraph

/-!
# Walks of acyclic graphs end

A weight for each node that exceeds the weights of its next nodes together
shows that a graph has no cycle.  The sources run first and once each, and
until then only the nodes that they feed can be waiting.  After that what
waits loses weight with every node that runs, so a walk is no longer than the
number of the sources and the weight of the nodes that they feed, whichever
order it takes.
-/

namespace NodeGraph

variable {ν α σ ε : Type*} [DecidableEq ν] [Fintype ν]

/-- The weight of the nodes whose streams are not empty. -/
def fedWeight (w : ν → ℕ) (stream : ν → List α) : ℕ :=
  ∑ n, if (stream n).isEmpty then 0 else w n

/-- Each node weighs more than its next nodes together. -/
def Acyclic (G : NodeGraph ν α σ ε) (w : ν → ℕ) : Prop :=
  ∀ n, ((G.nextNodes n).map w).sum < w n

/-- An edge leads from a source to the node. -/
def FedBySource (G : NodeGraph ν α σ ε) (n : ν) : Prop :=
  ∃ m ∈ G.sources, n ∈ G.nextNodes m

instance (G : NodeGraph ν α σ ε) (n : ν) : Decidable (G.FedBySource n) :=
  inferInstanceAs (Decidable (∃ m ∈ G.sources, n ∈ G.nextNodes m))

/-- The weight of the nodes that the sources feed, each counted once. -/
def sourceWeight (G : NodeGraph ν α σ ε) (w : ν → ℕ) : ℕ :=
  ∑ n, if G.FedBySource n then w n else 0

/-- How many more nodes can run in the current walk. -/
def rank (G : NodeGraph ν α σ ε) (w : ν → ℕ) (s : State ν α σ) : ℕ :=
  s.todo.length +
    if s.todo.isEmpty then fedWeight w s.stream else G.sourceWeight w

/-- The labels of one walk: it begins, and then the given nodes run. -/
def walk (runs : List (ν × ε)) : List (Label ν ε) :=
  .begin :: runs.map fun r => .run r.1 r.2

theorem sum_mem_le (w : ν → ℕ) (edges : List ν) :
    (∑ n, if n ∈ edges then w n else 0) ≤ (edges.map w).sum := by
  induction edges with
  | nil => simp
  | cons e edges ih =>
      have hsplit : ∀ n, (if n ∈ e :: edges then w n else 0) ≤
          (if n = e then w n else 0) + if n ∈ edges then w n else 0 := by
        intro n
        by_cases hne : n = e
        · simp [hne]
        · simp [hne]
      calc (∑ n, if n ∈ e :: edges then w n else 0)
          ≤ ∑ n, ((if n = e then w n else 0) +
              if n ∈ edges then w n else 0) :=
            Finset.sum_le_sum fun n _ => hsplit n
        _ = w e + ∑ n, (if n ∈ edges then w n else 0) := by
            rw [Finset.sum_add_distrib, Finset.sum_ite_eq' Finset.univ e,
              if_pos (Finset.mem_univ e)]
        _ ≤ w e + (edges.map w).sum := Nat.add_le_add_left ih (w e)
        _ = ((e :: edges).map w).sum := by
            rw [List.map_cons, List.sum_cons]

/-- Delivering feeds no nodes but those at the ends of the edges. -/
theorem fedWeight_deliver_le (w : ν → ℕ) (edges : List ν)
    (stream : ν → List α) (out : List (ℕ × List α)) :
    fedWeight w (deliver edges stream out) ≤
      fedWeight w stream + (edges.map w).sum := by
  have hnode : ∀ n,
      (if (deliver edges stream out n).isEmpty then 0 else w n) ≤
        (if (stream n).isEmpty then 0 else w n) +
          if n ∈ edges then w n else 0 := by
    intro n
    by_cases hn : n ∈ edges
    · rw [if_pos hn]
      split <;> omega
    · rw [deliver_of_notMem hn, if_neg hn, Nat.add_zero]
  calc fedWeight w (deliver edges stream out)
      ≤ ∑ n, ((if (stream n).isEmpty then 0 else w n) +
          if n ∈ edges then w n else 0) :=
        Finset.sum_le_sum fun n _ => hnode n
    _ = fedWeight w stream + ∑ n, (if n ∈ edges then w n else 0) :=
        Finset.sum_add_distrib
    _ ≤ fedWeight w stream + (edges.map w).sum :=
        Nat.add_le_add_left (sum_mem_le w edges) _

/-- Clearing a stream takes away the weight of its node, if it has any. -/
theorem fedWeight_clear (w : ν → ℕ) (stream : ν → List α) (n : ν) :
    fedWeight w (Function.update stream n []) +
        (if (stream n).isEmpty then 0 else w n) = fedWeight w stream := by
  have hcleared : ∀ m,
      (if (Function.update stream n [] m).isEmpty then 0 else w m) =
        Function.update
          (fun m => if (stream m).isEmpty then 0 else w m) n 0 m := by
    intro m
    by_cases hm : m = n
    · subst hm
      simp
    · simp [hm]
  rw [fedWeight, Finset.sum_congr rfl fun m _ => hcleared m,
    Finset.sum_update_of_mem (Finset.mem_univ n), fedWeight,
    ← Finset.sum_sdiff (Finset.subset_univ {n}), Finset.sum_singleton,
    Nat.zero_add]

variable {G : NodeGraph ν α σ ε} {w : ν → ℕ} {s t : State ν α σ}

omit [Fintype ν] in
/-- Besides what waited before, only next nodes of a source wait after it. -/
theorem fedBySource_deliver {stream : ν → List α} {n : ν}
    (hwaiting : ∀ m, stream m ≠ [] → G.FedBySource m) (hn : n ∈ G.sources)
    (out : List (ℕ × List α)) {m : ν}
    (hm : deliver (G.nextNodes n) (Function.update stream n []) out m ≠ []) :
    G.FedBySource m := by
  by_cases hnext : m ∈ G.nextNodes n
  · exact ⟨n, hn, hnext⟩
  · refine hwaiting m fun hnil => hm ?_
    rw [deliver_of_notMem hnext, Function.update_apply, hnil, ite_self]

/-- Until all sources have run, only the nodes that they feed can wait. -/
theorem fedBySource_of_todo (h : G.walks.Reachable s) (htodo : s.todo ≠ []) :
    ∀ n, s.stream n ≠ [] → G.FedBySource n := by
  refine h.invariant (P := fun s => s.todo ≠ [] →
    ∀ n, s.stream n ≠ [] → G.FedBySource n) ?_ ?_ htodo
  · exact fun hstart => absurd rfl hstart
  · intro s l t hreach hs hstep htodo n hn
    cases l with
    | begin =>
        obtain ⟨⟨-, hstreams⟩, rfl⟩ := step_begin hstep
        exact absurd (hstreams n) hn
    | run m answer =>
        obtain ⟨hrun, prog, out, -, rfl⟩ := step_run hstep
        have hpending : s.todo ≠ [] := fun hnil => htodo (by simp [hnil])
        have hsource : m ∈ G.sources := (todo_sublist hreach).subset
          (hrun.resolve_right fun hdone => hpending hdone.1)
        exact fedBySource_deliver (hs hpending) hsource out hn

theorem fedWeight_le_sourceWeight (w : ν → ℕ) {stream : ν → List α}
    (h : ∀ n, stream n ≠ [] → G.FedBySource n) :
    fedWeight w stream ≤ G.sourceWeight w := by
  refine Finset.sum_le_sum fun n _ => ?_
  by_cases hn : stream n = []
  · simp [hn]
  · rw [if_pos (h n hn)]
    split
    · exact Nat.zero_le _
    · exact le_rfl

/-- A source that runs leaves one fewer to run. -/
theorem rank_lt_of_source (hreach : G.walks.Reachable s)
    {n : ν} {answer : ε} (hstep : G.step s (.run n answer) = some t)
    (hmem : n ∈ s.todo) : G.rank w t < G.rank w s := by
  have hsource : n ∈ G.sources := (todo_sublist hreach).subset hmem
  have hpending : s.todo ≠ [] := List.ne_nil_of_mem hmem
  have hpos : 0 < s.todo.length := List.length_pos_of_mem hmem
  obtain ⟨-, prog, out, -, rfl⟩ := step_run hstep
  have hfed : fedWeight w (deliver (G.nextNodes n)
      (Function.update s.stream n []) out) ≤ G.sourceWeight w :=
    fedWeight_le_sourceWeight w fun m hm =>
      fedBySource_deliver (fedBySource_of_todo hreach hpending) hsource out hm
  simp only [rank, List.length_erase_of_mem hmem,
    List.isEmpty_eq_false_iff.mpr hpending, Bool.false_eq_true, if_false]
  split <;> omega

/-- A node that runs after the sources takes weight away. -/
theorem Acyclic.rank_lt_of_fed (hw : G.Acyclic w) {n : ν} {answer : ε}
    (hstep : G.step s (.run n answer) = some t) (htodo : s.todo = [])
    (hfed : s.stream n ≠ []) : G.rank w t < G.rank w s := by
  obtain ⟨-, prog, out, -, rfl⟩ := step_run hstep
  have hdeliver := fedWeight_deliver_le w (G.nextNodes n)
    (Function.update s.stream n []) out
  have hclear := fedWeight_clear w s.stream n
  have hnext := hw n
  simp only [List.isEmpty_eq_false_iff.mpr hfed, Bool.false_eq_true,
    if_false] at hclear
  simp only [rank, htodo, List.erase_nil, List.isEmpty_nil, if_true]
  omega

theorem Acyclic.rank_lt (hw : G.Acyclic w) (hreach : G.walks.Reachable s)
    {n : ν} {answer : ε} (hstep : G.step s (.run n answer) = some t) :
    G.rank w t < G.rank w s := by
  rcases (step_run hstep).1 with hmem | ⟨htodo, hfed⟩
  · exact rank_lt_of_source hreach hstep hmem
  · exact hw.rank_lt_of_fed hstep htodo hfed

/-- When a walk begins, the sources and what they feed can run. -/
theorem rank_begin_le (w : ν → ℕ) (hstep : G.step s .begin = some t) :
    G.rank w t ≤ G.sources.length + G.sourceWeight w := by
  obtain ⟨⟨-, hstreams⟩, rfl⟩ := step_begin hstep
  have hnone : fedWeight w s.stream = 0 := by simp [fedWeight, hstreams]
  simp only [rank, hnone]
  split
  · exact Nat.add_le_add_left (Nat.zero_le _) _
  · exact le_rfl

theorem Acyclic.length_runs_le (hw : G.Acyclic w)
    (hreach : G.walks.Reachable s) {runs : List (ν × ε)}
    (hexec : G.walks.exec s (runs.map fun r => .run r.1 r.2) = some t) :
    G.rank w t + runs.length ≤ G.rank w s := by
  induction runs generalizing s with
  | nil =>
      rw [List.map_nil, TransitionSystem.exec_nil, Option.some.injEq]
        at hexec
      exact (congrArg (G.rank w) hexec).ge
  | cons r runs ih =>
      rw [List.map_cons, TransitionSystem.exec_cons,
        Option.bind_eq_some_iff] at hexec
      obtain ⟨u, hstep, hrest⟩ := hexec
      have hlt := hw.rank_lt hreach hstep
      have htail := ih (hreach.step hstep) hrest
      rw [List.length_cons]
      omega

/-- In a walk from any state in which one can begin, no more nodes run than
there are sources and their next nodes weigh. -/
theorem Acyclic.length_walk_le (hw : G.Acyclic w)
    (hreach : G.walks.Reachable s) {runs : List (ν × ε)}
    (hexec : G.walks.exec s (walk runs) = some t) :
    runs.length ≤ G.sources.length + G.sourceWeight w := by
  rw [walk, TransitionSystem.exec_cons, Option.bind_eq_some_iff] at hexec
  obtain ⟨u, hbegin, hrest⟩ := hexec
  have hruns := hw.length_runs_le (hreach.step hbegin) hrest
  have hrank := rank_begin_le w hbegin
  omega

end NodeGraph
