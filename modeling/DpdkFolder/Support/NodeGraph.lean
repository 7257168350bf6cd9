import Mathlib.Data.Fintype.Defs
import Mathlib.Logic.Function.Basic
import DpdkFolder.Support.TransitionSystem

/-!
# Graphs of nodes with streams

Nodes pass objects along numbered edges.  What is passed to a node waits in
its stream, and a node that runs is given its whole stream.  A walk runs each
source once, and then nodes whose streams are not empty until there are none
left; it ends in an idle state, where the next walk begins.

The choice of the next node is part of the label, so statements about all
runs hold for every order in which a walk may visit the nodes.
-/

/-- A graph over nodes `ν` that passes objects of `α`.  What a node does
depends on the state `σ` of the program and on an answer `ε` of its
environment; it returns the objects it enqueues, by the number of the edge. -/
structure NodeGraph (ν α σ ε : Type*) where
  start : σ
  sources : List ν
  nextNodes : ν → List ν
  process : ν → List α → ε → σ → Option (σ × List (ℕ × List α))

namespace NodeGraph

/-- The program, the pending objects of each node, and the sources that the
current walk has yet to run. -/
structure State (ν α σ : Type*) where
  prog : σ
  stream : ν → List α
  todo : List ν

/-- A walk begins, or a node runs in the current walk. -/
inductive Label (ν ε : Type*)
  | begin
  | run (n : ν) (answer : ε)

variable {ν α σ ε : Type*} [DecidableEq ν]

/-- Append the objects enqueued by a node with the given edges, in order. -/
def deliver (edges : List ν) (stream : ν → List α)
    (out : List (ℕ × List α)) : ν → List α :=
  out.foldl (fun stream o =>
    match edges[o.1]? with
    | some n => Function.update stream n (stream n ++ o.2)
    | none => stream) stream

@[simp] theorem deliver_nil (edges : List ν) (stream : ν → List α) :
    deliver edges stream [] = stream := rfl

theorem deliver_append (edges : List ν) (stream : ν → List α)
    (out out' : List (ℕ × List α)) :
    deliver edges stream (out ++ out') =
      deliver edges (deliver edges stream out) out' := List.foldl_append

theorem deliver_singleton {edges : List ν} {k : ℕ} {n : ν}
    (h : edges[k]? = some n) (stream : ν → List α) (xs : List α) :
    deliver edges stream [(k, xs)] =
      Function.update stream n (stream n ++ xs) := by
  simp [deliver, h]

/-- Enqueueing only what is there makes no difference. -/
theorem deliver_guarded {edges : List ν} {k : ℕ} {n : ν}
    (h : edges[k]? = some n) (stream : ν → List α) (xs : List α) :
    deliver edges stream (if xs.length ≠ 0 then [(k, xs)] else []) =
      Function.update stream n (stream n ++ xs) := by
  by_cases hxs : xs.length ≠ 0
  · rw [if_pos hxs, deliver_singleton h]
  · have hnil : xs = [] := by simpa using hxs
    rw [if_neg hxs, hnil, deliver_nil, List.append_nil,
      Function.update_eq_self]

/-- Nodes to which no edge leads are left alone. -/
theorem deliver_of_notMem {edges : List ν} {n : ν} (h : n ∉ edges)
    (stream : ν → List α) (out : List (ℕ × List α)) :
    deliver edges stream out n = stream n := by
  induction out generalizing stream with
  | nil => rfl
  | cons o out ih =>
      rw [deliver, List.foldl_cons, ← deliver, ih]
      cases hedge : edges[o.1]? with
      | none => rfl
      | some m =>
          have hne : n ≠ m := by
            rintro rfl
            exact h (List.mem_of_getElem? hedge)
          exact Function.update_of_ne hne _ _

/-- No walk is under way. -/
def State.Idle (s : State ν α σ) : Prop :=
  s.todo = [] ∧ ∀ n, s.stream n = []

/-- The node may run next. -/
def State.Runnable (s : State ν α σ) (n : ν) : Prop :=
  n ∈ s.todo ∨ (s.todo = [] ∧ s.stream n ≠ [])

omit [DecidableEq ν] in
/-- As long as a walk is under way some node may run. -/
theorem State.exists_runnable {s : State ν α σ} (h : ¬s.Idle) :
    ∃ n, s.Runnable n := by
  by_contra hnone
  push Not at hnone
  have htodo : s.todo = [] :=
    List.eq_nil_iff_forall_not_mem.mpr fun n hn => hnone n (Or.inl hn)
  refine h ⟨htodo, fun n => ?_⟩
  by_contra hfed
  exact hnone n (Or.inr ⟨htodo, hfed⟩)

instance [Fintype ν] (s : State ν α σ) : Decidable s.Idle :=
  haveI : ∀ n, Decidable (s.stream n = []) := fun _ =>
    decidable_of_iff _ List.isEmpty_iff
  haveI : Decidable (s.todo = []) := decidable_of_iff _ List.isEmpty_iff
  inferInstanceAs (Decidable (_ ∧ _))

instance (s : State ν α σ) (n : ν) : Decidable (s.Runnable n) :=
  haveI : Decidable (s.stream n = []) := decidable_of_iff _ List.isEmpty_iff
  haveI : Decidable (s.todo = []) := decidable_of_iff _ List.isEmpty_iff
  inferInstanceAs (Decidable (_ ∨ (_ ∧ ¬_)))

variable [Fintype ν]

/-- One step of a walk.  The stream of the node is cleared once the node has
seen it. -/
def step (G : NodeGraph ν α σ ε) (s : State ν α σ) :
    Label ν ε → Option (State ν α σ)
  | .begin => if s.Idle then some { s with todo := G.sources } else none
  | .run n answer =>
      if s.Runnable n then
        (G.process n (s.stream n) answer s.prog).map fun r =>
          { prog := r.1
            stream := deliver (G.nextNodes n)
              (Function.update s.stream n []) r.2
            todo := s.todo.erase n }
      else none

/-- The graph before the first walk. -/
def launch (G : NodeGraph ν α σ ε) : State ν α σ :=
  ⟨G.start, fun _ => [], []⟩

/-- All sequences of walks. -/
def walks (G : NodeGraph ν α σ ε) :
    TransitionSystem (State ν α σ) (Label ν ε) :=
  ⟨G.launch, G.step⟩

variable {G : NodeGraph ν α σ ε}

theorem step_begin {s t : State ν α σ} (h : G.step s .begin = some t) :
    s.Idle ∧ t = { s with todo := G.sources } := by
  rw [step] at h
  split at h
  · next hidle => exact ⟨hidle, (Option.some.inj h).symm⟩
  · exact nomatch h

theorem step_run {s t : State ν α σ} {n : ν} {answer : ε}
    (h : G.step s (.run n answer) = some t) :
    s.Runnable n ∧ ∃ prog out,
      G.process n (s.stream n) answer s.prog = some (prog, out) ∧
      t = ⟨prog, deliver (G.nextNodes n) (Function.update s.stream n []) out,
        s.todo.erase n⟩ := by
  rw [step] at h
  split at h
  · next hrun =>
      obtain ⟨⟨prog, out⟩, hprocess, hmake⟩ := Option.map_eq_some_iff.mp h
      exact ⟨hrun, prog, out, hprocess, hmake.symm⟩
  · exact nomatch h

/-- A node that may run does what its process says. -/
theorem step_run_of_process {s : State ν α σ} {n : ν} {answer : ε}
    {prog : σ} {out : List (ℕ × List α)} (hrun : s.Runnable n)
    (hprocess : G.process n (s.stream n) answer s.prog = some (prog, out)) :
    G.step s (.run n answer) =
      some ⟨prog, deliver (G.nextNodes n) (Function.update s.stream n []) out,
        s.todo.erase n⟩ := by
  rw [step, if_pos hrun, hprocess]
  rfl

/-- Only sources are run whatever their streams hold. -/
theorem todo_sublist {s : State ν α σ} (h : G.walks.Reachable s) :
    s.todo.Sublist G.sources := by
  refine h.invariant (P := fun s => s.todo.Sublist G.sources)
    (List.nil_sublist _) ?_
  intro s l t _ hs hstep
  cases l with
  | begin =>
      obtain ⟨-, rfl⟩ := step_begin hstep
      exact List.Sublist.refl _
  | run n answer =>
      obtain ⟨-, prog, out, -, rfl⟩ := step_run hstep
      exact List.erase_sublist.trans hs

/-- A node that is no source runs only after the sources have. -/
theorem State.Runnable.todo_eq_nil {s : State ν α σ} {n : ν}
    (h : s.Runnable n) (hreach : G.walks.Reachable s)
    (hn : n ∉ G.sources) : s.todo = [] := by
  obtain hmem | ⟨htodo, -⟩ := h
  · exact absurd ((todo_sublist hreach).subset hmem) hn
  · exact htodo

/-- Nothing waits for a node to which no edge leads. -/
theorem stream_eq_nil {s : State ν α σ} (h : G.walks.Reachable s) {n : ν}
    (hn : ∀ m, n ∉ G.nextNodes m) : s.stream n = [] := by
  refine h.invariant (P := fun s => s.stream n = []) rfl ?_
  intro s l t _ hs hstep
  cases l with
  | begin =>
      obtain ⟨-, rfl⟩ := step_begin hstep
      exact hs
  | run m answer =>
      obtain ⟨-, prog, out, -, rfl⟩ := step_run hstep
      have hkept :=
        deliver_of_notMem (hn m) (Function.update s.stream m []) out
      rw [Function.update_apply, hs, ite_self] at hkept
      exact hkept

/-- A node to which no edge leads runs only as a source. -/
theorem State.Runnable.mem_todo {s : State ν α σ} {n : ν}
    (h : s.Runnable n) (hreach : G.walks.Reachable s)
    (hn : ∀ m, n ∉ G.nextNodes m) : n ∈ s.todo := by
  obtain hmem | ⟨-, hstream⟩ := h
  · exact hmem
  · exact absurd (stream_eq_nil hreach hn) hstream

end NodeGraph
