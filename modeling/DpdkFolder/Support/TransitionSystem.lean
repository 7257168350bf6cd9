import Mathlib.Data.List.Basic
import Mathlib.Tactic.Common

/-!
# Labelled transition systems with explicit choices

A transition system here is a partial step function.  A label carries every
choice that the program does not make itself: which party moves next and what
its environment answers.  A run is a list of labels, so statements about
every interleaving are statements about every list.

Two rules carry the later developments.  `Reachable.invariant` packages the
induction over runs once; a step hypothesis may use reachability of the source
state, so invariants can be proved in layers.  `meetsAlong_iff_good` turns a
state property that is lost by exactly the steps violating a condition, and
never regained, into a characterization of the runs that meet it;
`meetsAlong_iff_kept` is the case in which one equivalence says both.
-/

/-- A system over states `σ` whose nondeterminism is resolved by labels `α`.
A label on which `step` returns `none` is disabled in that state. -/
structure TransitionSystem (σ α : Type*) where
  start : σ
  step : σ → α → Option σ

namespace TransitionSystem

variable {σ α : Type*}

/-- Perform the labels of a list one after another. -/
def exec (T : TransitionSystem σ α) (s : σ) (as : List α) : Option σ :=
  as.foldlM T.step s

/-- A state in which some run from the start ends. -/
def Reachable (T : TransitionSystem σ α) (s : σ) : Prop :=
  ∃ as, T.exec T.start as = some s

/-- Every step of the run of `as` from `s` satisfies `cond`, a condition on
the state before the step and on the label. -/
def MeetsAlong (T : TransitionSystem σ α) (cond : σ → α → Prop) :
    σ → List α → Prop
  | _, [] => True
  | s, a :: as => cond s a ∧
      ∀ s', T.step s a = some s' → MeetsAlong T cond s' as

variable {T : TransitionSystem σ α}

instance decidableMeetsAlong {cond : σ → α → Prop}
    [∀ s a, Decidable (cond s a)] :
    (s : σ) → (as : List α) → Decidable (T.MeetsAlong cond s as)
  | _, [] => isTrue trivial
  | s, a :: as =>
      have hrest : Decidable
          (∀ s', T.step s a = some s' → T.MeetsAlong cond s' as) :=
        match (motive := (o : Option σ) → Decidable
          (∀ s', o = some s' → T.MeetsAlong cond s' as)) T.step s a with
        | none => isTrue nofun
        | some t =>
            have hnext : Decidable (T.MeetsAlong cond t as) :=
              decidableMeetsAlong t as
            decidable_of_iff (T.MeetsAlong cond t as) (by simp)
      inferInstanceAs (Decidable (_ ∧ _))

@[simp] theorem exec_nil (s : σ) : T.exec s [] = some s := rfl

@[simp] theorem exec_cons (s : σ) (a : α) (as : List α) :
    T.exec s (a :: as) = (T.step s a).bind fun s' => T.exec s' as := rfl

theorem exec_append (s : σ) (as bs : List α) :
    T.exec s (as ++ bs) = (T.exec s as).bind fun s' => T.exec s' bs :=
  List.foldlM_append

theorem exec_trans {s t u : σ} {as bs : List α}
    (hst : T.exec s as = some t) (htu : T.exec t bs = some u) :
    T.exec s (as ++ bs) = some u := by
  simp [exec_append, hst, htu]

theorem exec_singleton {s t : σ} {a : α} (h : T.step s a = some t) :
    T.exec s [a] = some t := by
  simp [h]

theorem exec_snoc {s t u : σ} {as : List α} {a : α}
    (hst : T.exec s as = some t) (htu : T.step t a = some u) :
    T.exec s (as ++ [a]) = some u :=
  exec_trans hst (exec_singleton htu)

theorem reachable_start : T.Reachable T.start := ⟨[], rfl⟩

theorem Reachable.exec {s t : σ} {as : List α}
    (hs : T.Reachable s) (h : T.exec s as = some t) : T.Reachable t := by
  obtain ⟨bs, hbs⟩ := hs
  exact ⟨bs ++ as, exec_trans hbs h⟩

theorem Reachable.step {s t : σ} {a : α}
    (hs : T.Reachable s) (h : T.step s a = some t) : T.Reachable t :=
  hs.exec (exec_singleton h)

/-- What a single step preserves, a whole run preserves. -/
theorem exec_invariant {P : σ → Prop}
    (hstep : ∀ s a t, P s → T.step s a = some t → P t)
    {s t : σ} {as : List α} (hs : P s) (h : T.exec s as = some t) : P t := by
  induction as generalizing s with
  | nil =>
      simp only [exec_nil, Option.some.injEq] at h
      exact h ▸ hs
  | cons a as ih =>
      simp only [exec_cons, Option.bind_eq_some_iff] at h
      obtain ⟨u, hsu, hut⟩ := h
      exact ih (hstep s a u hs hsu) hut

/-- The invariant rule.  A step hypothesis may use that the source state is
itself reachable, hence every invariant established before. -/
theorem Reachable.invariant {P : σ → Prop}
    (hstart : P T.start)
    (hstep : ∀ s a t, T.Reachable s → P s → T.step s a = some t → P t)
    {s : σ} (h : T.Reachable s) : P s := by
  obtain ⟨as, has⟩ := h
  have hboth : T.Reachable s ∧ P s :=
    exec_invariant (P := fun u => T.Reachable u ∧ P u)
      (fun u a v hu huv => ⟨hu.1.step huv, hstep u a v hu.1 hu.2 huv⟩)
      ⟨reachable_start, hstart⟩ has
  exact hboth.2

/-- The invariant rule for the runs all of whose labels are of a kind. -/
theorem exec_invariant_of_forall {P : σ → Prop} {C : α → Prop}
    (hstep : ∀ s a t, T.Reachable s → P s → C a → T.step s a = some t → P t)
    {s t : σ} {as : List α} (hreach : T.Reachable s) (hs : P s)
    (has : ∀ a ∈ as, C a) (h : T.exec s as = some t) : P t := by
  induction as generalizing s with
  | nil =>
      simp only [exec_nil, Option.some.injEq] at h
      exact h ▸ hs
  | cons a as ih =>
      simp only [exec_cons, Option.bind_eq_some_iff] at h
      obtain ⟨u, hsu, hut⟩ := h
      obtain ⟨ha, hrest⟩ := List.forall_mem_cons.mp has
      exact ih (hreach.step hsu) (hstep s a u hreach hs ha hsu) hrest hut

/-- A system each of whose steps is one of another system reaches no other
states. -/
theorem Reachable.of_steps {β : Type*} {U : TransitionSystem σ β}
    (hstart : T.start = U.start)
    (hstep : ∀ s a t, T.step s a = some t → ∃ b, U.step s b = some t)
    {s : σ} (h : T.Reachable s) : U.Reachable s := by
  apply h.invariant (P := U.Reachable)
  · rw [hstart]
    exact reachable_start
  · intro s a t _ hs hst
    obtain ⟨b, hb⟩ := hstep s a t hst
    exact hs.step hb

/-- If some continuation lowers the rank as long as `Q` does not hold, a run
can be continued until it does. -/
theorem Reachable.exists_exec_of_rank {P Q : σ → Prop} (rank : σ → ℕ)
    (hprogress : ∀ s, T.Reachable s → P s → ¬Q s →
      ∃ as t, T.exec s as = some t ∧ P t ∧ rank t < rank s)
    {s : σ} (hreach : T.Reachable s) (hs : P s) :
    ∃ as t, T.exec s as = some t ∧ Q t := by
  induction hn : rank s using Nat.strongRecOn generalizing s with
  | ind n ih =>
      by_cases hq : Q s
      · exact ⟨[], s, rfl, hq⟩
      · obtain ⟨as, t, hexec, ht, hlt⟩ := hprogress s hreach hs hq
        obtain ⟨bs, u, hrest, hu⟩ :=
          ih (rank t) (hn ▸ hlt) (hreach.exec hexec) ht rfl
        exact ⟨as ++ bs, u, exec_trans hexec hrest, hu⟩

/-- If each step of a kind lowers a rank and no step raises it, a run has no
more steps of that kind than the rank allows. -/
theorem countP_add_rank_le (rank : σ → ℕ) (kind : α → Bool)
    (hstep : ∀ s a t, T.Reachable s → T.step s a = some t →
      rank t + (if kind a = true then 1 else 0) ≤ rank s)
    {s t : σ} {as : List α} (hreach : T.Reachable s)
    (h : T.exec s as = some t) : as.countP kind + rank t ≤ rank s := by
  induction as generalizing s with
  | nil =>
      simp only [exec_nil, Option.some.injEq] at h
      exact h ▸ Nat.le_of_eq (Nat.zero_add _)
  | cons a as ih =>
      simp only [exec_cons, Option.bind_eq_some_iff] at h
      obtain ⟨u, hsu, hut⟩ := h
      have hfirst := hstep s a u hreach hsu
      have hrest := ih (hreach.step hsu) hut
      rw [List.countP_cons]
      omega

@[simp] theorem meetsAlong_nil (cond : σ → α → Prop) (s : σ) :
    T.MeetsAlong cond s [] := trivial

theorem meetsAlong_cons {cond : σ → α → Prop} {s t : σ} {a : α}
    {as : List α} (h : T.step s a = some t) :
    T.MeetsAlong cond s (a :: as) ↔ cond s a ∧ T.MeetsAlong cond t as := by
  simp [MeetsAlong, h]

/-- A condition that holds in every reachable state is met by every run. -/
theorem meetsAlong_of_forall {cond : σ → α → Prop}
    (hcond : ∀ s a, T.Reachable s → cond s a)
    {s : σ} (as : List α) (hreach : T.Reachable s) :
    T.MeetsAlong cond s as := by
  induction as generalizing s with
  | nil => trivial
  | cons a as ih =>
      exact ⟨hcond s a hreach, fun t ht => ih (hreach.step ht)⟩

theorem good_of_exec {G : σ → Prop}
    (hback : ∀ s a t, T.Reachable s → T.step s a = some t → G t → G s)
    {s t : σ} {as : List α} (hreach : T.Reachable s)
    (h : T.exec s as = some t) (ht : G t) : G s := by
  induction as generalizing s with
  | nil =>
      simp only [exec_nil, Option.some.injEq] at h
      exact h ▸ ht
  | cons a as ih =>
      simp only [exec_cons, Option.bind_eq_some_iff] at h
      obtain ⟨u, hsu, hut⟩ := h
      exact hback s a u hreach hsu (ih (hreach.step hsu) hut)

/-- A property that is lost by exactly the steps violating `cond`, and never
regained, holds at the end of a run if and only if the run meets `cond`. -/
theorem meetsAlong_iff_good {cond : σ → α → Prop} {G : σ → Prop}
    (hlose : ∀ s a t, T.Reachable s → G s → T.step s a = some t →
      (cond s a ↔ G t))
    (hback : ∀ s a t, T.Reachable s → T.step s a = some t → G t → G s)
    {s t : σ} {as : List α} (hreach : T.Reachable s) (hs : G s)
    (h : T.exec s as = some t) : T.MeetsAlong cond s as ↔ G t := by
  induction as generalizing s with
  | nil =>
      simp only [exec_nil, Option.some.injEq] at h
      simpa [h] using hs
  | cons a as ih =>
      simp only [exec_cons, Option.bind_eq_some_iff] at h
      obtain ⟨u, hsu, hut⟩ := h
      have hu := hreach.step hsu
      rw [meetsAlong_cons hsu, hlose s a u hreach hs hsu]
      constructor
      · rintro ⟨hgood, hrest⟩
        exact (ih hu hgood hut).mp hrest
      · intro hgood
        have hgoodAt : G u := good_of_exec hback hu hut hgood
        exact ⟨hgoodAt, (ih hu hgoodAt hut).mpr hgood⟩

/-- The usual case: a step leads to a good state exactly if it starts in one
and satisfies the condition. -/
theorem meetsAlong_iff_kept {cond : σ → α → Prop} {G : σ → Prop}
    (hstep : ∀ s a t, T.Reachable s → T.step s a = some t →
      (G t ↔ G s ∧ cond s a))
    {s t : σ} {as : List α} (hreach : T.Reachable s) (hs : G s)
    (h : T.exec s as = some t) : T.MeetsAlong cond s as ↔ G t := by
  refine meetsAlong_iff_good ?_ ?_ hreach hs h
  · intro s a t hreach hs hst
    rw [hstep s a t hreach hst]
    exact (and_iff_right hs).symm
  · intro s a t hreach hst ht
    exact ((hstep s a t hreach hst).mp ht).1

/-- Two systems that do the same wherever a condition holds have the same
runs that meet it. -/
theorem exec_congr {U : TransitionSystem σ α} {cond : σ → α → Prop}
    (hsame : ∀ s a, T.Reachable s → cond s a → T.step s a = U.step s a)
    {s : σ} {as : List α} (hreach : T.Reachable s)
    (h : T.MeetsAlong cond s as) : T.exec s as = U.exec s as := by
  induction as generalizing s with
  | nil => rfl
  | cons a as ih =>
      obtain ⟨hcond, hrest⟩ := h
      rw [exec_cons, exec_cons, ← hsame s a hreach hcond]
      cases hst : T.step s a with
      | none => rfl
      | some t =>
          rw [Option.bind_some, Option.bind_some]
          exact ih (hreach.step hst) (hrest t hst)

/-- They also meet other conditions alike. -/
theorem meetsAlong_congr {U : TransitionSystem σ α} {cond C : σ → α → Prop}
    (hsame : ∀ s a, T.Reachable s → cond s a → T.step s a = U.step s a)
    {s : σ} {as : List α} (hreach : T.Reachable s)
    (h : T.MeetsAlong cond s as) :
    T.MeetsAlong C s as ↔ U.MeetsAlong C s as := by
  induction as generalizing s with
  | nil => rfl
  | cons a as ih =>
      obtain ⟨hcond, hrest⟩ := h
      rw [MeetsAlong, MeetsAlong, ← hsame s a hreach hcond]
      refine and_congr_right fun _ => forall₂_congr fun t hst => ?_
      exact ih (hreach.step hst) (hrest t hst)

end TransitionSystem
