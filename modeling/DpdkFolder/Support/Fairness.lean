import Mathlib.Order.WellFounded
import DpdkFolder.Support.TransitionSystem

/-!
# Progress along fair schedules

A schedule names the label that is tried at each moment; a label that is
disabled then changes nothing.  Labels belong to tasks, and a schedule is fair
if every task is tried again and again, however long the waits.

`LeadsTo` says of two properties of states that along every fair schedule the
first is followed by the second.  The basic rule needs a task whose steps
bring the second property about while no other step destroys the first; the
other rules compose such arguments, along a chain, over a family, or by
induction on a rank.  `leadsTo_of_helper` is what a termination proof usually
uses: every state has a task that lowers the rank, and until it is tried the
other tasks lower the rank as well or leave rank and task alone.
`leadsTo_of_worker` is the case of a helper that is always the same task.
-/

namespace TransitionSystem

variable {σ α ι : Type*}

/-- Try a label; if it is disabled nothing happens. -/
def attempt (T : TransitionSystem σ α) (s : σ) (a : α) : σ :=
  (T.step s a).getD s

/-- The states along a schedule. -/
def along (T : TransitionSystem σ α) (sched : ℕ → α) : ℕ → σ
  | 0 => T.start
  | n + 1 => T.attempt (T.along sched n) (sched n)

/-- Every task is tried again after every moment. -/
def Fair (task : α → ι) (sched : ℕ → α) : Prop :=
  ∀ i n, ∃ m, n ≤ m ∧ task (sched m) = i

/-- Along every fair schedule a state with `P` is followed by one with `Q`,
which may be the same. -/
def LeadsTo (T : TransitionSystem σ α) (task : α → ι) (P Q : σ → Prop) :
    Prop :=
  ∀ sched, Fair task sched → ∀ n, P (T.along sched n) →
    ∃ m, n ≤ m ∧ Q (T.along sched m)

variable {T : TransitionSystem σ α} {task : α → ι} {P Q R : σ → Prop}

/-! ## Schedules -/

theorem attempt_of_some {s t : σ} {a : α} (h : T.step s a = some t) :
    T.attempt s a = t := by
  rw [attempt, h, Option.getD_some]

theorem attempt_of_none {s : σ} {a : α} (h : T.step s a = none) :
    T.attempt s a = s := by
  rw [attempt, h, Option.getD_none]

theorem Reachable.attempt {s : σ} (hs : T.Reachable s) (a : α) :
    T.Reachable (T.attempt s a) := by
  cases h : T.step s a with
  | none => rwa [attempt_of_none h]
  | some t =>
      rw [attempt_of_some h]
      exact hs.step h

theorem reachable_along (sched : ℕ → α) (n : ℕ) :
    T.Reachable (T.along sched n) := by
  induction n with
  | zero => exact reachable_start
  | succ n ih => exact ih.attempt (sched n)

/-- A property that no step destroys holds from some moment on if it holds
at that moment. -/
theorem along_of_stable
    (hstable : ∀ s a t, T.Reachable s → Q s → T.step s a = some t → Q t)
    {sched : ℕ → α} {n m : ℕ} (hn : Q (T.along sched n)) (hle : n ≤ m) :
    Q (T.along sched m) := by
  induction m, hle using Nat.le_induction with
  | base => exact hn
  | succ m _ ih =>
      have hreach : T.Reachable (T.along sched m) := reachable_along sched m
      change Q (T.attempt (T.along sched m) (sched m))
      cases h : T.step (T.along sched m) (sched m) with
      | none => rwa [attempt_of_none h]
      | some t =>
          rw [attempt_of_some h]
          exact hstable _ _ t hreach ih h

/-- The schedule that goes through a list of labels again and again. -/
def roundRobin (as : List α) (hne : as ≠ []) (n : ℕ) : α :=
  as.get ⟨n % as.length, Nat.mod_lt n (List.length_pos_of_ne_nil hne)⟩

theorem fair_roundRobin {as : List α} (hne : as ≠ [])
    (hall : ∀ i, ∃ a ∈ as, task a = i) : Fair task (roundRobin as hne) := by
  intro i n
  obtain ⟨a, ha, hi⟩ := hall i
  obtain ⟨k, hk, rfl⟩ := List.getElem_of_mem ha
  have hlen : 0 < as.length := List.length_pos_of_ne_nil hne
  refine ⟨as.length * n + k, ?_, ?_⟩
  · exact (Nat.le_mul_of_pos_left n hlen).trans (Nat.le_add_right _ k)
  · have hmod : (as.length * n + k) % as.length = k := by
      rw [Nat.mul_add_mod, Nat.mod_eq_of_lt hk]
    rw [← hi, roundRobin]
    simp only [hmod, List.get_eq_getElem]

/-! ## Rules -/

theorem leadsTo_of_imp (h : ∀ s, T.Reachable s → P s → Q s) :
    T.LeadsTo task P Q :=
  fun sched _ n hn => ⟨n, le_rfl, h _ (reachable_along sched n) hn⟩

theorem LeadsTo.trans (hpq : T.LeadsTo task P Q) (hqr : T.LeadsTo task Q R) :
    T.LeadsTo task P R := by
  intro sched hfair n hn
  obtain ⟨m, hnm, hm⟩ := hpq sched hfair n hn
  obtain ⟨k, hmk, hk⟩ := hqr sched hfair m hm
  exact ⟨k, hnm.trans hmk, hk⟩

theorem LeadsTo.or (hp : T.LeadsTo task P R) (hq : T.LeadsTo task Q R) :
    T.LeadsTo task (fun s => P s ∨ Q s) R := by
  intro sched hfair n hn
  rcases hn with hn | hn
  · exact hp sched hfair n hn
  · exact hq sched hfair n hn

theorem leadsTo_exists {κ : Type*} {F : κ → σ → Prop}
    (h : ∀ x, T.LeadsTo task (F x) Q) :
    T.LeadsTo task (fun s => ∃ x, F x s) Q := by
  rintro sched hfair n ⟨x, hx⟩
  exact h x sched hfair n hx

/-- One task brings `Q` about, and until then no step destroys `P`. -/
theorem leadsTo_of_task (i : ι)
    (hstay : ∀ s a t, T.Reachable s → P s → T.step s a = some t →
      Q t ∨ P t)
    (hhelp : ∀ s a, T.Reachable s → P s → task a = i →
      ∃ t, T.step s a = some t ∧ Q t) : T.LeadsTo task P Q := by
  intro sched hfair n hn
  by_contra hnever
  push Not at hnever
  -- without `Q` the property `P` lasts until the task is tried
  have hlasts : ∀ m, n ≤ m → P (T.along sched m) := by
    intro m hle
    induction m, hle using Nat.le_induction with
    | base => exact hn
    | succ m hle ih =>
        have hnext := hnever (m + 1) (Nat.le_succ_of_le hle)
        change ¬Q (T.attempt _ _) at hnext
        change P (T.attempt _ _)
        cases h : T.step (T.along sched m) (sched m) with
        | none => rwa [attempt_of_none h]
        | some t =>
            rw [attempt_of_some h] at hnext ⊢
            exact (hstay _ _ t (reachable_along sched m) ih h).resolve_left
              hnext
  obtain ⟨m, hle, hm⟩ := hfair i n
  obtain ⟨t, hstep, ht⟩ :=
    hhelp _ _ (reachable_along sched m) (hlasts m hle) hm
  refine hnever (m + 1) (Nat.le_succ_of_le hle) ?_
  change Q (T.attempt _ _)
  rwa [attempt_of_some hstep]

/-- Induction on a rank. -/
theorem leadsTo_of_rank {ρ : Type*} [LT ρ] [WellFoundedLT ρ] (rank : σ → ρ)
    (h : ∀ r, T.LeadsTo task (fun s => P s ∧ rank s = r)
      fun s => Q s ∨ (P s ∧ rank s < r)) : T.LeadsTo task P Q := by
  intro sched hfair n hn
  induction hr : rank (T.along sched n) using WellFoundedLT.induction
    generalizing n with
  | ind r ih =>
      obtain ⟨m, hnm, hm | ⟨hm, hlt⟩⟩ := h r sched hfair n ⟨hn, hr⟩
      · exact ⟨m, hnm, hm⟩
      · obtain ⟨k, hmk, hk⟩ := ih _ hlt m hm rfl
        exact ⟨k, hnm.trans hmk, hk⟩

/-- Every state has a helper, a task that is enabled and lowers the rank;
the steps of the other tasks lower the rank or keep both rank and helper. -/
theorem leadsTo_of_helper {ρ : Type*} [LT ρ] [WellFoundedLT ρ]
    (rank : σ → ρ) (helper : σ → ι)
    (henabled : ∀ s a, T.Reachable s → P s → task a = helper s →
      T.step s a ≠ none)
    (hstep : ∀ s a t, T.Reachable s → P s → T.step s a = some t →
      Q t ∨ (P t ∧ (rank t < rank s ∨
        (rank t = rank s ∧ helper t = helper s ∧ task a ≠ helper s)))) :
    T.LeadsTo task P Q := by
  refine leadsTo_of_rank rank fun r => ?_
  have hhelper : ∀ i, T.LeadsTo task
      (fun s => P s ∧ rank s = r ∧ helper s = i)
      fun s => Q s ∨ (P s ∧ rank s < r) := by
    intro i
    refine leadsTo_of_task i ?_ ?_
    · rintro s a t hreach ⟨hs, rfl, rfl⟩ hst
      rcases hstep s a t hreach hs hst with
        hq | ⟨ht, hlt | ⟨hrank, hsame, -⟩⟩
      · exact Or.inl (Or.inl hq)
      · exact Or.inl (Or.inr ⟨ht, hlt⟩)
      · exact Or.inr ⟨ht, hrank, hsame⟩
    · rintro s a hreach ⟨hs, rfl, rfl⟩ hi
      obtain ⟨t, ht⟩ :=
        Option.ne_none_iff_exists'.mp (henabled s a hreach hs hi)
      refine ⟨t, ht, ?_⟩
      rcases hstep s a t hreach hs ht with hq | ⟨hp, hlt | ⟨-, -, hne⟩⟩
      · exact Or.inl hq
      · exact Or.inr ⟨hp, hlt⟩
      · exact absurd hi hne
  exact (leadsTo_of_imp fun s _ hs => ⟨helper s, hs.1, hs.2, rfl⟩).trans
    (leadsTo_exists hhelper)

/-- One task lowers the rank whenever it moves; the other tasks lower the rank
as well or leave it alone. -/
theorem leadsTo_of_worker {ρ : Type*} [LT ρ] [WellFoundedLT ρ] (rank : σ → ρ)
    (i : ι)
    (henabled : ∀ s a, T.Reachable s → P s → ¬Q s → task a = i →
      T.step s a ≠ none)
    (hstep : ∀ s a t, T.Reachable s → P s → ¬Q s → T.step s a = some t →
      Q t ∨ (P t ∧ (rank t < rank s ∨ (rank t = rank s ∧ task a ≠ i)))) :
    T.LeadsTo task P Q := by
  have hwork : T.LeadsTo task (fun s => P s ∧ ¬Q s) Q := by
    refine leadsTo_of_helper rank (fun _ => i)
      (fun s a hreach hs => henabled s a hreach hs.1 hs.2) ?_
    intro s a t hreach hs hst
    refine (em (Q t)).imp_right fun hq => ?_
    obtain ⟨ht, hrank⟩ := (hstep s a t hreach hs.1 hs.2 hst).resolve_left hq
    exact ⟨⟨ht, hq⟩, hrank.imp_right fun ⟨hsame, hother⟩ =>
      ⟨hsame, rfl, hother⟩⟩
  refine (leadsTo_of_imp fun s _ hs => ?_).trans
    (LeadsTo.or hwork (leadsTo_of_imp fun _ _ hq => hq))
  exact (em (Q s)).symm.imp_left fun hq => ⟨hs, hq⟩

/-- What every start leads to is reached along every fair schedule. -/
theorem LeadsTo.eventually (h : T.LeadsTo task P Q) (hstart : P T.start)
    {sched : ℕ → α} (hfair : Fair task sched) :
    ∃ n, Q (T.along sched n) := by
  obtain ⟨n, -, hn⟩ := h sched hfair 0 hstart
  exact ⟨n, hn⟩

/-- If no step destroys it either, it holds from some moment on. -/
theorem LeadsTo.settles (h : T.LeadsTo task P Q) (hstart : P T.start)
    (hstable : ∀ s a t, T.Reachable s → Q s → T.step s a = some t → Q t)
    {sched : ℕ → α} (hfair : Fair task sched) :
    ∃ n, ∀ m, n ≤ m → T.Reachable (T.along sched m) ∧ Q (T.along sched m) := by
  obtain ⟨n, hn⟩ := h.eventually hstart hfair
  exact ⟨n, fun m hle =>
    ⟨reachable_along sched m, along_of_stable hstable hn hle⟩⟩

end TransitionSystem
