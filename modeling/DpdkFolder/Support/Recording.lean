import DpdkFolder.Support.Fairness

/-!
# Recorded observations

A recording system does what a given system does and also keeps a list of
observations, which its steps extend.  It serves as a history variable:
properties of what has happened so far become invariants.  Its runs and its
schedules are those of the given system.
-/

namespace TransitionSystem

variable {σ α ι ω : Type*}

/-- The system that keeps what `obs` observes of its steps. -/
def recording (T : TransitionSystem σ α) (obs : σ → α → List ω) :
    TransitionSystem (σ × List ω) α where
  start := (T.start, [])
  step s a := (T.step s.1 a).map fun t => (t, s.2 ++ obs s.1 a)

variable {T : TransitionSystem σ α} {obs : σ → α → List ω}

theorem recording_step_iff {s u : σ × List ω} {a : α} :
    (T.recording obs).step s a = some u ↔
      T.step s.1 a = some u.1 ∧ u.2 = s.2 ++ obs s.1 a := by
  obtain ⟨t, log⟩ := u
  simp only [recording, Option.map_eq_some_iff, Prod.mk.injEq]
  constructor
  · rintro ⟨v, hv, rfl, rfl⟩
    exact ⟨hv, rfl⟩
  · rintro ⟨ht, rfl⟩
    exact ⟨t, ht, rfl, rfl⟩

/-- A run of the given system is recorded in one way. -/
theorem exists_recording_exec (obs : σ → α → List ω) {s t : σ} {as : List α}
    (h : T.exec s as = some t) (log : List ω) :
    ∃ log', (T.recording obs).exec (s, log) as = some (t, log') := by
  induction as generalizing s log with
  | nil =>
      simp only [exec_nil, Option.some.injEq] at h
      exact ⟨log, by rw [h, exec_nil]⟩
  | cons a as ih =>
      simp only [exec_cons, Option.bind_eq_some_iff] at h
      obtain ⟨u, hsu, hut⟩ := h
      obtain ⟨log', hlog'⟩ := ih hut (log ++ obs s a)
      refine ⟨log', ?_⟩
      have hstep : (T.recording obs).step (s, log) a =
          some (u, log ++ obs s a) := recording_step_iff.mpr ⟨hsu, rfl⟩
      rw [exec_cons, hstep, Option.bind_some, hlog']

theorem recording_attempt (s : σ × List ω) (a : α) :
    ((T.recording obs).attempt s a).1 = T.attempt s.1 a := by
  cases h : T.step s.1 a with
  | none =>
      have hstep : (T.recording obs).step s a = none := by
        simp [recording, h]
      rw [attempt_of_none h, attempt_of_none hstep]
  | some t =>
      have hstep : (T.recording obs).step s a = some (t, s.2 ++ obs s.1 a) :=
        recording_step_iff.mpr ⟨h, rfl⟩
      rw [attempt_of_some h, attempt_of_some hstep]

/-- The schedule of a recording system leads through the states of the given
one. -/
theorem recording_along (obs : σ → α → List ω) (sched : ℕ → α) (n : ℕ) :
    ((T.recording obs).along sched n).1 = T.along sched n := by
  induction n with
  | zero => rfl
  | succ n ih => rw [along, recording_attempt, ih, along]

end TransitionSystem
