import Mathlib.Data.List.Induction

/-!
# Loops

A loop over a list whose body may fail, and a loop that runs as long as a
condition holds.  Each has a rule by which an invariant is carried from its
start to its end and the loop is seen to get there.
-/

namespace Loop

variable {α σ : Type*}

/-- The rule for a loop over a list: the invariant speaks of the elements seen
so far, and the body succeeds and keeps it for the next one. -/
theorem exists_foldlM {f : σ → α → Option σ} {xs : List α}
    (Inv : List α → σ → Prop)
    (hstep : ∀ seen x, (seen ++ [x]).IsPrefix xs → ∀ s, Inv seen s →
      ∃ t, f s x = some t ∧ Inv (seen ++ [x]) t)
    {s : σ} (hs : Inv [] s) : ∃ t, xs.foldlM f s = some t ∧ Inv xs t := by
  induction xs using List.reverseRecOn with
  | nil => exact ⟨s, rfl, hs⟩
  | append_singleton xs x ih =>
      have hseen : ∃ t, xs.foldlM f s = some t ∧ Inv xs t := by
        apply ih
        intro seen y hfirst
        exact hstep seen y (hfirst.trans (List.prefix_append xs [x]))
      obtain ⟨t, hloop, ht⟩ := hseen
      obtain ⟨u, hbody, hu⟩ := hstep xs x (List.prefix_refl _) t ht
      refine ⟨u, ?_, hu⟩
      simp [List.foldlM_append, hloop, hbody]

/-- Run the body as long as the condition holds, at most `fuel` times.  There
is no result if the body has none or the fuel is used up before the condition
fails. -/
def runWhile (cond : σ → Bool) (body : σ → Option σ) : ℕ → σ → Option σ
  | 0, s => if cond s then none else some s
  | fuel + 1, s =>
      if cond s then (body s).bind (runWhile cond body fuel) else some s

/-- More fuel does not change a result. -/
theorem runWhile_of_le {cond : σ → Bool} {body : σ → Option σ}
    {fuel fuel' : ℕ} {s t : σ} (h : runWhile cond body fuel s = some t)
    (hle : fuel ≤ fuel') : runWhile cond body fuel' s = some t := by
  induction fuel' generalizing fuel s with
  | zero =>
      obtain rfl := Nat.le_zero.mp hle
      exact h
  | succ fuel' ih =>
      cases hgo : cond s with
      | false =>
          have hstop : runWhile cond body fuel s = some s := by
            cases fuel <;> simp [runWhile, hgo]
          rw [← h, hstop]
          simp [runWhile, hgo]
      | true =>
          cases fuel with
          | zero => simp [runWhile, hgo] at h
          | succ fuel =>
              simp only [runWhile, hgo, if_true] at h ⊢
              obtain ⟨u, hbody, hrest⟩ := Option.bind_eq_some_iff.mp h
              rw [hbody, Option.bind_some]
              exact ih hrest (Nat.le_of_succ_le_succ hle)

/-- The rule for such a loop: the body keeps the invariant and lowers the
variant, and the invariant holds where the condition fails. -/
theorem exists_runWhile {cond : σ → Bool} {body : σ → Option σ}
    (Inv : σ → Prop) (variant : σ → ℕ)
    (hstep : ∀ s, Inv s → cond s = true →
      ∃ t, body s = some t ∧ Inv t ∧ variant t < variant s)
    {fuel : ℕ} {s : σ} (hs : Inv s) (hfuel : variant s ≤ fuel) :
    ∃ t, runWhile cond body fuel s = some t ∧ Inv t ∧ cond t = false := by
  induction fuel generalizing s with
  | zero =>
      have hstop : cond s = false := by
        by_contra hgo
        obtain ⟨t, -, -, hlt⟩ := hstep s hs (by simpa using hgo)
        omega
      exact ⟨s, by simp [runWhile, hstop], hs, hstop⟩
  | succ fuel ih =>
      cases hgo : cond s with
      | false => exact ⟨s, by simp [runWhile, hgo], hs, hgo⟩
      | true =>
          obtain ⟨t, hbody, ht, hlt⟩ := hstep s hs hgo
          obtain ⟨u, hloop, hu, hstop⟩ := ih ht (by omega)
          exact ⟨u, by simp [runWhile, hgo, hbody, hloop], hu, hstop⟩

end Loop
