import Mathlib.Data.Fintype.Fin
import DpdkFolder.RcuDpdk.Invariant

/-!
# Safety of the reclamation

What the grace periods give: a dereference always finds a live version, the
replaced versions are freed one by one, each exactly once, the published
version outlives the readers, and no reader sees the values go backwards.
-/

namespace DpdkFolder
namespace RcuDpdk

/-- The replaced version that the writer still has to free. -/
def WriterPc.pending : WriterPc → Option ℕ
  | .syncStart _ old => some old
  | .syncCheck _ old _ => some old
  | .freeOld _ old => some old
  | _ => none

variable {ι : Type*}

theorem Versions.count_freed {s : State ι} {p f k n : ℕ}
    (h : Versions s p f k n) (v : ℕ) :
    (s.heap.freed.map Prod.snd).count v = if v < f then 1 else 0 := by
  rw [h.2.1]
  exact AllocHeap.count_freedInOrder _ f v

/-- The log of frees, counted: all replaced versions except the pending one,
each once, and after the clean-up also the published one. -/
theorem Inv.count_freed {rounds : ℕ} {s : State ι} (h : Inv rounds s)
    (v : ℕ) :
    (s.heap.freed.map Prod.snd).count v =
      if v ∈ s.replaced ∧ s.writer.pending ≠ some v ∨
        v = s.gdata ∧ s.writer = .returned then 1 else 0 := by
  have hwriter := h.writer
  cases hw : s.writer with
  | loopHead i | waitLcores =>
      simp only [WriterOk, hw] at hwriter
      obtain hv : Versions s _ _ _ _ := by
        first | exact hwriter.2 | exact hwriter
      rw [hv.count_freed, hv.2.2.1]
      simp [WriterPc.pending]
  | exchange i new =>
      simp only [WriterOk, hw] at hwriter
      obtain ⟨-, -, hv⟩ := hwriter
      rw [hv.count_freed, hv.2.2.1]
      simp [WriterPc.pending]
  | syncStart i old | freeOld i old =>
      simp only [WriterOk, hw] at hwriter
      obtain ⟨-, rfl, hv⟩ := hwriter
      rw [hv.count_freed, hv.2.2.1]
      have hsplit : v < old ↔ v < old + 1 ∧ old ≠ v := by omega
      simp [WriterPc.pending, hsplit]
  | syncCheck i old token =>
      simp only [WriterOk, hw] at hwriter
      obtain ⟨-, rfl, -, hv⟩ := hwriter
      rw [hv.count_freed, hv.2.2.1]
      have hsplit : v < old ↔ v < old + 1 ∧ old ≠ v := by omega
      simp [WriterPc.pending, hsplit]
  | freeData =>
      simp only [WriterOk, hw] at hwriter
      rw [hwriter.1.count_freed, hwriter.1.2.2.1]
      simp [WriterPc.pending]
  | returned =>
      simp only [WriterOk, hw] at hwriter
      obtain ⟨hp, hf, hk, -⟩ := hwriter
      rw [hf, List.map_append, List.count_append,
        AllocHeap.count_freedInOrder, hk, hp]
      by_cases hlt : v < rounds
      · have hne : rounds ≠ v := by omega
        simp [WriterPc.pending, hlt, hne]
      · by_cases heq : v = rounds
        · simp [WriterPc.pending, heq]
        · have hne : rounds ≠ v := fun hv => heq hv.symm
          simp [WriterPc.pending, hlt, heq, hne]

/-- The published version is among the freed ones only once every reader has
returned. -/
theorem Inv.gdata_live {rounds : ℕ} {s : State ι} (h : Inv rounds s)
    (hfreed : s.gdata ∈ s.heap.freed.map Prod.snd) : AllReturned s := by
  have hwriter := h.writer
  have hlive : ∀ {p f k n : ℕ}, Versions s p f k n → f ≤ p → p < n →
      False := by
    intro p f k n hv hf hn
    rw [hv.1] at hfreed
    exact (hv.of_range hf hn).1 hfreed
  cases hw : s.writer <;> simp only [WriterOk, hw] at hwriter
  case loopHead => exact (hlive hwriter.2 (by omega) (by omega)).elim
  case exchange => exact (hlive hwriter.2.2 (by omega) (by omega)).elim
  case syncStart => exact (hlive hwriter.2.2 (by omega) (by omega)).elim
  case syncCheck => exact (hlive hwriter.2.2.2 (by omega) (by omega)).elim
  case freeOld => exact (hlive hwriter.2.2 (by omega) (by omega)).elim
  case waitLcores => exact (hlive hwriter (by omega) (by omega)).elim
  case freeData => exact hwriter.2
  case returned => exact hwriter.2.2.2

variable [DecidableEq ι] [Fintype ι]

/-- For any readers, any number of writer iterations and every interleaving:
a reader dereferences only a version that has not been freed, every replaced
version other than the one the writer is about to free has been freed exactly
once and that one not at all, the published version stays until all readers
have returned, and each reader's printed values are non-decreasing. -/
theorem reclamation_safe {rounds : ℕ} {s : State ι}
    (h : (rcu ι rounds).Reachable s) :
    (∀ r d, s.readers r = .deref d → d ∉ s.heap.freed.map Prod.snd) ∧
      (∀ v ∈ s.replaced, (s.heap.freed.map Prod.snd).count v =
        if s.writer.pending = some v then 0 else 1) ∧
      (s.gdata ∈ s.heap.freed.map Prod.snd →
        ∀ r, s.readers r = .returned) ∧
      ∀ r, ∃ values : List ℤ, s.printed r = values.map some ∧
        values.Pairwise (· ≤ ·) := by
  have hinv := reachable_inv h
  refine ⟨?_, ?_, hinv.gdata_live, ?_⟩
  · intro r d hpc
    exact (hinv.deref_spec hpc).1
  · intro v hv
    rw [hinv.count_freed v]
    by_cases hpending : s.writer.pending = some v
    · have hnot : s.writer ≠ .returned := by
        intro hw
        rw [hw] at hpending
        cases hpending
      simp [hpending, hnot]
    · simp [hpending, hv]
  · intro r
    obtain ⟨values, heq, hsorted, -⟩ := hinv.printed r
    exact ⟨values, heq, hsorted⟩

/-- A schedule of two readers and one writer iteration in which reader 0
still holds the old version while the writer synchronizes. -/
def overlappingRun : List (Label (Fin 2)) :=
  [.reader 0, .reader 1, .reader 0, .reader 0, .reader 0, .reader 0,
    .writer, .writer, .writer, .reader 1, .reader 1, .check 1, .reader 0,
    .reader 0, .reader 0, .check 0, .writer, .reader 0, .reader 0, .writer]

theorem reclamation_safe_overlapping :
    ∃ s, (rcu (Fin 2) 1).exec (launch (Fin 2)) overlappingRun = some s ∧
      s.readers 0 = .deref 1 ∧ s.replaced = [0] ∧
      1 ∉ s.heap.freed.map Prod.snd ∧
      (s.heap.freed.map Prod.snd).count 0 = 1 := by
  have hreach : ∃ s, (rcu (Fin 2) 1).exec (launch (Fin 2)) overlappingRun =
      some s ∧ s.readers 0 = .deref 1 ∧ s.replaced = [0] ∧
        s.writer.pending = none := ⟨_, rfl, rfl, rfl, rfl⟩
  obtain ⟨s, hrun, hpc, hreplaced, hpending⟩ := hreach
  have hsafe := reclamation_safe ⟨overlappingRun, hrun⟩
  refine ⟨s, hrun, hpc, hreplaced, hsafe.1 0 1 hpc, ?_⟩
  have hcount := hsafe.2.1 0 (by simp [hreplaced])
  simpa [hpending] using hcount

end RcuDpdk
end DpdkFolder
