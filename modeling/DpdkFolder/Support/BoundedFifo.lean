import Mathlib.Data.List.Basic
import Mathlib.Tactic.Common

/-!
# Bounded first-in first-out stores

A `BoundedFifo` carries the bound on its length, so an overfull store cannot
be built.  A burst insertion stores as many objects as fit; a burst removal
takes as many as are there.
-/

/-- A queue of at most `cap` objects, oldest first. -/
structure BoundedFifo (α : Type*) (cap : ℕ) where
  toList : List α
  length_le : toList.length ≤ cap
deriving DecidableEq, Repr

namespace BoundedFifo

variable {α : Type*} {cap : ℕ}

@[ext] theorem ext {q r : BoundedFifo α cap} (h : q.toList = r.toList) :
    q = r := by
  cases q
  cases r
  simpa using h

/-- The store that holds nothing. -/
def empty : BoundedFifo α cap := ⟨[], Nat.zero_le cap⟩

/-- How many more objects fit. -/
def free (q : BoundedFifo α cap) : ℕ := cap - q.toList.length

/-- How many objects of a burst of length `n` are stored. -/
def stored (q : BoundedFifo α cap) (n : ℕ) : ℕ := min n q.free

/-- Append as much of the burst as fits. -/
def insertBurst (q : BoundedFifo α cap) (xs : List α) : BoundedFifo α cap where
  toList := q.toList ++ xs.take q.free
  length_le := by
    have hq := q.length_le
    simp only [List.length_append, List.length_take, free]
    omega

/-- Remove the `n` oldest objects, or all of them when there are fewer. -/
def removeBurst (q : BoundedFifo α cap) (n : ℕ) : BoundedFifo α cap where
  toList := q.toList.drop n
  length_le := by
    have hq := q.length_le
    simp only [List.length_drop]
    omega

@[simp] theorem toList_empty : (empty : BoundedFifo α cap).toList = [] := rfl

@[simp] theorem toList_removeBurst (q : BoundedFifo α cap) (n : ℕ) :
    (q.removeBurst n).toList = q.toList.drop n := rfl

theorem stored_eq_of_le {q : BoundedFifo α cap} {n : ℕ}
    (h : q.toList.length + n ≤ cap) : q.stored n = n := by
  simp only [stored, free]
  omega

/-- A burst that fits is appended whole. -/
theorem toList_insertBurst_of_le {q : BoundedFifo α cap} {xs : List α}
    (h : q.toList.length + xs.length ≤ cap) :
    (q.insertBurst xs).toList = q.toList ++ xs := by
  have hfree : xs.length ≤ q.free := by
    simp only [free]
    omega
  simp [insertBurst, List.take_of_length_le hfree]

end BoundedFifo
