import Mathlib.Data.List.Basic

/-!
# Arrays of a fixed size that are filled from the front

A local array with a counter of the entries stored so far.  A store behind
the end of the array has no result, and neither has reading an entry that
nobody has stored to.
-/

/-- The entries of an array and the number of those that are in use. -/
structure FixedArray (α : Type*) (size : ℕ) where
  entries : Vector (Option α) size
  nb : ℕ

namespace FixedArray

variable {α : Type*} {size : ℕ}

/-- Nothing has been stored. -/
def fresh (α : Type*) (size : ℕ) : FixedArray α size :=
  ⟨Vector.replicate size none, 0⟩

/-- Store to the next entry and count it. -/
def push (a : FixedArray α size) (x : α) : Option (FixedArray α size) :=
  if h : a.nb < size then some ⟨a.entries.set a.nb (some x) h, a.nb + 1⟩
  else none

/-- Read the entries in use. -/
def contents (a : FixedArray α size) : Option (List α) :=
  (a.entries.toList.take a.nb).mapM id

/-- The entries in use hold the elements of a list. -/
structure Holds (a : FixedArray α size) (xs : List α) : Prop where
  nb_eq : a.nb = xs.length
  entries_eq : a.entries.toList.take a.nb = xs.map some

variable {a : FixedArray α size} {xs : List α}

theorem fresh_holds : (fresh α size).Holds [] := ⟨rfl, rfl⟩

/-- A store succeeds as long as there is room. -/
theorem Holds.push (h : a.Holds xs) (hroom : xs.length < size) (x : α) :
    ∃ b, a.push x = some b ∧ b.Holds (xs ++ [x]) := by
  have hnb : a.nb < size := by
    rw [h.nb_eq]
    exact hroom
  refine ⟨_, dif_pos hnb, ?_, ?_⟩
  · simp [h.nb_eq]
  · have hlength : a.nb < a.entries.toList.length := by
      rw [Vector.length_toList]
      exact hnb
    rw [Vector.toList_set, List.take_add_one,
      List.take_set_of_le (Nat.le_refl _),
      h.entries_eq, List.getElem?_set_self hlength, List.map_append]
    rfl

theorem mapM_id_map_some (xs : List α) : (xs.map some).mapM id = some xs := by
  induction xs with
  | nil => rfl
  | cons x xs ih => simp [ih]

/-- What has been stored can be read. -/
theorem Holds.contents (h : a.Holds xs) : a.contents = some xs := by
  rw [FixedArray.contents, h.entries_eq, mapM_id_map_some]

end FixedArray
