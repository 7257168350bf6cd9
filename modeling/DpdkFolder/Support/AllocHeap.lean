import Mathlib.Data.List.Nodup
import Mathlib.Logic.Function.Basic
import Mathlib.Tactic.Common

/-!
# A heap of numbered allocations

Objects are numbered in the order of their allocation and a number is never
used twice, so a reference names one object for the whole run even when the
memory behind it is handed out again.  The content of an object is undefined
before it is written and after it is freed.  Every free is logged together
with the party that performed it.
-/

/-- A heap whose objects hold values `V` and are freed by parties `ι`. -/
structure AllocHeap (ι V : Type*) where
  next : ℕ
  content : ℕ → Option V
  freed : List (ι × ℕ)

namespace AllocHeap

variable {ι V : Type*}

/-- The heap from which nothing has been allocated. -/
def empty : AllocHeap ι V := ⟨0, fun _ => none, []⟩

/-- The object that the next allocation returns. -/
def fresh (h : AllocHeap ι V) : ℕ := h.next

/-- Allocate an object and store `v` in it. -/
def alloc (h : AllocHeap ι V) (v : Option V) : AllocHeap ι V where
  next := h.next + 1
  content := Function.update h.content h.next v
  freed := h.freed

/-- `party` frees `obj`: its content becomes undefined. -/
def free (h : AllocHeap ι V) (party : ι) (obj : ℕ) : AllocHeap ι V where
  next := h.next
  content := Function.update h.content obj none
  freed := h.freed ++ [(party, obj)]

@[simp] theorem next_alloc (h : AllocHeap ι V) (v : Option V) :
    (h.alloc v).next = h.next + 1 := rfl

@[simp] theorem freed_alloc (h : AllocHeap ι V) (v : Option V) :
    (h.alloc v).freed = h.freed := rfl

@[simp] theorem next_free (h : AllocHeap ι V) (party : ι) (obj : ℕ) :
    (h.free party obj).next = h.next := rfl

@[simp] theorem freed_free (h : AllocHeap ι V) (party : ι) (obj : ℕ) :
    (h.free party obj).freed = h.freed ++ [(party, obj)] := rfl

@[simp] theorem content_alloc_fresh (h : AllocHeap ι V) (v : Option V) :
    (h.alloc v).content h.next = v := by
  simp [alloc]

theorem content_alloc_of_ne {h : AllocHeap ι V} {v : Option V} {obj : ℕ}
    (hne : obj ≠ h.next) : (h.alloc v).content obj = h.content obj := by
  simp [alloc, hne]

theorem content_free_of_ne {h : AllocHeap ι V} {party : ι} {obj other : ℕ}
    (hne : other ≠ obj) :
    (h.free party obj).content other = h.content other := by
  simp [free, hne]

/-! ## Heaps that are freed in the order of allocation -/

/-- The log of frees in which the first `k` objects were freed one after
another, each by its own party. -/
def freedInOrder (party : ℕ → ι) (k : ℕ) : List (ι × ℕ) :=
  (List.range k).map fun obj => (party obj, obj)

theorem freedInOrder_succ (party : ℕ → ι) (k : ℕ) :
    freedInOrder party (k + 1) = freedInOrder party k ++ [(party k, k)] := by
  simp [freedInOrder, List.range_succ]

theorem mem_freedInOrder {party : ℕ → ι} {k obj : ℕ} {i : ι} :
    (i, obj) ∈ freedInOrder party k ↔ obj < k ∧ party obj = i := by
  simp only [freedInOrder, List.mem_map, List.mem_range, Prod.mk.injEq]
  constructor
  · rintro ⟨o, ho, hparty, rfl⟩
    exact ⟨ho, hparty⟩
  · rintro ⟨hobj, rfl⟩
    exact ⟨obj, hobj, rfl, rfl⟩

/-- Each of the first `k` objects occurs once among the freed ones, and no
other object occurs at all. -/
theorem count_freedInOrder (party : ℕ → ι) (k obj : ℕ) :
    ((freedInOrder party k).map Prod.snd).count obj =
      if obj < k then 1 else 0 := by
  have hmap : (freedInOrder party k).map Prod.snd = List.range k := by
    simp [freedInOrder, Function.comp_def]
  rw [hmap]
  by_cases hobj : obj < k
  · rw [if_pos hobj]
    exact List.count_eq_one_of_mem List.nodup_range (List.mem_range.mpr hobj)
  · rw [if_neg hobj]
    exact List.count_eq_zero_of_not_mem (by simpa using hobj)

/-! ## At most one live object -/

/-- The heap whose first `k` objects have been freed in order and in which
the next one, if there is any, holds `v`. -/
def single (party : ℕ → ι) (k : ℕ) (v : Option V) : AllocHeap ι V where
  next := if v.isSome then k + 1 else k
  content obj := if obj = k then v else none
  freed := freedInOrder party k

theorem empty_eq_single (party : ℕ → ι) :
    (empty : AllocHeap ι V) = single party 0 none := by
  simp [empty, single, freedInOrder]

@[simp] theorem fresh_single (party : ℕ → ι) (k : ℕ) :
    (single party k (none : Option V)).fresh = k := rfl

@[simp] theorem content_single (party : ℕ → ι) (k : ℕ) (v : Option V) :
    (single party k v).content k = v := by
  simp [single]

@[simp] theorem freed_single (party : ℕ → ι) (k : ℕ) (v : Option V) :
    (single party k v).freed = freedInOrder party k := rfl

@[simp] theorem alloc_single (party : ℕ → ι) (k : ℕ) (v : V) :
    (single party k none).alloc (some v) = single party k (some v) := by
  simp only [alloc, single, Option.isSome_none, Option.isSome_some, if_true,
    Bool.false_eq_true, if_false, mk.injEq, true_and, and_true]
  funext obj
  by_cases hobj : obj = k
  · simp [hobj]
  · simp [hobj]

/-- Freeing the live object by the party whose turn it is. -/
theorem free_single {party : ℕ → ι} {k : ℕ} {v : V} {i : ι}
    (hparty : party k = i) :
    (single party k (some v)).free i k = single party (k + 1) none := by
  simp only [free, single, Option.isSome_none, Option.isSome_some, if_true,
    Bool.false_eq_true, if_false, freedInOrder_succ, hparty, mk.injEq,
    true_and, and_true]
  funext obj
  by_cases hobj : obj = k
  · simp [hobj]
  · simp [hobj]

end AllocHeap
