import Mathlib.Data.Int.Notation
import DpdkFolder.Support.BoundedFifo

/-!
# The ring API as the programs rely on it

`rte_ring_create` with `count` a power of two makes a ring of capacity
`count - 1`.  Every ring of the repository has one producer and one consumer,
so an enqueue or dequeue is one atomic step.  The single-object calls return
zero or a negative error number, the burst calls the number of objects moved.
-/

namespace DpdkFolder

/-- A ring made by `rte_ring_create` with size `count`. -/
abbrev RteRing (α : Type*) (count : ℕ) := BoundedFifo α (count - 1)

/-- `-ENOBUFS`: not enough room in the ring. -/
def eNoBufs : ℤ := -105

/-- `-ENOENT`: not enough entries in the ring. -/
def eNoEnt : ℤ := -2

variable {α : Type*} {count : ℕ}

/-- `rte_ring_enqueue_burst`: the number of objects stored and the ring. -/
def rteRingEnqueueBurst (r : RteRing α count) (objs : List α) :
    ℕ × RteRing α count :=
  (r.stored objs.length, r.insertBurst objs)

/-- `rte_ring_dequeue_burst`: the objects taken, at most `n`, and the ring. -/
def rteRingDequeueBurst (r : RteRing α count) (n : ℕ) :
    List α × RteRing α count :=
  (r.toList.take n, r.removeBurst n)

/-- `rte_ring_enqueue`: a bulk enqueue of one object. -/
def rteRingEnqueue (r : RteRing α count) (obj : α) : ℤ × RteRing α count :=
  if 0 < r.free then (0, r.insertBurst [obj]) else (eNoBufs, r)

/-- `rte_ring_dequeue`: on success the object comes out of the ring. -/
def rteRingDequeue (r : RteRing α count) : ℤ × Option α × RteRing α count :=
  match r.toList with
  | [] => (eNoEnt, none, r)
  | obj :: _ => (0, some obj, r.removeBurst 1)

theorem rteRingEnqueueBurst_of_le {r : RteRing α count} {objs : List α}
    (h : r.toList.length + objs.length ≤ count - 1) :
    (rteRingEnqueueBurst r objs).1 = objs.length ∧
      (rteRingEnqueueBurst r objs).2.toList = r.toList ++ objs :=
  ⟨BoundedFifo.stored_eq_of_le h, BoundedFifo.toList_insertBurst_of_le h⟩

theorem rteRingDequeueBurst_append (r : RteRing α count) (n : ℕ) :
    (rteRingDequeueBurst r n).1 ++ (rteRingDequeueBurst r n).2.toList =
      r.toList :=
  List.take_append_drop n r.toList

end DpdkFolder
