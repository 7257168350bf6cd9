import Mathlib.Algebra.BigOperators.Group.Finset.Piecewise
import Mathlib.Algebra.Order.BigOperators.Group.Finset
import Mathlib.Data.Nat.Cast.Basic

/-!
# An event device with one atomic queue

The device holds its events in a FIFO queue and, once it has assigned them,
in a FIFO list per port.  All events belong to one flow.  A port that has
dequeued an event pins the flow until it releases the event, which it does
with its next dequeue call: meanwhile the device may assign events only to
that port.  Which port an event is assigned to is otherwise open.
-/

namespace DpdkFolder

/-- The state of the device with ports `ι` and events `ε`; `held p` says that
`p` has not yet released the event it has dequeued. -/
structure EventDev (ι ε : Type*) where
  queue : List ε
  port : ι → List ε
  held : ι → Bool

namespace EventDev

variable {ι ε : Type*}

/-- The device after `rte_event_dev_start`. -/
def init : EventDev ι ε := ⟨[], fun _ => [], fun _ => false⟩

/-- `rte_event_enqueue_burst` of one new event that the device accepts. -/
def enqueue (d : EventDev ι ε) (e : ε) : EventDev ι ε :=
  { d with queue := d.queue ++ [e] }

section Operations

variable [DecidableEq ι]

/-- The device assigns the event at the head of the queue to the port `p`. -/
def assign [Fintype ι] (d : EventDev ι ε) (p : ι) :
    Option (EventDev ι ε) :=
  match d.queue with
  | [] => none
  | e :: rest =>
      if ∀ q, d.held q = true → q = p then
        some { d with
          queue := rest
          port := Function.update d.port p (d.port p ++ [e]) }
      else none

/-- `rte_event_dequeue_burst` of at most one event on the port `p`. -/
def dequeue (d : EventDev ι ε) (p : ι) : EventDev ι ε × Option ε :=
  match d.port p with
  | [] => ({ d with held := Function.update d.held p false }, none)
  | e :: rest =>
      ({ d with
        port := Function.update d.port p rest
        held := Function.update d.held p true }, some e)

theorem dequeue_of_nil {d : EventDev ι ε} {p : ι} (h : d.port p = []) :
    d.dequeue p =
      ({ d with held := Function.update d.held p false }, none) := by
  simp [dequeue, h]

theorem dequeue_of_cons {d : EventDev ι ε} {p : ι} {e : ε} {rest : List ε}
    (h : d.port p = e :: rest) : d.dequeue p =
      ({ d with
        port := Function.update d.port p rest
        held := Function.update d.held p true }, some e) := by
  simp [dequeue, h]

theorem assign_eq_some_iff [Fintype ι] {d d' : EventDev ι ε} {p : ι} :
    d.assign p = some d' ↔ ∃ e rest, d.queue = e :: rest ∧
      (∀ q, d.held q = true → q = p) ∧
      d' = { d with
        queue := rest
        port := Function.update d.port p (d.port p ++ [e]) } := by
  constructor
  · intro h
    cases hqueue : d.queue with
    | nil => simp [assign, hqueue] at h
    | cons e rest =>
        simp only [assign, hqueue] at h
        split at h
        case isTrue hpin =>
          cases h
          exact ⟨e, rest, rfl, hpin, rfl⟩
        case isFalse => cases h
  · rintro ⟨e, rest, hqueue, hpin, rfl⟩
    simp only [assign, hqueue]
    exact if_pos hpin

end Operations

/-! ## Counting the events in the device -/

variable [Fintype ι]

/-- The events in the queue and on the ports, each counted with `f`. -/
def weight (f : ε → ℕ) (d : EventDev ι ε) : ℕ :=
  (d.queue.map f).sum + ∑ p, ((d.port p).map f).sum

@[simp] theorem weight_init (f : ε → ℕ) :
    (init : EventDev ι ε).weight f = 0 := by
  simp [weight, init]

theorem weight_enqueue (f : ε → ℕ) (d : EventDev ι ε) (e : ε) :
    (d.enqueue e).weight f = d.weight f + f e := by
  simp only [weight, enqueue, List.map_append, List.sum_append,
    List.map_singleton, List.sum_singleton]
  omega

theorem le_weight_of_port (f : ε → ℕ) (d : EventDev ι ε) (p : ι) :
    ((d.port p).map f).sum ≤ d.weight f := by
  have hle := Finset.single_le_sum
    (f := fun q => ((d.port q).map f).sum) (fun _ _ => Nat.zero_le _)
    (Finset.mem_univ p)
  exact hle.trans (Nat.le_add_left _ _)

theorem length_port_le (d : EventDev ι ε) (p : ι) :
    (d.port p).length ≤ d.weight fun _ => 1 := by
  simpa using d.le_weight_of_port (fun _ => 1) p

theorem length_queue_le (d : EventDev ι ε) :
    d.queue.length ≤ d.weight fun _ => 1 := by
  simp [weight]

variable [DecidableEq ι]

theorem sum_update_add (g : ι → ℕ) (p : ι) (v : ℕ) :
    ∑ q, Function.update g p v q + g p = ∑ q, g q + v := by
  rw [Finset.sum_update_of_mem (Finset.mem_univ p),
    ← Finset.sum_sdiff (Finset.subset_univ {p}), Finset.sum_singleton]
  omega

theorem sum_port_update (f : ε → ℕ) (port : ι → List ε) (p : ι)
    (es : List ε) :
    ∑ q, ((Function.update port p es q).map f).sum +
        ((port p).map f).sum =
      ∑ q, ((port q).map f).sum + (es.map f).sum := by
  rw [← sum_update_add (fun q => ((port q).map f).sum) p]
  congr 1
  apply Finset.sum_congr rfl
  intro q _
  by_cases hq : q = p
  · subst hq
    simp
  · simp [hq]

theorem weight_assign (f : ε → ℕ) {d d' : EventDev ι ε} {p : ι}
    (h : d.assign p = some d') : d'.weight f = d.weight f := by
  obtain ⟨e, rest, hqueue, -, rfl⟩ := assign_eq_some_iff.mp h
  have hport := sum_port_update f d.port p (d.port p ++ [e])
  simp only [List.map_append, List.sum_append, List.map_singleton,
    List.sum_singleton] at hport
  simp only [weight, hqueue, List.map_cons, List.sum_cons]
  omega

theorem weight_dequeue_of_cons (f : ε → ℕ) {d : EventDev ι ε} {p : ι}
    {e : ε} {rest : List ε} (h : d.port p = e :: rest) :
    (d.dequeue p).1.weight f + f e = d.weight f := by
  have hport := sum_port_update f d.port p rest
  rw [dequeue_of_cons h]
  simp only [weight, h, List.map_cons, List.sum_cons] at hport ⊢
  omega

end EventDev

end DpdkFolder
