import Mathlib.Data.List.Perm.Basic
import Mathlib.Tactic.Common

/-!
# An event device with several queues

A port receives events only from the queues it is linked to.  Which of the
events waiting there it receives, and when, is the choice of the device, so
the model keeps the waiting events in one list.  A call that enqueues an event
may be refused; a refused event is not stored.
-/

namespace DpdkFolder

/-- The operations used in `rte_event`. -/
inductive EventOp
  | new
  | release
deriving DecidableEq, Repr

/-- `struct rte_event`. -/
structure RteEvent (μ : Type*) where
  queueId : ℕ
  op : EventOp
  mbuf : μ
deriving DecidableEq, Repr

variable {ε : Type*}

/-- `rte_event_enqueue_burst` of one event, with its return value.  A release
only ends the scheduling context of an earlier event. -/
def rteEventEnqueueBurst (op : EventOp) (ev : ε) (accepted : Bool)
    (stored : List ε) : List ε × ℕ :=
  if accepted then
    match op with
    | .new => (stored ++ [ev], 1)
    | .release => (stored, 1)
  else (stored, 0)

/-- `rte_event_dequeue_burst` of at most one event, on a port linked to the
given queues.  The device chooses the place of the event that it delivers. -/
def rteEventDequeueBurst (queueId : ε → ℕ) (links : List ℕ)
    (choice : Option ℕ) (stored : List ε) :
    Option (List ε × Option ε) :=
  match choice with
  | none => some (stored, none)
  | some k =>
      match stored[k]? with
      | none => none
      | some ev =>
          if queueId ev ∈ links then some (stored.eraseIdx k, some ev)
          else none

theorem rteEventEnqueueBurst_release (ev : ε) (accepted : Bool)
    (stored : List ε) :
    (rteEventEnqueueBurst .release ev accepted stored).1 = stored := by
  cases accepted <;> rfl

/-- The waiting event at the chosen place. -/
def chosenEvent (choice : Option ℕ) (stored : List ε) : Option ε :=
  choice.bind fun k => stored[k]?

theorem ne_none_of_chosenEvent {choice : Option ℕ} {stored : List ε}
    {ev : ε} (h : chosenEvent choice stored = some ev) : choice ≠ none := by
  rintro rfl
  exact nomatch h

/-- What is left when the device has delivered an event. -/
theorem rteEventDequeueBurst_delivers {queueId : ε → ℕ} {links : List ℕ}
    {choice : Option ℕ} {stored rest : List ε} {ev : ε}
    (h : rteEventDequeueBurst queueId links choice stored =
      some (rest, some ev)) :
    chosenEvent choice stored = some ev ∧ queueId ev ∈ links ∧
      stored.Perm (ev :: rest) := by
  cases choice with
  | none => simp [rteEventDequeueBurst] at h
  | some k =>
      cases hget : stored[k]? with
      | none => simp [rteEventDequeueBurst, hget] at h
      | some ev' =>
          simp only [rteEventDequeueBurst, hget] at h
          split at h
          · next hlinked =>
              simp only [Option.some.injEq, Prod.mk.injEq] at h
              obtain ⟨rfl, rfl⟩ := h
              refine ⟨hget, hlinked, ?_⟩
              obtain ⟨hk, rfl⟩ := List.getElem?_eq_some_iff.mp hget
              exact (List.getElem_cons_eraseIdx_perm hk).symm
          · exact nomatch h

theorem rteEventDequeueBurst_silent {queueId : ε → ℕ} {links : List ℕ}
    {choice : Option ℕ} {stored rest : List ε}
    (h : rteEventDequeueBurst queueId links choice stored =
      some (rest, none)) :
    choice = none ∧ rest = stored := by
  cases choice with
  | none =>
      simp only [rteEventDequeueBurst, Option.some.injEq, Prod.mk.injEq,
        and_true] at h
      exact ⟨rfl, h.symm⟩
  | some k =>
      simp only [rteEventDequeueBurst] at h
      split at h
      · exact nomatch h
      · split at h <;> simp at h

end DpdkFolder
