import Mathlib.Data.Fintype.Fin
import DpdkFolder.Eventdev.Delivery
import DpdkFolder.Support.Recording

/-!
# What the workers have handled

Although the device may keep workers from returning, it loses no event that
it gives to a worker before the exit events.  What is handled is recorded with
the port of the worker that handles it.  The events of each port come in the
order in which the producer has enqueued them, so a worker that returns has
handled all normal events of its port, and what it leaves are exit events.
-/

namespace DpdkFolder
namespace Eventdev

variable {workerCount : ℕ} {s t : State} {log : List (Port × ℕ)}

/-- The event that a poll takes from its port. -/
def handles (s : State) : Label → List (Port × ℕ)
  | .poll p => ((s.dev.port p).head?.map fun ev => (p, ev)).toList
  | _ => []

/-- The program with a record of the events that are handled. -/
def logged (workerCount : ℕ) :
    TransitionSystem (State × List (Port × ℕ)) Label :=
  (eventdev workerCount).recording handles

/-- What the worker on the port `p` has handled. -/
def handledBy (log : List (Port × ℕ)) (p : Port) : List ℕ :=
  (log.filter fun x => x.1 = p).map Prod.snd

/-- The first events of the producer. -/
def producedEvents (count : ℕ) : List ℕ :=
  (List.range count).map producerEvent

/-- One for the event `ev` and zero for the others. -/
def isEvent (ev x : ℕ) : ℕ := if x = ev then 1 else 0

/-- How the record, the device and the workers belong together. -/
structure Logged (s : State) (log : List (Port × ℕ)) : Prop where
  inOrder : ∀ p, (handledBy log p ++ s.dev.port p ++ s.dev.queue).Sublist
    (producedEvents s.produced)
  onceEach : ∀ ev, (log.map Prod.snd).count ev + s.dev.weight (isEvent ev) =
    (producedEvents s.produced).count ev
  coreStats : ∀ p, s.coreStats p = (handledBy log p).length
  polling : ∀ p, s.returned p = false → exitEvent ∉ handledBy log p
  returned : ∀ p, s.returned p = true → ∃ normal,
    handledBy log p = normal ++ [exitEvent] ∧ exitEvent ∉ normal

/-! ## The record -/

theorem handledBy_append (log log' : List (Port × ℕ)) (p : Port) :
    handledBy (log ++ log') p = handledBy log p ++ handledBy log' p := by
  simp [handledBy]

theorem handledBy_self (p : Port) (ev : ℕ) :
    handledBy [(p, ev)] p = [ev] := by
  simp [handledBy]

theorem handledBy_of_ne {p q : Port} (hne : q ≠ p) (ev : ℕ) :
    handledBy [(p, ev)] q = [] := by
  simp [handledBy, hne.symm]

theorem producedEvents_succ (count : ℕ) : producedEvents (count + 1) =
    producedEvents count ++ [producerEvent count] := by
  simp [producedEvents, List.range_succ]

theorem count_singleton (ev x : ℕ) : [x].count ev = isEvent ev x := by
  by_cases hx : x = ev <;> simp [isEvent, hx]

theorem logged_launch : Logged launch [] where
  inOrder := fun _ => List.Sublist.slnil
  onceEach := fun _ => by simp [launch, producedEvents]
  coreStats := fun _ => rfl
  polling := fun _ _ => List.not_mem_nil
  returned := fun _ h => by cases h

/-! ## Steps -/

theorem Logged.produce (h : Logged s log)
    (hstep : produce workerCount s = some t) : Logged t log := by
  obtain ⟨-, rfl⟩ := produce_eq_some_iff.mp hstep
  refine ⟨?_, ?_, h.coreStats, h.polling, h.returned⟩
  · intro p
    rw [producedEvents_succ]
    have happend := (h.inOrder p).append
      (List.Sublist.refl [producerEvent s.produced])
    rwa [List.append_assoc] at happend
  · intro ev
    have hevents := h.onceEach ev
    rw [producedEvents_succ, List.count_append, count_singleton,
      EventDev.weight_enqueue]
    omega

theorem Logged.assign (h : Logged s log) {p : Port}
    (hstep : step workerCount s (.assign p) = some t) : Logged t log := by
  simp only [step, Option.map_eq_some_iff] at hstep
  obtain ⟨dev, hdev, rfl⟩ := hstep
  have hweight : ∀ f, dev.weight f = s.dev.weight f := fun f =>
    EventDev.weight_assign f hdev
  obtain ⟨ev, rest, hqueue, -, rfl⟩ := EventDev.assign_eq_some_iff.mp hdev
  refine ⟨?_, ?_, h.coreStats, h.polling, h.returned⟩
  · intro q
    have hall := h.inOrder q
    rw [hqueue] at hall
    by_cases hq : q = p
    · -- the event moves from the front of the queue to the end of the port
      subst hq
      simpa [List.append_assoc] using hall
    · refine List.Sublist.trans ?_ hall
      simp only [Function.update_of_ne hq]
      exact (List.sublist_cons_self ev rest).append_left _
  · intro e
    rw [hweight]
    exact h.onceEach e

theorem Logged.poll (h : Logged s log) {p : Port}
    (hstep : poll workerCount s p = some t) :
    Logged t (log ++ handles s (.poll p)) := by
  obtain ⟨⟨-, hpolling⟩, ⟨hport, rfl⟩ | ⟨ev, rest, hport, rfl⟩⟩ :=
    poll_cases hstep
  · simp only [handles, hport, List.head?_nil, Option.map_none,
      Option.toList_none, List.append_nil]
    exact ⟨h.inOrder, h.onceEach, h.coreStats, h.polling, h.returned⟩
  · have hlog : handles s (.poll p) = [(p, ev)] := by
      simp [handles, hport]
    have hown : handledBy (log ++ [(p, ev)]) p = handledBy log p ++ [ev] := by
      rw [handledBy_append, handledBy_self]
    have hother : ∀ q, q ≠ p →
        handledBy (log ++ [(p, ev)]) q = handledBy log q := by
      intro q hq
      rw [handledBy_append, handledBy_of_ne hq, List.append_nil]
    rw [hlog]
    refine ⟨?_, ?_, ?_, ?_, ?_⟩
    · intro q
      have hall := h.inOrder q
      rw [EventDev.dequeue_of_cons hport]
      by_cases hq : q = p
      · subst hq
        rw [hport] at hall
        simpa [hown, List.append_assoc] using hall
      · simpa [hother q hq, hq] using hall
    · intro e
      have hevents := h.onceEach e
      have hweight := EventDev.weight_dequeue_of_cons (isEvent e) hport
      simp only [List.map_append, List.count_append, List.map_singleton,
        count_singleton]
      omega
    · intro q
      have hstats := h.coreStats q
      by_cases hq : q = p
      · subst hq
        simp [hown, hstats]
      · simp [hother q hq, hq, hstats]
    · intro q hq
      by_cases hqp : q = p
      · subst hqp
        have hev : ev ≠ exitEvent := by simpa using hq
        have hold := h.polling q hpolling
        simp [hown, hold, hev.symm]
      · rw [hother q hqp]
        exact h.polling q (by simpa [hqp] using hq)
    · intro q hq
      by_cases hqp : q = p
      · subst hqp
        have hev : ev = exitEvent := by simpa using hq
        exact ⟨handledBy log q, by rw [hown, hev], h.polling q hpolling⟩
      · rw [hother q hqp]
        exact h.returned q (by simpa [hqp] using hq)

theorem step_logged {a : Label} (h : Logged s log)
    (hstep : step workerCount s a = some t) :
    Logged t (log ++ handles s a) := by
  cases a with
  | produce =>
      rw [show handles s .produce = [] from rfl, List.append_nil]
      exact h.produce hstep
  | assign p =>
      rw [show handles s (.assign p) = [] from rfl, List.append_nil]
      exact h.assign hstep
  | poll p => exact h.poll hstep

theorem reachable_logged (h : (logged workerCount).Reachable (s, log)) :
    Logged s log := by
  refine h.invariant (P := fun u => Logged u.1 u.2) logged_launch ?_
  intro u a v _ hu huv
  obtain ⟨hstep, hlog⟩ := TransitionSystem.recording_step_iff.mp huv
  rw [hlog]
  exact step_logged hu hstep

/-! ## Order -/

/-- The producer enqueues nothing but exit events after the first one. -/
theorem pairwise_producedEvents (count : ℕ) :
    (producedEvents count).Pairwise fun x y =>
      x = exitEvent → y = exitEvent := by
  refine List.pairwise_map.mpr (List.pairwise_lt_range.imp ?_)
  intro j k hjk hj
  by_cases hnormal : j < numEvents
  · have hlt : numEvents < exitEvent := by decide
    rw [producerEvent, if_pos hnormal] at hj
    omega
  · exact if_neg (by omega)

theorem mem_producedEvents {ev : ℕ} (h : ev ∈ producedEvents s.produced)
    (hne : ev ≠ exitEvent) : ev < numEvents := by
  obtain ⟨k, -, rfl⟩ := List.mem_map.mp h
  by_cases hk : k < numEvents
  · rwa [producerEvent, if_pos hk]
  · exact absurd (if_neg hk) hne

/-- A worker that has returned leaves nothing but exit events behind, on its
port and in the queue. -/
theorem Logged.rest_of_returned (h : Logged s log) {p : Port}
    (hp : s.returned p = true) {ev : ℕ}
    (hev : ev ∈ s.dev.port p ++ s.dev.queue) : ev = exitEvent := by
  obtain ⟨normal, hhandled, -⟩ := h.returned p hp
  have hpairwise := (pairwise_producedEvents _).sublist (h.inOrder p)
  rw [hhandled, List.append_assoc] at hpairwise
  exact (List.pairwise_append.mp hpairwise).2.2 exitEvent (by simp) ev hev rfl

/-- For any number of workers and any interleaving, also where the program
will hang: every worker handles its events in the order of the producer, no
event is handled twice or handled without having been produced, `core_stats`
counts what has been handled, and a worker that has returned has handled
normal events and then one exit event and leaves nothing but exit events, on
its port and in the queue. -/
theorem handled_in_order {as : List Label}
    (h : (eventdev workerCount).exec launch as = some s) :
    ∃ log, (logged workerCount).exec (launch, []) as = some (s, log) ∧
      (∀ p, (handledBy log p ++ s.dev.port p).Sublist
        (producedEvents s.produced)) ∧
      (∀ ev, (log.map Prod.snd).count ev + s.dev.weight (isEvent ev) =
        (producedEvents s.produced).count ev) ∧
      (∀ p, s.coreStats p = (handledBy log p).length) ∧
      ∀ p, s.returned p = true →
        (∃ normal, handledBy log p = normal ++ [exitEvent] ∧
          ∀ ev ∈ normal, ev < numEvents) ∧
        ∀ ev ∈ s.dev.port p ++ s.dev.queue, ev = exitEvent := by
  obtain ⟨log, hlog⟩ :=
    TransitionSystem.exists_recording_exec handles h []
  have hreach : (logged workerCount).Reachable (s, log) := ⟨as, hlog⟩
  have hlogged : Logged s log := reachable_logged hreach
  have hsublist : ∀ p, (handledBy log p ++ s.dev.port p).Sublist
      (producedEvents s.produced) := fun p =>
    (List.sublist_append_left _ _).trans (hlogged.inOrder p)
  refine ⟨log, hlog, hsublist, hlogged.onceEach, hlogged.coreStats,
    fun p hp => ⟨?_, ?_⟩⟩
  · obtain ⟨normal, hhandled, hnot⟩ := hlogged.returned p hp
    refine ⟨normal, hhandled, fun ev hev => ?_⟩
    have hmem : ev ∈ handledBy log p ++ s.dev.port p := by
      simp [hhandled, hev]
    exact mem_producedEvents ((hsublist p).subset hmem)
      (ne_of_mem_of_not_mem hev hnot)
  · intro ev hev
    exact hlogged.rest_of_returned hp hev

/-- The last two of eight workers get one event each, and the later event is
handled first. -/
def crossedRun : List Label :=
  [.produce, .produce, .assign (Fin.last 6).castSucc, .assign (.last 7),
    .poll (.last 7), .poll (Fin.last 6).castSucc]

theorem handled_in_order_crossed : ∃ s log,
    (logged 8).exec (launch, []) crossedRun = some (s, log) ∧
      log = [(.last 7, 1), ((Fin.last 6).castSucc, 0)] ∧
      (handledBy log (.last 7) ++ s.dev.port (.last 7)).Sublist
        (producedEvents s.produced) := by
  have hend : ∃ s log, (eventdev 8).exec launch crossedRun = some s ∧
      (logged 8).exec (launch, []) crossedRun = some (s, log) ∧
      log = [(.last 7, 1), ((Fin.last 6).castSucc, 0)] :=
    ⟨_, _, rfl, rfl, rfl⟩
  obtain ⟨s, log, hexec, hlog, heq⟩ := hend
  obtain ⟨log', hlog', hinOrder, -⟩ := handled_in_order hexec
  rw [hlog] at hlog'
  cases hlog'
  exact ⟨s, log, hlog, heq, hinOrder _⟩

end Eventdev
end DpdkFolder
