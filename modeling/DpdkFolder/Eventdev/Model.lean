import DpdkFolder.Dpdk.Eventdev
import DpdkFolder.Support.TransitionSystem

/-!
# The producer and the workers of eventdev

The main lcore enqueues the normal events and then one exit event for each
worker.  The workers poll their ports, count what they process and return
after an exit event.  The device has 8 ports, all linked to the one queue;
the launch loop gives the workers the first ones.

The number of workers is a parameter.  The device may refuse to do anything,
so a retry of the producer and the pause before the exit events are no steps
of their own.
-/

namespace DpdkFolder
namespace Eventdev

/-- `NUM_EVENTS`. -/
def numEvents : ℕ := 20

/-- `EXIT_EVENT`. -/
def exitEvent : ℕ := 9999

/-- The ports that `main` sets up and links. -/
abbrev Port := Fin 8

/-- The device, the number of events enqueued so far, and for the worker on
each port whether it has returned and its entry of `core_stats`. -/
structure State where
  dev : EventDev Port ℕ
  produced : ℕ
  returned : Port → Bool
  coreStats : Port → ℕ

/-- The state after the launch loop. -/
def launch : State where
  dev := .init
  produced := 0
  returned := fun _ => false
  coreStats := fun _ => 0

/-- All events that the producer enqueues. -/
def totalEvents (workerCount : ℕ) : ℕ := numEvents + workerCount

/-- The `u64` of the `k`-th event of the producer. -/
def producerEvent (k : ℕ) : ℕ := if k < numEvents then k else exitEvent

/-- One successful enqueue of the producer. -/
def produce (workerCount : ℕ) (s : State) : Option State :=
  if s.produced < totalEvents workerCount then
    some { s with
      dev := s.dev.enqueue (producerEvent s.produced)
      produced := s.produced + 1 }
  else none

/-- The worker on the port `p` is still in its loop. -/
def Polling (workerCount : ℕ) (s : State) (p : Port) : Prop :=
  p.val < workerCount ∧ s.returned p = false

instance (workerCount : ℕ) (s : State) (p : Port) :
    Decidable (Polling workerCount s p) := inferInstanceAs (Decidable (_ ∧ _))

/-- One turn of the loop of the worker on the port `p`. -/
def poll (workerCount : ℕ) (s : State) (p : Port) : Option State :=
  if Polling workerCount s p then
    match s.dev.dequeue p with
    | (dev, none) => some { s with dev }
    | (dev, some ev) =>
        some { s with
          dev
          coreStats := Function.update s.coreStats p (s.coreStats p + 1)
          returned :=
            Function.update s.returned p (decide (ev = exitEvent)) }
  else none

/-- The producer enqueues, the device assigns an event to a port, or a worker
polls its port. -/
inductive Label
  | produce
  | assign (p : Port)
  | poll (p : Port)
deriving DecidableEq, Repr

def step (workerCount : ℕ) (s : State) : Label → Option State
  | .produce => produce workerCount s
  | .assign p => (s.dev.assign p).map fun dev => { s with dev }
  | .poll p => poll workerCount s p

/-- The program with the given number of workers. -/
def eventdev (workerCount : ℕ) : TransitionSystem State Label where
  start := launch
  step := step workerCount

/-! ## What a step can do -/

variable {workerCount : ℕ} {s t : State}

theorem produce_eq_some_iff : produce workerCount s = some t ↔
    s.produced < totalEvents workerCount ∧
      t = { s with
        dev := s.dev.enqueue (producerEvent s.produced)
        produced := s.produced + 1 } := by
  rw [produce]
  split
  · rename_i hlt
    simp [hlt, eq_comm]
  · rename_i hge
    simp [hge]

theorem poll_of_nil {p : Port} (hpolling : Polling workerCount s p)
    (hport : s.dev.port p = []) : poll workerCount s p =
      some { s with dev := { s.dev with
        held := Function.update s.dev.held p false } } := by
  rw [poll, if_pos hpolling, EventDev.dequeue_of_nil hport]

theorem poll_of_cons {p : Port} {ev : ℕ} {rest : List ℕ}
    (hpolling : Polling workerCount s p)
    (hport : s.dev.port p = ev :: rest) : poll workerCount s p =
      some { s with
        dev := (s.dev.dequeue p).1
        coreStats := Function.update s.coreStats p (s.coreStats p + 1)
        returned :=
          Function.update s.returned p (decide (ev = exitEvent)) } := by
  rw [poll, if_pos hpolling, EventDev.dequeue_of_cons hport]

/-- A poll finds its port empty and releases what it held, or it processes
the event at the head of the port. -/
theorem poll_cases {p : Port} (h : poll workerCount s p = some t) :
    Polling workerCount s p ∧
      ((s.dev.port p = [] ∧
          t = { s with dev := { s.dev with
            held := Function.update s.dev.held p false } }) ∨
        ∃ ev rest, s.dev.port p = ev :: rest ∧
          t = { s with
            dev := (s.dev.dequeue p).1
            coreStats := Function.update s.coreStats p (s.coreStats p + 1)
            returned :=
              Function.update s.returned p (decide (ev = exitEvent)) }) := by
  by_cases hpolling : Polling workerCount s p
  · refine ⟨hpolling, ?_⟩
    cases hport : s.dev.port p with
    | nil =>
        rw [poll_of_nil hpolling hport, Option.some.injEq] at h
        exact Or.inl ⟨rfl, h.symm⟩
    | cons ev rest =>
        rw [poll_of_cons hpolling hport, Option.some.injEq] at h
        exact Or.inr ⟨ev, rest, rfl, h.symm⟩
  · rw [poll, if_neg hpolling] at h
    cases h

theorem step_assign_of_cons {p : Port} {ev : ℕ} {rest : List ℕ}
    (hqueue : s.dev.queue = ev :: rest)
    (hpin : ∀ q, s.dev.held q = true → q = p) :
    step workerCount s (.assign p) =
      some { s with dev := { s.dev with
        queue := rest
        port := Function.update s.dev.port p
          (s.dev.port p ++ [ev]) } } := by
  simp only [step, Option.map_eq_some_iff]
  exact ⟨_, EventDev.assign_eq_some_iff.mpr
    ⟨ev, rest, hqueue, hpin, rfl⟩, rfl⟩

theorem assign_cases {p : Port}
    (h : step workerCount s (.assign p) = some t) :
    ∃ ev rest, s.dev.queue = ev :: rest ∧
      (∀ q, s.dev.held q = true → q = p) ∧
      t = { s with dev := { s.dev with
        queue := rest
        port := Function.update s.dev.port p
          (s.dev.port p ++ [ev]) } } := by
  simp only [step, Option.map_eq_some_iff] at h
  obtain ⟨dev, hdev, rfl⟩ := h
  obtain ⟨ev, rest, hqueue, hpin, rfl⟩ := EventDev.assign_eq_some_iff.mp hdev
  exact ⟨ev, rest, hqueue, hpin, rfl⟩

end Eventdev
end DpdkFolder
