import Mathlib.Logic.Function.Basic
import DpdkFolder.Dpdk.EventQueues
import DpdkFolder.Support.TransitionSystem

/-!
# The three handlers of eventdev_packet_parsing

`receive_handler` turns each packet of a burst into a new event of queue 0.
The other two handlers dequeue an event, enqueue its release, and free its
mbuf.  They are one loop with three differences: the port of the dequeue, the
port of the release, and whether the packet is parsed.
-/

namespace DpdkFolder
namespace EventdevPacketParsing

/-- The size of the array `buf`. -/
def burstSize : ℕ := 32

/-- The queues that `main` links to each port. -/
def links : ℕ → List ℕ
  | 1 => [0]
  | 2 => [1]
  | _ => []

/-- The handlers that dequeue events. -/
inductive Handler
  | transmit
  | drop
deriving DecidableEq, Repr

variable {μ : Type*}

/-- An event and the port on which it was dequeued. -/
structure Delivery (μ : Type*) where
  port : ℕ
  event : RteEvent μ
deriving DecidableEq, Repr

/-- Where a handler is in its loop, with the event in its hand. -/
inductive HandlerPc (μ : Type*)
  | dequeueBurst
  | parse (d : Delivery μ)
  | release (d : Delivery μ)
  | free (d : Delivery μ)
deriving DecidableEq, Repr

/-- The events in the device, the mbufs of the current burst that
`receive_handler` has yet to enqueue, and the two other handlers.  The rest
records what happened: the received mbufs, those whose event was refused, the
events each handler took, each release with its port, and the freed mbufs. -/
structure State (μ : Type*) where
  stored : List (RteEvent μ)
  burst : List μ
  pc : Handler → HandlerPc μ
  received : List μ
  refused : List μ
  took : Handler → List (Delivery μ)
  released : List (Delivery μ × ℕ)
  freed : List μ

/-- The state after the handlers have been launched. -/
def launch (μ : Type*) : State μ where
  stored := []
  burst := []
  pc _ := .dequeueBurst
  received := []
  refused := []
  took _ := []
  released := []
  freed := []

/-- What the devices answer to a call. -/
structure Answer (μ : Type*) where
  rxBurst : List μ
  accepted : Bool
  choice : Option ℕ

/-- The event that `receive_handler` makes of an mbuf. -/
def newEvent (m : μ) : RteEvent μ where
  queueId := 0
  op := .new
  mbuf := m

/-- One step of `receive_handler`: it polls the NIC, or it enqueues the next
mbuf of the burst.  A refused event is not tried again. -/
def receiveHandler (answer : Answer μ) (s : State μ) : Option (State μ) :=
  match s.burst with
  | [] =>
      if answer.rxBurst.length ≤ burstSize then
        some { s with
          burst := answer.rxBurst
          received := s.received ++ answer.rxBurst }
      else none
  | m :: rest =>
      let event := newEvent m
      let (stored, nb) :=
        rteEventEnqueueBurst event.op event answer.accepted s.stored
      some { s with
        stored
        burst := rest
        refused := if nb ≤ 0 then s.refused ++ [m] else s.refused }

/-- One step of a handler that dequeues events on one port and releases them
on another. -/
def handle (h : Handler) (dequeuePort releasePort : ℕ) (parses : Bool)
    (answer : Answer μ) (s : State μ) : Option (State μ) :=
  match s.pc h with
  | .dequeueBurst =>
      (rteEventDequeueBurst RteEvent.queueId (links dequeuePort)
        answer.choice s.stored).map fun r =>
          match r.2 with
          | none => { s with stored := r.1 }
          | some event =>
              let d : Delivery μ := ⟨dequeuePort, event⟩
              { s with
                stored := r.1
                pc := Function.update s.pc h
                  (if parses then .parse d else .release d)
                took := Function.update s.took h (s.took h ++ [d]) }
  | .parse d =>
      some { s with pc := Function.update s.pc h (.release d) }
  | .release d =>
      let out := { d.event with op := .release }
      some { s with
        stored :=
          (rteEventEnqueueBurst out.op out answer.accepted s.stored).1
        pc := Function.update s.pc h (.free d)
        released := s.released ++ [(d, releasePort)] }
  | .free d =>
      some { s with
        pc := Function.update s.pc h .dequeueBurst
        freed := s.freed ++ [d.event.mbuf] }

/-- `transmit_handler`. -/
def transmitHandler (answer : Answer μ) (s : State μ) : Option (State μ) :=
  handle .transmit 1 1 true answer s

/-- `drop_handler`. -/
def dropHandler (answer : Answer μ) (s : State μ) : Option (State μ) :=
  handle .drop 1 2 false answer s

/-- Which handler moves next, and what the devices answer. -/
inductive Label (μ : Type*)
  | receive (answer : Answer μ)
  | transmit (answer : Answer μ)
  | drop (answer : Answer μ)

def step (s : State μ) : Label μ → Option (State μ)
  | .receive answer => receiveHandler answer s
  | .transmit answer => transmitHandler answer s
  | .drop answer => dropHandler answer s

/-- All interleavings of the three handlers. -/
def program (μ : Type*) : TransitionSystem (State μ) (Label μ) :=
  ⟨launch μ, step⟩

/-! ## What a step can do -/

variable {s t : State μ} {answer : Answer μ}

theorem receiveHandler_of_nil (hburst : s.burst = [])
    (hstep : receiveHandler answer s = some t) :
    t = { s with
      burst := answer.rxBurst
      received := s.received ++ answer.rxBurst } := by
  simp only [receiveHandler, hburst] at hstep
  split at hstep
  · exact (Option.some.inj hstep).symm
  · exact nomatch hstep

theorem receiveHandler_of_cons {m : μ} {rest : List μ}
    (hburst : s.burst = m :: rest)
    (hstep : receiveHandler answer s = some t) :
    t = { s with
      stored := if answer.accepted then s.stored ++ [newEvent m]
        else s.stored
      burst := rest
      refused := if answer.accepted then s.refused
        else s.refused ++ [m] } := by
  simp only [receiveHandler, hburst, Option.some.injEq] at hstep
  subst hstep
  cases answer.accepted <;>
    simp [rteEventEnqueueBurst, newEvent]

section Handle

variable {h : Handler} {dequeuePort releasePort : ℕ} {parses : Bool}
    {d : Delivery μ}

/-- A dequeue leaves the state alone or moves an event of a linked queue from
the device into the hand of the handler. -/
theorem handle_of_dequeueBurst (hpc : s.pc h = .dequeueBurst)
    (hstep : handle h dequeuePort releasePort parses answer s = some t) :
    (answer.choice = none ∧ t = s) ∨
      ∃ event stored, chosenEvent answer.choice s.stored = some event ∧
        event.queueId ∈ links dequeuePort ∧
        s.stored.Perm (event :: stored) ∧
        t = { s with
          stored
          pc := Function.update s.pc h
            (if parses then .parse ⟨dequeuePort, event⟩
              else .release ⟨dequeuePort, event⟩)
          took := Function.update s.took h
            (s.took h ++ [⟨dequeuePort, event⟩]) } := by
  simp only [handle, hpc] at hstep
  obtain ⟨⟨stored, out⟩, hdequeue, rfl⟩ := Option.map_eq_some_iff.mp hstep
  cases out with
  | none =>
      obtain ⟨hchoice, rfl⟩ := rteEventDequeueBurst_silent hdequeue
      exact Or.inl ⟨hchoice, rfl⟩
  | some event =>
      obtain ⟨hchoice, hlinked, hperm⟩ :=
        rteEventDequeueBurst_delivers hdequeue
      exact Or.inr ⟨event, stored, hchoice, hlinked, hperm, rfl⟩

theorem handle_of_parse (hpc : s.pc h = .parse d)
    (hstep : handle h dequeuePort releasePort parses answer s = some t) :
    t = { s with pc := Function.update s.pc h (.release d) } := by
  simp only [handle, hpc, Option.some.injEq] at hstep
  exact hstep.symm

theorem handle_of_release (hpc : s.pc h = .release d)
    (hstep : handle h dequeuePort releasePort parses answer s = some t) :
    t = { s with
      pc := Function.update s.pc h (.free d)
      released := s.released ++ [(d, releasePort)] } := by
  simp only [handle, hpc, rteEventEnqueueBurst_release,
    Option.some.injEq] at hstep
  exact hstep.symm

theorem handle_of_free (hpc : s.pc h = .free d)
    (hstep : handle h dequeuePort releasePort parses answer s = some t) :
    t = { s with
      pc := Function.update s.pc h .dequeueBurst
      freed := s.freed ++ [d.event.mbuf] } := by
  simp only [handle, hpc, Option.some.injEq] at hstep
  exact hstep.symm

end Handle

end EventdevPacketParsing
end DpdkFolder
