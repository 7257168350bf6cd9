import DpdkFolder.Dpdk.EventQueues
import DpdkFolder.Support.TransitionSystem

/-!
# The primary and the secondary of ipc_eventdev

The primary allocates an mbuf in each round, enqueues it on queue 0 and frees
the mbuf of an event it dequeues on port 0, if there is one.  The secondary
enqueues the mbuf of each event it dequeues on port 1 again, on queue 1.
Neither of them looks at the queue an event comes from or at the result of an
enqueue.

The events of the model carry a number of their own and the number of the
event they answer, which the program does not see.
-/

namespace DpdkFolder
namespace IpcEventdev

/-- `NUM_MBUFS`. -/
def numMbufs : ℕ := 1024

/-- The queues that the primary links to each port. -/
def links : ℕ → List ℕ
  | 0 => [0, 1]
  | 1 => [0, 1]
  | _ => []

/-- The mbufs of `MBUF_POOL`. -/
structure MbufPool (μ : Type*) where
  mbufs : List μ
  length_eq : mbufs.length = numMbufs
  nodup : mbufs.Nodup

/-- An event, its number and the number of the event it answers. -/
structure Message (μ : Type*) where
  event : RteEvent μ
  number : ℕ
  inReplyTo : Option ℕ
deriving DecidableEq, Repr

variable {μ : Type*}

/-- `queue_id` of the event. -/
def Message.queueId (m : Message μ) : ℕ := m.event.queueId

/-- `mbuf` of the event. -/
def Message.mbuf (m : Message μ) : μ := m.event.mbuf

/-- Where the primary is in its loop. -/
inductive PrimaryPc (μ : Type*)
  | alloc
  | enqueue (mbuf : μ)
  | dequeue
  | free (rev : Message μ)
deriving DecidableEq, Repr

/-- Where the secondary is in its loop. -/
inductive SecondaryPc (μ : Type*)
  | dequeue
  | enqueue (ev : Message μ)
deriving DecidableEq, Repr

/-- The mbufs that are free in the pool, the events in the device, and the
two processes.  The rest records what happened: the events each process has
given to `rte_event_enqueue_burst` and the ones it has dequeued, the mbufs
that were allocated and freed, and those whose event was refused. -/
structure State (μ : Type*) where
  pool : List μ
  stored : List (Message μ)
  primary : PrimaryPc μ
  secondary : SecondaryPc μ
  requests : List (Message μ)
  answers : List (Message μ)
  reported : List (Message μ)
  answered : List (Message μ)
  allocated : List μ
  freed : List μ
  refused : List μ

/-- The state in which both processes enter their loops. -/
def launch (mp : MbufPool μ) : State μ where
  pool := mp.mbufs
  stored := []
  primary := .alloc
  secondary := .dequeue
  requests := []
  answers := []
  reported := []
  answered := []
  allocated := []
  freed := []
  refused := []

/-- What the pool or the device answers to a call: the place of the mbuf or
the event that is handed out, and whether an event is accepted. -/
structure Answer where
  choice : Option ℕ
  accepted : Bool
deriving DecidableEq, Repr

/-- The number of the next event. -/
def State.nextNumber (s : State μ) : ℕ :=
  s.requests.length + s.answers.length

/-- The event that the primary makes of an mbuf. -/
def State.request (s : State μ) (mbuf : μ) : Message μ where
  event := { queueId := 0, op := .new, mbuf }
  number := s.nextNumber
  inReplyTo := none

/-- The event with which the secondary answers. -/
def State.answer (s : State μ) (ev : Message μ) : Message μ where
  event := { queueId := 1, op := .new, mbuf := ev.mbuf }
  number := s.nextNumber
  inReplyTo := some ev.number

/-- One step of the loop in `prim.c`. -/
def primaryMain (a : Answer) (s : State μ) : Option (State μ) :=
  match s.primary with
  | .alloc =>
      if s.pool = [] then some s
      else
        a.choice.bind fun k => s.pool[k]?.map fun mbuf =>
          { s with
            pool := s.pool.eraseIdx k
            primary := .enqueue mbuf
            allocated := s.allocated ++ [mbuf] }
  | .enqueue mbuf =>
      let ev := s.request mbuf
      let (stored, nb) :=
        rteEventEnqueueBurst ev.event.op ev a.accepted s.stored
      some { s with
        stored
        primary := .dequeue
        requests := s.requests ++ [ev]
        refused := if nb = 0 then s.refused ++ [mbuf] else s.refused }
  | .dequeue =>
      (rteEventDequeueBurst Message.queueId (links 0) a.choice
        s.stored).map fun r =>
          match r.2 with
          | none => { s with stored := r.1, primary := .alloc }
          | some rev =>
              { s with
                stored := r.1
                primary := .free rev
                reported := s.reported ++ [rev] }
  | .free rev =>
      some { s with
        pool := s.pool ++ [rev.mbuf]
        primary := .alloc
        freed := s.freed ++ [rev.mbuf] }

/-- One step of the loop in `sec.c`. -/
def secondaryMain (a : Answer) (s : State μ) : Option (State μ) :=
  match s.secondary with
  | .dequeue =>
      (rteEventDequeueBurst Message.queueId (links 1) a.choice
        s.stored).map fun r =>
          match r.2 with
          | none => { s with stored := r.1 }
          | some ev =>
              { s with
                stored := r.1
                secondary := .enqueue ev
                answered := s.answered ++ [ev] }
  | .enqueue ev =>
      let rev := s.answer ev
      let (stored, nb) :=
        rteEventEnqueueBurst rev.event.op rev a.accepted s.stored
      some { s with
        stored
        secondary := .dequeue
        answers := s.answers ++ [rev]
        refused := if nb = 0 then s.refused ++ [rev.mbuf] else s.refused }

/-- Which process moves next, and what it is answered. -/
inductive Label
  | primary (a : Answer)
  | secondary (a : Answer)
deriving DecidableEq, Repr

def step (s : State μ) : Label → Option (State μ)
  | .primary a => primaryMain a s
  | .secondary a => secondaryMain a s

/-- All interleavings of the two loops over the given pool. -/
def program (mp : MbufPool μ) : TransitionSystem (State μ) Label :=
  ⟨launch mp, step⟩

/-! ## What a step can do -/

variable {s t : State μ} {a : Answer}

theorem primaryMain_of_alloc (hpc : s.primary = .alloc)
    (hstep : primaryMain a s = some t) :
    (s.pool = [] ∧ t = s) ∨
      ∃ mbuf pool, s.pool.Perm (mbuf :: pool) ∧
        t = { s with
          pool
          primary := .enqueue mbuf
          allocated := s.allocated ++ [mbuf] } := by
  simp only [primaryMain, hpc] at hstep
  split at hstep
  · next hnone => exact Or.inl ⟨hnone, (Option.some.inj hstep).symm⟩
  · obtain ⟨k, -, hmap⟩ := Option.bind_eq_some_iff.mp hstep
    obtain ⟨mbuf, hget, rfl⟩ := Option.map_eq_some_iff.mp hmap
    obtain ⟨hk, rfl⟩ := List.getElem?_eq_some_iff.mp hget
    refine Or.inr ⟨s.pool[k], s.pool.eraseIdx k, ?_, rfl⟩
    exact (List.getElem_cons_eraseIdx_perm hk).symm

theorem primaryMain_of_enqueue {mbuf : μ} (hpc : s.primary = .enqueue mbuf)
    (hstep : primaryMain a s = some t) :
    t = { s with
      stored := if a.accepted then s.stored ++ [s.request mbuf]
        else s.stored
      primary := .dequeue
      requests := s.requests ++ [s.request mbuf]
      refused := if a.accepted then s.refused
        else s.refused ++ [mbuf] } := by
  simp only [primaryMain, hpc, Option.some.injEq] at hstep
  subst hstep
  cases a.accepted <;> simp [rteEventEnqueueBurst, State.request]

theorem primaryMain_of_dequeue (hpc : s.primary = .dequeue)
    (hstep : primaryMain a s = some t) :
    (a.choice = none ∧ t = { s with primary := .alloc }) ∨
      ∃ rev stored, chosenEvent a.choice s.stored = some rev ∧
        s.stored.Perm (rev :: stored) ∧
        t = { s with
          stored
          primary := .free rev
          reported := s.reported ++ [rev] } := by
  simp only [primaryMain, hpc] at hstep
  obtain ⟨⟨stored, out⟩, hdequeue, rfl⟩ := Option.map_eq_some_iff.mp hstep
  cases out with
  | none =>
      obtain ⟨hchoice, rfl⟩ := rteEventDequeueBurst_silent hdequeue
      exact Or.inl ⟨hchoice, rfl⟩
  | some rev =>
      obtain ⟨hchoice, -, hperm⟩ := rteEventDequeueBurst_delivers hdequeue
      exact Or.inr ⟨rev, stored, hchoice, hperm, rfl⟩

theorem primaryMain_of_free {rev : Message μ} (hpc : s.primary = .free rev)
    (hstep : primaryMain a s = some t) :
    t = { s with
      pool := s.pool ++ [rev.mbuf]
      primary := .alloc
      freed := s.freed ++ [rev.mbuf] } := by
  simp only [primaryMain, hpc, Option.some.injEq] at hstep
  exact hstep.symm

theorem secondaryMain_of_dequeue (hpc : s.secondary = .dequeue)
    (hstep : secondaryMain a s = some t) :
    (a.choice = none ∧ t = s) ∨
      ∃ ev stored, chosenEvent a.choice s.stored = some ev ∧
        s.stored.Perm (ev :: stored) ∧
        t = { s with
          stored
          secondary := .enqueue ev
          answered := s.answered ++ [ev] } := by
  simp only [secondaryMain, hpc] at hstep
  obtain ⟨⟨stored, out⟩, hdequeue, rfl⟩ := Option.map_eq_some_iff.mp hstep
  cases out with
  | none =>
      obtain ⟨hchoice, rfl⟩ := rteEventDequeueBurst_silent hdequeue
      refine Or.inl ⟨hchoice, ?_⟩
      rw [← hpc]
  | some ev =>
      obtain ⟨hchoice, -, hperm⟩ := rteEventDequeueBurst_delivers hdequeue
      exact Or.inr ⟨ev, stored, hchoice, hperm, rfl⟩

theorem secondaryMain_of_enqueue {ev : Message μ}
    (hpc : s.secondary = .enqueue ev)
    (hstep : secondaryMain a s = some t) :
    t = { s with
      stored := if a.accepted then s.stored ++ [s.answer ev] else s.stored
      secondary := .dequeue
      answers := s.answers ++ [s.answer ev]
      refused := if a.accepted then s.refused
        else s.refused ++ [ev.mbuf] } := by
  simp only [secondaryMain, hpc, Option.some.injEq] at hstep
  subst hstep
  cases a.accepted <;> simp [rteEventEnqueueBurst, State.answer, Message.mbuf]

end IpcEventdev
end DpdkFolder
