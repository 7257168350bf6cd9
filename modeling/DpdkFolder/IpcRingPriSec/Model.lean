import DpdkFolder.Dpdk.Ring
import DpdkFolder.Support.AllocHeap
import DpdkFolder.Support.Fairness

/-!
# Numbers sent from a primary to a secondary process

The primary of ipc_ring_pri_sec creates a ring, allocates one `int` after the
other, stores the loop variable in it and enqueues the pointer, trying again
while the ring is full.  The secondary waits for the ring, then takes the
pointers out, prints what they point to and frees them, for ever.

The model has any number of messages and any size of the ring.  A label says
which process moves; one that spins stays where it is.  `received` lists what
the secondary has printed, `none` where the object was undefined.
-/

namespace DpdkFolder
namespace IpcRingPriSec

inductive Proc
  | primary
  | secondary
deriving DecidableEq, Repr

/-- Where the primary stands; `i` is its loop variable. -/
inductive PrimPc
  | ringCreate
  | loopHead (i : ℕ)
  | enqueue (i msg : ℕ)
  | returned
deriving DecidableEq, Repr

/-- Where the secondary stands. -/
inductive SecPc
  | ringLookup
  | dequeue
  | printReceived (val : ℕ)
  | free (val : ℕ)
deriving DecidableEq, Repr

/-- The ring, which does not exist at first, the shared heap and the two
processes. -/
structure State (size : ℕ) where
  ring : Option (RteRing ℕ size)
  heap : AllocHeap Proc ℤ
  prim : PrimPc
  sec : SecPc
  received : List (Option ℤ)

variable {size : ℕ}

def start (size : ℕ) : State size where
  ring := none
  heap := .empty
  prim := .ringCreate
  sec := .ringLookup
  received := []

/-- One step of the primary's `main` with the given number of messages. -/
def primStep (messages : ℕ) (s : State size) : Option (State size) :=
  match s.prim with
  | .ringCreate => some { s with ring := some .empty, prim := .loopHead 0 }
  | .loopHead i =>
      if i < messages then
        some { s with
          heap := s.heap.alloc (some i)
          prim := .enqueue i s.heap.fresh }
      else some { s with prim := .returned }
  | .enqueue i msg =>
      s.ring.map fun ring =>
        let res := rteRingEnqueue ring msg
        if res.1 < 0 then s
        else { s with ring := some res.2, prim := .loopHead (i + 1) }
  | .returned => none

/-- One step of the secondary's `main`. -/
def secStep (s : State size) : Option (State size) :=
  match s.sec with
  | .ringLookup =>
      match s.ring with
      | none => some s
      | some _ => some { s with sec := .dequeue }
  | .dequeue =>
      s.ring.map fun ring =>
        match rteRingDequeue ring with
        | (_, some msg, rest) =>
            { s with ring := some rest, sec := .printReceived msg }
        | (_, none, _) => s
  | .printReceived val =>
      some { s with
        received := s.received ++ [s.heap.content val]
        sec := .free val }
  | .free val =>
      some { s with heap := s.heap.free .secondary val, sec := .dequeue }

/-- The two processes with the given number of messages and size of the
ring. -/
def delivery (messages size : ℕ) : TransitionSystem (State size) Proc where
  start := start size
  step s
    | .primary => primStep messages s
    | .secondary => secStep s

end IpcRingPriSec
end DpdkFolder
