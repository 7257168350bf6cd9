import DpdkFolder.Dpdk.Ring
import DpdkFolder.Support.AllocHeap
import DpdkFolder.Support.CInt
import DpdkFolder.Support.TransitionSystem

/-!
# Two processes exchanging messages over two rings

The primary of full_duplex_2_rings sends the message `i` through `ring1` in
round `i` and waits on `ring2`; the secondary answers with ten times the
value it got.  Both pass pointers to `rte_malloc`ed objects, and the receiver
frees what it received.  After its last round the primary sends `-1`.

The model starts when both rings have been created and found.  A label says
which process moves; a process that spins on a ring stays where it is.  Every
read through a pointer is logged with the value found and with whether the
other process had already freed the object, and so is the value that the
primary prints as received.
-/

namespace DpdkFolder
namespace FullDuplex2Rings

/-- `RING_SIZE`, the size of both rings. -/
def ringSize : ℕ := 1024

inductive Proc
  | primary
  | secondary
deriving DecidableEq, Repr

def Proc.peer : Proc → Proc
  | .primary => .secondary
  | .secondary => .primary

/-- Where the primary stands; `i` is its loop variable. -/
inductive PrimPc
  | loopHead (i : ℕ)
  | enqueue (i msg : ℕ)
  | printSent (i msg : ℕ)
  | dequeue (i msg : ℕ)
  | printGot (i msg received : ℕ)
  | freeReceived (i received : ℕ)
  | enqueueStop (stop : ℕ)
  | returned
deriving DecidableEq, Repr

/-- Where the secondary stands. -/
inductive SecPc
  | dequeue
  | testStop (val : ℕ)
  | freeStop (val : ℕ)
  | printReceived (val : ℕ)
  | computeRes (val : ℕ)
  | freeVal (val : ℕ) (res : Option ℤ)
  | mallocReply (res : Option ℤ)
  | enqueue (reply : ℕ)
  | printSent (reply : ℕ)
  | returned
deriving DecidableEq, Repr

/-- A message that the secondary has taken out of `ring1`, or made, and not
yet freed or put into `ring2`. -/
def SecPc.hand : SecPc → List ℕ
  | .testStop val => [val]
  | .freeStop val => [val]
  | .printReceived val => [val]
  | .computeRes val => [val]
  | .freeVal val _ => [val]
  | .enqueue reply => [reply]
  | _ => []

/-- A read through a pointer: `value` is `none` when the content of the
object is undefined, `stale` says that the peer had freed it. -/
structure Read where
  reader : Proc
  obj : ℕ
  value : Option ℤ
  stale : Bool
deriving DecidableEq, Repr

/-- The rings, the shared heap and the two processes.  `got` lists round and
value of every `PRIMARY : got` line; `stopRet` is the ignored result of the
primary's last enqueue. -/
structure State where
  ring1 : RteRing ℕ ringSize
  ring2 : RteRing ℕ ringSize
  heap : AllocHeap Proc ℤ
  prim : PrimPc
  sec : SecPc
  stopRet : Option ℤ
  reads : List Read
  got : List (ℕ × Option ℤ)

def start : State where
  ring1 := .empty
  ring2 := .empty
  heap := .empty
  prim := .loopHead 0
  sec := .dequeue
  stopRet := none
  reads := []
  got := []

/-- What `reader` sees when it dereferences `obj`. -/
def State.readOf (s : State) (reader : Proc) (obj : ℕ) : Read where
  reader := reader
  obj := obj
  value := s.heap.content obj
  stale := decide ((reader.peer, obj) ∈ s.heap.freed)

/-- `reader` dereferences `obj`. -/
def State.deref (s : State) (reader : Proc) (obj : ℕ) : State :=
  { s with reads := s.reads ++ [s.readOf reader obj] }

/-- One step of the primary's `main` with `rounds` rounds. -/
def primStep (rounds : ℕ) (s : State) : Option State :=
  match s.prim with
  | .loopHead i =>
      if i < rounds then
        some { s with
          heap := s.heap.alloc (some i)
          prim := .enqueue i s.heap.fresh }
      else
        some { s with
          heap := s.heap.alloc (some (-1))
          prim := .enqueueStop s.heap.fresh }
  | .enqueue i msg =>
      let res := rteRingEnqueue s.ring1 msg
      if res.1 ≠ 0 then some s
      else some { s with ring1 := res.2, prim := .printSent i msg }
  | .printSent i msg =>
      some { s.deref .primary msg with prim := .dequeue i msg }
  | .dequeue i msg =>
      match rteRingDequeue s.ring2 with
      | (_, some reply, ring) =>
          some { s with ring2 := ring, prim := .printGot i msg reply }
      | (_, none, _) => some s
  -- The text says "got", but the pointer dereferenced is the one sent.
  | .printGot i msg received =>
      some { s.deref .primary msg with
        got := s.got ++ [(i, s.heap.content msg)]
        prim := .freeReceived i received }
  | .freeReceived i received =>
      some { s with
        heap := s.heap.free .primary received
        prim := .loopHead (i + 1) }
  | .enqueueStop stop =>
      let res := rteRingEnqueue s.ring1 stop
      some { s with
        ring1 := res.2
        stopRet := some res.1
        prim := .returned }
  | .returned => none

/-- One step of the secondary's `main`. -/
def secStep (s : State) : Option State :=
  match s.sec with
  | .dequeue =>
      match rteRingDequeue s.ring1 with
      | (_, some msg, ring) =>
          some { s with ring1 := ring, sec := .testStop msg }
      | (_, none, _) => some s
  | .testStop val =>
      some { s.deref .secondary val with
        sec := if s.heap.content val = some (-1) then .freeStop val
          else .printReceived val }
  | .freeStop val =>
      some { s with
        heap := s.heap.free .secondary val
        sec := .returned }
  | .printReceived val =>
      some { s.deref .secondary val with sec := .computeRes val }
  | .computeRes val =>
      some { s.deref .secondary val with
        sec := .freeVal val
          ((s.heap.content val).map fun x => cInt (x * 10)) }
  | .freeVal val res =>
      some { s with
        heap := s.heap.free .secondary val
        sec := .mallocReply res }
  | .mallocReply res =>
      some { s with
        heap := s.heap.alloc res
        sec := .enqueue s.heap.fresh }
  | .enqueue reply =>
      let res := rteRingEnqueue s.ring2 reply
      if res.1 < 0 then some s
      else some { s with ring2 := res.2, sec := .printSent reply }
  | .printSent reply =>
      some { s.deref .secondary reply with sec := .dequeue }
  | .returned => none

/-- The two processes with `rounds` rounds of the primary's loop. -/
def exchange (rounds : ℕ) : TransitionSystem State Proc where
  start := start
  step s
    | .primary => primStep rounds s
    | .secondary => secStep s

end FullDuplex2Rings
end DpdkFolder
