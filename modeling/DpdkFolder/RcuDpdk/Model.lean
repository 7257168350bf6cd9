import Mathlib.Data.Fintype.Basic
import DpdkFolder.Dpdk.Qsbr
import DpdkFolder.Support.AllocHeap
import DpdkFolder.Support.TransitionSystem

/-!
# The reader and writer of rcu_dpdk

Readers load the shared pointer `gdata`, print the value behind it and report
a quiescent state in each turn of their loop.  The writer replaces the
structure a number of times, synchronizes with the readers and frees the old
version; at the end `main` waits for the readers and frees the last one.

The model has any finite set of readers and any number of writer iterations.
A label says which thread performs its next atomic step.  The load and the
store of the token in `thread_online` and `quiescent` are separate steps, and
the writer looks at the readers one at a time while it synchronizes.
`rte_rcu_qsbr_lock` and `unlock` do nothing outside debug builds, and the
sleeps only restrict the interleavings; both are left out.
-/

namespace DpdkFolder
namespace RcuDpdk

/-- Where a reader stands. -/
inductive ReaderPc
  | register
  | onlineLoad
  | onlineStore (token : ℕ)
  | testStop
  | loadData
  | deref (d : ℕ)
  | quiescentLoad
  | quiescentStore (token : ℕ)
  | offline
  | unregister
  | returned
deriving DecidableEq, Repr

/-- Where the main lcore stands, in `writer` and then in the rest of `main`;
`i` is the loop variable. -/
inductive WriterPc
  | loopHead (i : ℕ)
  | exchange (i new : ℕ)
  | syncStart (i old : ℕ)
  | syncCheck (i old token : ℕ)
  | freeOld (i old : ℕ)
  | waitLcores
  | freeData
  | returned
deriving DecidableEq, Repr

/-- The two calls of `rte_free` on a version. -/
inductive FreeSite
  | writer
  | cleanup
deriving DecidableEq, Repr

/-- The shared state, the threads, the readers that the current
synchronization has already seen, and two logs: the versions replaced by an
exchange and the values each reader has printed. -/
structure State (ι : Type*) where
  heap : AllocHeap FreeSite ℤ
  gdata : ℕ
  stop : Bool
  qsbr : Qsbr ι
  readers : ι → ReaderPc
  writer : WriterPc
  checked : ι → Bool
  replaced : List ℕ
  printed : ι → List (Option ℤ)

/-- The state in which `main` launches the readers and calls `writer`. -/
def launch (ι : Type*) : State ι where
  heap := AllocHeap.empty.alloc (some 0)
  gdata := 0
  stop := false
  qsbr := .init
  readers := fun _ => .register
  writer := .loopHead 0
  checked := fun _ => false
  replaced := []
  printed := fun _ => []

variable {ι : Type*} [DecidableEq ι]

def State.setReader (s : State ι) (r : ι) (pc : ReaderPc) : State ι :=
  { s with readers := Function.update s.readers r pc }

/-- One step of `reader` on the lcore `r`. -/
def reader (s : State ι) (r : ι) : Option (State ι) :=
  match s.readers r with
  | .register =>
      some { s.setReader r .onlineLoad with qsbr := s.qsbr.register r }
  | .onlineLoad => some (s.setReader r (.onlineStore s.qsbr.token))
  | .onlineStore token =>
      some { s.setReader r .testStop with qsbr := s.qsbr.setCnt r token }
  | .testStop =>
      some (s.setReader r (if s.stop then .offline else .loadData))
  | .loadData => some (s.setReader r (.deref s.gdata))
  | .deref d =>
      some { s.setReader r .quiescentLoad with
        printed := Function.update s.printed r
          (s.printed r ++ [s.heap.content d]) }
  | .quiescentLoad => some (s.setReader r (.quiescentStore s.qsbr.token))
  | .quiescentStore token =>
      some { s.setReader r .testStop with qsbr := s.qsbr.setCnt r token }
  | .offline =>
      some { s.setReader r .unregister with
        qsbr := s.qsbr.setCnt r cntThrOffline }
  | .unregister =>
      some { s.setReader r .returned with qsbr := s.qsbr.unregister r }
  | .returned => none

/-- One step of the main lcore, with `rounds` iterations in `writer`.  The
synchronization returns once it has seen every reader pass, and
`rte_eal_mp_wait_lcore` once every reader has returned. -/
def writer [Fintype ι] (rounds : ℕ) (s : State ι) : Option (State ι) :=
  match s.writer with
  | .loopHead i =>
      if i < rounds then
        some { s with
          heap := s.heap.alloc (some (i + 1))
          writer := .exchange i s.heap.fresh }
      else some { s with stop := true, writer := .waitLcores }
  | .exchange i new =>
      some { s with
        gdata := new
        replaced := s.replaced ++ [s.gdata]
        writer := .syncStart i s.gdata }
  | .syncStart i old =>
      some { s with
        qsbr := s.qsbr.start
        checked := fun _ => false
        writer := .syncCheck i old s.qsbr.start.token }
  | .syncCheck i old _ =>
      if ∀ r, s.checked r = true then
        some { s with writer := .freeOld i old }
      else none
  | .freeOld i old =>
      some { s with
        heap := s.heap.free .writer old
        writer := .loopHead (i + 1) }
  | .waitLcores =>
      if ∀ r, s.readers r = .returned then
        some { s with writer := .freeData }
      else none
  | .freeData =>
      some { s with
        heap := s.heap.free .cleanup s.gdata
        writer := .returned }
  | .returned => none

/-- The synchronizing writer looks at the reader `r`. -/
def checkReader (s : State ι) (r : ι) : Option (State ι) :=
  match s.writer with
  | .syncCheck _ _ token =>
      if s.qsbr.Passes token r then
        some { s with checked := Function.update s.checked r true }
      else none
  | _ => none

/-- Which thread moves; a synchronizing writer either looks at a reader or
returns from the synchronization. -/
inductive Label (ι : Type*)
  | reader (r : ι)
  | writer
  | check (r : ι)
deriving DecidableEq, Repr

def step [Fintype ι] (rounds : ℕ) (s : State ι) :
    Label ι → Option (State ι)
  | .reader r => reader s r
  | .writer => writer rounds s
  | .check r => checkReader s r

/-- All readers of `ι` together with `rounds` iterations of the writer. -/
def rcu (ι : Type*) [DecidableEq ι] [Fintype ι] (rounds : ℕ) :
    TransitionSystem (State ι) (Label ι) where
  start := launch ι
  step := step rounds

end RcuDpdk
end DpdkFolder
