import DpdkFolder.Support.CInt
import DpdkFolder.Support.Loop

/-!
# The loops of prefetch over a burst

`lcore_main` prefetches the first packets of a burst, then processes packets
while it prefetches others a fixed distance ahead, and processes what remains.
The loops share the counter `i`, which is a `uint16_t`; its comparisons with
the distance are made in `int`.
-/

namespace DpdkFolder
namespace Prefetch

/-- What is done with the entry of `bufs` at an index. -/
inductive Event
  | prefetch0 (k : ℕ)
  | processPacket (k : ℕ)
  | free (k : ℕ)
deriving DecidableEq, Repr

/-- The loop counter and what has been done so far, in order. -/
structure State where
  i : UInt16
  log : List Event

/-- Access the entry of `bufs` at an index, which must be one of those that
`rte_eth_rx_burst` has filled. -/
def access (nbRx : UInt16) (k : ℤ) (event : ℕ → Event) (s : State) :
    Option State :=
  if 0 ≤ k ∧ k < nbRx.toNat then
    some { s with log := s.log ++ [event k.toNat] }
  else none

/-- The value of the loop counter as an `int`. -/
def State.iInt (s : State) : ℤ := (s.i.toNat : ℤ)

/-- `i++`. -/
def State.next (s : State) : State := { s with i := s.i + 1 }

/-- `i = 0`. -/
def State.restart (s : State) : State := { s with i := 0 }

/-- `PREFETCH_OFFSET`.  The loops are stated for any distance. -/
def prefetchOffset : ℤ := 4

section Loops

variable (distance : ℤ) (nbRx : UInt16)

/-- "Initial prefetch". -/
def initialPrefetch (fuel : ℕ) (s : State) : Option State :=
  Loop.runWhile (fun s => s.iInt < distance && s.i < nbRx)
    (fun s => (access nbRx s.iInt .prefetch0 s).map State.next)
    fuel s.restart

/-- "Main processing loop". -/
def mainProcessing (fuel : ℕ) (s : State) : Option State :=
  Loop.runWhile (fun s => s.iInt < cInt (nbRx.toNat - distance))
    (fun s => do
      let s ← access nbRx (cInt (s.iInt + distance)) .prefetch0 s
      let s ← access nbRx s.iInt .processPacket s
      return s.next)
    fuel s.restart

/-- "Remaining packets". -/
def remainingPackets (fuel : ℕ) (s : State) : Option State :=
  Loop.runWhile (fun s => s.i < nbRx)
    (fun s => (access nbRx s.iInt .processPacket s).map State.next) fuel s

/-- "Free packets". -/
def freePackets (fuel : ℕ) (s : State) : Option State :=
  Loop.runWhile (fun s => s.i < nbRx)
    (fun s => (access nbRx s.iInt .free s).map State.next) fuel s.restart

/-- The loops of `lcore_main` over a burst, and what they do. -/
def handleBurst (fuel : ℕ) : Option (List Event) := do
  let s ← initialPrefetch distance nbRx fuel ⟨0, []⟩
  let s ← mainProcessing distance nbRx fuel s
  let s ← remainingPackets nbRx fuel s
  let s ← freePackets nbRx fuel s
  return s.log

end Loops

end Prefetch
end DpdkFolder
