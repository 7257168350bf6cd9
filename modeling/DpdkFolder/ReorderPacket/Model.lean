import DpdkFolder.Dpdk.Reorder
import DpdkFolder.Support.Loop
import DpdkFolder.Support.TransitionSystem

/-!
# The reordering programs

Each program creates a packet for every number of a list, inserts it into a
reorder buffer and frees it if that fails.  Then it drains the buffer in
bursts, prints the numbers of the packets and frees them, until a burst is
empty.  The two programs differ in the size of the buffer, in what
`create_packet` writes and in where the printed number is read.

The list of numbers is a parameter, and so are the answers of the mempool.
-/

namespace DpdkFolder
namespace ReorderPacket

open RteReorderBuffer

/-- `BURST`. -/
def burst : ℕ := 32

/-- What the programs use of an mbuf: the first word of its data, its lengths
and the sequence number of the reorder library.  Two allocations never return
the same `id`. -/
structure Mbuf where
  id : ℕ
  word : UInt32
  dataLen : ℕ
  pktLen : ℕ
  seqn : UInt32
deriving DecidableEq, Repr

/-- A program: its `REORDER_SIZE`, what its `create_packet` writes, and the
number that it prints of a packet. -/
structure Program where
  sizeLog : ℕ
  sizeLog_lt : sizeLog < 32
  fillPacket : Mbuf → UInt32 → Mbuf
  outputSeq : Mbuf → UInt32
  id_fillPacket : ∀ m seq, (fillPacket m seq).id = m.id
  seqn_fillPacket : ∀ m seq, (fillPacket m seq).seqn = seq
  outputSeq_fillPacket : ∀ m seq, outputSeq (fillPacket m seq) = seq

/-- `reorder_packet/main.c`, which keeps the number in the data as well and
prints it from there. -/
def reorderPacket : Program where
  sizeLog := 4
  sizeLog_lt := by decide
  fillPacket m seq :=
    { m with word := seq, dataLen := 4, pktLen := 4, seqn := seq }
  outputSeq m := m.word
  id_fillPacket _ _ := rfl
  seqn_fillPacket _ _ := rfl
  outputSeq_fillPacket _ _ := rfl

/-- `reorder_packet2/main.c`, which leaves the data as it is. -/
def reorderPacket2 : Program where
  sizeLog := 2
  sizeLog_lt := by decide
  fillPacket m seq := { m with dataLen := 4, pktLen := 4, seqn := seq }
  outputSeq m := m.seqn
  id_fillPacket _ _ := rfl
  seqn_fillPacket _ _ := rfl
  outputSeq_fillPacket _ _ := rfl

/-- A number of the list and the memory that the mempool has for its packet,
if there is any. -/
structure Arrival where
  seq : UInt32
  memory : Option Mbuf
deriving DecidableEq, Repr

/-- The reorder buffer, the packets created, those accepted, those freed when
they were rejected and those freed after they were drained, the numbers
printed, and whether the drain loop goes on. -/
structure State (p : Program) where
  buf : RteReorderBuffer Mbuf p.sizeLog
  created : List Mbuf
  accepted : List Mbuf
  rejected : List Mbuf
  drained : List Mbuf
  printed : List UInt32
  draining : Bool

/-- The state after `rte_reorder_create`. -/
def launch (p : Program) : State p where
  buf := create Mbuf p.sizeLog
  created := []
  accepted := []
  rejected := []
  drained := []
  printed := []
  draining := true

/-- `rte_pktmbuf_alloc`, which resets the lengths. -/
def rtePktmbufAlloc (id : ℕ) (memory : Option Mbuf) : Option Mbuf :=
  memory.map fun m => { m with id, dataLen := 0, pktLen := 0 }

/-- `create_packet`. -/
def createPacket (p : Program) (s : State p) (a : Arrival) : Option Mbuf :=
  (rtePktmbufAlloc s.created.length a.memory).map fun m =>
    p.fillPacket m a.seq

/-- One turn of the loop that inserts. -/
def insertPacket (p : Program) (s : State p) (a : Arrival) : State p :=
  match createPacket p s a with
  -- the library refuses a null pointer, and freeing it has no effect
  | none => s
  | some m =>
      let (ret, buf) :=
        rteReorderInsert Mbuf.seqn (readyBufFull p.sizeLog) m s.buf
      if ret < 0 then
        { s with
          buf
          created := s.created ++ [m]
          rejected := s.rejected ++ [m] }
      else
        { s with
          buf
          created := s.created ++ [m]
          accepted := s.accepted ++ [m] }

/-- One turn of the loop that drains. -/
def drainBurst (p : Program) (s : State p) : State p :=
  let (mbufs, buf) := rteReorderDrain burst s.buf
  if mbufs.length = 0 then { s with buf, draining := false }
  else
    { s with
      buf
      drained := s.drained ++ mbufs
      printed := s.printed ++ mbufs.map p.outputSeq }

/-- The loop that inserts, one arrival after another. -/
def inserts (p : Program) : TransitionSystem (State p) Arrival where
  start := launch p
  step s a := some (insertPacket p s a)

/-- The state after the loop that inserts. -/
def insertAll (p : Program) (arrivals : List Arrival) : State p :=
  arrivals.foldl (insertPacket p) (launch p)

/-- `main` from its first loop on, with at most `fuel` bursts. -/
def main (p : Program) (fuel : ℕ) (arrivals : List Arrival) :
    Option (State p) :=
  Loop.runWhile State.draining (fun s => some (drainBurst p s)) fuel
    (insertAll p arrivals)

end ReorderPacket
end DpdkFolder
