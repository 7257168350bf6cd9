import DpdkFolder.Dpdk.Ring
import DpdkFolder.Support.TransitionSystem

/-!
# The three-stage pipeline of packet_parseer_ring

Three lcores run `receive_packet`, `packet_parser` and `transmit_packet`.
They share the rings `rx_to_parser` and `parse_to_tx`; everything else is
local.  One label is one step of one stage together with what the driver
answers if that step calls it, so a run is an interleaving of the three loops
with a sequence of RX bursts and of TX results.

The text that the stages print is left out: `packet_info` only reads the
packets, and no counter or branch depends on it.
-/

namespace DpdkFolder
namespace PacketParseerRing

/-- `BURST_SIZE` of ring.h. -/
def burstSize : ℕ := 32

/-- `RX_RING_SIZE` of ring.h, the size of both rings. -/
def rxRingSize : ℕ := 1024

/-- The count at which each of the three loops stops. -/
def packetLimit : ℕ := 25

/-- How `transmit_packet` gave a packet up. -/
inductive Disposal (α : Type*)
  | sent (packet : α)
  | freed (packet : α)
deriving DecidableEq, Repr

def Disposal.packet {α : Type*} : Disposal α → α
  | .sent p => p
  | .freed p => p

/-- Where `receive_packet` stands. -/
inductive RxPc (α : Type*)
  | rxBurst
  | enqueueBurst (packets : List α)
  | freeRest (enq : ℕ) (rest : List α)
  | checkLimit
  | returned
deriving DecidableEq, Repr

/-- Where `packet_parser` stands. -/
inductive ParserPc (α : Type*)
  | dequeueBurst
  | enqueueBurst (packets : List α)
  | checkLimit
  | returned
deriving DecidableEq, Repr

/-- Where `transmit_packet` stands. -/
inductive TxPc (α : Type*)
  | dequeueBurst
  | txBurst (packets : List α)
  | freeRest (rest : List α)
  | checkLimit
  | returned
deriving DecidableEq, Repr

/-- The packets that a stage holds between two calls. -/
def RxPc.hand {α : Type*} : RxPc α → List α
  | .enqueueBurst packets => packets
  | .freeRest _ rest => rest
  | _ => []

def ParserPc.hand {α : Type*} : ParserPc α → List α
  | .enqueueBurst packets => packets
  | _ => []

def TxPc.hand {α : Type*} : TxPc α → List α
  | .txBurst packets => packets
  | .freeRest rest => rest
  | _ => []

/-- The rings, the three stages with their counters, and three logs: what
`rte_eth_rx_burst` handed over, what `receive_packet` freed, and what
`transmit_packet` sent or freed. -/
structure State (α : Type*) where
  received : List α
  rxPc : RxPc α
  rxPacket : ℕ
  rxFreed : List α
  rxToParser : RteRing α rxRingSize
  parserPc : ParserPc α
  parsPacket : ℕ
  parseToTx : RteRing α rxRingSize
  txPc : TxPc α
  txPacket : ℕ
  txLog : List (Disposal α)
deriving DecidableEq, Repr

/-- The state in which `main` launches the three stages. -/
def launch (α : Type*) : State α where
  received := []
  rxPc := .rxBurst
  rxPacket := 0
  rxFreed := []
  rxToParser := .empty
  parserPc := .dequeueBurst
  parsPacket := 0
  parseToTx := .empty
  txPc := .dequeueBurst
  txPacket := 0
  txLog := []

variable {α : Type*}

/-- One step of `receive_packet`; `burst` is what `rte_eth_rx_burst` stores
if the step calls it. -/
def receivePacket (s : State α) (burst : List α) : Option (State α) :=
  match s.rxPc with
  | .rxBurst =>
      if burst.length ≤ burstSize then
        some { s with
          received := s.received ++ burst
          rxPc := if 0 < burst.length then .enqueueBurst burst
            else .checkLimit }
      else none
  | .enqueueBurst packets =>
      let res := rteRingEnqueueBurst s.rxToParser packets
      some { s with
        rxToParser := res.2
        rxPc := .freeRest res.1 (packets.drop res.1) }
  | .freeRest enq (p :: rest) =>
      some { s with
        rxFreed := s.rxFreed ++ [p]
        rxPc := .freeRest enq rest }
  | .freeRest enq [] =>
      some { s with rxPacket := s.rxPacket + enq, rxPc := .checkLimit }
  | .checkLimit =>
      some { s with
        rxPc := if packetLimit ≤ s.rxPacket then .returned else .rxBurst }
  | .returned => none

/-- One step of `packet_parser`.  The result of its enqueue is not looked at:
packets that do not fit are neither freed nor kept. -/
def packetParser (s : State α) : Option (State α) :=
  match s.parserPc with
  | .dequeueBurst =>
      let res := rteRingDequeueBurst s.rxToParser burstSize
      some { s with
        rxToParser := res.2
        parsPacket := s.parsPacket + res.1.length
        parserPc := if 0 < res.1.length then .enqueueBurst res.1
          else .checkLimit }
  | .enqueueBurst packets =>
      some { s with
        parseToTx := (rteRingEnqueueBurst s.parseToTx packets).2
        parserPc := .checkLimit }
  | .checkLimit =>
      some { s with
        parserPc := if packetLimit ≤ s.parsPacket then .returned
          else .dequeueBurst }
  | .returned => none

/-- One step of `transmit_packet`; `sent` is how many packets
`rte_eth_tx_burst` accepts if the step calls it.  An empty dequeue goes round
the loop without looking at the counter. -/
def transmitPacket (s : State α) (sent : ℕ) : Option (State α) :=
  match s.txPc with
  | .dequeueBurst =>
      let res := rteRingDequeueBurst s.parseToTx burstSize
      some { s with
        parseToTx := res.2
        txPc := if res.1.length = 0 then .dequeueBurst else .txBurst res.1 }
  | .txBurst packets =>
      if sent ≤ packets.length then
        some { s with
          txPacket := s.txPacket + sent
          txLog := s.txLog ++ (packets.take sent).map .sent
          txPc := .freeRest (packets.drop sent) }
      else none
  | .freeRest (p :: rest) =>
      some { s with
        txLog := s.txLog ++ [.freed p]
        txPc := .freeRest rest }
  | .freeRest [] => some { s with txPc := .checkLimit }
  | .checkLimit =>
      some { s with
        txPc := if packetLimit ≤ s.txPacket then .returned
          else .dequeueBurst }
  | .returned => none

/-! ## What a step can do -/

theorem receivePacket_cases {s t : State α} {burst : List α}
    (h : receivePacket s burst = some t) :
    (s.rxPc = .rxBurst ∧ burst.length ≤ burstSize ∧
      t = { s with
        received := s.received ++ burst
        rxPc := if 0 < burst.length then .enqueueBurst burst
          else .checkLimit }) ∨
    (∃ packets, s.rxPc = .enqueueBurst packets ∧
      t = { s with
        rxToParser := (rteRingEnqueueBurst s.rxToParser packets).2
        rxPc := .freeRest (rteRingEnqueueBurst s.rxToParser packets).1
          (packets.drop (rteRingEnqueueBurst s.rxToParser packets).1) }) ∨
    (∃ enq p rest, s.rxPc = .freeRest enq (p :: rest) ∧
      t = { s with
        rxFreed := s.rxFreed ++ [p]
        rxPc := .freeRest enq rest }) ∨
    (∃ enq, s.rxPc = .freeRest enq [] ∧
      t = { s with rxPacket := s.rxPacket + enq, rxPc := .checkLimit }) ∨
    (s.rxPc = .checkLimit ∧
      t = { s with
        rxPc := if packetLimit ≤ s.rxPacket then .returned
          else .rxBurst }) := by
  cases hpc : s.rxPc with
  | rxBurst =>
      simp only [receivePacket, hpc] at h
      split at h
      · next hlength =>
          exact Or.inl ⟨rfl, hlength, (Option.some.inj h).symm⟩
      · cases h
  | enqueueBurst packets =>
      simp only [receivePacket, hpc, Option.some.injEq] at h
      exact Or.inr (Or.inl ⟨packets, rfl, h.symm⟩)
  | freeRest enq rest =>
      cases rest with
      | nil =>
          simp only [receivePacket, hpc, Option.some.injEq] at h
          exact Or.inr (Or.inr (Or.inr (Or.inl ⟨enq, rfl, h.symm⟩)))
      | cons p rest =>
          simp only [receivePacket, hpc, Option.some.injEq] at h
          exact Or.inr (Or.inr (Or.inl ⟨enq, p, rest, rfl, h.symm⟩))
  | checkLimit =>
      simp only [receivePacket, hpc, Option.some.injEq] at h
      exact Or.inr (Or.inr (Or.inr (Or.inr ⟨rfl, h.symm⟩)))
  | returned => simp [receivePacket, hpc] at h

theorem packetParser_cases {s t : State α} (h : packetParser s = some t) :
    (s.parserPc = .dequeueBurst ∧
      t = { s with
        rxToParser := (rteRingDequeueBurst s.rxToParser burstSize).2
        parsPacket := s.parsPacket +
          (rteRingDequeueBurst s.rxToParser burstSize).1.length
        parserPc :=
          if 0 < (rteRingDequeueBurst s.rxToParser burstSize).1.length then
            .enqueueBurst (rteRingDequeueBurst s.rxToParser burstSize).1
          else .checkLimit }) ∨
    (∃ packets, s.parserPc = .enqueueBurst packets ∧
      t = { s with
        parseToTx := (rteRingEnqueueBurst s.parseToTx packets).2
        parserPc := .checkLimit }) ∨
    (s.parserPc = .checkLimit ∧
      t = { s with
        parserPc := if packetLimit ≤ s.parsPacket then .returned
          else .dequeueBurst }) := by
  cases hpc : s.parserPc with
  | dequeueBurst =>
      simp only [packetParser, hpc, Option.some.injEq] at h
      exact Or.inl ⟨rfl, h.symm⟩
  | enqueueBurst packets =>
      simp only [packetParser, hpc, Option.some.injEq] at h
      exact Or.inr (Or.inl ⟨packets, rfl, h.symm⟩)
  | checkLimit =>
      simp only [packetParser, hpc, Option.some.injEq] at h
      exact Or.inr (Or.inr ⟨rfl, h.symm⟩)
  | returned => simp [packetParser, hpc] at h

theorem transmitPacket_cases {s t : State α} {sent : ℕ}
    (h : transmitPacket s sent = some t) :
    (s.txPc = .dequeueBurst ∧
      t = { s with
        parseToTx := (rteRingDequeueBurst s.parseToTx burstSize).2
        txPc :=
          if (rteRingDequeueBurst s.parseToTx burstSize).1.length = 0 then
            .dequeueBurst
          else .txBurst (rteRingDequeueBurst s.parseToTx burstSize).1 }) ∨
    (∃ packets, s.txPc = .txBurst packets ∧ sent ≤ packets.length ∧
      t = { s with
        txPacket := s.txPacket + sent
        txLog := s.txLog ++ (packets.take sent).map .sent
        txPc := .freeRest (packets.drop sent) }) ∨
    (∃ p rest, s.txPc = .freeRest (p :: rest) ∧
      t = { s with
        txLog := s.txLog ++ [.freed p]
        txPc := .freeRest rest }) ∨
    (s.txPc = .freeRest [] ∧ t = { s with txPc := .checkLimit }) ∨
    (s.txPc = .checkLimit ∧
      t = { s with
        txPc := if packetLimit ≤ s.txPacket then .returned
          else .dequeueBurst }) := by
  cases hpc : s.txPc with
  | dequeueBurst =>
      simp only [transmitPacket, hpc, Option.some.injEq] at h
      exact Or.inl ⟨rfl, h.symm⟩
  | txBurst packets =>
      simp only [transmitPacket, hpc] at h
      split at h
      · next hle =>
          exact Or.inr (Or.inl ⟨packets, rfl, hle, (Option.some.inj h).symm⟩)
      · cases h
  | freeRest rest =>
      cases rest with
      | nil =>
          simp only [transmitPacket, hpc, Option.some.injEq] at h
          exact Or.inr (Or.inr (Or.inr (Or.inl ⟨rfl, h.symm⟩)))
      | cons p rest =>
          simp only [transmitPacket, hpc, Option.some.injEq] at h
          exact Or.inr (Or.inr (Or.inl ⟨p, rest, rfl, h.symm⟩))
  | checkLimit =>
      simp only [transmitPacket, hpc, Option.some.injEq] at h
      exact Or.inr (Or.inr (Or.inr (Or.inr ⟨rfl, h.symm⟩)))
  | returned => simp [transmitPacket, hpc] at h

/-- Which stage moves, and the driver's answer to it. -/
inductive Label (α : Type*)
  | receive (burst : List α)
  | parse
  | transmit (sent : ℕ)
deriving DecidableEq, Repr

def step (s : State α) : Label α → Option (State α)
  | .receive burst => receivePacket s burst
  | .parse => packetParser s
  | .transmit sent => transmitPacket s sent

/-- The pipeline from the launch of its stages. -/
def pipeline (α : Type*) : TransitionSystem (State α) (Label α) where
  start := launch α
  step := step

end PacketParseerRing
end DpdkFolder
