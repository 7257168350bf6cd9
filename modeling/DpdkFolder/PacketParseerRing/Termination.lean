import Mathlib.Data.Nat.Find
import Mathlib.Data.Prod.Lex
import Mathlib.Order.WellFounded
import DpdkFolder.PacketParseerRing.Starvation
import DpdkFolder.Support.Fairness

/-!
# The pipeline comes to rest

The stages run against a driver whose answers are fixed in the order of its
calls, and may be any; packets only have to keep arriving.  On every fair
schedule the stages come to rest one after another: `receive_packet` when 25
packets have entered, `packet_parser` when 25 have passed, and
`transmit_packet` when 25 have been accepted or, if too many were refused,
when none is left.  Each stage works through a rank of its own, which the
other stages do not touch.
-/

namespace DpdkFolder
namespace PacketParseerRing

variable {α : Type*}

/-- The driver: what the `k`-th call of `rte_eth_rx_burst` stores, and for how
many packets the `k`-th call of `rte_eth_tx_burst` has room. -/
structure Driver (α : Type*) where
  rxBurst : ℕ → List α
  rxBurst_le : ∀ k, (rxBurst k).length ≤ burstSize
  txRoom : ℕ → ℕ

/-- Packets keep arriving, after pauses of any length. -/
def Driver.Busy (d : Driver α) : Prop := ∀ k, ∃ j, d.rxBurst (k + j) ≠ []

/-- There is always room for a whole burst. -/
def Driver.Accepting (d : Driver α) : Prop := ∀ k, burstSize ≤ d.txRoom k

/-- The three lcores. -/
inductive Stage
  | receiver
  | parser
  | transmitter
deriving DecidableEq, Repr

/-- The pipeline, and how often the driver has been called. -/
structure Driven (α : Type*) where
  pipeline : State α
  rxCalls : ℕ
  txCalls : ℕ

/-- How many calls of `rte_eth_rx_burst` the next step makes. -/
def RxPc.calls : RxPc α → ℕ
  | .rxBurst => 1
  | _ => 0

/-- How many calls of `rte_eth_tx_burst` the next step makes. -/
def TxPc.calls : TxPc α → ℕ
  | .txBurst _ => 1
  | _ => 0

/-- The step of a stage with the driver's answer to it. -/
def Driver.label (d : Driver α) (s : Driven α) : Stage → Label α
  | .receiver => .receive (d.rxBurst s.rxCalls)
  | .parser => .parse
  | .transmitter =>
      .transmit (min (d.txRoom s.txCalls) s.pipeline.txPc.hand.length)

/-- Count the calls of a step that leads to `t`. -/
def Driven.next (s : Driven α) (stage : Stage) (t : State α) : Driven α :=
  match stage with
  | .receiver => ⟨t, s.rxCalls + s.pipeline.rxPc.calls, s.txCalls⟩
  | .parser => ⟨t, s.rxCalls, s.txCalls⟩
  | .transmitter => ⟨t, s.rxCalls, s.txCalls + s.pipeline.txPc.calls⟩

/-- The pipeline with its driver; only the order of the steps is left open. -/
def driven (d : Driver α) : TransitionSystem (Driven α) Stage where
  start := ⟨launch α, 0, 0⟩
  step s stage := (step s.pipeline (d.label s stage)).map (s.next stage)

/-! ## Steps -/

variable {d : Driver α} {s t : Driven α} {stage : Stage}

theorem driven_step (h : (driven d).step s stage = some t) :
    step s.pipeline (d.label s stage) = some t.pipeline ∧
      t = s.next stage t.pipeline := by
  obtain ⟨u, hu, rfl⟩ := Option.map_eq_some_iff.mp h
  cases stage <;> exact ⟨hu, rfl⟩

theorem reachable_pipeline (h : (driven d).Reachable s) :
    (pipeline α).Reachable s.pipeline := by
  apply h.invariant (P := fun u : Driven α => (pipeline α).Reachable u.pipeline)
  · exact TransitionSystem.reachable_start
  · intro u stage v _ hu hstep
    exact hu.step (driven_step hstep).1

theorem driven_inv (h : (driven d).Reachable s) : Inv s.pipeline :=
  reachable_inv (reachable_pipeline h)

/-- A stage moves until it has returned. -/
theorem receivePacket_ne_none {u : State α} {burst : List α}
    (hburst : burst.length ≤ burstSize) (hpc : u.rxPc ≠ .returned) :
    receivePacket u burst ≠ none := by
  cases hrx : u.rxPc with
  | rxBurst => simp [receivePacket, hrx, hburst]
  | freeRest enq rest => cases rest <;> simp [receivePacket, hrx]
  | enqueueBurst | checkLimit => simp [receivePacket, hrx]
  | returned => exact absurd hrx hpc

theorem packetParser_ne_none {u : State α} (hpc : u.parserPc ≠ .returned) :
    packetParser u ≠ none := by
  cases hparser : u.parserPc with
  | dequeueBurst | enqueueBurst | checkLimit => simp [packetParser, hparser]
  | returned => exact absurd hparser hpc

theorem transmitPacket_ne_none {u : State α} {sent : ℕ}
    (hsent : sent ≤ u.txPc.hand.length) (hpc : u.txPc ≠ .returned) :
    transmitPacket u sent ≠ none := by
  cases htx : u.txPc with
  | txBurst packets =>
      rw [htx] at hsent
      have hle : sent ≤ packets.length := hsent
      simp [transmitPacket, htx, hle]
  | freeRest rest => cases rest <;> simp [transmitPacket, htx]
  | dequeueBurst | checkLimit => simp [transmitPacket, htx]
  | returned => exact absurd htx hpc

theorem driven_ne_none (h : step s.pipeline (d.label s stage) ≠ none) :
    (driven d).step s stage ≠ none := by
  obtain ⟨u, hu⟩ := Option.ne_none_iff_exists'.mp h
  simp [driven, hu]

/-! ## The first stage -/

/-- The packets that `receive_packet` has not counted yet. -/
def RxPc.pending : RxPc α → ℕ
  | .enqueueBurst packets => packets.length
  | .freeRest enq _ => enq
  | _ => 0

/-- How many packets `receive_packet` still has to receive. -/
def State.rxMissing (s : State α) : ℕ :=
  packetLimit - (s.rxPacket + s.rxPc.pending)

/-- How many steps a poll of `receive_packet` takes from here. -/
def RxPc.remaining : RxPc α → ℕ
  | .enqueueBurst _ => 3
  | .freeRest _ _ => 2
  | .checkLimit => 1
  | _ => 0

open Classical in
/-- How many empty bursts come before the next packet. -/
noncomputable def Driver.idle (hbusy : d.Busy) (k : ℕ) : ℕ :=
  Nat.find (hbusy k)

theorem idle_succ_lt (hbusy : d.Busy) {k : ℕ} (hempty : d.rxBurst k = []) :
    Driver.idle hbusy (k + 1) < Driver.idle hbusy k := by
  classical
  have hfind : d.rxBurst (k + Driver.idle hbusy k) ≠ [] :=
    Nat.find_spec (hbusy k)
  obtain ⟨j, hj⟩ : ∃ j, Driver.idle hbusy k = j + 1 := by
    apply Nat.exists_eq_succ_of_ne_zero
    intro hzero
    rw [hzero] at hfind
    exact hfind hempty
  have hnext : d.rxBurst (k + 1 + j) ≠ [] := by
    rwa [hj, Nat.add_comm j 1, ← Nat.add_assoc] at hfind
  have hle : Driver.idle hbusy (k + 1) ≤ j := Nat.find_min' _ hnext
  omega

/-- The rank of `receive_packet`: a poll brings packets or uses up an empty
burst. -/
noncomputable def Driven.rxRank (hbusy : d.Busy) (s : Driven α) : ℕ ×ₗ ℕ :=
  toLex (s.pipeline.rxMissing,
    2 * Driver.idle hbusy s.rxCalls + s.pipeline.rxPc.remaining)

/-- Every step of `receive_packet` lowers its rank, or is its last one. -/
theorem receiver_works (hbusy : d.Busy) (hinv : Inv s.pipeline) {u : State α}
    (hstep : receivePacket s.pipeline (d.rxBurst s.rxCalls) = some u) :
    u.rxPc = .returned ∨
      (s.next .receiver u).rxRank hbusy < s.rxRank hbusy := by
  have hrx := hinv.rxCounts
  have hfits := hinv.rxToParser_fits
  simp only [Driven.rxRank, Driven.next, Prod.Lex.toLex_lt_toLex]
  obtain ⟨hpc, -, rfl⟩ | ⟨packets, hpc, rfl⟩ | ⟨enq, p, rest, hpc, -⟩ |
      ⟨enq, hpc, rfl⟩ | ⟨hpc, rfl⟩ := receivePacket_cases hstep
  · simp only [hpc, RxCounts] at hrx
    right
    cases hburst : d.rxBurst s.rxCalls with
    | nil =>
        have hidle := idle_succ_lt hbusy hburst
        right
        simp only [State.rxMissing, hpc, RxPc.pending, RxPc.calls,
          RxPc.remaining, List.length_nil, Nat.lt_irrefl, if_false, true_and]
        omega
    | cons p packets =>
        left
        simp only [State.rxMissing, hpc, RxPc.pending, List.length_cons,
          Nat.succ_pos, if_true]
        omega
  · simp only [hpc, RxPc.hand] at hfits
    obtain ⟨hstored, -⟩ := rteRingEnqueueBurst_of_le hfits
    right
    right
    simp only [State.rxMissing, hpc, hstored, RxPc.pending, RxPc.calls,
      RxPc.remaining, Nat.add_zero, true_and]
    omega
  · simp only [hpc, RxCounts] at hrx
    cases hrx.1
  · right
    right
    simp only [State.rxMissing, hpc, RxPc.pending, RxPc.calls,
      RxPc.remaining, Nat.add_zero, true_and]
    omega
  · by_cases hlimit : packetLimit ≤ s.pipeline.rxPacket
    · exact Or.inl (if_pos hlimit)
    · right
      right
      simp only [State.rxMissing, hpc, hlimit, if_false, RxPc.pending,
        RxPc.calls, RxPc.remaining, Nat.add_zero, true_and]
      omega

theorem leadsTo_received (hbusy : d.Busy) :
    (driven d).LeadsTo id (fun _ => True)
      fun s => s.pipeline.rxPc = .returned := by
  refine TransitionSystem.leadsTo_of_worker (Driven.rxRank hbusy)
    .receiver ?_ ?_
  · rintro s stage - - hpc rfl
    exact driven_ne_none (receivePacket_ne_none (d.rxBurst_le _) hpc)
  · intro s stage t hreach _ _ hst
    obtain ⟨hstep, ht⟩ := driven_step hst
    cases stage with
    | receiver =>
        rcases receiver_works hbusy (driven_inv hreach) hstep with hpc | hlt
        · exact Or.inl hpc
        · rw [← ht] at hlt
          exact Or.inr ⟨trivial, Or.inl hlt⟩
    | parser =>
        obtain ⟨-, hpc, hcount, -⟩ := packetParser_frame hstep
        refine Or.inr ⟨trivial, Or.inr ⟨?_, by decide⟩⟩
        rw [ht]
        simp only [Driven.rxRank, Driven.next, State.rxMissing, hpc, hcount]
    | transmitter =>
        obtain ⟨-, hpc, hcount, -⟩ := transmitPacket_frame hstep
        refine Or.inr ⟨trivial, Or.inr ⟨?_, by decide⟩⟩
        rw [ht]
        simp only [Driven.rxRank, Driven.next, State.rxMissing, hpc, hcount]

/-! ## The second stage -/

/-- The rank of `packet_parser`: what it still has to take and to pass on. -/
def State.parserRank (s : State α) : ℕ :=
  10 * s.rxToParser.toList.length + s.parserPc.rank

/-- When 25 packets have entered, `packet_parser` finds one on every poll. -/
theorem Inv.rxToParser_pos {s : State α} (h : Inv s)
    (hrx : s.rxPc = .returned) (hparser : s.parserPc = .dequeueBurst) :
    0 < s.rxToParser.toList.length := by
  have hcounts := h.rxCounts
  have hpassed := h.parserCounts
  have hsum := h.received_length
  simp only [hrx, RxCounts] at hcounts
  simp only [hparser, ParserCounts] at hpassed
  simp only [hrx, hparser, RxPc.hand, ParserPc.hand, List.length_nil] at hsum
  omega

theorem parser_works {u v : State α} (hinv : Inv u)
    (hrx : u.rxPc = .returned) (hstep : packetParser u = some v) :
    v.parserPc = .returned ∨ v.parserRank < u.parserRank := by
  obtain ⟨hpc, rfl⟩ | ⟨packets, hpc, rfl⟩ | ⟨hpc, rfl⟩ :=
    packetParser_cases hstep
  · have hpos := hinv.rxToParser_pos hrx hpc
    have htaken : 0 < min burstSize u.rxToParser.toList.length :=
      Nat.lt_min.mpr ⟨by decide, hpos⟩
    right
    simp only [State.parserRank, hpc, rteRingDequeueBurst,
      BoundedFifo.toList_removeBurst, List.length_take, List.length_drop,
      htaken, if_true, ParserPc.rank]
    omega
  · right
    simp only [State.parserRank, hpc, ParserPc.rank]
    omega
  · by_cases hlimit : packetLimit ≤ u.parsPacket
    · exact Or.inl (if_pos hlimit)
    · right
      simp only [State.parserRank, hpc, hlimit, if_false, ParserPc.rank]
      omega

theorem leadsTo_passed :
    (driven d).LeadsTo id (fun s => s.pipeline.rxPc = .returned)
      fun s => s.pipeline.rxPc = .returned ∧
        s.pipeline.parserPc = .returned := by
  refine TransitionSystem.leadsTo_of_worker
    (fun s => s.pipeline.parserRank) .parser ?_ ?_
  · rintro s stage - hrx hnot rfl
    exact driven_ne_none (packetParser_ne_none fun hpc => hnot ⟨hrx, hpc⟩)
  · intro s stage t hreach hrx _ hst
    obtain ⟨hstep, -⟩ := driven_step hst
    cases stage with
    | receiver =>
        change receivePacket _ _ = _ at hstep
        simp [receivePacket, hrx] at hstep
    | parser =>
        obtain ⟨-, hpc, -⟩ := packetParser_frame hstep
        rw [← hpc] at hrx
        rcases parser_works (driven_inv hreach) (hpc.symm.trans hrx) hstep
          with hparser | hlt
        · exact Or.inl ⟨hrx, hparser⟩
        · exact Or.inr ⟨hrx, Or.inl hlt⟩
    | transmitter =>
        obtain ⟨-, hpc, -, -, hring, hparser, -⟩ :=
          transmitPacket_frame hstep
        refine Or.inr ⟨hpc.trans hrx, Or.inr ⟨?_, by decide⟩⟩
        simp only [State.parserRank, hring, hparser]

/-! ## The third stage -/

/-- The first two stages have returned; the third one has returned as well or
finds nothing more to do. -/
structure AtRest (s : State α) : Prop where
  rx : s.rxPc = .returned
  parser : s.parserPc = .returned
  tx : s.txPc = .returned ∨
    (s.txPc = .dequeueBurst ∧ s.parseToTx.toList = [])

/-- The rank of `transmit_packet`: what it still has to send or to free. -/
def State.txRank (s : State α) : ℕ :=
  7 * s.parseToTx.toList.length + s.txPc.rank

theorem transmitter_works {u v : State α} {sent : ℕ}
    (hwork : u.txPc = .dequeueBurst → u.parseToTx.toList ≠ [])
    (hstep : transmitPacket u sent = some v) :
    v.txPc = .returned ∨ v.txRank < u.txRank := by
  obtain ⟨hpc, rfl⟩ | ⟨packets, hpc, hle, rfl⟩ | ⟨p, rest, hpc, rfl⟩ |
      ⟨hpc, rfl⟩ | ⟨hpc, rfl⟩ := transmitPacket_cases hstep
  · have hpos := List.length_pos_of_ne_nil (hwork hpc)
    have htaken : min burstSize u.parseToTx.toList.length ≠ 0 :=
      Nat.ne_of_gt (Nat.lt_min.mpr ⟨by decide, hpos⟩)
    right
    simp only [State.txRank, hpc, rteRingDequeueBurst,
      BoundedFifo.toList_removeBurst, List.length_take, List.length_drop,
      htaken, if_false, TxPc.rank]
    omega
  · right
    simp only [State.txRank, hpc, TxPc.rank, List.length_drop]
    omega
  · right
    simp only [State.txRank, hpc, TxPc.rank, List.length_cons]
    omega
  · right
    simp only [State.txRank, hpc, TxPc.rank]
    omega
  · by_cases hlimit : packetLimit ≤ u.txPacket
    · exact Or.inl (if_pos hlimit)
    · right
      simp only [State.txRank, hpc, hlimit, if_false, TxPc.rank]
      omega

theorem leadsTo_atRest :
    (driven d).LeadsTo id
      (fun s => s.pipeline.rxPc = .returned ∧
        s.pipeline.parserPc = .returned)
      fun s => AtRest s.pipeline := by
  refine TransitionSystem.leadsTo_of_worker
    (fun s => s.pipeline.txRank) .transmitter ?_ ?_
  · rintro s stage - ⟨hrx, hparser⟩ hnot rfl
    exact driven_ne_none (transmitPacket_ne_none (Nat.min_le_right _ _)
      fun hpc => hnot ⟨hrx, hparser, Or.inl hpc⟩)
  · rintro s stage t hreach ⟨hrx, hparser⟩ hnot hst
    obtain ⟨hstep, -⟩ := driven_step hst
    cases stage with
    | receiver =>
        change receivePacket _ _ = _ at hstep
        simp [receivePacket, hrx] at hstep
    | parser =>
        change packetParser _ = _ at hstep
        simp [packetParser, hparser] at hstep
    | transmitter =>
        obtain ⟨-, hrxPc, -, -, -, hparserPc, -⟩ :=
          transmitPacket_frame hstep
        rw [← hrxPc] at hrx
        rw [← hparserPc] at hparser
        have hwork : s.pipeline.txPc = .dequeueBurst →
            s.pipeline.parseToTx.toList ≠ [] := fun hpc hring =>
          hnot ⟨hrxPc ▸ hrx, hparserPc ▸ hparser, Or.inr ⟨hpc, hring⟩⟩
        rcases transmitter_works hwork hstep with hpc | hlt
        · exact Or.inl ⟨hrx, hparser, Or.inl hpc⟩
        · exact Or.inr ⟨⟨hrx, hparser⟩, Or.inl hlt⟩

/-! ## The whole pipeline -/

theorem atRest_step (hrest : AtRest s.pipeline)
    (hst : (driven d).step s stage = some t) : AtRest t.pipeline := by
  obtain ⟨hrx, hparser, htx⟩ := hrest
  obtain ⟨hstep, -⟩ := driven_step hst
  cases stage with
  | receiver =>
      change receivePacket _ _ = _ at hstep
      simp [receivePacket, hrx] at hstep
  | parser =>
      change packetParser _ = _ at hstep
      simp [packetParser, hparser] at hstep
  | transmitter =>
      rcases htx with htx | ⟨htx, hring⟩
      · change transmitPacket _ _ = _ at hstep
        simp [transmitPacket, htx] at hstep
      · -- The transmitter polls an empty ring.
        have hempty :
            (rteRingDequeueBurst s.pipeline.parseToTx burstSize).1 = [] := by
          rw [rteRingDequeueBurst, hring, List.take_nil]
        have hsplit :=
          rteRingDequeueBurst_append s.pipeline.parseToTx burstSize
        rw [hempty, hring, List.nil_append] at hsplit
        change transmitPacket _ _ = _ at hstep
        rw [transmitPacket, htx] at hstep
        simp only [hempty, List.length_nil, if_true,
          Option.some.injEq] at hstep
        rw [← hstep]
        exact ⟨hrx, hparser, Or.inr ⟨rfl, hsplit⟩⟩

/-- On a fair schedule there is a moment from which on the pipeline is at
rest, if packets keep arriving. -/
theorem eventually_atRest (hbusy : d.Busy) {sched : ℕ → Stage}
    (hfair : TransitionSystem.Fair id sched) :
    ∃ n, ∀ m, n ≤ m → AtRest ((driven d).along sched m).pipeline := by
  have hleads := (leadsTo_received hbusy).trans
    (leadsTo_passed.trans leadsTo_atRest)
  obtain ⟨n, hn⟩ := hleads.settles trivial
    (fun _ _ _ _ hs hstep => atRest_step hs hstep) hfair
  exact ⟨n, fun m hle => (hn m hle).2⟩

theorem AtRest.starved {u : State α} (h : AtRest u) (hinv : Inv u)
    (hpc : u.txPc ≠ .returned) : Starved u := by
  obtain ⟨htx, hring⟩ := h.tx.resolve_left hpc
  have hcounts := hinv.txCounts
  rw [htx] at hcounts
  refine ⟨h.rx, h.parser, hring, ?_, hpc, hcounts⟩
  rw [htx]
  rfl

/-- What was received at the end is what was sent or freed, and what was left
in the rings. -/
theorem AtRest.received_eq {u : State α} (h : AtRest u) (hinv : Inv u) :
    u.received =
      u.disposed ++ u.parseToTx.toList ++ u.rxToParser.toList := by
  have hhand : u.txPc.hand = [] := by
    rcases h.tx with htx | ⟨htx, -⟩ <;> rw [htx] <;> rfl
  rw [hinv.conserved, State.entered, State.passed, hhand, h.rx, h.parser]
  simp [RxPc.hand, ParserPc.hand]

/-- For every driver that goes on receiving and every fair schedule there is a
moment from which on `receive_packet` and `packet_parser` have returned, and
`transmit_packet` has returned or is starved. -/
theorem pipeline_settles (hbusy : d.Busy) {sched : ℕ → Stage}
    (hfair : TransitionSystem.Fair id sched) :
    ∃ n, ∀ m, n ≤ m →
      ((driven d).along sched m).pipeline.rxPc = .returned ∧
      ((driven d).along sched m).pipeline.parserPc = .returned ∧
      (((driven d).along sched m).pipeline.txPc = .returned ∨
        Starved ((driven d).along sched m).pipeline) := by
  obtain ⟨n, hn⟩ := eventually_atRest hbusy hfair
  refine ⟨n, fun m hle => ⟨(hn m hle).rx, (hn m hle).parser, ?_⟩⟩
  have hinv := driven_inv (TransitionSystem.reachable_along (T := driven d)
    sched m)
  exact (em _).imp_right fun hpc => (hn m hle).starved hinv hpc

/-- A driver that receives one packet now and then and accepts nothing. -/
def refusingDriver : Driver ℕ where
  rxBurst k := if k % 3 = 0 then [k] else []
  rxBurst_le k := by split <;> simp [burstSize]
  txRoom _ := 0

theorem refusingDriver_busy : refusingDriver.Busy := by
  intro k
  refine ⟨2 * k, ?_⟩
  have hmod : (k + 2 * k) % 3 = 0 := by omega
  simp [refusingDriver, hmod]

/-- The three stages in turn. -/
def inTurn : ℕ → Stage :=
  TransitionSystem.roundRobin [.receiver, .parser, .transmitter] (by decide)

theorem fair_inTurn : TransitionSystem.Fair id inTurn := by
  refine TransitionSystem.fair_roundRobin _ ?_
  intro stage
  exact ⟨stage, by cases stage <;> decide, rfl⟩

theorem pipeline_settles_refusing :
    ∃ n, ∀ m, n ≤ m →
      ((driven refusingDriver).along inTurn m).pipeline.rxPc = .returned ∧
      ((driven refusingDriver).along inTurn m).pipeline.parserPc =
        .returned ∧
      (((driven refusingDriver).along inTurn m).pipeline.txPc = .returned ∨
        Starved ((driven refusingDriver).along inTurn m).pipeline) :=
  pipeline_settles refusingDriver_busy fair_inTurn

/-! ## A driver that accepts everything -/

theorem transmitPacket_hand_le {u v : State α} {sent : ℕ}
    (hhand : u.txPc.hand.length ≤ burstSize)
    (hstep : transmitPacket u sent = some v) :
    v.txPc.hand.length ≤ burstSize := by
  obtain ⟨hpc, rfl⟩ | ⟨packets, hpc, -, rfl⟩ | ⟨p, rest, hpc, rfl⟩ |
      ⟨hpc, rfl⟩ | ⟨hpc, rfl⟩ := transmitPacket_cases hstep
  · by_cases hempty :
        (rteRingDequeueBurst u.parseToTx burstSize).1.length = 0
    · simp only [hempty, if_true]
      exact Nat.zero_le _
    · simp only [hempty, if_false]
      exact List.length_take_le _ _
  · rw [hpc] at hhand
    simp only [TxPc.hand, List.length_drop] at hhand ⊢
    omega
  · rw [hpc] at hhand
    simp only [TxPc.hand, List.length_cons] at hhand ⊢
    omega
  · exact Nat.zero_le _
  · simp only
    split <;> exact Nat.zero_le _

/-- With room for every burst no packet is refused. -/
theorem driven_accepted (hroom : d.Accepting) (h : (driven d).Reachable s) :
    s.pipeline.refused = 0 ∧ s.pipeline.txPc.hand.length ≤ burstSize := by
  apply h.invariant (P := fun u : Driven α => u.pipeline.refused = 0 ∧
    u.pipeline.txPc.hand.length ≤ burstSize)
  · exact ⟨rfl, Nat.zero_le _⟩
  · rintro u stage v - ⟨hrefused, hhand⟩ hst
    obtain ⟨hstep, -⟩ := driven_step hst
    cases stage with
    | receiver =>
        obtain ⟨-, -, -, hpc, -, hlog⟩ := receivePacket_frame hstep
        rw [State.refused, hpc, hlog]
        exact ⟨hrefused, hhand⟩
    | parser =>
        obtain ⟨-, -, -, -, hpc, -, hlog⟩ := packetParser_frame hstep
        rw [State.refused, hpc, hlog]
        exact ⟨hrefused, hhand⟩
    | transmitter =>
        refine ⟨?_, transmitPacket_hand_le hhand hstep⟩
        rcases transmitPacket_refused hstep with
          ⟨packets, hpc, hsame⟩ | ⟨-, hsame⟩
        · have hfits := hroom u.txCalls
          rw [hpc] at hhand hsame
          simp only [TxPc.hand] at hhand hsame
          omega
        · exact hsame.trans hrefused

/-- All stages have returned, every packet that has left the pipeline was
sent, and the received packets are these and those left in the rings. -/
structure Completed (s : State α) : Prop where
  rx : s.rxPc = .returned
  parser : s.parserPc = .returned
  tx : s.txPc = .returned
  sent : ∀ p ∈ s.txLog, p.isSent
  received :
    s.received = s.disposed ++ s.parseToTx.toList ++ s.rxToParser.toList

/-- For every driver that goes on receiving and accepts whatever it is
offered, and every fair schedule, there is a moment from which on the three
stages have returned and have sent every packet that they did not leave in
the rings. -/
theorem pipeline_returns (hbusy : d.Busy) (hroom : d.Accepting)
    {sched : ℕ → Stage} (hfair : TransitionSystem.Fair id sched) :
    ∃ n, ∀ m, n ≤ m → Completed ((driven d).along sched m).pipeline := by
  obtain ⟨n, hn⟩ := eventually_atRest hbusy hfair
  refine ⟨n, fun m hle => ?_⟩
  have hreach := TransitionSystem.reachable_along (T := driven d) sched m
  have hinv := driven_inv hreach
  obtain ⟨hrefused, -⟩ := driven_accepted hroom hreach
  refine ⟨(hn m hle).rx, (hn m hle).parser, ?_, ?_,
    (hn m hle).received_eq hinv⟩
  · by_contra hpc
    have hdoomed := hinv.doomed_of_starved ((hn m hle).starved hinv hpc)
    obtain ⟨hlimit, hlt⟩ := hdoomed
    omega
  · intro p hp
    by_contra hnot
    have hmem : p ∈ (((driven d).along sched m).pipeline.txLog.filter
        fun q => !q.isSent) := by
      simpa [hp] using hnot
    have hpos := List.length_pos_of_mem hmem
    rw [State.refused] at hrefused
    omega

/-- A driver that receives bursts of 20 packets and accepts them. -/
def acceptingDriver : Driver ℕ where
  rxBurst k := List.range' (20 * k) 20
  rxBurst_le _ := by simp [burstSize]
  txRoom _ := burstSize

theorem pipeline_returns_accepting :
    ∃ n, ∀ m, n ≤ m →
      Completed ((driven acceptingDriver).along inTurn m).pipeline := by
  refine pipeline_returns (fun k => ⟨0, ?_⟩) (fun _ => le_rfl) fair_inTurn
  simp [acceptingDriver]

end PacketParseerRing
end DpdkFolder
