import DpdkFolder.PacketParseerRing.Model

/-!
# The global invariant of the pipeline

The order of the packets is one equation: what was received is what was
disposed of, followed by what is in flight, read from the last stage back to
the first.  It survives `packet_parser`'s unchecked enqueue only because the
rings are never full, and that rests on a bound over the whole run:
`receive_packet` polls again only below 25 enqueued packets, so fewer than
25 + 32 packets ever enter.
-/

namespace DpdkFolder
namespace PacketParseerRing

variable {α : Type*}

/-- The packets `transmit_packet` has sent or freed, in that order. -/
def State.disposed (s : State α) : List α := s.txLog.map Disposal.packet

/-- The packets that have left `packet_parser`, oldest first. -/
def State.passed (s : State α) : List α :=
  s.disposed ++ s.txPc.hand ++ s.parseToTx.toList

/-- The packets that have left `receive_packet`, oldest first. -/
def State.entered (s : State α) : List α :=
  s.passed ++ s.parserPc.hand ++ s.rxToParser.toList

def Disposal.isSent : Disposal α → Bool
  | .sent _ => true
  | .freed _ => false

/-- What `rx_packet` says about the number of packets received. -/
def RxCounts (received rxPacket : ℕ) : RxPc α → Prop
  | .rxBurst => received = rxPacket ∧ rxPacket < packetLimit
  | .enqueueBurst packets =>
      received = rxPacket + packets.length ∧ rxPacket < packetLimit ∧
        packets.length ≤ burstSize
  | .freeRest enq rest =>
      rest = [] ∧ received = rxPacket + enq ∧ rxPacket < packetLimit ∧
        enq ≤ burstSize
  | .checkLimit =>
      received = rxPacket ∧ rxPacket < packetLimit + burstSize
  | .returned =>
      received = rxPacket ∧ packetLimit ≤ rxPacket ∧
        rxPacket < packetLimit + burstSize

/-- What `pars_packet` says about the number of packets passed on. -/
def ParserCounts (passed parsPacket : ℕ) : ParserPc α → Prop
  | .dequeueBurst => parsPacket = passed ∧ parsPacket < packetLimit
  | .enqueueBurst packets =>
      parsPacket = passed + packets.length ∧ passed < packetLimit
  | .checkLimit => parsPacket = passed
  | .returned => parsPacket = passed ∧ packetLimit ≤ parsPacket

/-- `transmit_packet` goes on only below the limit and stops only above. -/
def TxCounts (txPacket : ℕ) : TxPc α → Prop
  | .dequeueBurst => txPacket < packetLimit
  | .txBurst _ => txPacket < packetLimit
  | .returned => packetLimit ≤ txPacket
  | _ => True

structure Inv (s : State α) : Prop where
  conserved : s.received = s.entered ++ s.rxPc.hand
  rxFreed : s.rxFreed = []
  rxCounts : RxCounts s.received.length s.rxPacket s.rxPc
  parserCounts : ParserCounts s.passed.length s.parsPacket s.parserPc
  txCounts : TxCounts s.txPacket s.txPc
  txPacket_eq : s.txPacket = (s.txLog.filter Disposal.isSent).length

theorem inv_launch : Inv (launch α) where
  conserved := rfl
  rxFreed := rfl
  rxCounts := by simp [launch, RxCounts, packetLimit]
  parserCounts := by
    simp [launch, ParserCounts, State.passed, State.disposed, TxPc.hand,
      packetLimit]
  txCounts := by simp [launch, TxCounts, packetLimit]
  txPacket_eq := rfl

/-! ## Bounds that hold in every state -/

theorem Inv.received_length_lt {s : State α} (h : Inv s) :
    s.received.length < packetLimit + burstSize := by
  have hrx := h.rxCounts
  cases hpc : s.rxPc <;>
    simp only [hpc, RxCounts, packetLimit, burstSize] at hrx ⊢
  all_goals omega

/-- The total is the sum over the places where a packet can be. -/
theorem Inv.received_length {s : State α} (h : Inv s) :
    s.received.length = s.passed.length + s.parserPc.hand.length +
      s.rxToParser.toList.length + s.rxPc.hand.length := by
  rw [h.conserved]
  simp only [State.entered, List.length_append]

/-- The burst that `receive_packet` is about to enqueue fits. -/
theorem Inv.rxToParser_fits {s : State α} (h : Inv s) :
    s.rxToParser.toList.length + s.rxPc.hand.length ≤ rxRingSize - 1 := by
  have hsum := h.received_length
  have hlt := h.received_length_lt
  simp only [packetLimit, burstSize, rxRingSize] at *
  omega

/-- The burst that `packet_parser` is about to enqueue fits. -/
theorem Inv.parseToTx_fits {s : State α} (h : Inv s) :
    s.parseToTx.toList.length + s.parserPc.hand.length ≤ rxRingSize - 1 := by
  have hsum := h.received_length
  have hlt := h.received_length_lt
  simp only [State.passed, List.length_append, packetLimit, burstSize,
    rxRingSize] at *
  omega

theorem Inv.txPacket_le {s : State α} (h : Inv s) :
    s.txPacket ≤ s.disposed.length := by
  rw [h.txPacket_eq, State.disposed, List.length_map]
  exact List.length_filter_le _ _

theorem Inv.parsPacket_eq {s : State α} (h : Inv s) :
    s.parsPacket = s.passed.length + s.parserPc.hand.length := by
  have hparser := h.parserCounts
  cases hpc : s.parserPc <;>
    simp only [hpc, ParserCounts, ParserPc.hand, List.length_nil] at hparser ⊢
  all_goals omega

/-- Below its limit `receive_packet` has not let 25 packets enter, so
`packet_parser` cannot have counted 25. -/
theorem Inv.parsPacket_lt_of_enqueue {s : State α} {packets : List α}
    (h : Inv s) (hpc : s.rxPc = .enqueueBurst packets) :
    s.parsPacket < packetLimit := by
  have hrx := h.rxCounts
  have hsum := h.received_length
  have hpars := h.parsPacket_eq
  simp only [hpc, RxCounts, RxPc.hand] at hrx hsum
  omega

/-! ## What one step of each stage moves -/

/-- The packets a polled burst adds are the ones `receive_packet` then
holds; its later steps only hand them on. -/
theorem receivePacket_moves {s t : State α} {burst : List α}
    (h : Inv s) (hstep : receivePacket s burst = some t) :
    ∃ new, t.received = s.received ++ new ∧
      t.entered ++ t.rxPc.hand = s.entered ++ s.rxPc.hand ++ new ∧
      t.passed = s.passed ∧ t.rxFreed = [] ∧
      RxCounts t.received.length t.rxPacket t.rxPc := by
  have hrx := h.rxCounts
  have hfits := h.rxToParser_fits
  obtain ⟨hpc, hlen, rfl⟩ | ⟨packets, hpc, rfl⟩ | ⟨enq, p, rest, hpc, -⟩ |
      ⟨enq, hpc, rfl⟩ | ⟨hpc, rfl⟩ := receivePacket_cases hstep
  · refine ⟨burst, rfl, ?_, rfl, h.rxFreed, ?_⟩
    · cases burst with
      | nil => simp [State.entered, State.passed, State.disposed, RxPc.hand, hpc]
      | cons p burst =>
          simp [State.entered, State.passed, State.disposed, RxPc.hand, hpc]
    · simp only [hpc, RxCounts] at hrx
      cases burst with
      | nil =>
          simp only [List.length_nil, Nat.lt_irrefl, if_false, RxCounts,
            List.append_nil]
          omega
      | cons p burst =>
          simp only [List.length_cons, Nat.succ_pos, if_true, RxCounts,
            List.length_append] at hlen ⊢
          omega
  · simp only [hpc, RxCounts, RxPc.hand] at hrx hfits
    obtain ⟨hstored, hring⟩ := rteRingEnqueueBurst_of_le hfits
    refine ⟨[], by simp, ?_, rfl, h.rxFreed, ?_⟩
    · simp [State.entered, State.passed, State.disposed, hstored, hring,
        RxPc.hand, hpc]
    · simp only [hstored, RxCounts, List.drop_length, true_and]
      omega
  · -- The invariant leaves nothing to free: the whole burst was stored.
    simp only [hpc, RxCounts] at hrx
    cases hrx.1
  · simp only [hpc, RxCounts] at hrx
    refine ⟨[], by simp, ?_, rfl, h.rxFreed, ?_⟩
    · simp [State.entered, State.passed, State.disposed, RxPc.hand, hpc]
    · simp only [RxCounts, packetLimit, burstSize] at hrx ⊢
      omega
  · simp only [hpc, RxCounts] at hrx
    refine ⟨[], by simp, ?_, rfl, h.rxFreed, ?_⟩
    · split <;>
        simp [State.entered, State.passed, State.disposed, RxPc.hand, hpc]
    · split
      · exact ⟨hrx.1, by assumption, hrx.2⟩
      · exact ⟨hrx.1, Nat.lt_of_not_le (by assumption)⟩

/-- `packet_parser` changes neither the order nor the number of the packets
that have entered, since its enqueue never falls short. -/
theorem packetParser_moves {s t : State α}
    (h : Inv s) (hstep : packetParser s = some t) :
    t.entered = s.entered ∧
      ParserCounts t.passed.length t.parsPacket t.parserPc := by
  have hparser := h.parserCounts
  have hfits := h.parseToTx_fits
  obtain ⟨hpc, rfl⟩ | ⟨packets, hpc, rfl⟩ | ⟨hpc, rfl⟩ :=
    packetParser_cases hstep
  · simp only [hpc, ParserCounts] at hparser
    have hsplit := rteRingDequeueBurst_append s.rxToParser burstSize
    cases htaken : (rteRingDequeueBurst s.rxToParser burstSize).1 with
    | nil =>
        rw [htaken, List.nil_append] at hsplit
        constructor
        · simp [State.entered, State.passed, State.disposed, ParserPc.hand,
            hpc, hsplit]
        · simpa [ParserCounts, State.passed, State.disposed] using hparser.1
    | cons p packets =>
        rw [htaken] at hsplit
        constructor
        · simp only [State.entered, State.passed, State.disposed,
            ParserPc.hand, hpc, List.length_cons, Nat.succ_pos, if_true,
            ← hsplit, List.append_assoc, List.nil_append]
        · simp only [List.length_cons, Nat.succ_pos, if_true, ParserCounts]
          exact ⟨by rw [hparser.1]; rfl, hparser.1 ▸ hparser.2⟩
  · simp only [hpc, ParserCounts, ParserPc.hand] at hparser hfits
    obtain ⟨-, hring⟩ := rteRingEnqueueBurst_of_le hfits
    constructor
    · simp [State.entered, State.passed, State.disposed, ParserPc.hand, hpc,
        hring]
    · simp only [ParserCounts, State.passed, State.disposed, hring,
        List.length_append] at hparser ⊢
      omega
  · simp only [hpc, ParserCounts] at hparser
    constructor
    · split <;>
        simp [State.entered, State.passed, State.disposed, ParserPc.hand, hpc]
    · split
      · exact ⟨hparser, by assumption⟩
      · exact ⟨hparser, Nat.lt_of_not_le (by assumption)⟩

theorem map_packet_sent (packets : List α) :
    (packets.map Disposal.sent).map Disposal.packet = packets := by
  simp [Disposal.packet, Function.comp_def]

theorem filter_isSent_sent (packets : List α) :
    (packets.map Disposal.sent).filter Disposal.isSent =
      packets.map Disposal.sent := by
  simp [List.filter_map, Disposal.isSent, Function.comp_def]

/-- Sending a prefix of a burst and freeing its rest in order moves the
packets through `transmit_packet` without reordering them. -/
theorem transmitPacket_moves {s t : State α} {sent : ℕ}
    (h : Inv s) (hstep : transmitPacket s sent = some t) :
    t.passed = s.passed ∧ TxCounts t.txPacket t.txPc ∧
      t.txPacket = (t.txLog.filter Disposal.isSent).length := by
  have htx := h.txCounts
  have hsent := h.txPacket_eq
  obtain ⟨hpc, rfl⟩ | ⟨packets, hpc, hle, rfl⟩ | ⟨p, rest, hpc, rfl⟩ |
      ⟨hpc, rfl⟩ | ⟨hpc, rfl⟩ := transmitPacket_cases hstep
  · simp only [hpc, TxCounts] at htx
    have hsplit := rteRingDequeueBurst_append s.parseToTx burstSize
    cases htaken : (rteRingDequeueBurst s.parseToTx burstSize).1 with
    | nil =>
        rw [htaken, List.nil_append] at hsplit
        refine ⟨?_, ?_, hsent⟩
        · simp [State.passed, State.disposed, TxPc.hand, hpc, hsplit]
        · simpa [TxCounts] using htx
    | cons p packets =>
        rw [htaken] at hsplit
        refine ⟨?_, ?_, hsent⟩
        · simp [State.passed, State.disposed, TxPc.hand, hpc, ← hsplit]
        · simpa [TxCounts] using htx
  · refine ⟨?_, trivial, ?_⟩
    · simp only [State.passed, State.disposed, List.map_append,
        map_packet_sent, TxPc.hand, hpc, List.append_assoc]
      rw [← List.append_assoc (List.take sent packets),
        List.take_append_drop]
    · simp only [List.filter_append, filter_isSent_sent,
        List.length_append, List.length_map, List.length_take]
      omega
  · refine ⟨?_, trivial, ?_⟩
    · simp [State.passed, State.disposed, TxPc.hand, hpc, Disposal.packet]
    · simpa [Disposal.isSent] using hsent
  · refine ⟨?_, trivial, hsent⟩
    simp [State.passed, State.disposed, TxPc.hand, hpc]
  · refine ⟨?_, ?_, hsent⟩
    · split <;> simp [State.passed, State.disposed, TxPc.hand, hpc]
    · split
      · assumption
      · exact Nat.lt_of_not_le (by assumption)

/-! ## Frames: what a stage leaves alone -/

theorem receivePacket_frame {s t : State α} {burst : List α}
    (hstep : receivePacket s burst = some t) :
    t.parserPc = s.parserPc ∧ t.parsPacket = s.parsPacket ∧
      t.parseToTx = s.parseToTx ∧ t.txPc = s.txPc ∧
      t.txPacket = s.txPacket ∧ t.txLog = s.txLog := by
  obtain ⟨-, -, rfl⟩ | ⟨-, -, rfl⟩ | ⟨-, -, -, -, rfl⟩ | ⟨-, -, rfl⟩ |
      ⟨-, rfl⟩ := receivePacket_cases hstep
  all_goals exact ⟨rfl, rfl, rfl, rfl, rfl, rfl⟩

theorem packetParser_frame {s t : State α}
    (hstep : packetParser s = some t) :
    t.received = s.received ∧ t.rxPc = s.rxPc ∧ t.rxPacket = s.rxPacket ∧
      t.rxFreed = s.rxFreed ∧ t.txPc = s.txPc ∧ t.txPacket = s.txPacket ∧
      t.txLog = s.txLog := by
  obtain ⟨-, rfl⟩ | ⟨-, -, rfl⟩ | ⟨-, rfl⟩ := packetParser_cases hstep
  all_goals exact ⟨rfl, rfl, rfl, rfl, rfl, rfl, rfl⟩

theorem transmitPacket_frame {s t : State α} {sent : ℕ}
    (hstep : transmitPacket s sent = some t) :
    t.received = s.received ∧ t.rxPc = s.rxPc ∧ t.rxPacket = s.rxPacket ∧
      t.rxFreed = s.rxFreed ∧ t.rxToParser = s.rxToParser ∧
      t.parserPc = s.parserPc ∧ t.parsPacket = s.parsPacket := by
  obtain ⟨-, rfl⟩ | ⟨-, -, -, rfl⟩ | ⟨-, -, -, rfl⟩ | ⟨-, rfl⟩ |
      ⟨-, rfl⟩ := transmitPacket_cases hstep
  all_goals exact ⟨rfl, rfl, rfl, rfl, rfl, rfl, rfl⟩

/-! ## The invariant along a run -/

theorem receivePacket_inv {s t : State α} {burst : List α}
    (h : Inv s) (hstep : receivePacket s burst = some t) : Inv t := by
  obtain ⟨new, hreceived, hentered, hpassed, hfreed, hrx⟩ :=
    receivePacket_moves h hstep
  obtain ⟨hparserPc, hpars, -, htxPc, htxPacket, htxLog⟩ :=
    receivePacket_frame hstep
  refine ⟨?_, hfreed, hrx, ?_, ?_, ?_⟩
  · rw [hreceived, hentered, h.conserved]
  · rw [hpassed, hpars, hparserPc]
    exact h.parserCounts
  · rw [htxPacket, htxPc]
    exact h.txCounts
  · rw [htxPacket, htxLog]
    exact h.txPacket_eq

theorem packetParser_inv {s t : State α}
    (h : Inv s) (hstep : packetParser s = some t) : Inv t := by
  obtain ⟨hentered, hparser⟩ := packetParser_moves h hstep
  obtain ⟨hreceived, hrxPc, hrxPacket, hfreed, htxPc, htxPacket, htxLog⟩ :=
    packetParser_frame hstep
  refine ⟨?_, ?_, ?_, hparser, ?_, ?_⟩
  · rw [hreceived, hentered, hrxPc, h.conserved]
  · rw [hfreed, h.rxFreed]
  · rw [hreceived, hrxPacket, hrxPc]
    exact h.rxCounts
  · rw [htxPacket, htxPc]
    exact h.txCounts
  · rw [htxPacket, htxLog]
    exact h.txPacket_eq

theorem transmitPacket_inv {s t : State α} {sent : ℕ}
    (h : Inv s) (hstep : transmitPacket s sent = some t) : Inv t := by
  obtain ⟨hpassed, htx, hsent⟩ := transmitPacket_moves h hstep
  obtain ⟨hreceived, hrxPc, hrxPacket, hfreed, hring, hparserPc, hpars⟩ :=
    transmitPacket_frame hstep
  refine ⟨?_, ?_, ?_, ?_, htx, hsent⟩
  · rw [hreceived, State.entered, hpassed, hparserPc, hring, hrxPc,
      h.conserved]
    rfl
  · rw [hfreed, h.rxFreed]
  · rw [hreceived, hrxPacket, hrxPc]
    exact h.rxCounts
  · rw [hpassed, hpars, hparserPc]
    exact h.parserCounts

theorem step_inv {s t : State α} {l : Label α}
    (h : Inv s) (hstep : step s l = some t) : Inv t := by
  cases l with
  | receive burst => exact receivePacket_inv h hstep
  | parse => exact packetParser_inv h hstep
  | transmit sent => exact transmitPacket_inv h hstep

theorem reachable_inv {s : State α} (h : (pipeline α).Reachable s) : Inv s :=
  h.invariant (P := Inv) inv_launch fun _ _ _ _ => step_inv

end PacketParseerRing
end DpdkFolder
