import DpdkFolder.PacketParseerRing.Invariant

/-!
# What the three stages leave behind when they return

Each stage stops on its own counter reaching 25 while it moves bursts of up
to 32 packets.  A stage that is satisfied by a full burst leaves whatever
waited behind it in its input ring, and nobody takes it out again.  The runs
that end clean are characterized exactly: the last dequeue of `packet_parser`
must not face more than one burst, and nothing may wait behind the burst
whose transmission lifts `tx_packet` to the limit.
-/

namespace DpdkFolder
namespace PacketParseerRing

variable {α : Type*}

/-- `receive_packet`, `packet_parser` and `transmit_packet` have returned. -/
def State.AllReturned (s : State α) : Prop :=
  s.rxPc = .returned ∧ s.parserPc = .returned ∧ s.txPc = .returned

/-- Both rings are empty, and each received packet has been accepted for
transmission or freed exactly once. -/
def CleanShutdown (s : State α) : Prop :=
  s.rxToParser.toList = [] ∧ s.parseToTx.toList = [] ∧
    (s.rxFreed ++ s.txLog.map Disposal.packet).Perm s.received

/-- The condition on a step: `packet_parser` dequeues from at most one burst,
and the transmission that reaches the limit has nothing behind it. -/
def NothingBehind (s : State α) : Label α → Prop
  | .receive _ => True
  | .parse =>
      s.parserPc = .dequeueBurst → s.rxToParser.toList.length ≤ burstSize
  | .transmit sent =>
      ∀ packets, s.txPc = .txBurst packets →
        packetLimit ≤ s.txPacket + sent → s.parseToTx.toList = []

/-- A stage has reached its limit while its input ring still holds packets. -/
def Stranded (s : State α) : Prop :=
  packetLimit ≤ s.parsPacket ∧ s.rxToParser.toList ≠ [] ∨
    packetLimit ≤ s.txPacket ∧ s.parseToTx.toList ≠ []

/-! ## Counters of the stages compared -/

/-- While `packet_parser` still passes packets on, fewer than 25 have
reached `transmit_packet`. -/
theorem Inv.txPacket_lt_of_enqueue {s : State α} {packets : List α}
    (h : Inv s) (hpc : s.parserPc = .enqueueBurst packets) :
    s.txPacket < packetLimit := by
  have hparser := h.parserCounts
  have hsent := h.txPacket_le
  simp only [hpc, ParserCounts, State.passed, List.length_append] at hparser
  omega

/-! ## Effect of one step on the rings and counters -/

/-- `receive_packet` touches `rx_to_parser` only to append, and only while
`packet_parser` is below its limit. -/
theorem receivePacket_ring {s t : State α} {burst : List α} (h : Inv s)
    (hstep : receivePacket s burst = some t) :
    t.rxToParser.toList = s.rxToParser.toList ∨
      s.parsPacket < packetLimit := by
  obtain ⟨-, -, rfl⟩ | ⟨packets, hpc, -⟩ | ⟨enq, p, rest, -, rfl⟩ |
      ⟨enq, -, rfl⟩ | ⟨-, rfl⟩ := receivePacket_cases hstep
  · exact Or.inl rfl
  · exact Or.inr (h.parsPacket_lt_of_enqueue hpc)
  · exact Or.inl rfl
  · exact Or.inl rfl
  · exact Or.inl rfl

theorem receivePacket_stranded {s t : State α} {burst : List α} (h : Inv s)
    (hstep : receivePacket s burst = some t) : Stranded t ↔ Stranded s := by
  obtain ⟨-, hpars, hparseToTx, -, htxPacket, -⟩ := receivePacket_frame hstep
  rw [Stranded, Stranded, hpars, hparseToTx, htxPacket]
  rcases receivePacket_ring h hstep with hring | hlt
  · rw [hring]
  · simp [Nat.not_le.mpr hlt]

/-- A dequeue facing more than one burst takes a full one, which satisfies
the limit and leaves the rest in the ring. -/
theorem packetParser_dequeue_stranded {s t : State α} (h : Inv s)
    (hpc : s.parserPc = .dequeueBurst) (hstep : packetParser s = some t) :
    (packetLimit ≤ t.parsPacket ∧ t.rxToParser.toList ≠ []) ↔
      burstSize < s.rxToParser.toList.length := by
  have hparser := h.parserCounts
  simp only [hpc, ParserCounts] at hparser
  simp only [packetParser, hpc, Option.some.injEq] at hstep
  subst hstep
  simp only [rteRingDequeueBurst, BoundedFifo.toList_removeBurst, ne_eq,
    List.drop_eq_nil_iff, List.length_take, Nat.not_le, packetLimit,
    burstSize] at hparser ⊢
  omega

theorem packetParser_stranded {s t : State α} (h : Inv s)
    (hstep : packetParser s = some t) :
    Stranded t ↔ Stranded s ∨ ¬NothingBehind s .parse := by
  obtain ⟨hpc, rfl⟩ | ⟨packets, hpc, rfl⟩ | ⟨hpc, rfl⟩ :=
    packetParser_cases hstep
  · have hparser := h.parserCounts
    have hdeq := packetParser_dequeue_stranded h hpc hstep
    simp only [hpc, ParserCounts] at hparser
    rw [Stranded, Stranded, hdeq]
    simp only [NothingBehind, hpc, true_implies, Nat.not_le,
      Nat.not_le.mpr hparser.2, false_and, false_or]
    exact or_comm
  · have hlt := h.txPacket_lt_of_enqueue hpc
    simp [Stranded, NothingBehind, hpc, Nat.not_le.mpr hlt]
  · simp [Stranded, NothingBehind, hpc]

theorem transmitPacket_stranded {s t : State α} {sent : ℕ} (h : Inv s)
    (hstep : transmitPacket s sent = some t) :
    Stranded t ↔ Stranded s ∨ ¬NothingBehind s (.transmit sent) := by
  have htx := h.txCounts
  obtain ⟨hpc, rfl⟩ | ⟨packets, hpc, -, rfl⟩ | ⟨p, rest, hpc, rfl⟩ |
      ⟨hpc, rfl⟩ | ⟨hpc, rfl⟩ := transmitPacket_cases hstep
  · simp only [hpc, TxCounts] at htx
    simp [Stranded, NothingBehind, hpc, Nat.not_le.mpr htx]
  · simp only [hpc, TxCounts] at htx
    simp [Stranded, NothingBehind, hpc, Nat.not_le.mpr htx]
  · simp [Stranded, NothingBehind, hpc]
  · simp [Stranded, NothingBehind, hpc]
  · simp [Stranded, NothingBehind, hpc]

/-- A step strands packets exactly when it violates the condition, and what
is stranded stays stranded. -/
theorem step_stranded {s t : State α} {l : Label α} (h : Inv s)
    (hstep : step s l = some t) :
    Stranded t ↔ Stranded s ∨ ¬NothingBehind s l := by
  cases l with
  | receive burst =>
      rw [receivePacket_stranded h hstep]
      simp [NothingBehind]
  | parse => exact packetParser_stranded h hstep
  | transmit sent => exact transmitPacket_stranded h hstep

/-! ## Whole runs -/

theorem meetsAlong_iff_not_stranded {s : State α} {ls : List (Label α)}
    (h : (pipeline α).exec (launch α) ls = some s) :
    (pipeline α).MeetsAlong NothingBehind (launch α) ls ↔ ¬Stranded s := by
  refine TransitionSystem.meetsAlong_iff_kept (G := fun u => ¬Stranded u)
    ?_ TransitionSystem.reachable_start ?_ h
  · intro u l v hreach hstep
    rw [step_stranded (reachable_inv hreach) hstep, not_or, not_not]
  · simp [Stranded, launch, packetLimit]

theorem cleanShutdown_iff_not_stranded {s : State α} (h : Inv s)
    (hret : s.AllReturned) : CleanShutdown s ↔ ¬Stranded s := by
  obtain ⟨hrx, hparser, htx⟩ := hret
  have hparserCounts := h.parserCounts
  have htxCounts := h.txCounts
  have hcons := h.conserved
  simp only [hparser, ParserCounts, htx, TxCounts] at hparserCounts htxCounts
  simp only [State.entered, State.passed, State.disposed, hrx, hparser, htx,
    RxPc.hand, ParserPc.hand, TxPc.hand, List.append_nil] at hcons
  simp only [Stranded, hparserCounts.2, htxCounts, true_and, not_or, ne_eq,
    Decidable.not_not]
  constructor
  · rintro ⟨hin, hout, -⟩
    exact ⟨hin, hout⟩
  · rintro ⟨hin, hout⟩
    refine ⟨hin, hout, ?_⟩
    rw [h.rxFreed, hcons, hin, hout]
    simp

/-- When all three stages have returned, the shutdown is clean if and only if
every step of the run left nothing behind. -/
theorem cleanShutdown_iff {s : State α} {ls : List (Label α)}
    (h : (pipeline α).exec (launch α) ls = some s) (hret : s.AllReturned) :
    CleanShutdown s ↔
      (pipeline α).MeetsAlong NothingBehind (launch α) ls := by
  rw [meetsAlong_iff_not_stranded h]
  exact cleanShutdown_iff_not_stranded (reachable_inv ⟨ls, h⟩) hret

/-- One burst of 27 packets that each stage takes whole; the driver accepts
25 of them and `transmit_packet` frees the other two. -/
def oneBurstRun : List (Label ℕ) :=
  [.receive (List.range 27), .receive [], .receive [], .receive [],
    .parse, .parse, .parse,
    .transmit 0, .transmit 25, .transmit 0, .transmit 0, .transmit 0,
    .transmit 0]

theorem cleanShutdown_iff_oneBurst :
    (pipeline ℕ).MeetsAlong NothingBehind (launch ℕ) oneBurstRun := by
  refine (cleanShutdown_iff rfl ⟨rfl, rfl, rfl⟩).mp ⟨rfl, rfl, ?_⟩
  decide

/-- Two bursts of 20 packets that meet in `rx_to_parser`: the full burst of
32 satisfies both later stages, and 8 packets stay in the ring. -/
def strandingRun : List (Label ℕ) :=
  [.receive (List.range 20), .receive [], .receive [], .receive [],
    .receive (List.range' 20 20), .receive [], .receive [], .receive [],
    .parse, .parse, .parse,
    .transmit 0, .transmit 32, .transmit 0, .transmit 0]

theorem strandingRun_not_clean :
    ¬∀ s : State ℕ, (pipeline ℕ).Reachable s → s.AllReturned →
      CleanShutdown s := by
  intro hclean
  obtain ⟨hring, -⟩ := hclean _ ⟨strandingRun, rfl⟩ ⟨rfl, rfl, rfl⟩
  exact absurd hring (by decide)

end PacketParseerRing
end DpdkFolder
