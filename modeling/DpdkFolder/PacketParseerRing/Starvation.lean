import DpdkFolder.PacketParseerRing.Invariant

/-!
# Whether the last stage can be starved

`transmit_packet` counts only the packets that the driver accepts, and frees
the others.  Once `packet_parser` has stopped no packet comes after those it
has taken, so the loop of `transmit_packet` never ends if fewer than 25 of
them can still be accepted.  That is decided by two kinds of step: the
dequeue with which `packet_parser` reaches its limit, and a transmission that
is accepted in part.
-/

namespace DpdkFolder
namespace PacketParseerRing

variable {α : Type*}

/-- The first two stages have returned, nothing is left for the third one,
and it goes on looping below its limit. -/
def Starved (s : State α) : Prop :=
  s.rxPc = .returned ∧ s.parserPc = .returned ∧ s.parseToTx.toList = [] ∧
    s.txPc.hand = [] ∧ s.txPc ≠ .returned ∧ s.txPacket < packetLimit

/-- The packets of the current burst that the driver has not accepted. -/
def TxPc.refused : TxPc α → List α
  | .freeRest rest => rest
  | _ => []

/-- How many packets the driver has refused so far. -/
def State.refused (s : State α) : ℕ :=
  (s.txLog.filter fun d => !d.isSent).length + s.txPc.refused.length

/-- The condition on a step.  When `packet_parser` reaches its limit it has
taken 25 packets besides those refused so far, and when the driver refuses
packets after that, 25 others have been taken as well. -/
def EnoughLeft (s : State α) : Label α → Prop
  | .receive _ => True
  | .parse =>
      s.parserPc = .dequeueBurst →
        packetLimit ≤
          s.parsPacket + min burstSize s.rxToParser.toList.length →
        packetLimit + s.refused ≤
          s.parsPacket + min burstSize s.rxToParser.toList.length
  | .transmit sent =>
      ∀ packets, s.txPc = .txBurst packets → packetLimit ≤ s.parsPacket →
        packetLimit + (s.refused + (packets.length - sent)) ≤ s.parsPacket

/-- `packet_parser` has reached its limit, and too many of the packets it has
taken were refused. -/
def Doomed (s : State α) : Prop :=
  packetLimit ≤ s.parsPacket ∧ s.parsPacket < packetLimit + s.refused

/-! ## Accepted and refused packets -/

theorem Inv.disposed_length {s : State α} (h : Inv s) :
    s.disposed.length =
      s.txPacket + (s.txLog.filter fun d => !d.isSent).length := by
  rw [h.txPacket_eq, State.disposed, List.length_map]
  exact List.length_eq_length_filter_add Disposal.isSent

/-- What has been accepted and what has been refused was taken before. -/
theorem Inv.accepted_add_refused_le {s : State α} (h : Inv s) :
    s.txPacket + s.refused ≤ s.parsPacket := by
  have hpars := h.parsPacket_eq
  have hdisposed := h.disposed_length
  have hhand : s.txPc.refused.length ≤ s.txPc.hand.length := by
    cases s.txPc <;> simp [TxPc.refused, TxPc.hand]
  simp only [State.passed, List.length_append] at hpars
  simp only [State.refused]
  omega

theorem Inv.txPacket_lt_of_doomed {s : State α} (h : Inv s)
    (hdoomed : Doomed s) : s.txPacket < packetLimit := by
  have hle := h.accepted_add_refused_le
  have hlt := hdoomed.2
  omega

theorem Inv.doomed_of_starved {s : State α} (h : Inv s)
    (hstarved : Starved s) : Doomed s := by
  obtain ⟨-, hparser, hring, hhand, -, hlt⟩ := hstarved
  have hcounts := h.parserCounts
  have hdisposed := h.disposed_length
  simp only [hparser, ParserCounts, State.passed, hring, hhand,
    List.append_nil] at hcounts
  constructor
  · exact hcounts.2
  · simp only [State.refused]
    omega

/-! ## Effect of one step -/

theorem packetParser_doomed {s t : State α} (h : Inv s)
    (hstep : packetParser s = some t) :
    Doomed t ↔ Doomed s ∨ ¬EnoughLeft s .parse := by
  obtain ⟨-, -, -, -, htxPc, -, htxLog⟩ := packetParser_frame hstep
  have hrefused : t.refused = s.refused := by
    rw [State.refused, State.refused, htxPc, htxLog]
  rw [Doomed, Doomed, hrefused]
  obtain ⟨hpc, rfl⟩ | ⟨packets, hpc, rfl⟩ | ⟨hpc, rfl⟩ :=
    packetParser_cases hstep
  · have hparser := h.parserCounts
    simp only [hpc, ParserCounts] at hparser
    simp only [EnoughLeft, hpc, true_implies, rteRingDequeueBurst,
      List.length_take]
    omega
  · simp [EnoughLeft, hpc]
  · simp [EnoughLeft, hpc]

theorem filter_not_isSent_sent (packets : List α) :
    ((packets.map Disposal.sent).filter fun d => !d.isSent) = [] := by
  rw [List.filter_eq_nil_iff]
  intro d hd
  obtain ⟨p, -, rfl⟩ := List.mem_map.mp hd
  simp [Disposal.isSent]

/-- What the driver refuses is counted when it is refused. -/
theorem transmitPacket_refused {s t : State α} {sent : ℕ}
    (hstep : transmitPacket s sent = some t) :
    (∃ packets, s.txPc = .txBurst packets ∧
        t.refused = s.refused + (packets.length - sent)) ∨
      (∀ packets, s.txPc ≠ .txBurst packets) ∧ t.refused = s.refused := by
  obtain ⟨hpc, rfl⟩ | ⟨packets, hpc, -, rfl⟩ | ⟨p, rest, hpc, rfl⟩ |
      ⟨hpc, rfl⟩ | ⟨hpc, rfl⟩ := transmitPacket_cases hstep
  · right
    constructor
    · simp [hpc]
    · simp only [State.refused, hpc]
      split <;> rfl
  · left
    refine ⟨packets, hpc, ?_⟩
    simp only [State.refused, hpc, TxPc.refused, List.filter_append,
      filter_not_isSent_sent, List.append_nil, List.length_nil,
      List.length_drop, Nat.add_zero]
  · right
    constructor
    · simp [hpc]
    · simp [State.refused, hpc, TxPc.refused, Disposal.isSent]
      omega
  · right
    constructor
    · simp [hpc]
    · simp [State.refused, hpc, TxPc.refused]
  · right
    constructor
    · simp [hpc]
    · simp only [State.refused, hpc]
      split <;> rfl

theorem transmitPacket_doomed {s t : State α} {sent : ℕ}
    (hstep : transmitPacket s sent = some t) :
    Doomed t ↔ Doomed s ∨ ¬EnoughLeft s (.transmit sent) := by
  obtain ⟨-, -, -, -, -, -, hpars⟩ := transmitPacket_frame hstep
  rw [Doomed, Doomed, hpars]
  rcases transmitPacket_refused hstep with ⟨packets, hpc, href⟩ | ⟨hpc, href⟩
  · simp only [href, EnoughLeft, hpc, TxPc.txBurst.injEq, forall_eq']
    omega
  · simp [href, EnoughLeft, hpc]

/-- A step dooms the run exactly when it violates the condition, and a doomed
run stays doomed. -/
theorem step_doomed {s t : State α} {l : Label α} (h : Inv s)
    (hstep : step s l = some t) :
    Doomed t ↔ Doomed s ∨ ¬EnoughLeft s l := by
  cases l with
  | receive burst =>
      obtain ⟨-, hpars, -, htxPc, -, htxLog⟩ := receivePacket_frame hstep
      simp [Doomed, State.refused, hpars, htxPc, htxLog, EnoughLeft]
  | parse => exact packetParser_doomed h hstep
  | transmit sent => exact transmitPacket_doomed hstep

theorem meetsAlong_iff_not_doomed {s : State α} {ls : List (Label α)}
    (h : (pipeline α).exec (launch α) ls = some s) :
    (pipeline α).MeetsAlong EnoughLeft (launch α) ls ↔ ¬Doomed s := by
  refine TransitionSystem.meetsAlong_iff_kept (G := fun u => ¬Doomed u)
    ?_ TransitionSystem.reachable_start ?_ h
  · intro u l v hreach hstep
    rw [step_doomed (reachable_inv hreach) hstep, not_or, not_not]
  · simp [Doomed, launch, packetLimit]

/-! ## From doom to starvation -/

def RxPc.rank : RxPc α → ℕ
  | .freeRest _ rest => rest.length + 2
  | .checkLimit => 1
  | _ => 0

def ParserPc.rank : ParserPc α → ℕ
  | .enqueueBurst packets => 7 * packets.length + 2
  | .checkLimit => 1
  | _ => 0

def TxPc.rank : TxPc α → ℕ
  | .txBurst packets => 3 * packets.length + 3
  | .freeRest rest => 2 * rest.length + 2
  | .checkLimit => 1
  | _ => 0

/-- A bound on the steps to go when the limit of `packet_parser` is reached
and the driver accepts nothing more. -/
def State.rank (s : State α) : ℕ :=
  s.rxPc.rank + s.parserPc.rank + 7 * s.parseToTx.toList.length + s.txPc.rank

theorem receivePacket_rank {s : State α} (h : Inv s) (hdoomed : Doomed s)
    (hpc : s.rxPc ≠ .returned) :
    ∃ t, receivePacket s [] = some t ∧ t.rank < s.rank := by
  have hrx := h.rxCounts
  have hsum := h.received_length
  have hpars := h.parsPacket_eq
  have hlimit := hdoomed.1
  cases hrxPc : s.rxPc with
  | rxBurst =>
      simp only [hrxPc, RxCounts] at hrx
      omega
  | enqueueBurst packets =>
      have hlt := h.parsPacket_lt_of_enqueue hrxPc
      omega
  | freeRest enq rest =>
      simp only [hrxPc, RxCounts] at hrx
      obtain ⟨rfl, -⟩ := hrx
      refine ⟨_, by rw [receivePacket, hrxPc], ?_⟩
      simp only [State.rank, hrxPc, RxPc.rank]
      omega
  | checkLimit =>
      simp only [hrxPc, RxCounts] at hrx
      have hreached : packetLimit ≤ s.rxPacket := by omega
      refine ⟨_, by rw [receivePacket, hrxPc], ?_⟩
      simp only [State.rank, hrxPc, RxPc.rank, hreached, if_true]
      omega
  | returned => exact absurd hrxPc hpc

theorem packetParser_rank {s : State α} (h : Inv s) (hdoomed : Doomed s)
    (hpc : s.parserPc ≠ .returned) :
    ∃ t, packetParser s = some t ∧ t.rank < s.rank := by
  have hparser := h.parserCounts
  have hlimit := hdoomed.1
  cases hparserPc : s.parserPc with
  | dequeueBurst =>
      simp only [hparserPc, ParserCounts] at hparser
      omega
  | enqueueBurst packets =>
      have hfits := h.parseToTx_fits
      simp only [hparserPc, ParserPc.hand] at hfits
      obtain ⟨-, hring⟩ := rteRingEnqueueBurst_of_le hfits
      refine ⟨_, by rw [packetParser, hparserPc], ?_⟩
      simp only [State.rank, hparserPc, ParserPc.rank, hring,
        List.length_append]
      omega
  | checkLimit =>
      refine ⟨_, by rw [packetParser, hparserPc], ?_⟩
      simp only [State.rank, hparserPc, ParserPc.rank, hlimit, if_true]
      omega
  | returned => exact absurd hparserPc hpc

theorem transmitPacket_rank {s : State α} (h : Inv s) (hdoomed : Doomed s)
    (hwork : s.txPc = .dequeueBurst → s.parseToTx.toList ≠ []) :
    ∃ t, transmitPacket s 0 = some t ∧ t.rank < s.rank := by
  have hlt := h.txPacket_lt_of_doomed hdoomed
  cases hpc : s.txPc with
  | dequeueBurst =>
      obtain ⟨p, packets, hring⟩ := List.exists_cons_of_ne_nil (hwork hpc)
      refine ⟨_, by rw [transmitPacket, hpc], ?_⟩
      simp only [State.rank, hpc, TxPc.rank, rteRingDequeueBurst, hring,
        burstSize, List.take_succ_cons, List.length_cons, List.length_take,
        BoundedFifo.toList_removeBurst, List.length_drop, Nat.succ_ne_zero,
        if_false]
      omega
  | txBurst packets =>
      refine ⟨_, by rw [transmitPacket, hpc]; exact if_pos (Nat.zero_le _), ?_⟩
      simp only [State.rank, hpc, TxPc.rank, List.drop_zero]
      omega
  | freeRest rest =>
      cases rest with
      | nil =>
          refine ⟨_, by rw [transmitPacket, hpc], ?_⟩
          simp only [State.rank, hpc, TxPc.rank]
          omega
      | cons p rest =>
          refine ⟨_, by rw [transmitPacket, hpc], ?_⟩
          simp only [State.rank, hpc, TxPc.rank, List.length_cons]
          omega
  | checkLimit =>
      refine ⟨_, by rw [transmitPacket, hpc], ?_⟩
      simp only [State.rank, hpc, TxPc.rank, Nat.not_le.mpr hlt, if_false]
      omega
  | returned =>
      have htx := h.txCounts
      simp only [hpc, TxCounts] at htx
      omega

/-- From a doomed state the three stages can go on until the last one is
starved. -/
theorem exists_starved {s : State α} (hreach : (pipeline α).Reachable s)
    (hdoomed : Doomed s) :
    ∃ ls t, (pipeline α).exec s ls = some t ∧ Starved t := by
  refine hreach.exists_exec_of_rank (P := Doomed) State.rank ?_ hdoomed
  intro u hu hdoomed hnot
  have hinv := reachable_inv hu
  have hcontinue : ∀ (l : Label α) {v : State α}, step u l = some v →
      v.rank < u.rank → ∃ ls t, (pipeline α).exec u ls = some t ∧
        Doomed t ∧ t.rank < u.rank := by
    intro l v hstep hlt
    have hkept := (step_doomed hinv hstep).mpr (Or.inl hdoomed)
    exact ⟨[l], v, TransitionSystem.exec_singleton hstep, hkept, hlt⟩
  by_cases hrx : u.rxPc = .returned
  · by_cases hparser : u.parserPc = .returned
    · have hwork : u.txPc = .dequeueBurst → u.parseToTx.toList ≠ [] := by
        intro hpc hring
        apply hnot
        refine ⟨hrx, hparser, hring, ?_, ?_, hinv.txPacket_lt_of_doomed hdoomed⟩
        · rw [hpc]
          rfl
        · rw [hpc]
          simp
      obtain ⟨t, hstep, hlt⟩ := transmitPacket_rank hinv hdoomed hwork
      exact hcontinue (.transmit 0) hstep hlt
    · obtain ⟨t, hstep, hlt⟩ := packetParser_rank hinv hdoomed hparser
      exact hcontinue .parse hstep hlt
  · obtain ⟨t, hstep, hlt⟩ := receivePacket_rank hinv hdoomed hrx
    exact hcontinue (.receive []) hstep hlt

/-- For every run: if each step of it leaves enough packets, the last stage is
not starved; if some step does not, the run can be continued until it is. -/
theorem not_starved_of_enoughLeft {s : State α} {ls : List (Label α)}
    (h : (pipeline α).exec (launch α) ls = some s) :
    ((pipeline α).MeetsAlong EnoughLeft (launch α) ls → ¬Starved s) ∧
      (¬(pipeline α).MeetsAlong EnoughLeft (launch α) ls →
        ∃ ls' t, (pipeline α).exec s ls' = some t ∧ Starved t) := by
  have hreach : (pipeline α).Reachable s := ⟨ls, h⟩
  rw [meetsAlong_iff_not_doomed h]
  constructor
  · intro hnot hstarved
    exact hnot ((reachable_inv hreach).doomed_of_starved hstarved)
  · intro hdoomed
    exact exists_starved hreach (not_not.mp hdoomed)

/-- One burst of 26 packets, of which the driver refuses one. -/
def acceptedRun : List (Label ℕ) :=
  [.receive (List.range 26), .receive [], .receive [], .receive [],
    .parse, .parse, .parse, .transmit 0, .transmit 25, .transmit 0,
    .transmit 0]

theorem not_starved_of_enoughLeft_accepted :
    ∃ s, (pipeline ℕ).exec (launch ℕ) acceptedRun = some s ∧
      s.txPacket = 25 ∧ ¬Starved s := by
  have hend : ∃ s, (pipeline ℕ).exec (launch ℕ) acceptedRun = some s ∧
      s.txPacket = 25 ∧ s.parsPacket = 26 ∧ s.refused = 1 :=
    ⟨_, rfl, rfl, rfl, rfl⟩
  obtain ⟨s, hexec, haccepted, hpars, hrefused⟩ := hend
  refine ⟨s, hexec, haccepted, (not_starved_of_enoughLeft hexec).1 ?_⟩
  rw [meetsAlong_iff_not_doomed hexec]
  rintro ⟨-, hlt⟩
  rw [hpars, hrefused] at hlt
  exact absurd hlt (by decide)

/-- One burst of 25 packets, of which the driver refuses one. -/
def starvingRun : List (Label ℕ) :=
  [.receive (List.range 25), .receive [], .receive [], .receive [],
    .parse, .parse, .parse, .transmit 0, .transmit 24, .transmit 0,
    .transmit 0, .transmit 0]

theorem starvingRun_starved :
    ¬∀ s : State ℕ, (pipeline ℕ).Reachable s → ¬Starved s := by
  intro hnever
  have hend : ∃ s, (pipeline ℕ).exec (launch ℕ) starvingRun = some s ∧
      s.rxPc = .returned ∧ s.parserPc = .returned ∧
      s.parseToTx.toList = [] ∧ s.txPc = .dequeueBurst ∧
      s.txPacket = 24 := ⟨_, rfl, rfl, rfl, rfl, rfl, rfl⟩
  obtain ⟨s, hexec, hrx, hparser, hring, htx, hcount⟩ := hend
  apply hnever s ⟨starvingRun, hexec⟩
  refine ⟨hrx, hparser, hring, ?_, ?_, ?_⟩
  · rw [htx]
    rfl
  · rw [htx]
    simp
  · rw [hcount]
    decide

end PacketParseerRing
end DpdkFolder
