import DpdkFolder.EventdevPacketParsing.Model

/-!
# Which handler gets which event

`drop_handler` dequeues on port 1, which is linked to the IPv4 queue, and
releases on port 2, which is linked to the IPv6 queue.  So whatever it takes
is an event of the other handler, and is released on a port it did not come
from.
-/

namespace DpdkFolder
namespace EventdevPacketParsing

variable {μ : Type*} {s t : State μ}

/-- `drop_handler` takes events of the IPv6 queue only, `transmit_handler`
events of the IPv4 queue, and each release goes to the port of its event. -/
structure Routed (s : State μ) : Prop where
  drop_queue : ∀ d ∈ s.took .drop, d.event.queueId = 1
  transmit_queue : ∀ d ∈ s.took .transmit, d.event.queueId = 0
  release_port : ∀ r ∈ s.released, r.1.port = r.2

/-- The condition on a step: no dequeue of `drop_handler` returns an
event. -/
def DropGetsNothing (s : State μ) : Label μ → Prop
  | .drop answer => s.pc .drop = .dequeueBurst → answer.choice = none
  | _ => True

/-- The event in the hand of a handler. -/
def HandlerPc.hand : HandlerPc μ → List (Delivery μ)
  | .dequeueBurst => []
  | .parse d => [d]
  | .release d => [d]
  | .free d => [d]

/-- What holds in every state: both handlers take their events from port 1,
and only `drop_handler` releases on another port. -/
structure Inv (s : State μ) : Prop where
  took_queue : ∀ h, ∀ d ∈ s.took h, d.event.queueId = 0
  hand_port : ∀ h, ∀ d ∈ (s.pc h).hand, d.port = 1
  hand_drop : (s.pc .drop).hand ≠ [] → s.took .drop ≠ []
  released_port : s.took .drop = [] → ∀ r ∈ s.released, r.1.port = r.2

theorem launch_inv (μ : Type*) : Inv (launch μ) where
  took_queue := by simp [launch]
  hand_port := by simp [launch, HandlerPc.hand]
  hand_drop := by simp [launch, HandlerPc.hand]
  released_port := by simp [launch]

/-- A handler goes on with what it has in its hand. -/
theorem Inv.moveHand (hinv : Inv s) {h : Handler} {pc : HandlerPc μ}
    (hsub : pc.hand ⊆ (s.pc h).hand) :
    Inv { s with pc := Function.update s.pc h pc } where
  took_queue := hinv.took_queue
  hand_port := by
    apply (Function.forall_update_iff s.pc
      (p := fun _ pc => ∀ d ∈ pc.hand, d.port = 1)).mpr
    constructor
    · intro d hd
      exact hinv.hand_port h d (hsub hd)
    · intro h' _
      exact hinv.hand_port h'
  hand_drop := by
    cases h with
    | transmit => simpa using hinv.hand_drop
    | drop =>
        simp only [Function.update_self]
        intro hne
        apply hinv.hand_drop
        intro hnil
        rw [hnil] at hsub
        exact hne (List.subset_nil.mp hsub)
  released_port := hinv.released_port

/-- A handler that dequeues on port 1 takes an event of the IPv4 queue. -/
theorem Inv.takeEvent (hinv : Inv s) {h : Handler} {pc : HandlerPc μ}
    {event : RteEvent μ} {stored : List (RteEvent μ)}
    (hhand : pc.hand = [⟨1, event⟩]) (hqueue : event.queueId = 0) :
    Inv { s with
      stored
      pc := Function.update s.pc h pc
      took := Function.update s.took h (s.took h ++ [⟨1, event⟩]) } where
  took_queue := by
    apply (Function.forall_update_iff s.took
      (p := fun _ took => ∀ d ∈ took, d.event.queueId = 0)).mpr
    constructor
    · intro d hd
      obtain hd | hd := List.mem_append.mp hd
      · exact hinv.took_queue h d hd
      · rw [List.mem_singleton.mp hd]
        exact hqueue
    · intro h' _
      exact hinv.took_queue h'
  hand_port := by
    apply (Function.forall_update_iff s.pc
      (p := fun _ pc => ∀ d ∈ pc.hand, d.port = 1)).mpr
    constructor
    · simp [hhand]
    · intro h' _
      exact hinv.hand_port h'
  hand_drop := by
    cases h with
    | transmit => simpa using hinv.hand_drop
    | drop => simp
  released_port := by
    cases h with
    | transmit => simpa using hinv.released_port
    | drop => simp

/-- What a handler that dequeues on port 1 preserves. -/
theorem Inv.handle (hinv : Inv s) {h : Handler} {releasePort : ℕ}
    {parses : Bool} {answer : Answer μ}
    (hport : h = .transmit → releasePort = 1)
    (hstep : handle h 1 releasePort parses answer s = some t) : Inv t := by
  cases hpc : s.pc h with
  | dequeueBurst =>
      obtain ⟨-, rfl⟩ | ⟨event, stored, -, hlinked, -, rfl⟩ :=
        handle_of_dequeueBurst hpc hstep
      · exact hinv
      · apply hinv.takeEvent
        · cases parses <;> rfl
        · simpa [links] using hlinked
  | parse d =>
      obtain rfl := handle_of_parse hpc hstep
      exact hinv.moveHand (by simp [hpc, HandlerPc.hand])
  | release d =>
      obtain rfl := handle_of_release hpc hstep
      have hmove : Inv { s with
          pc := Function.update s.pc h (.free d) } :=
        hinv.moveHand (by simp [hpc, HandlerPc.hand])
      have hdPort : d.port = 1 := by
        apply hinv.hand_port h
        simp [hpc, HandlerPc.hand]
      refine { hmove with released_port := ?_ }
      intro hnone r hr
      obtain hr | hr := List.mem_append.mp hr
      · exact hinv.released_port hnone r hr
      · rw [List.mem_singleton.mp hr]
        cases h with
        | transmit => exact hdPort.trans (hport rfl).symm
        | drop =>
            have hheld : (s.pc .drop).hand ≠ [] := by
              simp [hpc, HandlerPc.hand]
            exact absurd hnone (hinv.hand_drop hheld)
  | free d =>
      obtain rfl := handle_of_free hpc hstep
      have hmove : Inv { s with
          pc := Function.update s.pc h .dequeueBurst } :=
        hinv.moveHand (by simp [HandlerPc.hand])
      exact { hmove with }

theorem step_inv {l : Label μ} (hinv : Inv s) (hstep : step s l = some t) :
    Inv t := by
  cases l with
  | receive answer =>
      cases hburst : s.burst with
      | nil =>
          obtain rfl := receiveHandler_of_nil hburst hstep
          exact { hinv with }
      | cons m rest =>
          obtain rfl := receiveHandler_of_cons hburst hstep
          exact { hinv with }
  | transmit answer => exact hinv.handle (fun _ => rfl) hstep
  | drop answer => exact hinv.handle (h := .drop) (by simp) hstep

theorem reachable_inv (h : (program μ).Reachable s) : Inv s := by
  refine h.invariant (launch_inv μ) ?_
  intro s l t _ hinv hstep
  exact step_inv hinv hstep

/-! ## When the events are routed as intended -/

theorem Inv.routed_iff_took (hinv : Inv s) : Routed s ↔ s.took .drop = [] := by
  constructor
  · intro hrouted
    rw [List.eq_nil_iff_forall_not_mem]
    intro d hd
    have hqueue := hrouted.drop_queue d hd
    rw [hinv.took_queue .drop d hd] at hqueue
    exact absurd hqueue (by decide)
  · intro hnone
    constructor
    · simp [hnone]
    · exact hinv.took_queue .transmit
    · exact hinv.released_port hnone

theorem handle_took_of_ne {h h' : Handler} {dequeuePort releasePort : ℕ}
    {parses : Bool} {answer : Answer μ} (hne : h' ≠ h)
    (hstep : handle h dequeuePort releasePort parses answer s = some t) :
    t.took h' = s.took h' := by
  cases hpc : s.pc h with
  | dequeueBurst =>
      obtain ⟨-, rfl⟩ | ⟨event, stored, -, -, -, rfl⟩ :=
        handle_of_dequeueBurst hpc hstep
      · rfl
      · exact Function.update_of_ne hne _ _
  | parse d => rw [handle_of_parse hpc hstep]
  | release d => rw [handle_of_release hpc hstep]
  | free d => rw [handle_of_free hpc hstep]

/-- What `drop_handler` has taken after a step. -/
theorem step_took_drop {l : Label μ} (hstep : step s l = some t) :
    t.took .drop = [] ↔ s.took .drop = [] ∧ DropGetsNothing s l := by
  cases l with
  | receive answer =>
      have hkept : t.took = s.took := by
        cases hburst : s.burst with
        | nil => rw [receiveHandler_of_nil hburst hstep]
        | cons m rest => rw [receiveHandler_of_cons hburst hstep]
      rw [hkept]
      exact (and_iff_left trivial).symm
  | transmit answer =>
      rw [handle_took_of_ne (by decide) hstep]
      exact (and_iff_left trivial).symm
  | drop answer =>
      rw [DropGetsNothing]
      cases hpc : s.pc .drop with
      | dequeueBurst =>
          obtain ⟨hchoice, rfl⟩ | ⟨event, stored, hchoice, -, -, rfl⟩ :=
            handle_of_dequeueBurst hpc hstep
          · simp [hchoice]
          · simp [ne_none_of_chosenEvent hchoice]
      | parse d =>
          rw [handle_of_parse hpc hstep]
          simp
      | release d =>
          rw [handle_of_release hpc hstep]
          simp
      | free d =>
          rw [handle_of_free hpc hstep]
          simp

/-- For every interleaving of the handlers, every received packet and every
choice of the devices: the events are routed as intended if and only if
`drop_handler` never gets one. -/
theorem routed_iff {ls : List (Label μ)}
    (h : (program μ).exec (launch μ) ls = some s) :
    Routed s ↔ (program μ).MeetsAlong DropGetsNothing (launch μ) ls := by
  rw [(reachable_inv ⟨ls, h⟩).routed_iff_took]
  symm
  apply TransitionSystem.meetsAlong_iff_kept
    (G := fun s : State μ => s.took .drop = []) _
    TransitionSystem.reachable_start rfl h
  intro s l t _ hstep
  exact step_took_drop hstep

/-- An answer to a call that polls the NIC. -/
def Answer.receiving (pkts : List μ) : Answer μ := ⟨pkts, true, none⟩

/-- The device accepts the event of the call. -/
def Answer.accepting : Answer μ := ⟨[], true, none⟩

/-- The device refuses the event of the call. -/
def Answer.refusing : Answer μ := ⟨[], false, none⟩

/-- The device delivers the event at the given place. -/
def Answer.delivering (k : ℕ) : Answer μ := ⟨[], true, some k⟩

/-- `transmit_handler` gets the one packet. -/
def transmittedRun : List (Label ℕ) :=
  [.receive (.receiving [0]), .receive .accepting,
    .drop .accepting, .transmit (.delivering 0), .transmit .accepting,
    .transmit .accepting, .transmit .accepting]

theorem routed_iff_transmittedRun :
    ∃ s, (program ℕ).exec (launch ℕ) transmittedRun = some s ∧
      s.freed = [0] ∧ Routed s := by
  have hend : ∃ s, (program ℕ).exec (launch ℕ) transmittedRun = some s ∧
      s.freed = [0] := ⟨_, rfl, rfl⟩
  obtain ⟨s, hexec, hfreed⟩ := hend
  refine ⟨s, hexec, hfreed, (routed_iff hexec).mpr ?_⟩
  exact ⟨trivial, fun _ _ => ⟨trivial, fun _ _ => ⟨fun _ => rfl, fun _ _ =>
    ⟨trivial, fun _ _ => ⟨trivial, fun _ _ => ⟨trivial, fun _ _ =>
      ⟨trivial, fun _ _ => trivial⟩⟩⟩⟩⟩⟩⟩

/-- `drop_handler` gets the one packet. -/
theorem droppedRun_not_routed :
    ¬∀ s, (program ℕ).Reachable s → Routed s := by
  intro hall
  have hend : ∃ s, (program ℕ).exec (launch ℕ)
      [.receive (.receiving [0]), .receive .accepting,
        .drop (.delivering 0)] = some s ∧
      s.took .drop = [⟨1, newEvent 0⟩] := ⟨_, rfl, rfl⟩
  obtain ⟨s, hexec, htook⟩ := hend
  have hqueue := (hall s ⟨_, hexec⟩).drop_queue ⟨1, newEvent 0⟩
    (by simp [htook])
  exact absurd hqueue (by decide)

end EventdevPacketParsing
end DpdkFolder
