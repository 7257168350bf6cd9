import DpdkFolder.EventdevPacketParsing.Conservation
import DpdkFolder.Support.Fairness

/-!
# The handlers of eventdev_packet_parsing drain the device

The NIC has no more packets, and the device gives a waiting event to every
port that asks for one.  Which event that is, which enqueues it refuses and in
which order the handlers run stays open.  From every state that the program
can have reached, every fair schedule then brings the handlers back to their
dequeues with nothing left in the device, although two handlers compete for
the events of one port.
-/

namespace DpdkFolder
namespace EventdevPacketParsing

variable {μ : Type*} {s t s₀ : State μ}

/-- Which handler runs. -/
inductive Lcore
  | receiver
  | handler (h : Handler)
deriving DecidableEq

/-- A step of a handler, with the choices that are left to the device: whether
it accepts an event and which of the waiting events it delivers. -/
inductive Move
  | receive (accepted : Bool)
  | handle (h : Handler) (accepted : Bool) (place : ℕ)

def Move.lcore : Move → Lcore
  | .receive _ => .receiver
  | .handle h _ _ => .handler h

/-- The device delivers an event if there is one. -/
def waitingPlace (stored : List (RteEvent μ)) (place : ℕ) : Option ℕ :=
  match stored with
  | [] => none
  | _ :: rest => some (place % (rest.length + 1))

/-- The answers to a step; the NIC has nothing. -/
def Move.label (s : State μ) : Move → Label μ
  | .receive accepted => .receive ⟨[], accepted, none⟩
  | .handle .transmit accepted place =>
      .transmit ⟨[], accepted, waitingPlace s.stored place⟩
  | .handle .drop accepted place =>
      .drop ⟨[], accepted, waitingPlace s.stored place⟩

/-- The program from the state `s₀` on, without further packets. -/
def draining (s₀ : State μ) : TransitionSystem (State μ) Move where
  start := s₀
  step s a := step s (a.label s)

/-- Nothing is left to be done. -/
structure Drained (s : State μ) : Prop where
  burst : s.burst = []
  stored : s.stored = []
  pc : ∀ h, s.pc h = .dequeueBurst

/-! ## Where the events wait -/

theorem handle_stored_queue {h : Handler} {dequeuePort releasePort : ℕ}
    {parses : Bool} {answer : Answer μ}
    (hqueue : ∀ ev ∈ s.stored, ev.queueId = 0)
    (hstep : handle h dequeuePort releasePort parses answer s = some t) :
    ∀ ev ∈ t.stored, ev.queueId = 0 := by
  cases hpc : s.pc h with
  | dequeueBurst =>
      obtain ⟨-, rfl⟩ | ⟨event, stored, -, -, hperm, rfl⟩ :=
        handle_of_dequeueBurst hpc hstep
      · exact hqueue
      · intro ev hev
        exact hqueue ev (hperm.mem_iff.mpr (List.mem_cons_of_mem _ hev))
  | parse d =>
      obtain rfl := handle_of_parse hpc hstep
      exact hqueue
  | release d =>
      obtain rfl := handle_of_release hpc hstep
      exact hqueue
  | free d =>
      obtain rfl := handle_of_free hpc hstep
      exact hqueue

/-- All events wait in the queue that is linked to port 1. -/
theorem reachable_stored_queue (h : (program μ).Reachable s) :
    ∀ ev ∈ s.stored, ev.queueId = 0 := by
  apply h.invariant (P := fun s : State μ => ∀ ev ∈ s.stored, ev.queueId = 0)
  · exact fun ev hev => absurd hev List.not_mem_nil
  · intro s l t _ hqueue hstep
    cases l with
    | transmit answer => exact handle_stored_queue hqueue hstep
    | drop answer => exact handle_stored_queue hqueue hstep
    | receive answer =>
        cases hburst : s.burst with
        | nil =>
            obtain rfl := receiveHandler_of_nil hburst hstep
            exact hqueue
        | cons m rest =>
            obtain rfl := receiveHandler_of_cons hburst hstep
            intro ev hev
            cases haccepted : answer.accepted with
            | false => exact hqueue ev (by simpa [haccepted] using hev)
            | true =>
                rcases List.mem_append.mp
                  (show ev ∈ s.stored ++ [newEvent m] by
                    simpa [haccepted] using hev) with hold | hnew
                · exact hqueue ev hold
                · rw [List.mem_singleton.mp hnew]
                  rfl

/-! ## Progress -/

/-- The steps that a handler needs until its next dequeue. -/
def HandlerPc.remaining : HandlerPc μ → ℕ
  | dequeueBurst => 0
  | parse _ => 3
  | release _ => 2
  | free _ => 1

/-- The steps that the packets still need. -/
def State.rank (s : State μ) : ℕ :=
  5 * s.burst.length + 4 * s.stored.length + (s.pc .transmit).remaining +
    (s.pc .drop).remaining

/-- A handler that makes progress when it runs. -/
def State.helper (s : State μ) : Lcore :=
  match s.burst, s.pc .transmit, s.stored with
  | _ :: _, _, _ => .receiver
  | [], .dequeueBurst, [] => .handler .drop
  | [], _, _ => .handler .transmit

/-- A step of the receiver lowers the rank, or there is nothing to enqueue. -/
theorem receive_rank {accepted : Bool}
    (hstep : receiveHandler ⟨[], accepted, none⟩ s = some t) :
    t.rank < s.rank ∨ (t = s ∧ s.burst = []) := by
  cases hburst : s.burst with
  | nil =>
      refine Or.inr ⟨?_, rfl⟩
      rw [receiveHandler_of_nil hburst hstep, List.append_nil, ← hburst]
  | cons m rest =>
      refine Or.inl ?_
      rw [receiveHandler_of_cons hburst hstep]
      cases accepted <;> simp only [State.rank, hburst, List.length_cons,
        List.length_append, List.length_nil, if_true, if_false,
        Bool.false_eq_true] <;> omega

theorem remaining_update (pcs : Handler → HandlerPc μ) (h : Handler)
    (pc : HandlerPc μ) :
    (Function.update pcs h pc .transmit).remaining +
        (Function.update pcs h pc .drop).remaining + (pcs h).remaining =
      (pcs .transmit).remaining + (pcs .drop).remaining + pc.remaining := by
  cases h with
  | transmit =>
      simp only [Function.update_self, ne_eq, reduceCtorEq, not_false_eq_true,
        Function.update_of_ne]
      omega
  | drop =>
      simp only [Function.update_self, ne_eq, reduceCtorEq, not_false_eq_true,
        Function.update_of_ne]
      omega

/-- A step of another handler lowers the rank, or nothing waits for it. -/
theorem handle_rank {h : Handler} {releasePort : ℕ} {parses accepted : Bool}
    {place : ℕ}
    (hstep : handle h 1 releasePort parses
      ⟨[], accepted, waitingPlace s.stored place⟩ s = some t) :
    t.rank < s.rank ∨
      (t = s ∧ s.stored = [] ∧ s.pc h = .dequeueBurst) := by
  cases hpc : s.pc h with
  | dequeueBurst =>
      obtain ⟨hnone, rfl⟩ | ⟨event, stored, -, -, hperm, rfl⟩ :=
        handle_of_dequeueBurst hpc hstep
      · refine Or.inr ⟨rfl, ?_, rfl⟩
        cases hstored : t.stored with
        | nil => rfl
        | cons ev rest => simp [waitingPlace, hstored] at hnone
      · refine Or.inl ?_
        have hlength := hperm.length_eq
        have hsum := remaining_update s.pc h
          (if parses then .parse ⟨1, event⟩ else .release ⟨1, event⟩)
        have hle : (if parses then HandlerPc.parse ⟨1, event⟩
            else .release ⟨1, event⟩).remaining ≤ 3 := by
          cases parses <;> simp [HandlerPc.remaining]
        rw [hpc] at hsum
        simp only [State.rank, List.length_cons, HandlerPc.remaining]
          at hlength hsum hle ⊢
        omega
  | parse d =>
      refine Or.inl ?_
      have hsum := remaining_update s.pc h (.release d)
      rw [hpc] at hsum
      rw [handle_of_parse hpc hstep]
      simp only [State.rank, HandlerPc.remaining] at hsum ⊢
      omega
  | release d =>
      refine Or.inl ?_
      have hsum := remaining_update s.pc h (.free d)
      rw [hpc] at hsum
      rw [handle_of_release hpc hstep]
      simp only [State.rank, HandlerPc.remaining] at hsum ⊢
      omega
  | free d =>
      refine Or.inl ?_
      have hsum := remaining_update s.pc h .dequeueBurst
      rw [hpc] at hsum
      rw [handle_of_free hpc hstep]
      simp only [State.rank, HandlerPc.remaining] at hsum ⊢
      omega

/-- The handlers are never blocked. -/
theorem handle_ne_none {h : Handler} {releasePort : ℕ}
    {parses accepted : Bool} {place : ℕ}
    (hqueue : ∀ ev ∈ s.stored, ev.queueId = 0) :
    handle h 1 releasePort parses
      ⟨[], accepted, waitingPlace s.stored place⟩ s ≠ none := by
  cases hpc : s.pc h with
  | dequeueBurst =>
      cases hstored : s.stored with
      | nil => simp [handle, hpc, hstored, waitingPlace, rteEventDequeueBurst]
      | cons ev rest =>
          obtain ⟨k, hk⟩ : ∃ k, k = place % (rest.length + 1) := ⟨_, rfl⟩
          have hlt : k < (ev :: rest).length :=
            hk ▸ Nat.mod_lt _ (Nat.succ_pos _)
          rw [hstored] at hqueue
          have hzero : ((ev :: rest)[k]).queueId = 0 :=
            hqueue _ (List.getElem_mem hlt)
          simp [handle, hpc, hstored, waitingPlace, rteEventDequeueBurst,
            ← hk, List.getElem?_eq_getElem hlt, hzero, links]
  | parse d | release d | free d => simp [handle, hpc]

theorem receive_ne_none (accepted : Bool) :
    receiveHandler ⟨[], accepted, none⟩ s ≠ none := by
  cases hburst : s.burst <;> simp [receiveHandler, hburst]

theorem helper_ne_receiver (hburst : s.burst = []) :
    s.helper ≠ .receiver := by
  rw [State.helper, hburst]
  split <;> simp_all

/-- A handler for which nothing waits is not the one to wait for, unless
nothing is left to be done. -/
theorem helper_ne_handler {h : Handler} (hgo : ¬Drained s)
    (hstored : s.stored = []) (hpc : s.pc h = .dequeueBurst) :
    s.helper ≠ .handler h := by
  cases hburst : s.burst with
  | cons m rest => simp [State.helper, hburst]
  | nil =>
      cases h with
      | transmit => simp [State.helper, hburst, hpc, hstored]
      | drop =>
          cases htransmit : s.pc .transmit with
          | dequeueBurst =>
              refine absurd ⟨hburst, hstored, ?_⟩ hgo
              rintro (_ | _)
              · exact htransmit
              · exact hpc
          | parse d | release d | free d =>
              simp [State.helper, hburst, htransmit]

theorem draining_rank (hgo : ¬Drained s) {a : Move}
    (hstep : (draining s₀).step s a = some t) :
    t.rank < s.rank ∨ (t = s ∧ a.lcore ≠ s.helper) := by
  cases a with
  | receive accepted =>
      refine (receive_rank hstep).imp_right fun ⟨hsame, hburst⟩ => ?_
      exact ⟨hsame, (helper_ne_receiver hburst).symm⟩
  | handle h accepted place =>
      have hrank : t.rank < s.rank ∨
          (t = s ∧ s.stored = [] ∧ s.pc h = .dequeueBurst) := by
        cases h with
        | transmit => exact handle_rank hstep
        | drop => exact handle_rank hstep
      refine hrank.imp_right fun ⟨hsame, hstored, hpc⟩ => ?_
      exact ⟨hsame, (helper_ne_handler hgo hstored hpc).symm⟩

/-! ## Runs without further packets -/

/-- A step of the draining program is one of the program. -/
theorem reachable_draining (h₀ : (program μ).Reachable s₀)
    (h : (draining s₀).Reachable s) : (program μ).Reachable s := by
  apply h.invariant (P := (program μ).Reachable) h₀
  intro s a t _ hs hstep
  exact hs.step (a := a.label s) hstep

theorem draining_ne_none (h : (program μ).Reachable s) (a : Move) :
    (draining s₀).step s a ≠ none := by
  have hqueue := reachable_stored_queue h
  cases a with
  | receive accepted => exact receive_ne_none accepted
  | handle h accepted place =>
      cases h with
      | transmit => exact handle_ne_none hqueue
      | drop => exact handle_ne_none hqueue

theorem draining_received {a : Move}
    (hstep : (draining s₀).step s a = some t) : t.received = s.received := by
  cases a with
  | receive accepted =>
      cases hburst : s.burst with
      | nil =>
          rw [receiveHandler_of_nil hburst hstep]
          exact List.append_nil _
      | cons m rest => rw [receiveHandler_of_cons hburst hstep]
  | handle h accepted place =>
      cases h with
      | transmit => exact (handle_owned hstep).2.1
      | drop => exact (handle_owned hstep).2.1

theorem Drained.step (h : Drained s) {a : Move}
    (hstep : (draining s₀).step s a = some t) : t = s := by
  have hzero : s.rank = 0 := by
    simp [State.rank, h.burst, h.stored, h.pc, HandlerPc.remaining]
  cases a with
  | receive accepted =>
      rcases receive_rank hstep with hlt | ⟨hsame, -⟩
      · omega
      · exact hsame
  | handle q accepted place =>
      cases q with
      | transmit =>
          rcases handle_rank hstep with hlt | ⟨hsame, -⟩
          · omega
          · exact hsame
      | drop =>
          rcases handle_rank hstep with hlt | ⟨hsame, -⟩
          · omega
          · exact hsame

theorem leadsTo_drained (h₀ : (program μ).Reachable s₀) :
    (draining s₀).LeadsTo Move.lcore (fun _ => True) Drained := by
  refine (TransitionSystem.leadsTo_of_imp fun s _ _ => em (Drained s)).trans
    (TransitionSystem.LeadsTo.or
      (TransitionSystem.leadsTo_of_imp fun _ _ hs => hs) ?_)
  refine TransitionSystem.leadsTo_of_helper State.rank State.helper ?_ ?_
  · intro s a hreach _ _
    exact draining_ne_none (reachable_draining h₀ hreach) a
  · intro s a t _ hgo hstep
    refine (em (Drained t)).imp_right fun ht => ⟨ht, ?_⟩
    refine (draining_rank hgo hstep).imp_right ?_
    rintro ⟨rfl, hother⟩
    exact ⟨rfl, rfl, hother⟩

theorem Drained.received_perm (h : Drained s) (hbalanced : Balanced s) :
    s.received.Perm (s.freed ++ s.refused) := by
  simpa [Balanced, State.owned, hands, HandlerPc.mbufs, HandlerPc.hand,
    h.burst, h.stored, h.pc] using hbalanced

/-- From every state that the program can have reached and for every fair
schedule: once no more packets arrive, there is a moment from which on the
device is empty, both other handlers wait for events, and each mbuf that has
been received has been freed once or belongs to a refused event. -/
theorem handlers_drain (h₀ : (program μ).Reachable s₀) {sched : ℕ → Move}
    (hfair : TransitionSystem.Fair Move.lcore sched) :
    ∃ n, ∀ m, n ≤ m → ∃ s, (draining s₀).along sched m = s ∧ Drained s ∧
      s₀.received.Perm (s.freed ++ s.refused) := by
  obtain ⟨n, hn⟩ := (leadsTo_drained h₀).settles trivial
    (fun s _ t _ hs hstep => hs.step hstep ▸ hs) hfair
  refine ⟨n, fun m hle => ⟨_, rfl, ?_⟩⟩
  obtain ⟨hreach, hdrained⟩ := hn m hle
  have hreceived :
      ((draining s₀).along sched m).received = s₀.received :=
    hreach.invariant (P := fun s => s.received = s₀.received) rfl
      fun _ _ _ _ hs hstep => (draining_received hstep).trans hs
  refine ⟨hdrained, ?_⟩
  rw [← hreceived]
  exact hdrained.received_perm
    (reachable_balanced (reachable_draining h₀ hreach))

/-- Each handler in turn; the device accepts nothing. -/
def inTurn : ℕ → Move :=
  TransitionSystem.roundRobin [.receive false, .handle .drop false 1,
    .handle .transmit false 0] (by simp)

theorem handlers_drain_inTurn : ∃ s₀, (program ℕ).Reachable s₀ ∧
    s₀.received = [0, 1, 2] ∧ ∃ n, ∀ m, n ≤ m → ∃ s,
      (draining s₀).along inTurn m = s ∧ Drained s ∧
        s₀.received.Perm (s.freed ++ s.refused) := by
  have hend : ∃ s, (program ℕ).exec (launch ℕ) sharedRun = some s ∧
      s.received = [0, 1, 2] := ⟨_, rfl, rfl⟩
  obtain ⟨s₀, hexec, hreceived⟩ := hend
  have hreach : (program ℕ).Reachable s₀ := ⟨sharedRun, hexec⟩
  refine ⟨s₀, hreach, hreceived, handlers_drain hreach
    (TransitionSystem.fair_roundRobin _ ?_)⟩
  intro i
  cases i with
  | receiver => exact ⟨.receive false, by simp, rfl⟩
  | handler h =>
      cases h with
      | transmit => exact ⟨.handle .transmit false 0, by simp, rfl⟩
      | drop => exact ⟨.handle .drop false 1, by simp, rfl⟩

end EventdevPacketParsing
end DpdkFolder
