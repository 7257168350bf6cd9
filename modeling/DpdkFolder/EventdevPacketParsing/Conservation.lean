import Mathlib.Data.List.Perm.Basic
import DpdkFolder.EventdevPacketParsing.Routing
import DpdkFolder.Support.Custody

/-!
# Who owns an mbuf in eventdev_packet_parsing

`receive_handler` goes on with the next mbuf of its burst when the device
refuses an event.  The mbuf of a refused event is neither stored nor freed.
The releases that the other handlers enqueue may fail without harm, since
both free their mbuf in any case.
-/

namespace DpdkFolder
namespace EventdevPacketParsing

variable {μ : Type*} {s t : State μ}

/-- The mbuf in the hand of a handler. -/
def HandlerPc.mbufs (pc : HandlerPc μ) : List μ :=
  pc.hand.map fun d => d.event.mbuf

/-- The mbufs in the hands of the handlers. -/
def hands (pc : Handler → HandlerPc μ) : List μ :=
  (pc .transmit).mbufs ++ (pc .drop).mbufs

/-- All places where an mbuf has an owner or has been freed. -/
def State.owned (s : State μ) : List μ :=
  s.burst ++ s.stored.map RteEvent.mbuf ++ hands s.pc ++ s.freed

/-- Each received mbuf is in one place, once. -/
def Conserved (s : State μ) : Prop := s.received.Perm s.owned

/-- The condition on a step: the event of a received mbuf is accepted. -/
def AcceptsNew (s : State μ) : Label μ → Prop
  | .receive answer => s.burst ≠ [] → answer.accepted = true
  | _ => True

/-- What holds in every state: only refused mbufs are missing. -/
def Balanced (s : State μ) : Prop := s.received.Perm (s.owned ++ s.refused)

/-! ## Effect of one step -/

theorem receiveHandler_balanced {answer : Answer μ} (h : Balanced s)
    (hstep : receiveHandler answer s = some t) : Balanced t := by
  classical
  rw [Balanced, List.perm_iff_count] at h ⊢
  intro m'
  have hbefore := h m'
  cases hburst : s.burst with
  | nil =>
      obtain rfl := receiveHandler_of_nil hburst hstep
      simp only [State.owned, hburst, List.count_append,
        List.count_nil] at hbefore ⊢
      omega
  | cons m rest =>
      obtain rfl := receiveHandler_of_cons hburst hstep
      cases answer.accepted with
      | true =>
          simp only [State.owned, hburst, if_true, newEvent, List.map_append,
            List.map_singleton, List.count_append, List.count_cons,
            List.count_nil] at hbefore ⊢
          omega
      | false =>
          simp only [State.owned, hburst, Bool.false_eq_true, if_false,
            List.count_append, List.count_cons, List.count_nil] at hbefore ⊢
          omega

/-- Only the hand of the handler that moves changes. -/
theorem hands_update (pcs : Handler → HandlerPc μ) (h : Handler)
    (pc : HandlerPc μ) :
    (hands (Function.update pcs h pc) ++ (pcs h).mbufs).Perm
      (hands pcs ++ pc.mbufs) := by
  classical
  rw [List.perm_iff_count]
  intro m
  cases h with
  | transmit =>
      simp only [hands, List.count_append, Function.update_self, ne_eq,
        reduceCtorEq, not_false_eq_true, Function.update_of_ne]
      omega
  | drop =>
      simp only [hands, List.count_append, Function.update_self, ne_eq,
        reduceCtorEq, not_false_eq_true, Function.update_of_ne]
      omega

/-- A handler moves an mbuf between the device, its hand and the pool. -/
theorem owned_of_moved (h : Handler) {pc : HandlerPc μ}
    (hburst : t.burst = s.burst) (hpc : t.pc = Function.update s.pc h pc)
    (hmoved : (t.stored.map RteEvent.mbuf ++ pc.mbufs ++ t.freed).Perm
      (s.stored.map RteEvent.mbuf ++ (s.pc h).mbufs ++ s.freed)) :
    t.owned.Perm s.owned := by
  classical
  rw [List.perm_iff_count]
  intro m
  have hplaces := hmoved.count_eq m
  have hhands := (hands_update s.pc h pc).count_eq m
  simp only [State.owned, hburst, hpc, List.count_append]
    at hplaces hhands ⊢
  omega

/-- A handler moves its mbuf on. -/
theorem handle_owned {h : Handler} {dequeuePort releasePort : ℕ}
    {parses : Bool} {answer : Answer μ}
    (hstep : handle h dequeuePort releasePort parses answer s = some t) :
    t.owned.Perm s.owned ∧ t.received = s.received ∧
      t.refused = s.refused := by
  cases hpc : s.pc h with
  | dequeueBurst =>
      obtain ⟨-, rfl⟩ | ⟨event, stored, -, -, hperm, rfl⟩ :=
        handle_of_dequeueBurst hpc hstep
      · exact ⟨List.Perm.refl _, rfl, rfl⟩
      · have hhand : (if parses then HandlerPc.parse ⟨dequeuePort, event⟩
            else .release ⟨dequeuePort, event⟩).mbufs = [event.mbuf] := by
          cases parses <;> rfl
        refine ⟨owned_of_moved h rfl rfl ?_, rfl, rfl⟩
        rw [hhand, hpc]
        apply List.Perm.append_right
        simp only [HandlerPc.mbufs, HandlerPc.hand, List.map_nil,
          List.append_nil]
        exact (List.perm_append_singleton _ _).trans
          (hperm.map RteEvent.mbuf).symm
  | parse d =>
      obtain rfl := handle_of_parse hpc hstep
      refine ⟨owned_of_moved h rfl rfl ?_, rfl, rfl⟩
      rw [hpc]
      exact List.Perm.refl _
  | release d =>
      obtain rfl := handle_of_release hpc hstep
      refine ⟨owned_of_moved h rfl rfl ?_, rfl, rfl⟩
      rw [hpc]
      exact List.Perm.refl _
  | free d =>
      obtain rfl := handle_of_free hpc hstep
      refine ⟨owned_of_moved h rfl rfl ?_, rfl, rfl⟩
      rw [hpc]
      simp only [HandlerPc.mbufs, HandlerPc.hand, List.map_cons,
        List.map_nil, List.append_nil, List.append_assoc]
      exact List.perm_append_comm.append_left _

theorem handle_balanced {h : Handler} {dequeuePort releasePort : ℕ}
    {parses : Bool} {answer : Answer μ} (hbalanced : Balanced s)
    (hstep : handle h dequeuePort releasePort parses answer s = some t) :
    Balanced t := by
  obtain ⟨howned, hreceived, hrefused⟩ := handle_owned hstep
  rw [Balanced, hreceived, hrefused]
  exact hbalanced.trans (howned.symm.append_right _)

theorem reachable_balanced (h : (program μ).Reachable s) : Balanced s := by
  refine h.invariant (List.Perm.refl []) ?_
  intro s l t _ hbalanced hstep
  cases l with
  | receive answer => exact receiveHandler_balanced hbalanced hstep
  | transmit answer => exact handle_balanced hbalanced hstep
  | drop answer => exact handle_balanced hbalanced hstep

theorem step_refused {l : Label μ} (hstep : step s l = some t) :
    t.refused = [] ↔ s.refused = [] ∧ AcceptsNew s l := by
  cases l with
  | receive answer =>
      rw [AcceptsNew]
      cases hburst : s.burst with
      | nil =>
          rw [receiveHandler_of_nil hburst hstep]
          simp
      | cons m rest =>
          rw [receiveHandler_of_cons hburst hstep]
          cases answer.accepted <;> simp
  | transmit answer =>
      rw [(handle_owned hstep).2.2]
      exact (and_iff_left trivial).symm
  | drop answer =>
      rw [(handle_owned hstep).2.2]
      exact (and_iff_left trivial).symm

/-! ## When the mbufs are conserved -/

theorem Balanced.conserved_iff_refused (h : Balanced s) :
    Conserved s ↔ s.refused = [] := List.Perm.perm_iff_eq_nil h

/-- For every interleaving, every sequence of bursts and every success or
failure of the enqueues: each received mbuf is in exactly one place if and
only if the device has accepted every new event. -/
theorem mbufs_conserved_iff {ls : List (Label μ)}
    (h : (program μ).exec (launch μ) ls = some s) :
    Conserved s ↔ (program μ).MeetsAlong AcceptsNew (launch μ) ls := by
  rw [(reachable_balanced ⟨ls, h⟩).conserved_iff_refused]
  symm
  apply TransitionSystem.meetsAlong_iff_kept
    (G := fun s : State μ => s.refused = []) _
    TransitionSystem.reachable_start rfl h
  intro s l t _ hstep
  exact step_refused hstep

/-- One handler has freed its mbuf, the other one holds its own, and their
releases were refused. -/
def sharedRun : List (Label ℕ) :=
  [.receive (.receiving [0, 1, 2]), .receive .accepting,
    .receive .accepting, .transmit (.delivering 1), .drop (.delivering 0),
    .transmit .refusing, .transmit .refusing, .drop .refusing,
    .transmit .refusing]

theorem mbufs_conserved_iff_sharedRun :
    ∃ s, (program ℕ).exec (launch ℕ) sharedRun = some s ∧
      s.owned = [2, 0, 1] ∧ Conserved s := by
  have hend : ∃ s, (program ℕ).exec (launch ℕ) sharedRun = some s ∧
      s.owned = [2, 0, 1] := ⟨_, rfl, rfl⟩
  obtain ⟨s, hexec, howned⟩ := hend
  refine ⟨s, hexec, howned, (mbufs_conserved_iff hexec).mpr ?_⟩
  refine ⟨fun _ => rfl, fun _ _ => ⟨fun _ => rfl, fun _ _ =>
    ⟨fun _ => rfl, fun _ _ => ?_⟩⟩⟩
  exact ⟨trivial, fun _ _ => ⟨trivial, fun _ _ => ⟨trivial, fun _ _ =>
    ⟨trivial, fun _ _ => ⟨trivial, fun _ _ => ⟨trivial, fun _ _ =>
      trivial⟩⟩⟩⟩⟩⟩

/-- The mbuf of a refused event is in no place. -/
theorem refusedEvent_not_conserved :
    ¬∀ s, (program ℕ).Reachable s → Conserved s := by
  intro hall
  have hend : ∃ s, (program ℕ).exec (launch ℕ)
      [.receive (.receiving [0]), .receive .refusing] = some s ∧
      s.received = [0] ∧ s.owned = [] := ⟨_, rfl, rfl, rfl⟩
  obtain ⟨s, hexec, hreceived, howned⟩ := hend
  have hlength := (hall s ⟨_, hexec⟩).length_eq
  rw [hreceived, howned] at hlength
  exact absurd hlength (by decide)

end EventdevPacketParsing
end DpdkFolder
