import Mathlib.Data.List.Nodup
import Mathlib.Data.Option.Basic
import DpdkFolder.IpcEventdev.Model

/-!
# Requests and replies in ipc_eventdev

Both ports are linked to both queues, so each process may be handed what it
has sent itself.  The roles are kept exactly in the runs in which the device
happens to deliver replies to the primary and requests to the secondary.
-/

namespace DpdkFolder
namespace IpcEventdev

variable {μ : Type*} {mp : MbufPool μ} {s t : State μ}

/-- What the primary reports as a reply answers a request of its own, what
the secondary answers is a request of the primary, and no event is answered
twice. -/
structure Roles (s : State μ) : Prop where
  reported_reply : ∀ m ∈ s.reported, m ∈ s.answers ∧
    ∃ r ∈ s.requests, m.inReplyTo = some r.number
  answered_request : ∀ m ∈ s.answered, m ∈ s.requests ∧ m.queueId = 0
  answered_once : (s.answers.map Message.inReplyTo).Nodup

/-- The condition on a step: the device delivers events of queue 1 on port 0
and events of queue 0 on port 1. -/
def FromPartner (s : State μ) : Label → Prop
  | .primary a => s.primary = .dequeue →
      ∀ m, chosenEvent a.choice s.stored = some m → m.queueId = 1
  | .secondary a => s.secondary = .dequeue →
      ∀ m, chosenEvent a.choice s.stored = some m → m.queueId = 0

/-- All events that were given to the device. -/
def State.sent (s : State μ) : List (Message μ) := s.requests ++ s.answers

/-- All events that the device holds or has delivered. -/
def State.seen (s : State μ) : List (Message μ) :=
  s.stored ++ s.reported ++ s.answered

/-- The number of the event that the secondary is about to answer. -/
def SecondaryPc.pending : SecondaryPc μ → List ℕ
  | .dequeue => []
  | .enqueue ev => [ev.number]

/-- What holds in every state. -/
structure Inv (s : State μ) : Prop where
  request_queue : ∀ m ∈ s.requests, m.queueId = 0
  answer_queue : ∀ m ∈ s.answers, m.queueId = 1
  seen_sent : ∀ m ∈ s.seen, m ∈ s.sent
  number_lt : ∀ m ∈ s.sent, m.number < s.nextNumber
  seen_nodup : (s.seen.map Message.number).Nodup
  answers_eq : s.answers.map Message.inReplyTo ++
    s.secondary.pending.map some =
      s.answered.map fun m => some m.number

/-! ## Effect of one step -/

theorem Inv.number_notMem (h : Inv s) :
    s.nextNumber ∉ s.seen.map Message.number := by
  intro hmem
  obtain ⟨m, hm, hnumber⟩ := List.mem_map.mp hmem
  have hlt := h.number_lt m (h.seen_sent m hm)
  rw [hnumber] at hlt
  exact Nat.lt_irrefl _ hlt

/-- A process has dequeued an event, or done nothing to them. -/
theorem Inv.seen_of_perm (h : Inv s) {seen : List (Message μ)}
    (hperm : seen.Perm s.seen) :
    (∀ m ∈ seen, m ∈ s.sent) ∧ (seen.map Message.number).Nodup := by
  constructor
  · intro m hm
    exact h.seen_sent m (hperm.mem_iff.mp hm)
  · exact (hperm.map Message.number).nodup_iff.mpr h.seen_nodup

/-- A process has enqueued an event with the next number, which the device
stored or refused. -/
theorem Inv.seen_of_enqueue (h : Inv s) {m : Message μ}
    {seen sent : List (Message μ)} (hnumber : m.number = s.nextNumber)
    (hsent : sent.Perm (m :: s.sent))
    (hseen : seen.Perm (m :: s.seen) ∨ seen.Perm s.seen) :
    (∀ m' ∈ seen, m' ∈ sent) ∧
      (∀ m' ∈ sent, m'.number < s.nextNumber + 1) ∧
      (seen.map Message.number).Nodup := by
  have hkept : ∀ m' ∈ s.seen, m' ∈ sent := fun m' hm' =>
    hsent.mem_iff.mpr (List.mem_cons_of_mem m (h.seen_sent m' hm'))
  have hlt : ∀ m' ∈ sent, m'.number < s.nextNumber + 1 := by
    intro m' hm'
    obtain rfl | hm' := List.mem_cons.mp (hsent.mem_iff.mp hm')
    · rw [hnumber]
      exact Nat.lt_succ_self _
    · exact Nat.lt_succ_of_lt (h.number_lt m' hm')
  obtain hstored | hrefused := hseen
  · refine ⟨?_, hlt, ?_⟩
    · intro m' hm'
      obtain rfl | hm' := List.mem_cons.mp (hstored.mem_iff.mp hm')
      · exact hsent.mem_iff.mpr List.mem_cons_self
      · exact hkept m' hm'
    · apply (hstored.map Message.number).nodup_iff.mpr
      rw [List.map_cons, List.nodup_cons, hnumber]
      exact ⟨h.number_notMem, h.seen_nodup⟩
  · refine ⟨?_, hlt, ?_⟩
    · intro m' hm'
      exact hkept m' (hrefused.mem_iff.mp hm')
    · exact (hrefused.map Message.number).nodup_iff.mpr h.seen_nodup

theorem State.seen_enqueue (s : State μ) (accepted : Bool) (m : Message μ) :
    ((if accepted then s.stored ++ [m] else s.stored) ++ s.reported ++
        s.answered).Perm (m :: s.seen) ∨
      ((if accepted then s.stored ++ [m] else s.stored) ++ s.reported ++
        s.answered).Perm s.seen := by
  cases accepted with
  | true =>
      left
      simp only [if_true, State.seen, List.append_assoc]
      exact List.perm_middle
  | false =>
      right
      exact List.Perm.refl _

theorem State.seen_report (s : State μ) {m : Message μ}
    {stored : List (Message μ)} (h : s.stored.Perm (m :: stored)) :
    (stored ++ (s.reported ++ [m]) ++ s.answered).Perm s.seen := by
  have hback : (m :: stored ++ (s.reported ++ s.answered)).Perm s.seen := by
    rw [State.seen, List.append_assoc]
    exact h.symm.append_right _
  refine List.Perm.trans ?_ hback
  simp only [List.append_assoc, List.cons_append]
  rw [← List.append_assoc, ← List.append_assoc]
  exact List.perm_middle

theorem State.seen_answer (s : State μ) {m : Message μ}
    {stored : List (Message μ)} (h : s.stored.Perm (m :: stored)) :
    (stored ++ s.reported ++ (s.answered ++ [m])).Perm s.seen := by
  have hback : (m :: (stored ++ s.reported ++ s.answered)).Perm s.seen :=
    (h.symm.append_right s.reported).append_right s.answered
  refine List.Perm.trans ?_ hback
  rw [← List.append_assoc]
  exact List.perm_append_singleton m _

theorem primaryMain_inv {a : Answer} (h : Inv s)
    (hstep : primaryMain a s = some t) : Inv t := by
  cases hpc : s.primary with
  | alloc =>
      obtain ⟨-, rfl⟩ | ⟨mbuf, pool, -, rfl⟩ :=
        primaryMain_of_alloc hpc hstep
      · exact h
      · exact { h with }
  | enqueue mbuf =>
      obtain rfl := primaryMain_of_enqueue hpc hstep
      have hsent : (s.requests ++ [s.request mbuf] ++ s.answers).Perm
          (s.request mbuf :: s.sent) := by
        rw [List.append_assoc]
        exact List.perm_middle
      obtain ⟨hmem, hlt, hnodup⟩ :=
        h.seen_of_enqueue rfl hsent (s.seen_enqueue a.accepted _)
      constructor
      · intro m hm
        obtain hm | hm := List.mem_append.mp hm
        · exact h.request_queue m hm
        · rw [List.mem_singleton.mp hm]
          rfl
      · exact h.answer_queue
      · exact hmem
      · intro m hm
        have hnext := hlt m hm
        simpa [State.nextNumber, Nat.add_right_comm] using hnext
      · exact hnodup
      · exact h.answers_eq
  | dequeue =>
      obtain ⟨-, rfl⟩ | ⟨rev, stored, -, hperm, rfl⟩ :=
        primaryMain_of_dequeue hpc hstep
      · exact { h with }
      · obtain ⟨hmem, hnodup⟩ := h.seen_of_perm (s.seen_report hperm)
        exact { h with seen_sent := hmem, seen_nodup := hnodup }
  | free rev =>
      obtain rfl := primaryMain_of_free hpc hstep
      exact { h with }

theorem secondaryMain_inv {a : Answer} (h : Inv s)
    (hstep : secondaryMain a s = some t) : Inv t := by
  have hanswers := h.answers_eq
  cases hpc : s.secondary with
  | dequeue =>
      obtain ⟨-, rfl⟩ | ⟨ev, stored, -, hperm, rfl⟩ :=
        secondaryMain_of_dequeue hpc hstep
      · exact h
      · obtain ⟨hmem, hnodup⟩ := h.seen_of_perm (s.seen_answer hperm)
        refine { h with
          seen_sent := hmem, seen_nodup := hnodup, answers_eq := ?_ }
        simp only [hpc, SecondaryPc.pending, List.map_nil,
          List.append_nil] at hanswers
        simp [SecondaryPc.pending, hanswers]
  | enqueue ev =>
      obtain rfl := secondaryMain_of_enqueue hpc hstep
      have hsent : (s.requests ++ (s.answers ++ [s.answer ev])).Perm
          (s.answer ev :: s.sent) := by
        rw [← List.append_assoc]
        exact List.perm_append_singleton _ _
      obtain ⟨hmem, hlt, hnodup⟩ :=
        h.seen_of_enqueue rfl hsent (s.seen_enqueue a.accepted _)
      constructor
      · exact h.request_queue
      · intro m hm
        obtain hm | hm := List.mem_append.mp hm
        · exact h.answer_queue m hm
        · rw [List.mem_singleton.mp hm]
          rfl
      · exact hmem
      · intro m hm
        have hnext := hlt m hm
        simpa [State.nextNumber, Nat.add_assoc] using hnext
      · exact hnodup
      · rw [hpc] at hanswers
        simpa [SecondaryPc.pending, State.answer] using hanswers

theorem launch_inv (mp : MbufPool μ) : Inv (launch mp) := by
  constructor <;> simp [launch, State.seen, State.sent, SecondaryPc.pending]

theorem reachable_inv (h : (program mp).Reachable s) : Inv s := by
  refine h.invariant (launch_inv mp) ?_
  intro s l t _ hinv hstep
  cases l with
  | primary a => exact primaryMain_inv hinv hstep
  | secondary a => exact secondaryMain_inv hinv hstep

/-! ## When the roles are kept -/

/-- The primary has dequeued from queue 1 only, the secondary from queue 0
only. -/
def Separated (s : State μ) : Prop :=
  (∀ m ∈ s.reported, m.queueId = 1) ∧ ∀ m ∈ s.answered, m.queueId = 0

theorem Inv.roles_of_separated (h : Inv s) (hsep : Separated s) :
    Roles s := by
  have hrequest : ∀ m ∈ s.answered, m ∈ s.requests := by
    intro m hm
    have hsent := h.seen_sent m (List.mem_append_right _ hm)
    obtain hmem | hmem := List.mem_append.mp hsent
    · exact hmem
    · have hqueue := h.answer_queue m hmem
      rw [hsep.2 m hm] at hqueue
      exact absurd hqueue (by decide)
  have hreply : ∀ m ∈ s.reported, m ∈ s.answers := by
    intro m hm
    have hsent := h.seen_sent m
      (List.mem_append_left _ (List.mem_append_right _ hm))
    obtain hmem | hmem := List.mem_append.mp hsent
    · have hqueue := h.request_queue m hmem
      rw [hsep.1 m hm] at hqueue
      exact absurd hqueue (by decide)
    · exact hmem
  constructor
  · intro m hm
    refine ⟨hreply m hm, ?_⟩
    have hnumber : m.inReplyTo ∈
        s.answered.map fun m => some m.number := by
      rw [← h.answers_eq]
      exact List.mem_append_left _ (List.mem_map_of_mem (hreply m hm))
    obtain ⟨r, hr, hequal⟩ := List.mem_map.mp hnumber
    exact ⟨r, hrequest r hr, hequal.symm⟩
  · intro m hm
    exact ⟨hrequest m hm, hsep.2 m hm⟩
  · have hanswered : (s.answered.map Message.number).Nodup := by
      have hnodup := h.seen_nodup
      rw [State.seen, List.map_append] at hnodup
      exact (List.nodup_append.mp hnodup).2.1
    have hsome : (s.answered.map fun m => some m.number).Nodup := by
      have hmap := hanswered.map (Option.some_injective ℕ)
      rwa [List.map_map] at hmap
    rw [← h.answers_eq] at hsome
    exact (List.nodup_append.mp hsome).1

theorem Inv.roles_iff_separated (h : Inv s) : Roles s ↔ Separated s := by
  constructor
  · intro hroles
    constructor
    · intro m hm
      exact h.answer_queue m (hroles.reported_reply m hm).1
    · intro m hm
      exact (hroles.answered_request m hm).2
  · exact h.roles_of_separated

theorem primaryMain_separated {a : Answer}
    (hstep : primaryMain a s = some t) :
    Separated t ↔ Separated s ∧ FromPartner s (.primary a) := by
  rw [FromPartner]
  cases hpc : s.primary with
  | alloc =>
      obtain ⟨-, rfl⟩ | ⟨mbuf, pool, -, rfl⟩ :=
        primaryMain_of_alloc hpc hstep
      · simp
      · simp [Separated]
  | enqueue mbuf =>
      obtain rfl := primaryMain_of_enqueue hpc hstep
      simp [Separated]
  | dequeue =>
      obtain ⟨hchoice, rfl⟩ | ⟨rev, stored, hchosen, -, rfl⟩ :=
        primaryMain_of_dequeue hpc hstep
      · simp [Separated, chosenEvent, hchoice]
      · simp only [Separated, hchosen, List.forall_mem_append,
          List.forall_mem_singleton, true_implies, Option.some.injEq,
          forall_eq']
        exact and_right_comm
  | free rev =>
      obtain rfl := primaryMain_of_free hpc hstep
      simp [Separated]

theorem secondaryMain_separated {a : Answer}
    (hstep : secondaryMain a s = some t) :
    Separated t ↔ Separated s ∧ FromPartner s (.secondary a) := by
  rw [FromPartner]
  cases hpc : s.secondary with
  | dequeue =>
      obtain ⟨hchoice, rfl⟩ | ⟨ev, stored, hchosen, -, rfl⟩ :=
        secondaryMain_of_dequeue hpc hstep
      · simp [chosenEvent, hchoice]
      · simp only [Separated, hchosen, List.forall_mem_append,
          List.forall_mem_singleton, true_implies, Option.some.injEq,
          forall_eq']
        exact and_assoc.symm
  | enqueue ev =>
      obtain rfl := secondaryMain_of_enqueue hpc hstep
      simp [Separated]

theorem step_separated {l : Label} (hstep : step s l = some t) :
    Separated t ↔ Separated s ∧ FromPartner s l := by
  cases l with
  | primary a => exact primaryMain_separated hstep
  | secondary a => exact secondaryMain_separated hstep

/-- For every interleaving and every choice of the device: the roles are kept
if and only if the device has delivered replies only on port 0 and requests
only on port 1. -/
theorem roles_iff {ls : List Label}
    (h : (program mp).exec (launch mp) ls = some s) :
    Roles s ↔ (program mp).MeetsAlong FromPartner (launch mp) ls := by
  rw [(reachable_inv ⟨ls, h⟩).roles_iff_separated]
  symm
  apply TransitionSystem.meetsAlong_iff_kept (G := Separated) _
    TransitionSystem.reachable_start ⟨by simp [program, launch],
      by simp [program, launch]⟩ h
  intro s l t _ hstep
  exact step_separated hstep

/-- A pool of numbered mbufs. -/
def numberedPool : MbufPool ℕ where
  mbufs := List.range' 0 numMbufs
  length_eq := List.length_range'
  nodup := List.nodup_range'

/-- The place of the mbuf or the event that is handed out. -/
def Answer.place (k : ℕ) : Answer := ⟨some k, true⟩

/-- Nothing is handed out, and an event is accepted. -/
def Answer.accepting : Answer := ⟨none, true⟩

/-- Nothing is handed out, and an event is refused. -/
def Answer.refusing : Answer := ⟨none, false⟩

/-- A request is answered, and the reply is freed. -/
def answeredRun : List Label :=
  [.primary (.place 0), .primary .accepting, .secondary (.place 0),
    .secondary .accepting, .primary (.place 0), .primary .accepting]

theorem roles_iff_answeredRun :
    ∃ s, (program numberedPool).exec (launch numberedPool) answeredRun =
        some s ∧ s.reported.length = 1 ∧ Roles s := by
  have hend : ∃ s, (program numberedPool).exec (launch numberedPool)
      answeredRun = some s ∧ s.reported.length = 1 := ⟨_, rfl, rfl⟩
  obtain ⟨s, hexec, hreported⟩ := hend
  refine ⟨s, hexec, hreported, (roles_iff hexec).mpr ?_⟩
  refine (TransitionSystem.meetsAlong_cons rfl).mpr ⟨(fun h => nomatch h), ?_⟩
  refine (TransitionSystem.meetsAlong_cons rfl).mpr ⟨(fun h => nomatch h), ?_⟩
  refine (TransitionSystem.meetsAlong_cons rfl).mpr ⟨?_, ?_⟩
  · rintro - m ⟨⟩
    rfl
  refine (TransitionSystem.meetsAlong_cons rfl).mpr ⟨(fun h => nomatch h), ?_⟩
  refine (TransitionSystem.meetsAlong_cons rfl).mpr ⟨?_, ?_⟩
  · rintro - m ⟨⟩
    rfl
  refine (TransitionSystem.meetsAlong_cons rfl).mpr ⟨(fun h => nomatch h), ?_⟩
  trivial

/-- The primary dequeues its own request. -/
theorem ownRequest_not_roles :
    ¬∀ s, (program numberedPool).Reachable s → Roles s := by
  intro hall
  have hend : ∃ s, (program numberedPool).exec (launch numberedPool)
      [.primary (.place 0), .primary .accepting, .primary (.place 0)] =
        some s ∧ s.reported.length = 1 ∧ s.answers = [] :=
    ⟨_, rfl, rfl, rfl⟩
  obtain ⟨s, hexec, hreported, hanswers⟩ := hend
  obtain ⟨m, hm⟩ := List.length_eq_one_iff.mp hreported
  have hreply := ((hall s ⟨_, hexec⟩).reported_reply m (by simp [hm])).1
  rw [hanswers] at hreply
  exact absurd hreply List.not_mem_nil

end IpcEventdev
end DpdkFolder
