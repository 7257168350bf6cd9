import DpdkFolder.FullDuplex2Rings.HandOver
import DpdkFolder.Support.Fairness

/-!
# The exchange ends

Both processes spin on rings, so that the exchange ends depends on both of
them being scheduled again and again, and on nothing else.  A spinning
process leaves the state as it is; every other step lowers `rank`, in which a
message in `ring1` weighs as much as the secondary's work on it.  While one
process spins, the place of the baton shows that the other does not.
-/

namespace DpdkFolder
namespace FullDuplex2Rings

/-- Both processes have left their loops. -/
def Finished (s : State) : Prop := s.prim = .returned ∧ s.sec = .returned

/-- How many steps the primary has before it, without those on which it
spins. -/
def PrimPc.remaining (rounds : ℕ) : PrimPc → ℕ
  | .loopHead i => 6 * (rounds - i) + 2
  | .enqueue i _ => 6 * (rounds - i) + 1
  | .printSent i _ => 6 * (rounds - i)
  | .dequeue i _ => 6 * (rounds - i) - 1
  | .printGot i _ _ => 6 * (rounds - i) - 2
  | .freeReceived i _ => 6 * (rounds - i) - 3
  | .enqueueStop _ => 1
  | .returned => 0

/-- The secondary's work on the message it has taken. -/
def SecPc.remaining : SecPc → ℕ
  | .dequeue => 1
  | .testStop _ => 9
  | .freeStop _ => 1
  | .printReceived _ => 8
  | .computeRes _ => 7
  | .freeVal _ _ => 6
  | .mallocReply _ => 5
  | .enqueue _ => 4
  | .printSent _ => 2
  | .returned => 0

/-- What is left to be done by both processes. -/
def State.rank (rounds : ℕ) (s : State) : ℕ :=
  10 * s.prim.remaining rounds + 9 * s.ring1.toList.length + s.sec.remaining

/-- The primary can do nothing but wait for the secondary. -/
def State.PrimWaits (s : State) : Prop :=
  s.prim = .returned ∨
    ((∃ i msg, s.prim = .dequeue i msg) ∧ s.ring2.toList = [])

/-- The secondary can do nothing but wait for the primary. -/
def State.SecWaits (s : State) : Prop :=
  s.sec = .returned ∨ (s.sec = .dequeue ∧ s.ring1.toList = [])

/-- The two processes never wait for each other, unless both have returned. -/
theorem Carries.finished_of_waits {rounds : ℕ} {s : State} {b : Baton}
    (h : Carries rounds s b) (hprim : s.PrimWaits) (hsec : s.SecWaits) :
    Finished s := by
  have hprimAt := h.prim
  have hsecAt := h.sec
  have hring1 := h.ring1
  have hring2 := h.ring2
  rcases hprim with hprim | ⟨⟨i, msg, hprim⟩, hnone⟩
  · refine ⟨hprim, ?_⟩
    rw [hprim] at hprimAt
    rcases hsec with hsec | ⟨hsec, hnone⟩
    · exact hsec
    · rw [hsec] at hsecAt
      rw [hnone] at hring1
      cases b <;>
        simp [Baton.PrimAt, Baton.SecAt, Baton.ring1]
          at hprimAt hsecAt hring1
  · rw [hprim] at hprimAt
    rw [hnone] at hring2
    rcases hsec with hsec | ⟨hsec, hnone⟩
    · rw [hsec] at hsecAt
      rcases b with i | i | ⟨i, leg⟩ | i | _ | _ | _ | _
      case out =>
        cases leg <;> simp [Baton.SecAt, SecPc.Waiting] at hsecAt
      all_goals simp [Baton.PrimAt] at hprimAt
    · rw [hsec] at hsecAt
      rw [hnone] at hring1
      rcases b with i | i | ⟨i, leg⟩ | i | _ | _ | _ | _
      case out =>
        cases leg <;>
          simp [Baton.SecAt, Baton.ring1, Baton.ring2]
            at hsecAt hring1 hring2
      all_goals simp [Baton.PrimAt] at hprimAt

theorem rteRingEnqueue_of_length {r : RteRing ℕ ringSize}
    (h : r.toList.length ≤ 1) (obj : ℕ) :
    (rteRingEnqueue r obj).1 = 0 ∧
      (rteRingEnqueue r obj).2.toList = r.toList ++ [obj] := by
  have hfree : 0 < r.free := by
    simp only [BoundedFifo.free, ringSize]
    omega
  have hfits : r.toList.length + [obj].length ≤ ringSize - 1 := by
    simp only [List.length_singleton, ringSize]
    omega
  rw [rteRingEnqueue, if_pos hfree]
  exact ⟨rfl, BoundedFifo.toList_insertBurst_of_le hfits⟩

theorem Carries.rings_le {rounds : ℕ} {s : State} {b : Baton}
    (h : Carries rounds s b) :
    s.ring1.toList.length ≤ 1 ∧ s.ring2.toList.length ≤ 1 := by
  rw [h.ring1, h.ring2]
  rcases b with i | i | ⟨i, leg⟩ | i | _ | _ | _ | _
  case out => cases leg <;> simp [Baton.ring1, Baton.ring2]
  all_goals simp [Baton.ring1, Baton.ring2]

theorem Carries.round_lt {rounds : ℕ} {s : State} {b : Baton} {i msg : ℕ}
    (h : Carries rounds s b) (hpc : s.prim = .dequeue i msg) :
    i < rounds := by
  have hprim := h.prim
  rw [hpc] at hprim
  cases b <;> simp [Baton.PrimAt] at hprim
  exact hprim.1.1 ▸ hprim.2

/-- A step of the primary lowers the rank or is one on which it spins. -/
theorem primStep_rank {rounds : ℕ} {s t : State} {b : Baton}
    (h : Carries rounds s b) (hstep : primStep rounds s = some t) :
    t.rank rounds < s.rank rounds ∨ (t = s ∧ s.PrimWaits) := by
  have hlen := h.rings_le
  cases hpc : s.prim with
  | loopHead i =>
      simp only [primStep, hpc] at hstep
      left
      split at hstep
      · cases hstep
        simp only [State.rank, hpc, PrimPc.remaining]
        omega
      · cases hstep
        simp only [State.rank, hpc, PrimPc.remaining]
        omega
  | enqueue i msg =>
      obtain ⟨hok, hring⟩ := rteRingEnqueue_of_length hlen.1 msg
      simp only [primStep, hpc, hok, ne_eq, not_true_eq_false, if_false,
        Option.some.injEq] at hstep
      subst hstep
      left
      simp only [State.rank, hpc, PrimPc.remaining, hring,
        List.length_append, List.length_singleton]
      omega
  | printSent i msg =>
      have hi := h.printSent hpc
      simp only [primStep, hpc, Option.some.injEq] at hstep
      subst hstep
      left
      simp only [State.rank, State.deref, hpc, PrimPc.remaining]
      omega
  | dequeue i msg =>
      have hi := h.round_lt hpc
      cases hring : s.ring2.toList with
      | nil =>
          simp only [primStep, hpc, rteRingDequeue_of_nil hring,
            Option.some.injEq] at hstep
          exact Or.inr ⟨hstep.symm, Or.inr ⟨⟨i, msg, hpc⟩, hring⟩⟩
      | cons reply rest =>
          simp only [primStep, hpc, rteRingDequeue, hring,
            Option.some.injEq] at hstep
          subst hstep
          left
          simp only [State.rank, hpc, PrimPc.remaining]
          omega
  | printGot i msg received =>
      have hi := (h.printGot hpc).1
      simp only [primStep, hpc, Option.some.injEq] at hstep
      subst hstep
      left
      simp only [State.rank, State.deref, hpc, PrimPc.remaining]
      omega
  | freeReceived i received =>
      have hi : i < rounds := by
        have hprim := h.prim
        rw [hpc] at hprim
        cases b <;> simp [Baton.PrimAt] at hprim
        exact hprim.1.1 ▸ hprim.2
      simp only [primStep, hpc, Option.some.injEq] at hstep
      subst hstep
      left
      simp only [State.rank, hpc, PrimPc.remaining]
      omega
  | enqueueStop stop =>
      obtain ⟨-, hring⟩ := rteRingEnqueue_of_length hlen.1 stop
      simp only [primStep, hpc, Option.some.injEq] at hstep
      subst hstep
      left
      simp only [State.rank, hpc, PrimPc.remaining, hring,
        List.length_append, List.length_singleton]
      omega
  | returned => simp [primStep, hpc] at hstep

/-- A step of the secondary lowers the rank or is one on which it spins. -/
theorem secStep_rank {rounds : ℕ} {s t : State} {b : Baton}
    (h : Carries rounds s b) (hstep : secStep s = some t) :
    t.rank rounds < s.rank rounds ∨ (t = s ∧ s.SecWaits) := by
  have hlen := h.rings_le
  cases hpc : s.sec with
  | dequeue =>
      cases hring : s.ring1.toList with
      | nil =>
          simp only [secStep, hpc, rteRingDequeue_of_nil hring,
            Option.some.injEq] at hstep
          exact Or.inr ⟨hstep.symm, Or.inr ⟨hpc, hring⟩⟩
      | cons msg rest =>
          simp only [secStep, hpc, rteRingDequeue, hring,
            Option.some.injEq] at hstep
          subst hstep
          left
          simp only [State.rank, hpc, SecPc.remaining, hring,
            BoundedFifo.toList_removeBurst, List.drop_succ_cons,
            List.drop_zero, List.length_cons]
          omega
  | testStop val =>
      simp only [secStep, hpc, Option.some.injEq] at hstep
      subst hstep
      left
      simp only [State.rank, State.deref, hpc]
      split <;> simp only [SecPc.remaining] <;> omega
  | enqueue reply =>
      obtain ⟨hok, -⟩ := rteRingEnqueue_of_length hlen.2 reply
      simp only [secStep, hpc, hok, Int.lt_irrefl, if_false,
        Option.some.injEq] at hstep
      subst hstep
      left
      simp only [State.rank, hpc, SecPc.remaining]
      omega
  | returned => simp [secStep, hpc] at hstep
  | _ =>
      simp only [secStep, hpc, Option.some.injEq] at hstep
      subst hstep
      left
      simp only [State.rank, State.deref, hpc, SecPc.remaining]
      omega

open Classical in
/-- The process whose next step is not a spin. -/
noncomputable def State.helper (s : State) : Proc :=
  if s.PrimWaits then .secondary else .primary

theorem primStep_ne_none {rounds : ℕ} {s : State} (h : s.prim ≠ .returned) :
    primStep rounds s ≠ none := by
  unfold primStep
  cases hpc : s.prim with
  | returned => exact absurd hpc h
  | loopHead | enqueue | dequeue =>
      simp only
      split <;> exact Option.some_ne_none _
  | _ => exact Option.some_ne_none _

theorem secStep_ne_none {s : State} (h : s.sec ≠ .returned) :
    secStep s ≠ none := by
  unfold secStep
  cases hpc : s.sec with
  | returned => exact absurd hpc h
  | dequeue | enqueue =>
      simp only
      split <;> exact Option.some_ne_none _
  | _ => exact Option.some_ne_none _

/-- Whatever state the exchange is in, it ends if both processes keep
moving. -/
theorem leadsTo_finished (rounds : ℕ) :
    (exchange rounds).LeadsTo id (fun _ => True) Finished := by
  refine (TransitionSystem.leadsTo_of_imp fun s _ _ =>
    (em (Finished s)).symm).trans (TransitionSystem.LeadsTo.or ?_
      (TransitionSystem.leadsTo_of_imp fun s _ hs => hs))
  refine TransitionSystem.leadsTo_of_helper (State.rank rounds)
    State.helper ?_ ?_
  · rintro s p hreach hnot rfl
    obtain ⟨b, hb⟩ := reachable_carries hreach
    by_cases hwait : s.PrimWaits
    · have hhelper : s.helper = .secondary := if_pos hwait
      rw [hhelper]
      exact secStep_ne_none fun hsec =>
        hnot (hb.finished_of_waits hwait (Or.inl hsec))
    · have hhelper : s.helper = .primary := if_neg hwait
      rw [hhelper]
      exact primStep_ne_none fun hprim => hwait (Or.inl hprim)
  · intro s p t hreach hnot hstep
    obtain ⟨b, hb⟩ := reachable_carries hreach
    refine (em (Finished t)).imp_right fun ht => ⟨ht, ?_⟩
    cases p with
    | primary =>
        rcases primStep_rank hb hstep with hlt | ⟨rfl, hwait⟩
        · exact Or.inl hlt
        · have hhelper : t.helper = .secondary := if_pos hwait
          refine Or.inr ⟨rfl, rfl, ?_⟩
          rw [hhelper]
          decide
    | secondary =>
        rcases secStep_rank hb hstep with hlt | ⟨rfl, hwait⟩
        · exact Or.inl hlt
        · have hhelper : t.helper = .primary := if_neg fun hprim =>
            hnot (hb.finished_of_waits hprim hwait)
          refine Or.inr ⟨rfl, rfl, ?_⟩
          rw [hhelper]
          decide

theorem finished_stable {rounds : ℕ} {s t : State} {p : Proc}
    (h : Finished s) : (exchange rounds).step s p ≠ some t := by
  intro hstep
  cases p with
  | primary =>
      change primStep rounds s = some t at hstep
      simp [primStep, h.1] at hstep
  | secondary =>
      change secStep s = some t at hstep
      simp [secStep, h.2] at hstep

/-- The exchange is over: a value has been printed for every round, and of
the objects that were allocated each has been freed once. -/
structure Completed (rounds : ℕ) (s : State) : Prop where
  finished : Finished s
  got_length : s.got.length = rounds
  allocated : s.heap.next = 2 * rounds + 1
  freed_once : ∀ obj, (s.heap.freed.map Prod.snd).count obj =
    if obj < s.heap.next then 1 else 0

/-- For every number of rounds and every fair schedule there is a moment from
which on the exchange is over. -/
theorem exchange_terminates (rounds : ℕ) {sched : ℕ → Proc}
    (hfair : TransitionSystem.Fair id sched) :
    ∃ n, ∀ m, n ≤ m →
      Completed rounds ((exchange rounds).along sched m) := by
  obtain ⟨n, hn⟩ := (leadsTo_finished rounds).settles trivial
    (fun s p t _ hs hstep => absurd hstep (finished_stable hs)) hfair
  refine ⟨n, fun m hle => ?_⟩
  obtain ⟨hreach, hfinished⟩ := hn m hle
  obtain ⟨b, hb⟩ := reachable_carries hreach
  have hdone := hb.eq_done hfinished.1 hfinished.2
  subst hdone
  have hlen := (reachable_logged hreach).got_length
  rw [hfinished.1] at hlen
  refine ⟨hfinished, hlen, ?_, fun obj => ?_⟩
  · rw [hb.heap]
    rfl
  · rw [hb.heap]
    exact AllocHeap.count_freedInOrder freer (2 * rounds + 1) obj

/-- The two processes in turn. -/
def inTurn : ℕ → Proc :=
  TransitionSystem.roundRobin [.primary, .secondary] (by decide)

theorem exchange_terminates_inTurn :
    ∃ n, ∀ m, n ≤ m → Completed 10 ((exchange 10).along inTurn m) := by
  refine exchange_terminates 10 (TransitionSystem.fair_roundRobin _ ?_)
  intro p
  exact ⟨p, by cases p <;> decide, rfl⟩

end FullDuplex2Rings
end DpdkFolder
