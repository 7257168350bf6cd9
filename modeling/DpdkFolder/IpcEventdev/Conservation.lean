import DpdkFolder.IpcEventdev.Roles
import DpdkFolder.Support.Custody

/-!
# Who owns an mbuf in ipc_eventdev

Neither process looks at the result of its enqueue, so the mbuf of a refused
event is owned by nobody.  But the pool can also run dry while all mbufs are
accounted for: the primary allocates an mbuf in each round before it looks
for an event, so it never frees one again once it comes back to an empty pool
with empty hands.
-/

namespace DpdkFolder
namespace IpcEventdev

variable {μ : Type*} {mp : MbufPool μ} {s t : State μ}

/-- The mbuf in the hand of the primary. -/
def PrimaryPc.mbufs : PrimaryPc μ → List μ
  | .alloc => []
  | .enqueue mbuf => [mbuf]
  | .dequeue => []
  | .free rev => [rev.mbuf]

/-- The mbuf in the hand of the secondary. -/
def SecondaryPc.mbufs : SecondaryPc μ → List μ
  | .dequeue => []
  | .enqueue ev => [ev.mbuf]

/-- The mbufs in use: in a hand or in an event held by the device. -/
def State.inUse (s : State μ) : List μ :=
  s.primary.mbufs ++ s.stored.map Message.mbuf ++ s.secondary.mbufs

/-- Each allocated mbuf is in use or has been freed, once, and each mbuf of
the pool is free or in use. -/
structure Conserved (mp : MbufPool μ) (s : State μ) : Prop where
  allocated_perm : s.allocated.Perm (s.inUse ++ s.freed)
  pool_perm : mp.mbufs.Perm (s.pool ++ s.inUse)

/-- However the processes and the device go on, no mbuf comes back to the
pool. -/
def Drained (mp : MbufPool μ) (s : State μ) : Prop :=
  ∀ ls t, (program mp).exec s ls = some t → t.pool = []

/-- The condition on a step: the device accepts the event of an enqueue. -/
def AcceptsAll (s : State μ) : Label → Prop
  | .primary a => ∀ mbuf, s.primary = .enqueue mbuf → a.accepted = true
  | .secondary a => ∀ ev, s.secondary = .enqueue ev → a.accepted = true

/-- The condition on a step: the primary gets an event when it polls for one
while the pool is empty. -/
def RefillsPool (s : State μ) : Label → Prop
  | .primary a => s.primary = .dequeue → s.pool = [] → a.choice ≠ none
  | .secondary _ => True

/-- What holds in every state: only refused mbufs are missing. -/
structure Balanced (mp : MbufPool μ) (s : State μ) : Prop where
  allocated_perm : s.allocated.Perm (s.inUse ++ s.freed ++ s.refused)
  pool_perm : mp.mbufs.Perm (s.pool ++ s.inUse ++ s.refused)

/-! ## Effect of one step -/

theorem balanced_iff_count [DecidableEq μ] : Balanced mp s ↔ ∀ m,
    s.allocated.count m = (s.inUse ++ s.freed ++ s.refused).count m ∧
      mp.mbufs.count m = (s.pool ++ s.inUse ++ s.refused).count m := by
  constructor
  · rintro ⟨hallocated, hpool⟩ m
    exact ⟨hallocated.count_eq m, hpool.count_eq m⟩
  · intro hcount
    constructor
    · exact List.perm_iff_count.mpr fun m => (hcount m).1
    · exact List.perm_iff_count.mpr fun m => (hcount m).2

theorem primaryMain_balanced {a : Answer} (h : Balanced mp s)
    (hstep : primaryMain a s = some t) : Balanced mp t := by
  classical
  rw [balanced_iff_count] at h ⊢
  intro m
  obtain ⟨hallocatedAt, hpoolAt⟩ := h m
  cases hpc : s.primary with
  | alloc =>
      obtain ⟨-, rfl⟩ | ⟨mbuf, pool, hperm, rfl⟩ :=
        primaryMain_of_alloc hpc hstep
      · exact ⟨hallocatedAt, hpoolAt⟩
      · have htaken := hperm.count_eq m
        simp only [State.inUse, hpc, PrimaryPc.mbufs, List.count_append,
          List.count_cons, List.count_nil] at *
        omega
  | enqueue mbuf =>
      obtain rfl := primaryMain_of_enqueue hpc hstep
      cases a.accepted with
      | true =>
          simp only [State.inUse, hpc, PrimaryPc.mbufs, if_true,
            State.request, Message.mbuf, List.map_append, List.map_cons,
            List.map_nil, List.count_append, List.count_cons,
            List.count_nil] at *
          omega
      | false =>
          simp only [State.inUse, hpc, PrimaryPc.mbufs, Bool.false_eq_true,
            if_false, List.count_append, List.count_cons,
            List.count_nil] at *
          omega
  | dequeue =>
      obtain ⟨-, rfl⟩ | ⟨rev, stored, -, hperm, rfl⟩ :=
        primaryMain_of_dequeue hpc hstep
      · simp only [State.inUse, hpc, PrimaryPc.mbufs] at *
        exact ⟨hallocatedAt, hpoolAt⟩
      · have htaken := (hperm.map Message.mbuf).count_eq m
        simp only [State.inUse, hpc, PrimaryPc.mbufs, List.map_cons,
          List.count_append, List.count_cons, List.count_nil] at *
        omega
  | free rev =>
      obtain rfl := primaryMain_of_free hpc hstep
      simp only [State.inUse, hpc, PrimaryPc.mbufs, List.count_append,
        List.count_cons, List.count_nil] at *
      omega

theorem secondaryMain_balanced {a : Answer} (h : Balanced mp s)
    (hstep : secondaryMain a s = some t) : Balanced mp t := by
  classical
  rw [balanced_iff_count] at h ⊢
  intro m
  obtain ⟨hallocatedAt, hpoolAt⟩ := h m
  cases hpc : s.secondary with
  | dequeue =>
      obtain ⟨-, rfl⟩ | ⟨ev, stored, -, hperm, rfl⟩ :=
        secondaryMain_of_dequeue hpc hstep
      · exact ⟨hallocatedAt, hpoolAt⟩
      · have htaken := (hperm.map Message.mbuf).count_eq m
        simp only [State.inUse, hpc, SecondaryPc.mbufs, List.map_cons,
          List.count_append, List.count_cons, List.count_nil] at *
        omega
  | enqueue ev =>
      obtain rfl := secondaryMain_of_enqueue hpc hstep
      cases a.accepted with
      | true =>
          have hsame : (s.answer ev).mbuf = ev.mbuf := rfl
          simp only [State.inUse, hpc, SecondaryPc.mbufs, if_true, hsame,
            List.map_append, List.map_cons, List.map_nil, List.count_append,
            List.count_cons, List.count_nil] at *
          omega
      | false =>
          simp only [State.inUse, hpc, SecondaryPc.mbufs,
            Bool.false_eq_true, if_false, List.count_append,
            List.count_cons, List.count_nil] at *
          omega

theorem launch_balanced (mp : MbufPool μ) : Balanced mp (launch mp) where
  allocated_perm := List.Perm.refl _
  pool_perm := by
    simp [launch, State.inUse, PrimaryPc.mbufs, SecondaryPc.mbufs]

theorem reachable_balanced (h : (program mp).Reachable s) :
    Balanced mp s := by
  refine h.invariant (launch_balanced mp) ?_
  intro s l t _ hbalanced hstep
  cases l with
  | primary a => exact primaryMain_balanced hbalanced hstep
  | secondary a => exact secondaryMain_balanced hbalanced hstep

theorem step_refused {l : Label} (hstep : step s l = some t) :
    t.refused = [] ↔ s.refused = [] ∧ AcceptsAll s l := by
  cases l with
  | primary a =>
      rw [AcceptsAll]
      cases hpc : s.primary with
      | alloc =>
          obtain ⟨-, rfl⟩ | ⟨mbuf, pool, -, rfl⟩ :=
            primaryMain_of_alloc hpc hstep
          · simp
          · simp
      | enqueue mbuf =>
          obtain rfl := primaryMain_of_enqueue hpc hstep
          cases a.accepted <;> simp
      | dequeue =>
          obtain ⟨-, rfl⟩ | ⟨rev, stored, -, -, rfl⟩ :=
            primaryMain_of_dequeue hpc hstep
          · simp
          · simp
      | free rev =>
          obtain rfl := primaryMain_of_free hpc hstep
          simp
  | secondary a =>
      rw [AcceptsAll]
      cases hpc : s.secondary with
      | dequeue =>
          obtain ⟨-, rfl⟩ | ⟨ev, stored, -, -, rfl⟩ :=
            secondaryMain_of_dequeue hpc hstep
          · simp
          · simp
      | enqueue ev =>
          obtain rfl := secondaryMain_of_enqueue hpc hstep
          cases a.accepted <;> simp

theorem Balanced.conserved_iff_refused (h : Balanced mp s) :
    Conserved mp s ↔ s.refused = [] := by
  constructor
  · intro hconserved
    exact h.allocated_perm.perm_iff_eq_nil.mp hconserved.allocated_perm
  · intro hnone
    exact ⟨h.allocated_perm.perm_iff_eq_nil.mpr hnone,
      h.pool_perm.perm_iff_eq_nil.mpr hnone⟩

/-! ## The pool -/

/-- The primary is about to allocate from an empty pool. -/
def Stalled (s : State μ) : Prop := s.primary = .alloc ∧ s.pool = []

/-- Nobody gets the primary out of that. -/
theorem Stalled.step {l : Label} (h : Stalled s)
    (hstep : step s l = some t) : Stalled t := by
  obtain ⟨hpc, hpool⟩ := h
  cases l with
  | primary a =>
      obtain ⟨-, rfl⟩ | ⟨mbuf, pool, hperm, -⟩ :=
        primaryMain_of_alloc hpc hstep
      · exact ⟨hpc, hpool⟩
      · rw [hpool] at hperm
        exact absurd hperm.length_eq (by simp)
  | secondary a =>
      cases hsec : s.secondary with
      | dequeue =>
          obtain ⟨-, rfl⟩ | ⟨ev, stored, -, -, rfl⟩ :=
            secondaryMain_of_dequeue hsec hstep
          · exact ⟨hpc, hpool⟩
          · exact ⟨hpc, hpool⟩
      | enqueue ev =>
          obtain rfl := secondaryMain_of_enqueue hsec hstep
          exact ⟨hpc, hpool⟩

theorem Stalled.drained (h : Stalled s) : Drained mp s := by
  intro ls t hexec
  have hstalled : Stalled t := by
    refine TransitionSystem.exec_invariant (P := Stalled) ?_ h hexec
    intro s l t hs hstep
    exact hs.step hstep
  exact hstalled.2

/-- If some step leads to a state from which the pool can be refilled, the
pool was not drained before. -/
theorem Drained.step {l : Label} (h : Drained mp s)
    (hstep : step s l = some t) : Drained mp t := by
  intro ls u hexec
  exact h (l :: ls) u
    (TransitionSystem.exec_trans (TransitionSystem.exec_singleton hstep)
      hexec)

theorem Drained.pool_eq_nil (h : Drained mp s) : s.pool = [] := h [] s rfl

theorem not_drained_of_free {rev : Message μ} (hpc : s.primary = .free rev) :
    ¬Drained mp s := by
  intro hdrained
  have hstep : step s (.primary .accepting) =
      some { s with
        pool := s.pool ++ [rev.mbuf]
        primary := .alloc
        freed := s.freed ++ [rev.mbuf] } := by
    rw [IpcEventdev.step, primaryMain, hpc]
  exact absurd (hdrained.step hstep).pool_eq_nil (by simp)

/-- Whatever the device holds can be delivered to the primary. -/
theorem Inv.not_drained_of_stored (h : Inv s) (hpc : s.primary = .dequeue)
    (hstored : s.stored ≠ []) : ¬Drained mp s := by
  obtain ⟨rev, rest, hcons⟩ := List.exists_cons_of_ne_nil hstored
  have hlinked : rev.queueId ∈ links 0 := by
    have hsent := h.seen_sent rev (by simp [State.seen, hcons])
    obtain hmem | hmem := List.mem_append.mp hsent
    · simp [links, h.request_queue rev hmem]
    · simp [links, h.answer_queue rev hmem]
  have hstep : step s (.primary (.place 0)) =
      some { s with
        stored := rest
        primary := .free rev
        reported := s.reported ++ [rev] } := by
    simp [IpcEventdev.step, primaryMain, hpc, rteEventDequeueBurst,
      Answer.place, hcons, hlinked]
  intro hdrained
  exact not_drained_of_free rfl (hdrained.step hstep)

/-- The secondary brings what it holds back to the device. -/
theorem Inv.not_drained_of_secondary (h : Inv s) {ev : Message μ}
    (hpc : s.primary = .dequeue) (hsec : s.secondary = .enqueue ev) :
    ¬Drained mp s := by
  obtain ⟨t, hstep⟩ : ∃ t, step s (.secondary .accepting) = some t :=
    ⟨_, by rw [IpcEventdev.step, secondaryMain, hsec]⟩
  have ht := secondaryMain_of_enqueue hsec hstep
  intro hdrained
  refine (secondaryMain_inv h hstep).not_drained_of_stored ?_ ?_
    (hdrained.step hstep)
  · rw [ht]
    exact hpc
  · simp [ht, Answer.accepting]

/-- As long as no mbuf is missing, only a stalled primary drains the pool. -/
theorem Inv.not_drained (h : Inv s) (hconserved : Conserved mp s)
    (hgo : ¬Stalled s) : ¬Drained mp s := by
  intro hdrained
  have hpool := hdrained.pool_eq_nil
  cases hpc : s.primary with
  | alloc => exact hgo ⟨hpc, hpool⟩
  | enqueue mbuf =>
      obtain ⟨t, hstep⟩ : ∃ t, step s (.primary .accepting) = some t :=
        ⟨_, by rw [IpcEventdev.step, primaryMain, hpc]⟩
      have ht := primaryMain_of_enqueue hpc hstep
      refine (primaryMain_inv h hstep).not_drained_of_stored ?_ ?_
        (hdrained.step hstep)
      · rw [ht]
      · simp [ht, Answer.accepting]
  | dequeue =>
      by_cases hstored : s.stored = []
      · have hlength := hconserved.pool_perm.length_eq
        simp only [mp.length_eq, hpool, State.inUse, hpc, PrimaryPc.mbufs,
          hstored, List.map_nil, List.nil_append] at hlength
        cases hsec : s.secondary with
        | dequeue =>
            simp [hsec, SecondaryPc.mbufs, numMbufs] at hlength
        | enqueue ev => exact h.not_drained_of_secondary hpc hsec hdrained
      · exact h.not_drained_of_stored hpc hstored hdrained
  | free rev => exact not_drained_of_free hpc hdrained

/-- What it takes that the pool is not drained, step by step. -/
theorem step_stalled {l : Label} (hgo : ¬Stalled s)
    (hstep : step s l = some t) : ¬Stalled t ↔ RefillsPool s l := by
  cases l with
  | primary a =>
      rw [RefillsPool]
      cases hpc : s.primary with
      | alloc =>
          obtain ⟨-, rfl⟩ | ⟨mbuf, pool, -, rfl⟩ :=
            primaryMain_of_alloc hpc hstep
          · simp [hgo]
          · simp [Stalled]
      | enqueue mbuf =>
          obtain rfl := primaryMain_of_enqueue hpc hstep
          simp [Stalled]
      | dequeue =>
          obtain ⟨hchoice, rfl⟩ | ⟨rev, stored, hchosen, -, rfl⟩ :=
            primaryMain_of_dequeue hpc hstep
          · simp [Stalled, hchoice]
          · simp [Stalled, ne_none_of_chosenEvent hchosen]
      | free rev =>
          obtain rfl := primaryMain_of_free hpc hstep
          simp [Stalled]
  | secondary a =>
      rw [RefillsPool, iff_true]
      cases hsec : s.secondary with
      | dequeue =>
          obtain ⟨-, rfl⟩ | ⟨ev, stored, -, -, rfl⟩ :=
            secondaryMain_of_dequeue hsec hstep
          · exact hgo
          · exact hgo
      | enqueue ev =>
          obtain rfl := secondaryMain_of_enqueue hsec hstep
          exact hgo

/-! ## When the mbufs are conserved -/

theorem conserved_and_not_drained_iff (h : (program mp).Reachable s) :
    Conserved mp s ∧ ¬Drained mp s ↔ s.refused = [] ∧ ¬Stalled s := by
  rw [← (reachable_balanced h).conserved_iff_refused]
  constructor
  · rintro ⟨hconserved, hdrained⟩
    exact ⟨hconserved, fun hstalled => hdrained hstalled.drained⟩
  · rintro ⟨hconserved, hgo⟩
    exact ⟨hconserved, (reachable_inv h).not_drained hconserved hgo⟩

/-- For every interleaving and every success or failure of the enqueues: each
mbuf is in exactly one place if and only if the device has accepted every
event; and the pool is not drained either if and only if, in addition, the
primary never came back to an empty pool with empty hands. -/
theorem allocated_conserved_iff {ls : List Label}
    (h : (program mp).exec (launch mp) ls = some s) :
    (Conserved mp s ↔ (program mp).MeetsAlong AcceptsAll (launch mp) ls) ∧
      (Conserved mp s ∧ ¬Drained mp s ↔
        (program mp).MeetsAlong
          (fun s l => AcceptsAll s l ∧ RefillsPool s l) (launch mp) ls) := by
  have hreach : (program mp).Reachable s := ⟨ls, h⟩
  rw [conserved_and_not_drained_iff hreach,
    (reachable_balanced hreach).conserved_iff_refused]
  constructor
  · symm
    apply TransitionSystem.meetsAlong_iff_kept
      (G := fun s : State μ => s.refused = []) _
      TransitionSystem.reachable_start rfl h
    intro s l t _ hstep
    exact step_refused hstep
  · symm
    have hlaunch : ¬Stalled (launch mp) := by
      rintro ⟨-, hpool⟩
      have hlength := mp.length_eq
      rw [show mp.mbufs = [] from hpool] at hlength
      exact nomatch hlength
    apply TransitionSystem.meetsAlong_iff_good
      (G := fun s : State μ => s.refused = [] ∧ ¬Stalled s) _ _
      TransitionSystem.reachable_start ⟨rfl, hlaunch⟩ h
    · rintro s l t - ⟨hnone, hgo⟩ hstep
      rw [step_refused hstep, step_stalled hgo hstep]
      simp [hnone]
    · rintro s l t - hstep ⟨hnone, hgo⟩
      refine ⟨((step_refused hstep).mp hnone).1, ?_⟩
      intro hstalled
      exact hgo (hstalled.step hstep)

theorem allocated_conserved_iff_answeredRun :
    ∃ s, (program numberedPool).exec (launch numberedPool) answeredRun =
        some s ∧ s.freed = [0] ∧ Conserved numberedPool s ∧
      ¬Drained numberedPool s := by
  have hend : ∃ s, (program numberedPool).exec (launch numberedPool)
      answeredRun = some s ∧ s.freed = [0] := ⟨_, rfl, rfl⟩
  obtain ⟨s, hexec, hfreed⟩ := hend
  refine ⟨s, hexec, hfreed, (allocated_conserved_iff hexec).2.mpr ?_⟩
  refine (TransitionSystem.meetsAlong_cons rfl).mpr
    ⟨⟨fun _ _ => rfl, (fun h => nomatch h)⟩, ?_⟩
  refine (TransitionSystem.meetsAlong_cons rfl).mpr
    ⟨⟨fun _ _ => rfl, (fun h => nomatch h)⟩, ?_⟩
  refine (TransitionSystem.meetsAlong_cons rfl).mpr
    ⟨⟨fun _ _ => rfl, trivial⟩, ?_⟩
  refine (TransitionSystem.meetsAlong_cons rfl).mpr
    ⟨⟨fun _ _ => rfl, trivial⟩, ?_⟩
  refine (TransitionSystem.meetsAlong_cons rfl).mpr
    ⟨⟨fun _ _ => rfl, (fun _ _ h => nomatch h)⟩, ?_⟩
  refine (TransitionSystem.meetsAlong_cons rfl).mpr
    ⟨⟨fun _ _ => rfl, (fun h => nomatch h)⟩, trivial⟩

/-- The mbuf of a refused request is in no place. -/
theorem refusedRequest_not_conserved :
    ¬∀ s, (program numberedPool).Reachable s →
      Conserved numberedPool s ∧ ¬Drained numberedPool s := by
  intro hall
  have hend : ∃ s, (program numberedPool).exec (launch numberedPool)
      [.primary (.place 0), .primary .refusing] = some s ∧
      s.allocated = [0] ∧ s.inUse = [] ∧ s.freed = [] :=
    ⟨_, rfl, rfl, rfl, rfl⟩
  obtain ⟨s, hexec, hallocated, hinUse, hfreed⟩ := hend
  have hlength := (hall s ⟨_, hexec⟩).1.allocated_perm.length_eq
  rw [hallocated, hinUse, hfreed] at hlength
  exact absurd hlength (by decide)

end IpcEventdev
end DpdkFolder
