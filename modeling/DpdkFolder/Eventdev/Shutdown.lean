import Mathlib.Data.Fintype.Fin
import DpdkFolder.Eventdev.Delivery

/-!
# Shutting the workers down

`main` waits for all workers after the last exit event.  It waits forever if
the device reaches a state in which a worker is still polling and no event
can get to any polling worker.  A run that has lost nothing is in no such
state, and if all workers have returned then they have processed all events;
a run that has lost something can be continued into a hang or a wrong sum.
-/

namespace DpdkFolder
namespace Eventdev

/-- Some continuation brings an event to a worker that is polling then. -/
def Deliverable (workerCount : ℕ) (s : State) : Prop :=
  ∃ as t p, (eventdev workerCount).exec s as = some t ∧
    Polling workerCount t p ∧ t.dev.port p ≠ []

/-- All events are enqueued, none can be delivered any more, and some worker
has not returned. -/
def Stuck (workerCount : ℕ) (s : State) : Prop :=
  s.produced = totalEvents workerCount ∧ ¬Deliverable workerCount s ∧
    ∃ p, Polling workerCount s p

def AllReturned (workerCount : ℕ) (s : State) : Prop :=
  ∀ p : Port, p.val < workerCount → s.returned p = true

/-- The shutdown works as far as the state goes. -/
def ShutsDown (workerCount : ℕ) (s : State) : Prop :=
  ¬Stuck workerCount s ∧
    (AllReturned workerCount s → processed s = totalEvents workerCount)

variable {workerCount : ℕ} {s t : State}

/-! ## Nothing lost -/

theorem NothingLost.port_eq_nil (h : NothingLost workerCount s) {p : Port}
    (hpolling : Polling workerCount s p → s.dev.port p = []) :
    s.dev.port p = [] := by
  by_contra hne
  by_cases hworker : p.val < workerCount
  · by_cases hreturned : s.returned p = true
    · exact h p (Or.inr (Or.inl ⟨hreturned, Or.inl hne⟩))
    · exact hne (hpolling ⟨hworker, by simpa using hreturned⟩)
  · exact h p (Or.inl ⟨by omega, hne⟩)

theorem weight_of_nil (f : ℕ → ℕ) (hqueue : s.dev.queue = [])
    (hport : ∀ p, s.dev.port p = []) : s.dev.weight f = 0 := by
  simp [EventDev.weight, hqueue, hport]

theorem NothingLost.processed_eq (h : NothingLost workerCount s)
    (hinv : Inv workerCount s) (hpos : 0 < workerCount)
    (hall : AllReturned workerCount s) :
    processed s = totalEvents workerCount := by
  have hreturned : s.returned 0 = true := hall 0 hpos
  have hqueue : s.dev.queue = [] := by
    by_contra hne
    exact h 0 (Or.inr (Or.inl ⟨hreturned, Or.inr (Or.inl hne)⟩))
  have hproduced : s.produced = totalEvents workerCount := by
    by_contra hne
    have hlt := Nat.lt_of_le_of_ne hinv.produced_le hne
    exact h 0 (Or.inr (Or.inl ⟨hreturned, Or.inr (Or.inr hlt)⟩))
  have hport : ∀ p, s.dev.port p = [] := by
    intro p
    apply h.port_eq_nil
    rintro ⟨hworker, hpolls⟩
    rw [hall p hworker] at hpolls
    cases hpolls
  have hcounted := hinv.counted
  rw [weight_of_nil _ hqueue hport] at hcounted
  omega

/-- While a worker has not returned, fewer have returned than there are. -/
theorem returnedCount_lt (hinv : Inv workerCount s) (hle : workerCount ≤ 8)
    {p : Port} (hpolling : Polling workerCount s p) :
    returnedCount s < workerCount := by
  have hbound : ∀ q ∈ (Finset.univ : Finset Port), (s.returned q).toNat ≤
      if q.val < workerCount then 1 else 0 := by
    intro q _
    cases hreturned : s.returned q with
    | false => exact Nat.zero_le _
    | true =>
        have hworker :=
          hinv.worker_of_held q (hinv.held_of_returned q hreturned)
        rw [if_pos hworker]
        exact Nat.le_refl _
  have hstrict : (s.returned p).toNat <
      if p.val < workerCount then 1 else 0 := by
    rw [hpolling.2, if_pos hpolling.1]
    exact Nat.zero_lt_one
  calc returnedCount s
      < ∑ q : Port, if q.val < workerCount then 1 else 0 :=
        Finset.sum_lt_sum hbound ⟨p, Finset.mem_univ p, hstrict⟩
    _ = workerCount := by
        rw [← Finset.card_filter, Fin.card_filter_val_lt]
        exact Nat.min_eq_right hle

/-- Polling empty ports releases what they hold. -/
theorem exec_release (ps : List Port)
    (hpolling : ∀ p ∈ ps, Polling workerCount s p)
    (hempty : ∀ p, s.dev.port p = []) :
    ∃ t, (eventdev workerCount).exec s (ps.map .poll) = some t ∧
      t.dev.queue = s.dev.queue ∧ t.dev.port = s.dev.port ∧
      t.returned = s.returned ∧
      ∀ q, t.dev.held q = true → s.dev.held q = true ∧ q ∉ ps := by
  induction ps generalizing s with
  | nil => exact ⟨s, rfl, rfl, rfl, rfl, fun q hq => ⟨hq, by simp⟩⟩
  | cons p ps ih =>
      have hpoll : (eventdev workerCount).step s (.poll p) = _ :=
        poll_of_nil (hpolling p (by simp)) (hempty p)
      have hrest : ∀ q ∈ ps, Polling workerCount s q := fun q hq =>
        hpolling q (by simp [hq])
      obtain ⟨t, hexec, hqueue, hport, hreturned, hheld⟩ := ih
        (s := { s with dev := { s.dev with
          held := Function.update s.dev.held p false } }) hrest hempty
      refine ⟨t, ?_, hqueue, hport, hreturned, ?_⟩
      · rw [List.map_cons, TransitionSystem.exec_cons, hpoll,
          Option.bind_some]
        exact hexec
      · intro q hq
        obtain ⟨hupdated, hnot⟩ := hheld q hq
        have hne : q ≠ p := by
          rintro rfl
          simp at hupdated
        exact ⟨by simpa [hne] using hupdated, by simp [hne, hnot]⟩

theorem NothingLost.deliverable (h : NothingLost workerCount s)
    (hinv : Inv workerCount s) (hle : workerCount ≤ 8)
    (hproduced : s.produced = totalEvents workerCount) {p : Port}
    (hp : Polling workerCount s p) : Deliverable workerCount s := by
  by_cases hready : ∃ q, Polling workerCount s q ∧ s.dev.port q ≠ []
  · obtain ⟨q, hpolling, hne⟩ := hready
    exact ⟨[], s, q, rfl, hpolling, hne⟩
  · have hempty : ∀ q, s.dev.port q = [] := by
      intro q
      apply h.port_eq_nil
      intro hpolling
      by_contra hne
      exact hready ⟨q, hpolling, hne⟩
    cases hqueue : s.dev.queue with
    | nil =>
        have hexits := hinv.exits
        have hlt := returnedCount_lt hinv hle hp
        rw [weight_of_nil _ hqueue hempty, hproduced, totalEvents] at hexits
        omega
    | cons ev rest =>
        -- nobody has returned, so all ports can be made to release
        have hpolls : ∀ q : Port, q.val < workerCount →
            Polling workerCount s q := by
          intro q hworker
          refine ⟨hworker, Bool.eq_false_iff.mpr ?_⟩
          exact h.not_returned (Or.inl (by simp [hqueue]))
        obtain ⟨u, hrelease, huqueue, -, hureturned, huheld⟩ :=
          exec_release ((List.finRange 8).filter
            (fun q : Port => q.val < workerCount))
            (fun q hq => hpolls q (by simpa using hq)) hempty
        have hpin : ∀ q, u.dev.held q = true → q = p := by
          intro q hq
          obtain ⟨hheld, hnot⟩ := huheld q hq
          exact absurd (hinv.worker_of_held q hheld) (by simpa using hnot)
        have hassign : step workerCount u (.assign p) = some _ :=
          step_assign_of_cons (huqueue.trans hqueue) hpin
        refine ⟨_, _, p, TransitionSystem.exec_snoc (a := Label.assign p)
          hrelease hassign, ?_, ?_⟩
        · exact ⟨hp.1, hureturned ▸ hp.2⟩
        · simp

/-! ## Something lost -/

theorem step_le {a : Label} (h : step workerCount s a = some t) :
    s.produced ≤ t.produced ∧ processed s ≤ processed t := by
  cases a with
  | produce =>
      obtain ⟨-, rfl⟩ := produce_eq_some_iff.mp h
      exact ⟨Nat.le_succ _, Nat.le_refl _⟩
  | assign p =>
      obtain ⟨ev, rest, -, -, rfl⟩ := assign_cases h
      exact ⟨Nat.le_refl _, Nat.le_refl _⟩
  | poll p =>
      obtain ⟨-, ⟨-, rfl⟩ | ⟨ev, rest, -, rfl⟩⟩ := poll_cases h
      · exact ⟨Nat.le_refl _, Nat.le_refl _⟩
      · have hsum := EventDev.sum_update_add s.coreStats p (s.coreStats p + 1)
        refine ⟨Nat.le_refl _, ?_⟩
        simp only [processed]
        omega

theorem exec_le {as : List Label}
    (h : (eventdev workerCount).exec s as = some t) :
    s.produced ≤ t.produced ∧ processed s ≤ processed t := by
  refine TransitionSystem.exec_invariant
    (P := fun u => s.produced ≤ u.produced ∧ processed s ≤ processed u)
    ?_ ⟨Nat.le_refl _, Nat.le_refl _⟩ h
  intro u a v hu huv
  have hle := step_le huv
  exact ⟨hu.1.trans hle.1, hu.2.trans hle.2⟩

/-- A delivery can be completed by a poll that processes the event. -/
theorem Deliverable.processes (h : Deliverable workerCount s) :
    ∃ as t, (eventdev workerCount).exec s as = some t ∧
      s.produced ≤ t.produced ∧ processed s < processed t := by
  obtain ⟨as, t, p, hexec, hpolling, hne⟩ := h
  obtain ⟨hproduced, hprocessed⟩ := exec_le hexec
  obtain ⟨ev, rest, hport⟩ := List.exists_cons_of_ne_nil hne
  have hsum := EventDev.sum_update_add t.coreStats p (t.coreStats p + 1)
  have hpoll : (eventdev workerCount).step t (.poll p) = some _ :=
    poll_of_cons hpolling hport
  refine ⟨_, _, TransitionSystem.exec_snoc hexec hpoll, hproduced, ?_⟩
  simp only [processed] at hprocessed ⊢
  omega

/-- What is still to be enqueued, and to be processed. -/
def outstanding (workerCount : ℕ) (s : State) : ℕ :=
  2 * totalEvents workerCount - s.produced - processed s

theorem outstanding_lt (h : (eventdev workerCount).Reachable t)
    (hlt : s.produced + processed s < t.produced + processed t) :
    outstanding workerCount t < outstanding workerCount s := by
  have hcounted := (reachable_inv h).counted
  have hle := (reachable_inv h).produced_le
  simp only [outstanding]
  omega

/-- Every run can be continued until all events are enqueued and none can be
delivered any more. -/
theorem exists_exhausted (h : (eventdev workerCount).Reachable s) :
    ∃ as t, (eventdev workerCount).exec s as = some t ∧
      t.produced = totalEvents workerCount ∧
      ¬Deliverable workerCount t := by
  refine h.exists_exec_of_rank (P := fun _ => True)
    (outstanding workerCount) ?_ trivial
  intro u hu _ hnot
  by_cases hproduced : u.produced = totalEvents workerCount
  · have hdeliverable : Deliverable workerCount u :=
      not_not.mp fun hnone => hnot ⟨hproduced, hnone⟩
    obtain ⟨as, t, hexec, hle, hlt⟩ := hdeliverable.processes
    refine ⟨as, t, hexec, trivial, outstanding_lt (hu.exec hexec) ?_⟩
    exact Nat.add_lt_add_of_le_of_lt hle hlt
  · have hlt := Nat.lt_of_le_of_ne (reachable_inv hu).produced_le hproduced
    have hproduce : (eventdev workerCount).step u .produce = some _ :=
      produce_eq_some_iff.mpr ⟨hlt, rfl⟩
    refine ⟨_, _, TransitionSystem.exec_singleton hproduce, trivial,
      outstanding_lt (hu.step hproduce) ?_⟩
    exact Nat.add_lt_add_right (Nat.lt_succ_self u.produced) _

/-- For every number of workers and every run: if each step of it delivers,
the shutdown works in every state reached; if some step does not, the run can
be continued into a state in which the shutdown has failed. -/
theorem shutsDown_of_delivers (hpos : 0 < workerCount)
    (hle : workerCount ≤ 8) {as : List Label}
    (h : (eventdev workerCount).exec launch as = some s) :
    ((eventdev workerCount).MeetsAlong (Delivers workerCount) launch as →
        ShutsDown workerCount s) ∧
      (¬(eventdev workerCount).MeetsAlong (Delivers workerCount) launch as →
        ∃ bs t, (eventdev workerCount).exec s bs = some t ∧
          ¬ShutsDown workerCount t) := by
  have hreach : (eventdev workerCount).Reachable s := ⟨as, h⟩
  have hinv := reachable_inv hreach
  rw [meetsAlong_iff_nothingLost h]
  constructor
  · intro hkept
    refine ⟨?_, hkept.processed_eq hinv hpos⟩
    rintro ⟨hproduced, hnot, p, hpolling⟩
    exact hnot (hkept.deliverable hinv hle hproduced hpolling)
  · intro hlost
    obtain ⟨bs, t, hexec, hproduced, hnot⟩ := exists_exhausted hreach
    refine ⟨bs, t, hexec, ?_⟩
    rintro ⟨hstuck, hsum⟩
    have hall : AllReturned workerCount t := by
      intro p hworker
      by_contra hreturned
      exact hstuck ⟨hproduced, hnot, p, hworker, by simpa using hreturned⟩
    have htlost : ¬NothingLost workerCount t := fun hkept =>
      hlost (hkept.of_exec hreach hexec)
    simp only [NothingLost, not_forall, not_not] at htlost
    obtain ⟨p, hp⟩ := htlost
    have hlt := hp.processed_lt (reachable_inv (hreach.exec hexec))
    exact absurd (hsum hall) (Nat.ne_of_lt hlt)

/-- A run with one worker in which every event gets to it. -/
def oneWorkerRun : List Label :=
  List.replicate 21 .produce ++ List.replicate 21 (.assign 0) ++
    List.replicate 21 (.poll 0)

theorem shutsDown_of_delivers_oneWorker :
    ∃ s, (eventdev 1).exec launch oneWorkerRun = some s ∧
      processed s = 21 := by
  have hend : ∃ s, (eventdev 1).exec launch oneWorkerRun = some s ∧
      s.returned 0 = true ∧ s.dev.queue = [] ∧ s.produced = 21 ∧
      ∀ p, s.dev.port p = [] := by
    refine ⟨_, rfl, rfl, rfl, rfl, ?_⟩
    decide
  obtain ⟨s, hexec, hreturned, hqueue, hproduced, hport⟩ := hend
  have hkept : NothingLost 1 s := by
    rintro p (⟨-, hne⟩ | ⟨-, hleft⟩ | ⟨-, hmem⟩)
    · exact hne (hport p)
    · simp [hport, hqueue, hproduced, totalEvents, numEvents] at hleft
    · simp [hport] at hmem
  have hmeets := (meetsAlong_iff_nothingLost hexec).mpr hkept
  have hshutdown :=
    (shutsDown_of_delivers (by decide) (by decide) hexec).1 hmeets
  refine ⟨s, hexec, hshutdown.2 ?_⟩
  intro p hp
  have hzero : p = 0 := Fin.ext (Nat.lt_one_iff.mp hp)
  exact hzero ▸ hreturned

/-! ## A hang -/

/-- All events are assigned, none of them to a worker that is polling. -/
structure Drained (workerCount : ℕ) (s : State) : Prop where
  produced : s.produced = totalEvents workerCount
  queue : s.dev.queue = []
  port : ∀ p, Polling workerCount s p → s.dev.port p = []

theorem Drained.step {a : Label} (h : Drained workerCount s)
    (hstep : step workerCount s a = some t) : Drained workerCount t := by
  cases a with
  | produce =>
      obtain ⟨hlt, -⟩ := produce_eq_some_iff.mp hstep
      exact absurd h.produced (Nat.ne_of_lt hlt)
  | assign q =>
      obtain ⟨ev, rest, hcons, -⟩ := assign_cases hstep
      rw [h.queue] at hcons
      cases hcons
  | poll q =>
      obtain ⟨hq, ⟨-, rfl⟩ | ⟨ev, rest, hcons, -⟩⟩ := poll_cases hstep
      · exact ⟨h.produced, h.queue, h.port⟩
      · rw [h.port q hq] at hcons
        cases hcons

theorem Drained.not_deliverable (h : Drained workerCount s) :
    ¬Deliverable workerCount s := by
  rintro ⟨as, t, p, hexec, hpolling, hne⟩
  have hdrained : Drained workerCount t :=
    TransitionSystem.exec_invariant (P := Drained workerCount)
      (fun _ _ _ hu huv => hu.step huv) h hexec
  exact hne (hdrained.port p hpolling)

/-- Two workers: the first one gets all normal events and an exit event,
which it never releases, so the second exit event goes to it as well. -/
def pinnedRun : List Label :=
  List.replicate 22 .produce ++
    (List.replicate 20 [.assign 0, .poll 0]).flatten ++
    [.assign 0, .poll 0, .assign 0]

theorem pinnedRun_not_shutsDown :
    ∃ s, (eventdev 2).exec launch pinnedRun = some s ∧ ¬ShutsDown 2 s := by
  have hend : ∃ s, (eventdev 2).exec launch pinnedRun = some s ∧
      s.produced = 22 ∧ s.dev.queue = [] ∧ s.returned 1 = false ∧
      ∀ p, Polling 2 s p → s.dev.port p = [] := by
    refine ⟨_, rfl, rfl, rfl, rfl, ?_⟩
    decide
  obtain ⟨s, hexec, hproduced, hqueue, hpolls, hport⟩ := hend
  refine ⟨s, hexec, ?_⟩
  rintro ⟨hstuck, -⟩
  have hdrained : Drained 2 s := ⟨hproduced, hqueue, hport⟩
  exact hstuck ⟨hproduced, hdrained.not_deliverable, 1, by decide, hpolls⟩

end Eventdev
end DpdkFolder
