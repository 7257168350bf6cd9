import DpdkFolder.Eventdev.Model

/-!
# Which events still reach a worker

Counting gives the invariant: what has been enqueued is in the device or has
been processed, and each exit event is in the device or has ended a worker.
A worker that returns never releases its last event and so pins the flow for
good.

An event is lost when it sits on a port that nobody polls or behind an exit
event, or when a worker takes an exit event while others are still to be
assigned.  A lost event stays lost, so a run keeps clear of losses exactly if
each of its steps does.
-/

namespace DpdkFolder
namespace Eventdev

variable {workerCount : ℕ} {s t : State}

/-! ## The counting invariant -/

/-- The number of exit events an event stands for. -/
def isExit (ev : ℕ) : ℕ := if ev = exitEvent then 1 else 0

/-- The sum of `core_stats`. -/
def processed (s : State) : ℕ := ∑ p, s.coreStats p

def returnedCount (s : State) : ℕ := ∑ p, (s.returned p).toNat

structure Inv (workerCount : ℕ) (s : State) : Prop where
  produced_le : s.produced ≤ totalEvents workerCount
  counted : processed s + s.dev.weight (fun _ => 1) = s.produced
  exits : returnedCount s + s.dev.weight isExit = s.produced - numEvents
  held_of_returned : ∀ p, s.returned p = true → s.dev.held p = true
  worker_of_held : ∀ p, s.dev.held p = true → p.val < workerCount

theorem inv_launch (workerCount : ℕ) : Inv workerCount launch where
  produced_le := Nat.zero_le _
  counted := by simp [launch, processed]
  exits := by simp [launch, returnedCount]
  held_of_returned := fun _ h => by simp [launch] at h
  worker_of_held := fun _ h => by simp [launch, EventDev.init] at h

theorem isExit_producerEvent (k : ℕ) :
    k - numEvents + isExit (producerEvent k) = k + 1 - numEvents := by
  by_cases hk : k < numEvents
  · have hne : k ≠ exitEvent := by
      have hlt : numEvents < exitEvent := by decide
      omega
    simp only [producerEvent, hk, if_true, isExit, hne, if_false]
    omega
  · simp only [producerEvent, hk, if_false, isExit, if_true]
    omega

theorem produce_inv (h : Inv workerCount s)
    (hstep : produce workerCount s = some t) : Inv workerCount t := by
  obtain ⟨hlt, rfl⟩ := produce_eq_some_iff.mp hstep
  have hexit := isExit_producerEvent s.produced
  refine ⟨hlt, ?_, ?_, h.held_of_returned, h.worker_of_held⟩
  · have hcounted := h.counted
    rw [EventDev.weight_enqueue]
    simp only [processed] at hcounted ⊢
    omega
  · have hexits := h.exits
    rw [EventDev.weight_enqueue]
    simp only [returnedCount] at hexits ⊢
    omega

theorem assign_inv {p : Port} (h : Inv workerCount s)
    (hstep : step workerCount s (.assign p) = some t) :
    Inv workerCount t := by
  simp only [step, Option.map_eq_some_iff] at hstep
  obtain ⟨dev, hdev, rfl⟩ := hstep
  have hweight : ∀ f, dev.weight f = s.dev.weight f := fun f =>
    EventDev.weight_assign f hdev
  obtain ⟨ev, rest, -, -, rfl⟩ := EventDev.assign_eq_some_iff.mp hdev
  refine ⟨h.produced_le, ?_, ?_, h.held_of_returned, h.worker_of_held⟩
  · rw [hweight]
    exact h.counted
  · rw [hweight]
    exact h.exits

theorem toNat_isExit (ev : ℕ) :
    (decide (ev = exitEvent)).toNat = isExit ev := by
  by_cases hev : ev = exitEvent <;> simp [isExit, hev]

/-- A worker that returns is counted once more. -/
theorem sum_toNat_update {returned : Port → Bool} {p : Port} (x : Bool)
    (h : returned p = false) :
    ∑ q, (Function.update returned p x q).toNat =
      ∑ q, (returned q).toNat + x.toNat := by
  have hsame : (fun q => (Function.update returned p x q).toNat) =
      Function.update (fun q => (returned q).toNat) p x.toNat :=
    Function.comp_update Bool.toNat returned p x
  have hsum : ∑ q, Function.update (fun q => (returned q).toNat) p x.toNat q +
      (returned p).toNat = ∑ q, (returned q).toNat + x.toNat :=
    EventDev.sum_update_add _ p x.toNat
  rw [h] at hsum
  rw [hsame]
  exact hsum

theorem poll_inv {p : Port} (h : Inv workerCount s)
    (hstep : poll workerCount s p = some t) : Inv workerCount t := by
  obtain ⟨⟨hworker, hreturned⟩, ⟨hport, rfl⟩ | ⟨ev, rest, hport, rfl⟩⟩ :=
    poll_cases hstep
  · refine ⟨h.produced_le, h.counted, h.exits, ?_, ?_⟩
    · intro q hq
      have hne : q ≠ p := by
        rintro rfl
        rw [hreturned] at hq
        cases hq
      simpa [hne] using h.held_of_returned q hq
    · intro q hq
      by_cases hqp : q = p
      · exact hqp ▸ hworker
      · exact h.worker_of_held q (by simpa [hqp] using hq)
  · have hheld : (s.dev.dequeue p).1.held =
        Function.update s.dev.held p true := by
      rw [EventDev.dequeue_of_cons hport]
    refine ⟨h.produced_le, ?_, ?_, ?_, ?_⟩
    · have hcounted := h.counted
      have hsum := EventDev.sum_update_add s.coreStats p (s.coreStats p + 1)
      have hweight := EventDev.weight_dequeue_of_cons (fun _ => 1) hport
      simp only [processed] at hcounted ⊢
      omega
    · have hexits := h.exits
      have hweight := EventDev.weight_dequeue_of_cons isExit hport
      simp only [returnedCount] at hexits ⊢
      rw [sum_toNat_update _ hreturned, toNat_isExit]
      omega
    · intro q hq
      rw [hheld]
      by_cases hqp : q = p
      · simp [hqp]
      · simpa [hqp] using h.held_of_returned q (by simpa [hqp] using hq)
    · intro q hq
      rw [hheld] at hq
      by_cases hqp : q = p
      · exact hqp ▸ hworker
      · exact h.worker_of_held q (by simpa [hqp] using hq)

theorem step_inv {a : Label} (h : Inv workerCount s)
    (hstep : step workerCount s a = some t) : Inv workerCount t := by
  cases a with
  | produce => exact produce_inv h hstep
  | assign p => exact assign_inv h hstep
  | poll p => exact poll_inv h hstep

theorem reachable_inv (h : (eventdev workerCount).Reachable s) :
    Inv workerCount s :=
  h.invariant (P := Inv workerCount) (inv_launch workerCount)
    fun _ _ _ _ hinv hstep => step_inv hinv hstep

/-! ## Lost events -/

/-- Events that will reach the port `p` never reach a worker: `p` has no
worker, or its worker has returned while there are events on the port or
still to be assigned, or it will return with events left on the port. -/
def Lost (workerCount : ℕ) (s : State) (p : Port) : Prop :=
  workerCount ≤ p.val ∧ s.dev.port p ≠ [] ∨
    s.returned p = true ∧
      (s.dev.port p ≠ [] ∨ s.dev.queue ≠ [] ∨
        s.produced < totalEvents workerCount) ∨
    s.returned p = false ∧ exitEvent ∈ (s.dev.port p).dropLast

def NothingLost (workerCount : ℕ) (s : State) : Prop :=
  ∀ p, ¬Lost workerCount s p

/-- Each event is assigned to a port that has a worker and that has not been
assigned an exit event before, and a worker takes an exit event only when all
events have been assigned. -/
def Delivers (workerCount : ℕ) (s : State) : Label → Prop
  | .produce => True
  | .assign p =>
      p.val < workerCount ∧ s.returned p = false ∧
        exitEvent ∉ s.dev.port p
  | .poll p =>
      (s.dev.port p).head? = some exitEvent →
        s.dev.queue = [] ∧ s.produced = totalEvents workerCount

/-- An event that is lost is never processed. -/
theorem Lost.processed_lt {p : Port} (h : Lost workerCount s p)
    (hinv : Inv workerCount s) : processed s < totalEvents workerCount := by
  have hcounted := hinv.counted
  have hle := hinv.produced_le
  have hport := s.dev.length_port_le p
  have hqueue := s.dev.length_queue_le
  rcases h with ⟨-, hne⟩ | ⟨-, hne | hne | hlt⟩ | ⟨-, hmem⟩
  · have hpos := List.length_pos_iff.mpr hne
    omega
  · have hpos := List.length_pos_iff.mpr hne
    omega
  · have hpos := List.length_pos_iff.mpr hne
    omega
  · omega
  · have hpos := List.length_pos_of_mem (List.mem_of_mem_dropLast hmem)
    omega

theorem Lost.poll {p q : Port} (h : Lost workerCount s p)
    (hstep : poll workerCount s q = some t) : Lost workerCount t p := by
  obtain ⟨⟨hworker, hpolls⟩, ⟨hport, rfl⟩ | ⟨ev, rest, hport, rfl⟩⟩ :=
    poll_cases hstep
  · exact h
  · rw [EventDev.dequeue_of_cons hport]
    by_cases hpq : p = q
    · subst hpq
      rcases h with ⟨hle, -⟩ | ⟨hreturned, -⟩ | ⟨-, hmem⟩
      · omega
      · rw [hpolls] at hreturned
        cases hreturned
      · rw [hport] at hmem
        have hne : rest ≠ [] := by
          rintro rfl
          simp at hmem
        rw [List.dropLast_cons_of_ne_nil hne] at hmem
        by_cases hev : ev = exitEvent
        · refine Or.inr (Or.inl ⟨by simp [hev], Or.inl ?_⟩)
          simpa using hne
        · refine Or.inr (Or.inr ⟨by simp [hev], ?_⟩)
          rcases List.mem_cons.mp hmem with heq | hrest
          · exact absurd heq.symm hev
          · simpa using hrest
    · simpa [Lost, hpq] using h

theorem Lost.step {a : Label} {p : Port} (h : Lost workerCount s p)
    (hinv : Inv workerCount s) (hstep : step workerCount s a = some t) :
    Lost workerCount t p := by
  cases a with
  | produce =>
      obtain ⟨hlt, rfl⟩ := produce_eq_some_iff.mp hstep
      rcases h with hport | ⟨hreturned, -⟩ | hbehind
      · exact Or.inl hport
      · refine Or.inr (Or.inl ⟨hreturned, Or.inr (Or.inl ?_)⟩)
        simp [EventDev.enqueue]
      · exact Or.inr (Or.inr hbehind)
  | assign q =>
      obtain ⟨ev, rest, hqueue, hpin, rfl⟩ := assign_cases hstep
      have hport : s.dev.port p ≠ [] →
          Function.update s.dev.port q (s.dev.port q ++ [ev]) p ≠ [] := by
        intro hne
        by_cases hpq : p = q
        · subst hpq
          simp
        · simpa [hpq] using hne
      rcases h with ⟨hworker, hne⟩ | ⟨hreturned, hleft⟩ | ⟨hpolling, hmem⟩
      · exact Or.inl ⟨hworker, hport hne⟩
      · -- the returned worker pins the flow, so the event goes to its port
        have hpq := hpin p (hinv.held_of_returned p hreturned)
        refine Or.inr (Or.inl ⟨hreturned, Or.inl ?_⟩)
        simp [hpq]
      · refine Or.inr (Or.inr ⟨hpolling, ?_⟩)
        by_cases hpq : p = q
        · subst hpq
          simpa using List.mem_of_mem_dropLast hmem
        · simpa [hpq] using hmem
  | poll q => exact h.poll hstep

theorem NothingLost.not_returned (h : NothingLost workerCount s) {p : Port}
    (hleft : s.dev.queue ≠ [] ∨ s.produced < totalEvents workerCount) :
    s.returned p ≠ true := by
  intro hreturned
  exact h p (Or.inr (Or.inl ⟨hreturned, Or.inr hleft⟩))

theorem produce_nothingLost (h : NothingLost workerCount s)
    (hstep : produce workerCount s = some t) : NothingLost workerCount t := by
  obtain ⟨hlt, rfl⟩ := produce_eq_some_iff.mp hstep
  intro p hlost
  rcases hlost with hport | ⟨hreturned, -⟩ | hbehind
  · exact h p (Or.inl hport)
  · exact h.not_returned (Or.inr hlt) hreturned
  · exact h p (Or.inr (Or.inr hbehind))

theorem assign_delivers_iff {q : Port} (h : NothingLost workerCount s)
    (hstep : step workerCount s (.assign q) = some t) :
    Delivers workerCount s (.assign q) ↔ NothingLost workerCount t := by
  obtain ⟨ev, rest, hqueue, -, rfl⟩ := assign_cases hstep
  have hpolls : ∀ p, s.returned p ≠ true := fun p =>
    h.not_returned (Or.inl (by simp [hqueue]))
  constructor
  · rintro ⟨hworker, -, hexit⟩ p hlost
    by_cases hpq : p = q
    · subst hpq
      rcases hlost with ⟨hle, -⟩ | ⟨hreturned, -⟩ | ⟨-, hmem⟩
      · omega
      · exact absurd hreturned (hpolls p)
      · simp only [Function.update_self, List.dropLast_concat] at hmem
        exact hexit hmem
    · rcases hlost with hport | ⟨hreturned, -⟩ | hbehind
      · exact h p (Or.inl (by simpa [hpq] using hport))
      · exact absurd hreturned (hpolls p)
      · exact h p (Or.inr (Or.inr (by simpa [hpq] using hbehind)))
  · intro hkept
    refine ⟨?_, Bool.eq_false_iff.mpr (hpolls q), ?_⟩
    · by_contra hle
      exact hkept q (Or.inl ⟨by omega, by simp⟩)
    · intro hexit
      refine hkept q (Or.inr (Or.inr ?_))
      exact ⟨Bool.eq_false_iff.mpr (hpolls q), by simpa using hexit⟩

theorem poll_delivers_iff {q : Port} (hinv : Inv workerCount s)
    (h : NothingLost workerCount s)
    (hstep : poll workerCount s q = some t) :
    Delivers workerCount s (.poll q) ↔ NothingLost workerCount t := by
  obtain ⟨⟨hworker, hpolls⟩, ⟨hport, rfl⟩ | ⟨ev, rest, hport, rfl⟩⟩ :=
    poll_cases hstep
  · refine iff_of_true ?_ h
    simp [Delivers, hport]
  · rw [EventDev.dequeue_of_cons hport]
    simp only [Delivers, hport, List.head?_cons, Option.some.injEq]
    constructor
    · intro hdelivers p hlost
      by_cases hpq : p = q
      · subst hpq
        rcases hlost with ⟨hle, -⟩ | ⟨hreturned, hleft⟩ | ⟨-, hmem⟩
        · omega
        · have hev : ev = exitEvent := by simpa using hreturned
          obtain ⟨hqueue, hproduced⟩ := hdelivers hev
          have hne : rest ≠ [] := by
            rcases hleft with hne | hne | hlt
            · simpa using hne
            · exact absurd hqueue hne
            · exact absurd hproduced (Nat.ne_of_lt hlt)
          refine h p (Or.inr (Or.inr ⟨hpolls, ?_⟩))
          rw [hport, List.dropLast_cons_of_ne_nil hne, hev]
          exact List.mem_cons_self
        · simp only [Function.update_self] at hmem
          refine h p (Or.inr (Or.inr ⟨hpolls, ?_⟩))
          have hne : rest ≠ [] := by
            rintro rfl
            cases hmem
          rw [hport, List.dropLast_cons_of_ne_nil hne]
          exact List.mem_cons_of_mem _ hmem
      · exact h p (by simpa [Lost, hpq] using hlost)
    · intro hkept hev
      have hreturned : Function.update s.returned q
          (decide (ev = exitEvent)) q = true := by simp [hev]
      have hle := hinv.produced_le
      constructor
      · by_contra hne
        exact hkept q (Or.inr (Or.inl ⟨hreturned, Or.inr (Or.inl hne)⟩))
      · by_contra hne
        refine hkept q (Or.inr (Or.inl ⟨hreturned, Or.inr (Or.inr ?_)⟩))
        exact Nat.lt_of_le_of_ne hle hne

/-- The steps that lose an event are those that do not deliver it. -/
theorem delivers_iff {a : Label} (hinv : Inv workerCount s)
    (h : NothingLost workerCount s)
    (hstep : step workerCount s a = some t) :
    Delivers workerCount s a ↔ NothingLost workerCount t := by
  cases a with
  | produce => exact iff_of_true trivial (produce_nothingLost h hstep)
  | assign q => exact assign_delivers_iff h hstep
  | poll q => exact poll_delivers_iff hinv h hstep

theorem NothingLost.of_step {a : Label} (hinv : Inv workerCount s)
    (hstep : step workerCount s a = some t) (h : NothingLost workerCount t) :
    NothingLost workerCount s :=
  fun p hlost => h p (hlost.step hinv hstep)

theorem NothingLost.of_exec {as : List Label}
    (hreach : (eventdev workerCount).Reachable s)
    (hexec : (eventdev workerCount).exec s as = some t)
    (h : NothingLost workerCount t) : NothingLost workerCount s :=
  TransitionSystem.good_of_exec
    (fun _ _ _ hu hstep => .of_step (reachable_inv hu) hstep) hreach hexec h

theorem nothingLost_launch (workerCount : ℕ) :
    NothingLost workerCount launch := by
  intro p
  simp [Lost, launch, EventDev.init]

/-- A run loses nothing exactly if each of its steps delivers. -/
theorem meetsAlong_iff_nothingLost {as : List Label}
    (h : (eventdev workerCount).exec launch as = some s) :
    (eventdev workerCount).MeetsAlong (Delivers workerCount) launch as ↔
      NothingLost workerCount s := by
  exact TransitionSystem.meetsAlong_iff_good
    (fun _ _ _ hu hgood hstep => delivers_iff (reachable_inv hu) hgood hstep)
    (fun _ _ _ hu hstep => .of_step (reachable_inv hu) hstep)
    TransitionSystem.reachable_start (nothingLost_launch workerCount) h

end Eventdev
end DpdkFolder
