import Mathlib.Data.Fintype.Fin
import DpdkFolder.Eventdev.Handled

/-!
# What every fair run of eventdev achieves

Every schedule that runs the producer, the device and each worker again and
again comes to rest: what the producer has enqueued is handled, or lies on a
port without a worker, or consists of exit events that can reach only workers
that have returned.  So the workers may hang, but the normal events that the
device gives to workers are all handled.
-/

namespace DpdkFolder
namespace Eventdev

variable {workerCount : ℕ} {s t : State}

/-- Who has to move: the producer, the device or the worker on a port. -/
inductive Task
  | producer
  | device
  | worker (p : Port)
deriving DecidableEq

def Label.task : Label → Task
  | .produce => .producer
  | .assign _ => .device
  | .poll p => .worker p

/-- Nothing will be handled any more. -/
structure Settled (workerCount : ℕ) (s : State) : Prop where
  produced : s.produced = totalEvents workerCount
  ports : ∀ p, Polling workerCount s p → s.dev.port p = []
  queue : s.dev.queue = [] ∨ ∃ p, s.returned p = true

/-- The steps that the events still need. -/
def eventWork (workerCount : ℕ) (s : State) : ℕ :=
  3 * (totalEvents workerCount - s.produced) + s.dev.queue.length +
    s.dev.weight fun _ => 1

def heldCount (s : State) : ℕ := ∑ p, (s.dev.held p).toNat

/-- Handling an event pins its port, so the events weigh more than all pins
together. -/
def rank (workerCount : ℕ) (s : State) : ℕ :=
  9 * eventWork workerCount s + heldCount s

/-- Who can make progress. -/
def helper (workerCount : ℕ) (s : State) : Task :=
  if s.produced < totalEvents workerCount then .producer
  else
    match (List.finRange 8).find? fun p : Port =>
        decide (Polling workerCount s p) && !(s.dev.port p).isEmpty with
    | some p => .worker p
    | none =>
        match (List.finRange 8).find? s.dev.held with
        | some p => .worker p
        | none => .device

/-! ## The rank -/

theorem heldCount_update (s : State) (p : Port) (x : Bool) :
    ∑ q, (Function.update s.dev.held p x q).toNat + (s.dev.held p).toNat =
      heldCount s + x.toNat := by
  have hsame : (fun q => (Function.update s.dev.held p x q).toNat) =
      Function.update (fun q => (s.dev.held q).toNat) p x.toNat :=
    Function.comp_update Bool.toNat s.dev.held p x
  rw [hsame]
  exact EventDev.sum_update_add _ p x.toNat

theorem produce_rank (hstep : produce workerCount s = some t) :
    rank workerCount t < rank workerCount s := by
  obtain ⟨hlt, rfl⟩ := produce_eq_some_iff.mp hstep
  simp only [rank, eventWork, EventDev.weight_enqueue, heldCount]
  simp only [EventDev.enqueue, List.length_append, List.length_singleton]
  omega

theorem assign_rank {p : Port}
    (hstep : step workerCount s (.assign p) = some t) :
    rank workerCount t < rank workerCount s := by
  simp only [step, Option.map_eq_some_iff] at hstep
  obtain ⟨dev, hdev, rfl⟩ := hstep
  have hweight := EventDev.weight_assign (fun _ => 1) hdev
  obtain ⟨ev, rest, hqueue, -, rfl⟩ := EventDev.assign_eq_some_iff.mp hdev
  simp only [rank, eventWork, heldCount, hweight, hqueue, List.length_cons]
  omega

/-- A poll lowers the rank, or it finds nothing and changes nothing. -/
theorem poll_rank {p : Port} (hstep : poll workerCount s p = some t) :
    rank workerCount t < rank workerCount s ∨
      (t = s ∧ s.dev.port p = [] ∧ s.dev.held p = false) := by
  obtain ⟨-, ⟨hport, rfl⟩ | ⟨ev, rest, hport, rfl⟩⟩ := poll_cases hstep
  · have hsum := heldCount_update s p false
    cases hheld : s.dev.held p with
    | false =>
        refine Or.inr ⟨?_, hport, rfl⟩
        rw [← hheld, Function.update_eq_self]
    | true =>
        refine Or.inl ?_
        rw [hheld] at hsum
        simp only [rank, eventWork, heldCount, EventDev.weight, Bool.toNat_true,
          Bool.toNat_false] at hsum ⊢
        omega
  · refine Or.inl ?_
    have hsum := heldCount_update s p true
    have hweight := EventDev.weight_dequeue_of_cons (fun _ => 1) hport
    have hle : (s.dev.held p).toNat ≤ 1 := Bool.toNat_le _
    rw [EventDev.dequeue_of_cons hport] at hweight ⊢
    simp only [rank, eventWork, heldCount, Bool.toNat_true] at hsum hweight ⊢
    omega

/-! ## The helper -/

theorem poll_ne_none {p : Port} (h : Polling workerCount s p) :
    poll workerCount s p ≠ none := by
  rw [poll, if_pos h]
  split <;> exact Option.some_ne_none _

theorem helper_enabled (hinv : Inv workerCount s)
    (hgo : ¬Settled workerCount s) {a : Label}
    (ha : a.task = helper workerCount s) : step workerCount s a ≠ none := by
  rw [helper] at ha
  split at ha
  case isTrue hlt =>
    cases a with
    | produce =>
        have hproduce : step workerCount s .produce = some _ :=
          produce_eq_some_iff.mpr ⟨hlt, rfl⟩
        rw [hproduce]
        exact Option.some_ne_none _
    | assign | poll => cases ha
  case isFalse hge =>
    have hproduced : s.produced = totalEvents workerCount :=
      le_antisymm hinv.produced_le (not_lt.mp hge)
    split at ha
    case h_1 p hfind =>
      have hfound := List.find?_some hfind
      simp only [Bool.and_eq_true, decide_eq_true_eq] at hfound
      cases a with
      | poll q =>
          cases ha
          exact poll_ne_none hfound.1
      | produce | assign => cases ha
    case h_2 hports =>
      have hempty : ∀ p, Polling workerCount s p → s.dev.port p = [] := by
        simpa using hports
      -- no worker has returned, or the run would have settled
      have hrunning : ∀ p, s.returned p = false := by
        intro p
        by_contra hp
        exact hgo ⟨hproduced, hempty, Or.inr ⟨p, by simpa using hp⟩⟩
      split at ha
      case h_1 p hfind =>
        have hheld := List.find?_some hfind
        cases a with
        | poll q =>
            cases ha
            exact poll_ne_none ⟨hinv.worker_of_held p hheld, hrunning p⟩
        | produce | assign => cases ha
      case h_2 hnone =>
        have hfree : ∀ p, s.dev.held p = false := by simpa using hnone
        cases a with
        | assign p =>
            cases hqueue : s.dev.queue with
            | nil => exact absurd ⟨hproduced, hempty, Or.inl hqueue⟩ hgo
            | cons ev rest =>
                rw [step_assign_of_cons hqueue (by simp [hfree])]
                exact Option.some_ne_none _
        | produce | poll => cases ha

/-- A worker whose poll would find nothing is not the one to wait for. -/
theorem helper_ne_worker {p : Port} (hport : s.dev.port p = [])
    (hheld : s.dev.held p = false) :
    helper workerCount s ≠ .worker p := by
  rw [helper]
  split
  · exact Task.noConfusion
  · split
    case h_1 q hfind =>
      have hfound := List.find?_some hfind
      rintro ⟨⟩
      simp [hport] at hfound
    case h_2 =>
      split
      case h_1 q hfind =>
        have hfound := List.find?_some hfind
        rintro ⟨⟩
        simp [hheld] at hfound
      case h_2 => exact Task.noConfusion

theorem leadsTo_settled (workerCount : ℕ) :
    (eventdev workerCount).LeadsTo Label.task (fun s => ¬Settled workerCount s)
      (Settled workerCount) := by
  refine TransitionSystem.leadsTo_of_helper (rank workerCount)
    (helper workerCount) ?_ ?_
  · intro s a hreach hgo ha
    exact helper_enabled (reachable_inv hreach) hgo ha
  · intro s a t hreach hgo hstep
    refine (em (Settled workerCount t)).imp_right fun ht => ⟨ht, ?_⟩
    cases a with
    | produce => exact Or.inl (produce_rank hstep)
    | assign p => exact Or.inl (assign_rank hstep)
    | poll p =>
        obtain hlt | ⟨rfl, hport, hheld⟩ := poll_rank hstep
        · exact Or.inl hlt
        · exact Or.inr ⟨rfl, rfl, (helper_ne_worker hport hheld).symm⟩

/-! ## Settled states -/

theorem settled_step (hinv : Inv workerCount s) (h : Settled workerCount s)
    {a : Label} (hstep : step workerCount s a = some t) :
    Settled workerCount t := by
  cases a with
  | produce =>
      obtain ⟨hlt, -⟩ := produce_eq_some_iff.mp hstep
      exact absurd h.produced hlt.ne
  | assign p =>
      obtain ⟨ev, rest, hqueue, hpin, rfl⟩ := assign_cases hstep
      obtain hnil | ⟨q, hq⟩ := h.queue
      · rw [hqueue] at hnil
        cases hnil
      · -- the event goes to the port that a returned worker pins
        have hqp : q = p := hpin q (hinv.held_of_returned q hq)
        refine ⟨h.produced, ?_, Or.inr ⟨q, hq⟩⟩
        rintro r ⟨hworker, hrunning⟩
        have hne : r ≠ p := by
          rintro rfl
          rw [← hqp] at hrunning
          exact Bool.false_ne_true (hrunning.symm.trans hq)
        simpa [hne] using h.ports r ⟨hworker, hrunning⟩
  | poll p =>
      obtain ⟨hpolling, ⟨-, rfl⟩ | ⟨ev, rest, hport, -⟩⟩ := poll_cases hstep
      · exact ⟨h.produced, h.ports, h.queue⟩
      · rw [h.ports p hpolling] at hport
        cases hport

/-- Where an event is that has been produced. -/
theorem Logged.handled_or_stored {log : List (Port × ℕ)} (h : Logged s log)
    {ev : ℕ} (hev : ev ∈ producedEvents s.produced) :
    (ev ∈ log.map Prod.snd) ∨ (∃ p, ev ∈ s.dev.port p) ∨
      ev ∈ s.dev.queue := by
  by_contra hnowhere
  push Not at hnowhere
  obtain ⟨hlog, hport, hqueue⟩ := hnowhere
  have hzero : ∀ l : List ℕ, ev ∉ l → (l.map (isEvent ev)).sum = 0 := by
    intro l hl
    refine List.sum_eq_zero fun x hx => ?_
    obtain ⟨y, hy, rfl⟩ := List.mem_map.mp hx
    exact if_neg (ne_of_mem_of_not_mem hy hl)
  have hweight : s.dev.weight (isEvent ev) = 0 := by
    simp [EventDev.weight, hzero _ hqueue, fun p => hzero _ (hport p)]
  have honce := h.onceEach ev
  have hpos := List.count_pos_iff.mpr hev
  rw [List.count_eq_zero_of_not_mem hlog, hweight] at honce
  omega

theorem count_producedEvents_le (count : ℕ) {ev : ℕ} (hne : ev < numEvents) :
    (producedEvents count).count ev ≤ 1 := by
  induction count with
  | zero => exact Nat.zero_le _
  | succ count ih =>
      rw [producedEvents_succ, List.count_append, count_singleton]
      by_cases hlast : producerEvent count = ev
      · have hzero : (producedEvents count).count ev = 0 := by
          refine List.count_eq_zero_of_not_mem fun hmem => ?_
          obtain ⟨k, hk, hkev⟩ := List.mem_map.mp hmem
          have hklt := List.mem_range.mp hk
          have hlt : numEvents < exitEvent := by decide
          simp only [producerEvent] at hlast hkev
          split at hlast <;> split at hkev <;> omega
        rw [hzero, isEvent, if_pos hlast]
      · rwa [isEvent, if_neg hlast, Nat.add_zero]

/-- For any number of workers and every schedule that runs the producer, the
device and each worker again and again, there is a moment from which on every
normal event has been handled exactly once or lies on a port without a worker,
and a worker has returned unless an exit event lies on such a port. -/
theorem normal_events_handled (hpos : 0 < workerCount) {sched : ℕ → Label}
    (hfair : TransitionSystem.Fair Label.task sched) :
    ∃ n, ∀ m, n ≤ m → ∃ s log,
      (logged workerCount).along sched m = (s, log) ∧
        (∀ k < numEvents, (log.map Prod.snd).count k = 1 ∨
          ∃ p : Port, workerCount ≤ p.val ∧ k ∈ s.dev.port p) ∧
        ((∃ p, s.returned p = true) ∨
          ∃ p : Port, workerCount ≤ p.val ∧ exitEvent ∈ s.dev.port p) := by
  have hstart : ¬Settled workerCount launch := by
    intro h
    have hnone : 0 = totalEvents workerCount := h.produced
    rw [totalEvents] at hnone
    omega
  obtain ⟨n, hn⟩ := (leadsTo_settled workerCount).settles hstart
    (fun u a v hu hsettled huv => settled_step (reachable_inv hu) hsettled huv)
    hfair
  refine ⟨n, fun m hle => ?_⟩
  obtain ⟨⟨s, log⟩, hs⟩ : ∃ u, (logged workerCount).along sched m = u :=
    ⟨_, rfl⟩
  have hsame : (eventdev workerCount).along sched m = s := by
    rw [← TransitionSystem.recording_along handles]
    exact congrArg Prod.fst hs
  have hsettled : Settled workerCount s := hsame ▸ (hn m hle).2
  have hrecorded : (logged workerCount).Reachable (s, log) :=
    hs ▸ TransitionSystem.reachable_along sched m
  have hlogged : Logged s log := reachable_logged hrecorded
  refine ⟨s, log, hs, ?_, ?_⟩
  · intro k hk
    have hne : k ≠ exitEvent := by
      have hlt : numEvents < exitEvent := by decide
      omega
    have hmem : k ∈ producedEvents s.produced := by
      refine List.mem_map.mpr ⟨k, ?_, if_pos hk⟩
      rw [List.mem_range, hsettled.produced, totalEvents]
      omega
    rcases hlogged.handled_or_stored hmem with hlog | ⟨p, hp⟩ | hqueue
    · have honce := hlogged.onceEach k
      have hle := count_producedEvents_le s.produced hk
      have hpos := List.count_pos_iff.mpr hlog
      exact Or.inl (by omega)
    · refine Or.inr ⟨p, not_lt.mp fun hworker => ?_, hp⟩
      cases hreturned : s.returned p with
      | true =>
          exact hne (hlogged.rest_of_returned hreturned
            (List.mem_append_left _ hp))
      | false =>
          rw [hsettled.ports p ⟨hworker, hreturned⟩] at hp
          cases hp
    · obtain hnil | ⟨p, hp⟩ := hsettled.queue
      · rw [hnil] at hqueue
        cases hqueue
      · exact absurd (hlogged.rest_of_returned hp
          (List.mem_append_right _ hqueue)) hne
  · by_contra hnone
    push Not at hnone
    obtain ⟨hrunning, hports⟩ := hnone
    have hmem : exitEvent ∈ producedEvents s.produced := by
      refine List.mem_map.mpr ⟨numEvents, ?_, if_neg (lt_irrefl _)⟩
      rw [List.mem_range, hsettled.produced, totalEvents]
      omega
    rcases hlogged.handled_or_stored hmem with hlog | ⟨p, hp⟩ | hqueue
    · obtain ⟨⟨p, ev⟩, hx, rfl⟩ := List.mem_map.mp hlog
      refine hlogged.polling p (Bool.eq_false_iff.mpr (hrunning p)) ?_
      exact List.mem_map.mpr ⟨(p, exitEvent),
        List.mem_filter.mpr ⟨hx, by simp⟩, rfl⟩
    · by_cases hworker : p.val < workerCount
      · rw [hsettled.ports p ⟨hworker, Bool.eq_false_iff.mpr (hrunning p)⟩]
          at hp
        cases hp
      · exact hports p (not_lt.mp hworker) hp
    · obtain hnil | ⟨p, hp⟩ := hsettled.queue
      · rw [hnil] at hqueue
        cases hqueue
      · exact hrunning p hp

/-- The producer, the device and the workers in turn; the device goes through
all ports. -/
def inTurn : ℕ → Label :=
  TransitionSystem.roundRobin (.produce ::
    (List.finRange 8).flatMap fun p => [.assign p, .poll p]) (by simp)

theorem normal_events_handled_inTurn :
    ∃ n, ∀ m, n ≤ m → ∃ s log, (logged 8).along inTurn m = (s, log) ∧
      (∀ k < numEvents, (log.map Prod.snd).count k = 1 ∨
        ∃ p : Port, 8 ≤ p.val ∧ k ∈ s.dev.port p) ∧
      ((∃ p, s.returned p = true) ∨
        ∃ p : Port, 8 ≤ p.val ∧ exitEvent ∈ s.dev.port p) := by
  refine normal_events_handled (by decide)
    (TransitionSystem.fair_roundRobin _ ?_)
  intro i
  cases i with
  | producer => exact ⟨.produce, by simp, rfl⟩
  | device => exact ⟨.assign 0, by simp, rfl⟩
  | worker p => exact ⟨.poll p, by simp, rfl⟩

end Eventdev
end DpdkFolder
