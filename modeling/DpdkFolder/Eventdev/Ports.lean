import DpdkFolder.Eventdev.Model
import Mathlib.Data.List.Nodup

/-!
# The event ports of the lcores

`main` hands out the ports by counting the worker lcores from 0 on, without a
look at the number of ports it has set up, and enqueues its own events on
port 0.  The number goes through an array indexed by the lcore and ends in a
`uint8_t` of the worker.
-/

namespace DpdkFolder
namespace Eventdev
namespace Ports

/-- `.nb_event_ports`, the number of ports that are set up and linked. -/
def nbEventPorts : ℕ := 8

/-- The lcores that EAL has started, of which one runs `main`. -/
structure Lcores where
  rteMaxLcore : ℕ
  mainLcore : ℕ
  workers : List ℕ
  mainLcore_lt : mainLcore < rteMaxLcore
  workers_lt : ∀ lcore ∈ workers, lcore < rteMaxLcore
  workers_sorted : workers.Pairwise (· < ·)
  mainLcore_notMem : mainLcore ∉ workers

/-- The variables of the launch loop with the lcores it has yet to visit and
those it has launched, what each worker has read for its `port_id`, and the
calls made on event ports. -/
structure State where
  todo : List ℕ
  launched : List ℕ
  port : UInt32
  workerPorts : ℕ → UInt32
  workerCount : UInt32
  portId : ℕ → Option UInt8
  uses : List (ℕ × UInt8)

/-- The state before the loop. -/
def beforeLaunch (cores : Lcores) : State where
  todo := cores.workers
  launched := []
  port := 0
  workerPorts := fun _ => 0
  workerCount := 0
  portId := fun _ => none
  uses := []

/-- One turn of `RTE_LCORE_FOREACH_WORKER`. -/
def launchWorker (s : State) : Option State :=
  match s.todo with
  | [] => none
  | lcore :: rest =>
      some { s with
        todo := rest
        launched := s.launched ++ [lcore]
        workerPorts := Function.update s.workerPorts lcore s.port
        port := s.port + 1
        workerCount := s.workerCount + 1 }

/-- `uint8_t port_id = worker_ports[lcore]`. -/
def readPort (s : State) (lcore : ℕ) : Option State :=
  if lcore ∈ s.launched ∧ s.portId lcore = none then
    some { s with
      portId := Function.update s.portId lcore
        (some (s.workerPorts lcore).toUInt8) }
  else none

/-- A worker polls its port. -/
def dequeueBurst (s : State) (lcore : ℕ) : Option State :=
  (s.portId lcore).map fun p => { s with uses := s.uses ++ [(lcore, p)] }

/-- `main` enqueues an event, or tries to, after the launch loop. -/
def enqueueBurst (cores : Lcores) (s : State) : Option State :=
  if s.todo = [] then
    some { s with uses := s.uses ++ [(cores.mainLcore, 0)] }
  else none

inductive Label
  | launchWorker
  | readPort (lcore : ℕ)
  | dequeueBurst (lcore : ℕ)
  | enqueueBurst
deriving DecidableEq, Repr

def step (cores : Lcores) (s : State) : Label → Option State
  | .launchWorker => launchWorker s
  | .readPort lcore => readPort s lcore
  | .dequeueBurst lcore => dequeueBurst s lcore
  | .enqueueBurst => enqueueBurst cores s

/-- The launch loop and the lcores that it launches. -/
def launching (cores : Lcores) : TransitionSystem State Label where
  start := beforeLaunch cores
  step := step cores

/-! ## The properties of the assignment -/

section Properties

variable (cores : Lcores)

/-- Each worker has a port that was set up and linked. -/
def WorkersLinked : Prop :=
  ∀ s, (launching cores).Reachable s →
    ∀ lcore p, s.portId lcore = some p → p.toNat < nbEventPorts

/-- Different workers have different ports. -/
def WorkersDistinct : Prop :=
  ∀ s, (launching cores).Reachable s → ∀ lcore lcore' p,
    s.portId lcore = some p → s.portId lcore' = some p → lcore = lcore'

/-- No worker has the port of `main`. -/
def MainSeparate : Prop :=
  ∀ s, (launching cores).Reachable s →
    ∀ lcore p, s.portId lcore = some p → p ≠ 0

/-- No port is used by two lcores. -/
def Unshared : Prop :=
  ∀ s, (launching cores).Reachable s → ∀ lcore lcore' p,
    (lcore, p) ∈ s.uses → (lcore', p) ∈ s.uses → lcore = lcore'

structure WellAssigned : Prop where
  linked : WorkersLinked cores
  distinct : WorkersDistinct cores
  separate : MainSeparate cores
  unshared : Unshared cores

end Properties

/-! ## What a step can do -/

variable {cores : Lcores} {s t : State} {lcore : ℕ}

theorem launchWorker_cases (h : launchWorker s = some t) :
    ∃ lcore rest, s.todo = lcore :: rest ∧
      t = { s with
        todo := rest
        launched := s.launched ++ [lcore]
        workerPorts := Function.update s.workerPorts lcore s.port
        port := s.port + 1
        workerCount := s.workerCount + 1 } := by
  cases htodo : s.todo with
  | nil => simp [launchWorker, htodo] at h
  | cons lcore rest =>
      simp only [launchWorker, htodo, Option.some.injEq] at h
      exact ⟨lcore, rest, rfl, h.symm⟩

theorem readPort_cases (h : readPort s lcore = some t) :
    lcore ∈ s.launched ∧ s.portId lcore = none ∧
      t = { s with
        portId := Function.update s.portId lcore
          (some (s.workerPorts lcore).toUInt8) } := by
  rw [readPort] at h
  split at h
  · next hready =>
      exact ⟨hready.1, hready.2, (Option.some.inj h).symm⟩
  · cases h

theorem dequeueBurst_cases (h : dequeueBurst s lcore = some t) :
    ∃ p, s.portId lcore = some p ∧
      t = { s with uses := s.uses ++ [(lcore, p)] } := by
  obtain ⟨p, hp, ht⟩ := Option.map_eq_some_iff.mp h
  exact ⟨p, hp, ht.symm⟩

theorem enqueueBurst_cases (h : enqueueBurst cores s = some t) :
    s.todo = [] ∧ t = { s with uses := s.uses ++ [(cores.mainLcore, 0)] } := by
  rw [enqueueBurst] at h
  split at h
  · next htodo => exact ⟨htodo, (Option.some.inj h).symm⟩
  · cases h

/-! ## The numbers that are handed out -/

/-- The `k`-th worker is assigned `k`, and reads it as a `uint8_t`. -/
structure Inv (cores : Lcores) (s : State) : Prop where
  split : cores.workers = s.launched ++ s.todo
  port_eq : s.port = UInt32.ofNat s.launched.length
  workerPorts_eq : ∀ k lcore, s.launched[k]? = some lcore →
    s.workerPorts lcore = UInt32.ofNat k
  portId_eq : ∀ lcore p, s.portId lcore = some p →
    ∃ k, s.launched[k]? = some lcore ∧ p = UInt8.ofNat k
  uses_eq : ∀ lcore p, (lcore, p) ∈ s.uses →
    (lcore = cores.mainLcore ∧ p = 0) ∨ s.portId lcore = some p

theorem inv_beforeLaunch (cores : Lcores) :
    Inv cores (beforeLaunch cores) where
  split := rfl
  port_eq := rfl
  workerPorts_eq := by simp [beforeLaunch]
  portId_eq := by simp [beforeLaunch]
  uses_eq := by simp [beforeLaunch]

theorem Inv.notMem_launched (h : Inv cores s) {rest : List ℕ}
    (htodo : s.todo = lcore :: rest) : lcore ∉ s.launched := by
  have hnodup : cores.workers.Nodup := cores.workers_sorted.nodup
  rw [h.split, htodo] at hnodup
  exact fun hmem =>
    List.disjoint_of_nodup_append hnodup hmem List.mem_cons_self

theorem launchWorker_inv (h : Inv cores s) (hstep : launchWorker s = some t) :
    Inv cores t := by
  obtain ⟨lcore, rest, htodo, rfl⟩ := launchWorker_cases hstep
  have hnew := h.notMem_launched htodo
  refine ⟨?_, ?_, ?_, ?_, h.uses_eq⟩
  · rw [h.split, htodo]
    simp
  · dsimp only
    rw [h.port_eq, List.length_append, UInt32.ofNat_add]
    rfl
  · intro k other hk
    dsimp only at hk ⊢
    rw [List.getElem?_append] at hk
    split at hk
    · have hother : other ≠ lcore := by
        rintro rfl
        exact hnew (List.mem_of_getElem? hk)
      rw [Function.update_of_ne hother]
      exact h.workerPorts_eq k other hk
    · next hge =>
        obtain ⟨hlast, hother⟩ := List.getElem?_eq_some_iff.mp hk
        rw [List.length_singleton] at hlast
        rw [List.getElem_singleton] at hother
        have hk' : k = s.launched.length := by omega
        rw [← hother, Function.update_self, h.port_eq, hk']
  · intro other p hp
    obtain ⟨k, hk, hpk⟩ := h.portId_eq other p hp
    refine ⟨k, ?_, hpk⟩
    obtain ⟨hlt, -⟩ := List.getElem?_eq_some_iff.mp hk
    dsimp only
    rw [List.getElem?_append_left hlt, hk]

theorem readPort_inv (h : Inv cores s) (hstep : readPort s lcore = some t) :
    Inv cores t := by
  obtain ⟨hmem, hnone, rfl⟩ := readPort_cases hstep
  refine ⟨h.split, h.port_eq, h.workerPorts_eq, ?_, ?_⟩
  · intro other p hp
    dsimp only at hp ⊢
    by_cases hother : other = lcore
    · rw [hother, Function.update_self, Option.some.injEq] at hp
      obtain ⟨k, hk⟩ := List.mem_iff_getElem?.mp hmem
      refine ⟨k, hother ▸ hk, ?_⟩
      rw [← hp, h.workerPorts_eq k lcore hk, UInt32.toUInt8_ofNat']
    · rw [Function.update_of_ne hother] at hp
      exact h.portId_eq other p hp
  · intro other p hp
    obtain hmain | hread := h.uses_eq other p hp
    · exact Or.inl hmain
    · have hother : other ≠ lcore := by
        rintro rfl
        rw [hnone] at hread
        cases hread
      dsimp only
      rw [Function.update_of_ne hother]
      exact Or.inr hread

theorem step_inv {l : Label} (h : Inv cores s)
    (hstep : step cores s l = some t) : Inv cores t := by
  cases l with
  | launchWorker => exact launchWorker_inv h hstep
  | readPort lcore => exact readPort_inv h hstep
  | dequeueBurst lcore =>
      obtain ⟨p, hp, rfl⟩ := dequeueBurst_cases hstep
      refine ⟨h.split, h.port_eq, h.workerPorts_eq, h.portId_eq, ?_⟩
      intro other q hq
      obtain hq | hq := List.mem_append.mp hq
      · exact h.uses_eq other q hq
      · cases List.mem_singleton.mp hq
        exact Or.inr hp
  | enqueueBurst =>
      obtain ⟨-, rfl⟩ := enqueueBurst_cases hstep
      refine ⟨h.split, h.port_eq, h.workerPorts_eq, h.portId_eq, ?_⟩
      intro other q hq
      obtain hq | hq := List.mem_append.mp hq
      · exact h.uses_eq other q hq
      · cases List.mem_singleton.mp hq
        exact Or.inl ⟨rfl, rfl⟩

theorem reachable_inv (h : (launching cores).Reachable s) : Inv cores s :=
  h.invariant (P := Inv cores) (inv_beforeLaunch cores)
    fun _ _ _ _ hs hstep => step_inv hs hstep

theorem Inv.worker_of_portId (h : Inv cores s) {p : UInt8}
    (hp : s.portId lcore = some p) :
    ∃ k, cores.workers[k]? = some lcore ∧ p = UInt8.ofNat k := by
  obtain ⟨k, hk, hpk⟩ := h.portId_eq lcore p hp
  refine ⟨k, ?_, hpk⟩
  obtain ⟨hlt, -⟩ := List.getElem?_eq_some_iff.mp hk
  rw [h.split, List.getElem?_append_left hlt, hk]

/-! ## Workers that have read their ports -/

theorem exists_launched (cores : Lcores) :
    ∃ s, (launching cores).Reachable s ∧ s.todo = [] := by
  have hprogress : ∀ s, (launching cores).Reachable s → True →
      ¬s.todo = [] → ∃ ls t, (launching cores).exec s ls = some t ∧ True ∧
        t.todo.length < s.todo.length := by
    intro s _ _ htodo
    obtain ⟨lcore, rest, hcons⟩ := List.exists_cons_of_ne_nil htodo
    have hstep : launchWorker s = some { s with
        todo := rest
        launched := s.launched ++ [lcore]
        workerPorts := Function.update s.workerPorts lcore s.port
        port := s.port + 1
        workerCount := s.workerCount + 1 } := by
      simp only [launchWorker, hcons]
    refine ⟨[.launchWorker], _, TransitionSystem.exec_singleton hstep,
      trivial, ?_⟩
    rw [hcons]
    exact Nat.lt_succ_self _
  obtain ⟨ls, s, hexec, htodo⟩ :=
    TransitionSystem.Reachable.exists_exec_of_rank
      (fun s => s.todo.length) hprogress
      (TransitionSystem.reachable_start (T := launching cores)) trivial
  exact ⟨s, TransitionSystem.reachable_start.exec hexec, htodo⟩

/-- Once all workers have been launched, each can come to read its number,
and the others keep theirs. -/
theorem exists_read (hs : (launching cores).Reachable s) (htodo : s.todo = [])
    {k : ℕ} (hk : cores.workers[k]? = some lcore) :
    ∃ t, (launching cores).Reachable t ∧ t.todo = [] ∧
      t.portId lcore = some (UInt8.ofNat k) ∧
      ∀ lcore' p, s.portId lcore' = some p → t.portId lcore' = some p := by
  have hinv := reachable_inv hs
  have hlaunched : s.launched[k]? = some lcore := by
    rw [← hk, hinv.split, htodo, List.append_nil]
  cases hread : s.portId lcore with
  | some p =>
      refine ⟨s, hs, htodo, ?_, fun _ _ hp => hp⟩
      obtain ⟨j, hj, rfl⟩ := hinv.worker_of_portId hread
      have hnodup : cores.workers.Nodup := cores.workers_sorted.nodup
      obtain ⟨hlt, -⟩ := List.getElem?_eq_some_iff.mp hj
      rw [hread, (List.getElem?_inj hlt hnodup).mp (hj.trans hk.symm)]
  | none =>
      have hstep : (launching cores).step s (.readPort lcore) = some { s with
          portId := Function.update s.portId lcore
            (some (s.workerPorts lcore).toUInt8) } :=
        if_pos ⟨List.mem_of_getElem? hlaunched, hread⟩
      refine ⟨_, hs.step hstep, htodo, ?_, ?_⟩
      · dsimp only
        rw [Function.update_self, hinv.workerPorts_eq k lcore hlaunched,
          UInt32.toUInt8_ofNat']
      · intro other p hp
        have hother : other ≠ lcore := by
          rintro rfl
          rw [hread] at hp
          cases hp
        dsimp only
        rw [Function.update_of_ne hother, hp]

/-- Any worker can come to have read its number. -/
theorem exists_portId {k : ℕ} (hk : cores.workers[k]? = some lcore) :
    ∃ s, (launching cores).Reachable s ∧ s.todo = [] ∧
      s.portId lcore = some (UInt8.ofNat k) := by
  obtain ⟨s, hs, htodo⟩ := exists_launched cores
  obtain ⟨t, ht, htodo', hread, -⟩ := exists_read hs htodo hk
  exact ⟨t, ht, htodo', hread⟩

/-! ## When the assignment is right -/

theorem exists_worker {k : ℕ} (hlt : k < cores.workers.length) :
    ∃ lcore, cores.workers[k]? = some lcore :=
  ⟨_, List.getElem?_eq_getElem hlt⟩

/-- There are enough ports for 8 workers. -/
theorem workersLinked_iff :
    WorkersLinked cores ↔ cores.workers.length ≤ nbEventPorts := by
  constructor
  · intro h
    by_contra hlength
    obtain ⟨lcore, hk⟩ := exists_worker (Nat.lt_of_not_le hlength)
    obtain ⟨s, hs, -, hread⟩ := exists_portId hk
    exact absurd (h s hs _ _ hread) (by decide)
  · intro hlength s hs lcore p hp
    obtain ⟨k, hk, rfl⟩ := (reachable_inv hs).worker_of_portId hp
    obtain ⟨hlt, -⟩ := List.getElem?_eq_some_iff.mp hk
    rw [UInt8.toNat_ofNat']
    exact Nat.lt_of_le_of_lt (Nat.mod_le _ _) (Nat.lt_of_lt_of_le hlt hlength)

/-- The 257th worker reads the number of the first one. -/
theorem workersDistinct_iff :
    WorkersDistinct cores ↔ cores.workers.length ≤ 256 := by
  have hnodup : cores.workers.Nodup := cores.workers_sorted.nodup
  constructor
  · intro h
    by_contra hlength
    have hlt : 256 < cores.workers.length := Nat.lt_of_not_le hlength
    have hpos : 0 < cores.workers.length := Nat.zero_lt_of_lt hlt
    obtain ⟨first, hfirst⟩ := exists_worker hpos
    obtain ⟨last, hlast⟩ := exists_worker hlt
    obtain ⟨s, hs, htodo, hread⟩ := exists_portId hfirst
    obtain ⟨t, ht, -, hread', hkept⟩ := exists_read hs htodo hlast
    have hsame : first = last := h t ht _ _ _ (hkept _ _ hread) hread'
    rw [← hsame] at hlast
    have hindex : 0 = 256 :=
      (List.getElem?_inj hpos hnodup).mp (hfirst.trans hlast.symm)
    omega
  · intro hlength s hs lcore lcore' p hp hp'
    obtain ⟨k, hk, rfl⟩ := (reachable_inv hs).worker_of_portId hp
    obtain ⟨j, hj, hjk⟩ := (reachable_inv hs).worker_of_portId hp'
    obtain ⟨hkLt, -⟩ := List.getElem?_eq_some_iff.mp hk
    obtain ⟨hjLt, -⟩ := List.getElem?_eq_some_iff.mp hj
    have hmod : k % 2 ^ 8 = j % 2 ^ 8 := by
      rw [← UInt8.toNat_ofNat', ← UInt8.toNat_ofNat', hjk]
    have hkj : k = j := by omega
    rw [hkj, hj, Option.some.injEq] at hk
    exact hk.symm

/-- The first worker has the port of `main`. -/
theorem mainSeparate_iff : MainSeparate cores ↔ cores.workers = [] := by
  constructor
  · intro h
    by_contra hne
    obtain ⟨lcore, hk⟩ := exists_worker (List.length_pos_of_ne_nil hne)
    obtain ⟨s, hs, -, hread⟩ := exists_portId hk
    exact h s hs _ _ hread rfl
  · intro hnil s hs lcore p hp
    obtain ⟨k, hk, -⟩ := (reachable_inv hs).worker_of_portId hp
    rw [hnil, List.getElem?_nil] at hk
    cases hk

/-- The first worker and `main` come to use the same port. -/
theorem unshared_iff : Unshared cores ↔ cores.workers = [] := by
  constructor
  · intro h
    by_contra hne
    obtain ⟨lcore, hk⟩ := exists_worker (List.length_pos_of_ne_nil hne)
    obtain ⟨s, hs, htodo, hread⟩ := exists_portId hk
    have hpoll : (launching cores).step s (.dequeueBurst lcore) =
        some { s with uses := s.uses ++ [(lcore, 0)] } := by
      simp only [launching, step, dequeueBurst, hread]
      rfl
    have hsend : (launching cores).step
        { s with uses := s.uses ++ [(lcore, 0)] } .enqueueBurst =
          some { s with
            uses := s.uses ++ [(lcore, 0)] ++ [(cores.mainLcore, 0)] } :=
      if_pos htodo
    have hsame : lcore = cores.mainLcore :=
      h _ ((hs.step hpoll).step hsend) lcore cores.mainLcore 0
        (by simp) (by simp)
    exact cores.mainLcore_notMem (hsame ▸ List.mem_of_getElem? hk)
  · intro hnil
    have hmain : ∀ s, (launching cores).Reachable s → ∀ lcore p,
        (lcore, p) ∈ s.uses → lcore = cores.mainLcore := by
      intro s hs lcore p huse
      obtain hmain | hread := (reachable_inv hs).uses_eq lcore p huse
      · exact hmain.1
      · obtain ⟨k, hk, -⟩ := (reachable_inv hs).worker_of_portId hread
        rw [hnil, List.getElem?_nil] at hk
        cases hk
    intro s hs lcore lcore' p huse huse'
    rw [hmain s hs lcore p huse, hmain s hs lcore' p huse']

/-- For every set of lcores: the assignment is right if and only if there are
no worker lcores. -/
theorem wellAssigned_iff (cores : Lcores) :
    WellAssigned cores ↔ cores.workers = [] := by
  constructor
  · intro h
    exact mainSeparate_iff.mp h.separate
  · intro hnil
    refine ⟨workersLinked_iff.mpr ?_, workersDistinct_iff.mpr ?_,
      mainSeparate_iff.mpr hnil, unshared_iff.mpr hnil⟩
    · rw [hnil]
      exact Nat.zero_le _
    · rw [hnil]
      exact Nat.zero_le _

/-- Lcore 0 runs `main` and lcore 1 is the only worker. -/
def twoLcores : Lcores where
  rteMaxLcore := 128
  mainLcore := 0
  workers := [1]
  mainLcore_lt := by decide
  workers_lt := by decide
  workers_sorted := by decide
  mainLcore_notMem := by decide

/-- That worker polls port 0, and `main` enqueues on it. -/
theorem twoLcores_not_wellAssigned : ¬∀ cores, WellAssigned cores := by
  intro hall
  have hrun : ∃ s, (launching twoLcores).exec (beforeLaunch twoLcores)
      [.launchWorker, .readPort 1, .dequeueBurst 1, .enqueueBurst] = some s ∧
        s.uses = [(1, 0), (0, 0)] := ⟨_, rfl, rfl⟩
  obtain ⟨s, hexec, huses⟩ := hrun
  have hsame := (hall twoLcores).unshared s ⟨_, hexec⟩ 1 0 0
    (huses ▸ by decide) (huses ▸ by decide)
  exact absurd hsame (by decide)

/-- With at most 8 workers, the ports that are polled are the first ones. -/
theorem polling_iff (hlength : cores.workers.length ≤ nbEventPorts)
    (p : Port) : Polling cores.workers.length launch p ↔
      ∃ s lcore q, (launching cores).Reachable s ∧
        s.portId lcore = some q ∧ q.toNat = p.val := by
  have hp : p.val < 8 := p.isLt
  constructor
  · rintro ⟨hlt, -⟩
    obtain ⟨lcore, hk⟩ := exists_worker hlt
    obtain ⟨s, hs, -, hread⟩ := exists_portId hk
    refine ⟨s, lcore, _, hs, hread, ?_⟩
    rw [UInt8.toNat_ofNat']
    exact Nat.mod_eq_of_lt (Nat.lt_trans hp (by decide))
  · rintro ⟨s, lcore, q, hs, hread, hq⟩
    obtain ⟨k, hk, rfl⟩ := (reachable_inv hs).worker_of_portId hread
    obtain ⟨hlt, -⟩ := List.getElem?_eq_some_iff.mp hk
    have hk256 : k < 2 ^ 8 :=
      Nat.lt_of_lt_of_le hlt (Nat.le_trans hlength (by decide))
    rw [UInt8.toNat_ofNat', Nat.mod_eq_of_lt hk256] at hq
    exact ⟨hq ▸ hlt, rfl⟩

end Ports
end Eventdev
end DpdkFolder
