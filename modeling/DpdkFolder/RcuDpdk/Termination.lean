import Mathlib.Algebra.Order.BigOperators.Group.Finset
import Mathlib.Data.Prod.Lex
import DpdkFolder.RcuDpdk.Invariant
import DpdkFolder.Support.Fairness

/-!
# The writer is never starved

`rte_rcu_qsbr_synchronize` looks at one registered thread after another and
stays with a thread until it passes, and `rte_eal_mp_wait_lcore` waits for
the readers.  `lcores` is the system with the readers `Fin n` in which the
main lcore polls in that order; each of its steps is one of `rcu`, so that
what is known of `rcu` holds here.

A reader that is running passes after a few more steps of its own: after its
next report it has seen the new token, and from then on it stays ahead.  The
token of the synchronization may overtake a report that is under way, and a
thread that has not registered yet passes and later may not, but neither can
happen twice.  So every synchronization ends if only every lcore keeps
running, and with the last one the whole program does.
-/

namespace DpdkFolder
namespace RcuDpdk

/-- The lcores: those of the readers and the main one. -/
inductive Lcore (n : ℕ)
  | worker (r : Fin n)
  | main
deriving DecidableEq, Repr

variable {n : ℕ}

/-- The reader at which a synchronization has to look next. -/
def polled (s : State (Fin n)) : Option (Fin n) :=
  (List.finRange n).find? fun r => !s.checked r

/-- One step of the main lcore. -/
def mainStep (rounds : ℕ) (s : State (Fin n)) : Option (State (Fin n)) :=
  match s.writer with
  | .syncCheck _ _ _ =>
      match polled s with
      | some r => checkReader s r
      | none => writer rounds s
  | _ => writer rounds s

/-- The readers and the main lcore, which polls the readers in order. -/
def lcores (n rounds : ℕ) : TransitionSystem (State (Fin n)) (Lcore n) where
  start := launch (Fin n)
  step s
    | .worker r => reader s r
    | .main => mainStep rounds s

/-! ## The steps are those of the unordered system -/

theorem exists_label {rounds : ℕ} {s t : State (Fin n)} {l : Lcore n}
    (hstep : (lcores n rounds).step s l = some t) :
    ∃ a, step rounds s a = some t := by
  cases l with
  | worker r => exact ⟨.reader r, hstep⟩
  | main =>
      change mainStep rounds s = some t at hstep
      unfold mainStep at hstep
      split at hstep
      · split at hstep
        · next r _ => exact ⟨.check r, hstep⟩
        · exact ⟨.writer, hstep⟩
      · exact ⟨.writer, hstep⟩

/-- Every state that `lcores` reaches is one that `rcu` reaches. -/
theorem reachable_rcu {rounds : ℕ} {s : State (Fin n)}
    (h : (lcores n rounds).Reachable s) :
    (rcu (Fin n) rounds).Reachable s :=
  TransitionSystem.Reachable.of_steps (T := lcores n rounds)
    (U := rcu (Fin n) rounds) rfl (fun _ _ _ hstep => exists_label hstep) h

/-! ## What threads that have left and the stop flag tell -/

/-- A thread that has returned is not registered, the readers are told to
stop before the main lcore waits for them, and nothing is allocated from
then on. -/
structure Settled (rounds : ℕ) (s : State (Fin n)) : Prop where
  gone : ∀ r, s.readers r = .returned → s.qsbr.registered r = false
  stopped : s.writer = .waitLcores → s.stop = true
  allocated : s.writer = .returned → s.heap.next = rounds + 1

theorem settled_launch (rounds : ℕ) : Settled rounds (launch (Fin n)) where
  gone := fun _ h => absurd h (by simp [launch])
  stopped := fun h => absurd h (by simp [launch])
  allocated := fun h => absurd h (by simp [launch])

theorem registered_of_returned {s t : State (Fin n)} {r : Fin n}
    (hstep : reader s r = some t) (hpc : t.readers r = .returned) :
    t.qsbr.registered r = false := by
  cases hs : s.readers r <;> simp only [reader, hs] at hstep <;> cases hstep
  case unregister => simp [Qsbr.unregister]
  case testStop =>
    by_cases hstop : s.stop <;> simp [State.setReader, hstop] at hpc
  all_goals simp [State.setReader] at hpc

theorem reader_settled {rounds : ℕ} {s t : State (Fin n)} {r : Fin n}
    (h : Settled rounds s) (hstep : reader s r = some t) :
    Settled rounds t := by
  obtain ⟨hframe, -⟩ := reader_frame hstep
  have hstop : t.stop = s.stop := by
    cases hpc : s.readers r <;> simp only [reader, hpc] at hstep <;>
      cases hstep <;> rfl
  refine ⟨?_, ?_, ?_⟩
  · intro q hq
    by_cases hqr : q = r
    · subst hqr
      exact registered_of_returned hstep hq
    · rw [hframe.registered q hqr]
      exact h.gone q ((hframe.readers q hqr).symm.trans hq)
  · intro hw
    rw [hstop]
    exact h.stopped (hframe.writer.symm.trans hw)
  · intro hw
    rw [hframe.heap]
    exact h.allocated (hframe.writer.symm.trans hw)

theorem checkReader_eq {s t : State (Fin n)} {r : Fin n}
    (hstep : checkReader s r = some t) :
    (∃ i old token, s.writer = .syncCheck i old token ∧
      s.qsbr.Passes token r) ∧
      t = { s with checked := Function.update s.checked r true } := by
  cases hw : s.writer with
  | syncCheck i old token =>
      simp only [checkReader, hw] at hstep
      split at hstep
      case isTrue hpasses =>
        cases hstep
        exact ⟨⟨i, old, token, rfl, hpasses⟩, rfl⟩
      case isFalse => cases hstep
  | _ => simp [checkReader, hw] at hstep

theorem writer_settled {rounds : ℕ} {s t : State (Fin n)}
    (hinv : Inv rounds s) (h : Settled rounds s)
    (hstep : writer rounds s = some t) : Settled rounds t := by
  have hwriter := hinv.writer
  cases hw : s.writer with
  | loopHead i =>
      simp only [writer, hw] at hstep
      split at hstep
      · cases hstep
        exact ⟨h.gone, fun h' => (by cases h'), fun h' => (by cases h')⟩
      · cases hstep
        exact ⟨h.gone, fun _ => rfl, fun h' => (by cases h')⟩
  | freeData =>
      simp only [WriterOk, hw] at hwriter
      simp only [writer, hw, Option.some.injEq] at hstep
      subst hstep
      refine ⟨h.gone, fun h' => (by cases h'), fun _ => ?_⟩
      rw [AllocHeap.next_free]
      exact hwriter.1.2.2.2.1
  | syncCheck i old token | waitLcores =>
      simp only [writer, hw] at hstep
      split at hstep
      · cases hstep
        exact ⟨h.gone, fun h' => (by cases h'), fun h' => (by cases h')⟩
      · cases hstep
  | returned => simp [writer, hw] at hstep
  | _ =>
      simp only [writer, hw, Option.some.injEq] at hstep
      subst hstep
      exact ⟨h.gone, fun h' => (by cases h'), fun h' => (by cases h')⟩

theorem reachable_settled {rounds : ℕ} {s : State (Fin n)}
    (h : (rcu (Fin n) rounds).Reachable s) : Settled rounds s := by
  refine h.invariant (P := Settled rounds) (settled_launch rounds) ?_
  intro s a t hreach hs hstep
  cases a with
  | reader r => exact reader_settled hs hstep
  | writer => exact writer_settled (reachable_inv hreach) hs hstep
  | check r =>
      obtain ⟨-, rfl⟩ := checkReader_eq hstep
      exact ⟨hs.gone, hs.stopped, hs.allocated⟩

/-! ## How far a reader is from passing -/

/-- How many steps of a reader with the counter `cnt` it takes until it passes
the synchronization for the token `t` and goes on to pass. -/
def ReaderPc.distance (t cnt : ℕ) : ReaderPc → ℕ
  | .register => 10
  | .onlineLoad => 9
  | .onlineStore token => if t ≤ token then 1 else 8
  | .testStop => if t ≤ cnt then 0 else 6
  | .loadData => if t ≤ cnt then 0 else 5
  | .deref _ => if t ≤ cnt then 0 else 4
  | .quiescentLoad => if t ≤ cnt then 0 else 3
  -- a token loaded before the synchronization began is of no use
  | .quiescentStore token =>
      if t ≤ token then (if t ≤ cnt then 0 else 2) else 7
  | .offline => if t ≤ cnt then 0 else 2
  | .unregister => if cnt = cntThrOffline then 0 else 1
  | .returned => 0

/-- How many steps a reader has before it once it has been told to stop. -/
def ReaderPc.remaining : ReaderPc → ℕ
  | .register => 10
  | .onlineLoad => 9
  | .onlineStore _ => 8
  | .testStop => 3
  | .loadData => 7
  | .deref _ => 6
  | .quiescentLoad => 5
  | .quiescentStore _ => 4
  | .offline => 2
  | .unregister => 1
  | .returned => 0

/-- A step of a reader brings it nearer to passing, or it passes and keeps
doing so. -/
theorem reader_distance {s t : State (Fin n)} {r : Fin n} {token : ℕ}
    (htoken : token ≤ s.qsbr.token) (hstep : reader s r = some t) :
    (t.readers r).distance token (t.qsbr.cnt r) <
        (s.readers r).distance token (s.qsbr.cnt r) ∨
      (t.readers r).distance token (t.qsbr.cnt r) = 0 ∧
        (s.readers r).distance token (s.qsbr.cnt r) = 0 := by
  cases hpc : s.readers r <;> simp only [reader, hpc] at hstep <;>
    cases hstep
  case testStop =>
    by_cases hs : s.stop <;> by_cases hcnt : token ≤ s.qsbr.cnt r <;>
      simp [State.setReader, ReaderPc.distance, hs, hcnt]
  case onlineStore loaded =>
    by_cases hle : token ≤ loaded <;>
      simp [State.setReader, ReaderPc.distance, hle]
  case quiescentStore loaded =>
    by_cases hle : token ≤ loaded <;>
      by_cases hcnt : token ≤ s.qsbr.cnt r <;>
      simp [State.setReader, ReaderPc.distance, hle, hcnt]
  case offline =>
    by_cases hcnt : token ≤ s.qsbr.cnt r <;>
      simp [State.setReader, ReaderPc.distance, hcnt]
  case unregister =>
    by_cases hcnt : s.qsbr.cnt r = cntThrOffline <;>
      simp [State.setReader, ReaderPc.distance, hcnt]
  all_goals
    by_cases hcnt : token ≤ s.qsbr.cnt r <;>
      simp [State.setReader, ReaderPc.distance, hcnt, htoken]

theorem passes_of_distance {s : State (Fin n)} {rounds token : ℕ}
    {r : Fin n} (h : Settled rounds s)
    (hzero : (s.readers r).distance token (s.qsbr.cnt r) = 0) :
    s.qsbr.Passes token r := by
  have hahead : token ≤ s.qsbr.cnt r → s.qsbr.Passes token r :=
    fun hle => Or.inr (Or.inr hle)
  cases hpc : s.readers r <;> rw [hpc] at hzero <;>
    simp only [ReaderPc.distance] at hzero
  case unregister =>
    split at hzero
    · next hoffline => exact Or.inr (Or.inl hoffline)
    · cases hzero
  case returned => exact Or.inl (h.gone r hpc)
  case quiescentStore =>
    split at hzero
    · split at hzero
      · next hle => exact hahead hle
      · cases hzero
    · cases hzero
  case register | onlineLoad => cases hzero
  case onlineStore => split at hzero <;> cases hzero
  all_goals
    split at hzero
    · next hle => exact hahead hle
    · cases hzero

theorem reader_remaining {s t : State (Fin n)} {r : Fin n}
    (hstop : s.stop = true) (hstep : reader s r = some t) :
    (t.readers r).remaining < (s.readers r).remaining := by
  cases hpc : s.readers r <;> simp only [reader, hpc] at hstep <;>
    cases hstep <;> simp [State.setReader, ReaderPc.remaining, hstop]

/-! ## The rank -/

/-- How far the main lcore has come. -/
def WriterPc.remaining (rounds : ℕ) : WriterPc → ℕ
  | .loopHead i => 5 * (rounds - i) + 4
  | .exchange i _ => 5 * (rounds - i) + 3
  | .syncStart i _ => 5 * (rounds - i) + 2
  | .syncCheck i _ _ => 5 * (rounds - i) + 1
  | .freeOld i _ => 5 * (rounds - i)
  | .waitLcores => 2
  | .freeData => 1
  | .returned => 0

/-- The readers at which the synchronization has not looked. -/
def unchecked (s : State (Fin n)) : Finset (Fin n) :=
  Finset.univ.filter fun r => s.checked r = false

/-- What the main lcore still waits for at the point where it stands. -/
def awaited (s : State (Fin n)) : ℕ :=
  match s.writer with
  | .syncCheck _ _ _ => (unchecked s).card
  | .waitLcores => ∑ r, (s.readers r).remaining
  | _ => 0

/-- How far the reader is from passing at which the main lcore looks. -/
def pollDistance (s : State (Fin n)) : ℕ :=
  match s.writer with
  | .syncCheck _ _ token =>
      match polled s with
      | some r => (s.readers r).distance token (s.qsbr.cnt r)
      | none => 0
  | _ => 0

def rank (rounds : ℕ) (s : State (Fin n)) : ℕ ×ₗ ℕ ×ₗ ℕ :=
  toLex (s.writer.remaining rounds, toLex (awaited s, pollDistance s))

/-- The lcore whose next step lowers the rank. -/
def helper (s : State (Fin n)) : Lcore n :=
  match s.writer with
  | .syncCheck _ _ _ =>
      match polled s with
      | some r => if pollDistance s = 0 then .main else .worker r
      | none => .main
  | .waitLcores =>
      match (List.finRange n).find? fun r => s.readers r ≠ .returned with
      | some r => .worker r
      | none => .main
  | _ => .main

theorem polled_eq_none {s : State (Fin n)} :
    polled s = none ↔ ∀ r, s.checked r = true := by
  simp [polled]

theorem checked_of_polled {s : State (Fin n)} {r : Fin n}
    (h : polled s = some r) : s.checked r = false := by
  have hfound := List.find?_some h
  simpa using hfound

/-- Every step of the main lcore lowers the rank. -/
theorem mainStep_rank {rounds : ℕ} {s t : State (Fin n)}
    (hinv : Inv rounds s) (hstep : mainStep rounds s = some t) :
    rank rounds t < rank rounds s := by
  have hlower : t.writer.remaining rounds < s.writer.remaining rounds →
      rank rounds t < rank rounds s := by
    intro hlt
    rw [rank, rank, Prod.Lex.toLex_lt_toLex]
    exact Or.inl hlt
  have hwriter := hinv.writer
  cases hw : s.writer with
  | syncCheck i old token =>
      simp only [mainStep, hw] at hstep
      cases hpoll : polled s with
      | some r =>
          rw [hpoll] at hstep
          obtain ⟨-, rfl⟩ := checkReader_eq hstep
          have hmem : r ∈ unchecked s := by
            simp [unchecked, checked_of_polled hpoll]
          have hfewer : unchecked { s with
              checked := Function.update s.checked r true } =
              (unchecked s).erase r := by
            ext q
            by_cases hq : q = r
            · simp [unchecked, hq]
            · simp [unchecked, hq]
          have hcard : (unchecked { s with
              checked := Function.update s.checked r true }).card <
              (unchecked s).card := by
            rw [hfewer]
            exact Finset.card_erase_lt_of_mem hmem
          rw [rank, rank, Prod.Lex.toLex_lt_toLex]
          refine Or.inr ⟨by simp only [hw], ?_⟩
          rw [Prod.Lex.toLex_lt_toLex]
          left
          simpa only [awaited, hw] using hcard
      | none =>
          rw [hpoll] at hstep
          simp only [writer, hw] at hstep
          split at hstep
          · cases hstep
            apply hlower
            simp only [hw, WriterPc.remaining]
            omega
          · cases hstep
  | loopHead i =>
      simp only [mainStep, writer, hw] at hstep
      split at hstep
      · cases hstep
        apply hlower
        simp only [hw, WriterPc.remaining]
        omega
      · cases hstep
        apply hlower
        simp only [hw, WriterPc.remaining]
        omega
  | freeOld i old =>
      simp only [WriterOk, hw] at hwriter
      simp only [mainStep, writer, hw, Option.some.injEq] at hstep
      subst hstep
      apply hlower
      simp only [hw, WriterPc.remaining]
      omega
  | waitLcores =>
      simp only [mainStep, writer, hw] at hstep
      split at hstep
      · cases hstep
        apply hlower
        simp [hw, WriterPc.remaining]
      · cases hstep
  | returned => simp [mainStep, writer, hw] at hstep
  | _ =>
      simp only [mainStep, writer, hw, Option.some.injEq] at hstep
      subst hstep
      apply hlower
      simp [hw, WriterPc.remaining]

/-- A step of a reader lowers the rank, or it was not the one waited for and
changes nothing in that. -/
theorem reader_rank {rounds : ℕ} {s t : State (Fin n)} {r : Fin n}
    (hinv : Inv rounds s) (h : Settled rounds s)
    (hstep : reader s r = some t) :
    rank rounds t < rank rounds s ∨
      (rank rounds t = rank rounds s ∧ helper t = helper s ∧
        Lcore.worker r ≠ helper s) := by
  obtain ⟨hframe, -⟩ := reader_frame hstep
  have hwriter := hinv.writer
  have hpolled : polled t = polled s := by
    rw [polled, polled, hframe.checked]
  have hidle : (∀ i old token, s.writer ≠ .syncCheck i old token) →
      s.writer ≠ .waitLcores → rank rounds t = rank rounds s ∧
        helper t = helper s ∧ Lcore.worker r ≠ helper s := by
    intro hsync hwait
    cases hw : s.writer with
    | syncCheck i old token => exact absurd hw (hsync i old token)
    | waitLcores => exact absurd hw hwait
    | _ =>
        simp [rank, helper, awaited, pollDistance, hframe.writer, hw]
  cases hw : s.writer with
  | syncCheck i old token =>
      have htoken : token ≤ s.qsbr.token := by
        simp only [WriterOk, hw] at hwriter
        exact Nat.le_of_eq hwriter.2.2.1
      have hunchecked : unchecked t = unchecked s := by
        rw [unchecked, unchecked, hframe.checked]
      simp only [rank, helper, awaited, pollDistance, hframe.writer, hw,
        hpolled, hunchecked]
      cases hpoll : polled s with
      | none => exact Or.inr ⟨rfl, rfl, by simp⟩
      | some q =>
          by_cases hq : q = r
          · subst hq
            rcases reader_distance htoken hstep with hlt | ⟨hzero', hzero⟩
            · left
              simp only [Prod.Lex.toLex_lt_toLex]
              exact Or.inr ⟨trivial, Or.inr ⟨trivial, hlt⟩⟩
            · right
              simp [hzero, hzero']
          · right
            simp only [hframe.readers q hq, hframe.cnt q hq, true_and]
            split
            · simp
            · simpa using fun heq => hq heq.symm
  | waitLcores =>
      left
      have hlt := reader_remaining (h.stopped hw) hstep
      have hsum : ∑ q, (t.readers q).remaining <
          ∑ q, (s.readers q).remaining := by
        refine Finset.sum_lt_sum ?_ ⟨r, Finset.mem_univ r, hlt⟩
        intro q _
        by_cases hq : q = r
        · exact hq ▸ hlt.le
        · rw [hframe.readers q hq]
      simp only [rank, awaited, hframe.writer, hw, Prod.Lex.toLex_lt_toLex]
      exact Or.inr ⟨trivial, Or.inl hsum⟩
  | _ =>
      exact Or.inr (hidle (fun _ _ _ h' => by rw [hw] at h'; cases h')
        (fun h' => by rw [hw] at h'; cases h'))

/-! ## Nobody waits in vain -/

theorem reader_ne_none {s : State (Fin n)} {r : Fin n}
    (h : s.readers r ≠ .returned) : reader s r ≠ none := by
  unfold reader
  cases hpc : s.readers r with
  | returned => exact absurd hpc h
  | _ => exact Option.some_ne_none _

/-- The helper can move as long as the main lcore has not returned. -/
theorem helper_enabled {rounds : ℕ} {s : State (Fin n)}
    (h : Settled rounds s) (hmain : s.writer ≠ .returned) :
    (lcores n rounds).step s (helper s) ≠ none := by
  cases hw : s.writer with
  | syncCheck i old token =>
      cases hpoll : polled s with
      | none =>
          have hhelper : helper s = .main := by simp only [helper, hw, hpoll]
          have hall := polled_eq_none.mp hpoll
          rw [hhelper]
          change mainStep rounds s ≠ none
          simp [mainStep, writer, hw, hpoll, hall]
      | some r =>
          by_cases hzero : pollDistance s = 0
          · have hhelper : helper s = .main := by
              simp only [helper, hw, hpoll, hzero, if_true]
            simp only [pollDistance, hw, hpoll] at hzero
            have hpasses := passes_of_distance h hzero
            rw [hhelper]
            change mainStep rounds s ≠ none
            simp [mainStep, checkReader, hw, hpoll, hpasses]
          · have hhelper : helper s = .worker r := by
              simp only [helper, hw, hpoll, hzero, if_false]
            rw [hhelper]
            refine reader_ne_none fun hpc => hzero ?_
            simp only [pollDistance, hw, hpoll, hpc, ReaderPc.distance]
  | waitLcores =>
      cases hfind : (List.finRange n).find?
          fun r => s.readers r ≠ .returned with
      | none =>
          have hhelper : helper s = .main := by simp only [helper, hw, hfind]
          have hall : ∀ r, s.readers r = .returned := by simpa using hfind
          rw [hhelper]
          change mainStep rounds s ≠ none
          simp [mainStep, writer, hw, hall]
      | some r =>
          have hhelper : helper s = .worker r := by
            simp only [helper, hw, hfind]
          have hfound := List.find?_some hfind
          rw [hhelper]
          exact reader_ne_none (by simpa using hfound)
  | returned => exact absurd hw hmain
  | loopHead i =>
      have hhelper : helper s = .main := by simp only [helper, hw]
      rw [hhelper]
      change mainStep rounds s ≠ none
      simp only [mainStep, writer, hw]
      split <;> exact Option.some_ne_none _
  | _ =>
      have hhelper : helper s = .main := by simp only [helper, hw]
      rw [hhelper]
      change mainStep rounds s ≠ none
      simp [mainStep, writer, hw]

theorem leadsTo_returned (n rounds : ℕ) :
    (lcores n rounds).LeadsTo id (fun s => s.writer ≠ .returned)
      fun s => s.writer = .returned := by
  refine TransitionSystem.leadsTo_of_helper (rank rounds) helper ?_ ?_
  · rintro s l hreach hmain rfl
    exact helper_enabled (reachable_settled (reachable_rcu hreach)) hmain
  · intro s l t hreach hmain hstep
    have hinv := reachable_inv (reachable_rcu hreach)
    refine (em (t.writer = .returned)).imp_right fun ht => ⟨ht, ?_⟩
    cases l with
    | main => exact Or.inl (mainStep_rank hinv hstep)
    | worker r =>
        exact reader_rank hinv (reachable_settled (reachable_rcu hreach))
          hstep

/-- `main` does not go on after its return. -/
theorem returned_step {l : Lcore n} (h : s.writer = .returned)
    (hstep : (lcores n rounds).step s l = some t) : t.writer = .returned := by
  cases l with
  | worker r => rw [(reader_frame hstep).1.writer, h]
  | main =>
      change mainStep rounds s = some t at hstep
      simp [mainStep, writer, h] at hstep

/-- `main` has returned after all readers, and of the versions that were
allocated each has been freed once, the last one by `main`. -/
structure Completed (rounds : ℕ) (s : State (Fin n)) : Prop where
  writer : s.writer = .returned
  readers : ∀ r, s.readers r = .returned
  allocated : s.heap.next = rounds + 1
  freed : s.heap.freed =
    AllocHeap.freedInOrder (fun _ => .writer) rounds ++ [(.cleanup, rounds)]

/-- For every number of readers, every number of writer iterations and every
schedule that runs each lcore again and again there is a moment from which on
the program is over. -/
theorem lcores_terminate (n rounds : ℕ) {sched : ℕ → Lcore n}
    (hfair : TransitionSystem.Fair id sched) :
    ∃ k, ∀ m, k ≤ m → Completed rounds ((lcores n rounds).along sched m) := by
  obtain ⟨k, hk⟩ := (leadsTo_returned n rounds).settles
    (by simp [lcores, launch])
    (fun s l t _ hs hstep => returned_step hs hstep) hfair
  refine ⟨k, fun m hle => ?_⟩
  obtain ⟨hreach, hmain⟩ := hk m hle
  have hwriter := (reachable_inv (reachable_rcu hreach)).writer
  simp only [WriterOk, hmain] at hwriter
  exact ⟨hmain, hwriter.2.2.2,
    (reachable_settled (reachable_rcu hreach)).allocated hmain,
    hwriter.2.1⟩

/-- The two readers and the main lcore in turn. -/
def inTurn : ℕ → Lcore 2 :=
  TransitionSystem.roundRobin ((List.finRange 2).map .worker ++ [.main])
    (by simp)

theorem lcores_terminate_inTurn :
    ∃ k, ∀ m, k ≤ m → Completed 5 ((lcores 2 5).along inTurn m) := by
  refine lcores_terminate 2 5 (TransitionSystem.fair_roundRobin _ ?_)
  intro l
  refine ⟨l, ?_, rfl⟩
  cases l <;> simp

end RcuDpdk
end DpdkFolder
