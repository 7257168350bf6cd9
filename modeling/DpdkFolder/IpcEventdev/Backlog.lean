import DpdkFolder.IpcEventdev.Conservation
import DpdkFolder.Support.Recording

/-!
# How fast the pool of ipc_eventdev runs dry

In each round the primary allocates one mbuf and dequeues at most one event.
A round in which it gets nothing although events wait lets the backlog grow by
one; otherwise what is left after the round is at most the mbuf in the hand of
the secondary.  So the pool runs dry only after as many missed events and
refused enqueues as it has mbufs, up to two.
-/

namespace DpdkFolder
namespace IpcEventdev

variable {μ : Type*} {mp : MbufPool μ} {s t : State μ}
  {log : List (List (Message μ))}

/-- The events that wait when the primary polls for one and gets nothing. -/
def missedEvents (s : State μ) : Label → List (List (Message μ))
  | .primary a =>
      match s.primary, a.choice, s.stored with
      | .dequeue, none, _ :: _ => [s.stored]
      | _, _, _ => []
  | .secondary _ => []

/-- The program with a record of the missed events. -/
def observed (mp : MbufPool μ) :
    TransitionSystem (State μ × List (List (Message μ))) Label :=
  (program mp).recording missedEvents

/-- How many mbufs can be in use in this place of the loop, apart from the
backlog. -/
def PrimaryPc.share : PrimaryPc μ → ℕ
  | .alloc => 1
  | _ => 2

theorem share_le (pc : PrimaryPc μ) : pc.share ≤ 2 := by
  cases pc with
  | alloc => exact Nat.le_succ 1
  | enqueue | dequeue | free => exact le_rfl

theorem length_secondary_le (pc : SecondaryPc μ) : pc.mbufs.length ≤ 1 := by
  cases pc with
  | dequeue => exact Nat.zero_le 1
  | enqueue ev => exact le_rfl

theorem length_inUse (s : State μ) : s.inUse.length =
    s.primary.mbufs.length + s.stored.length + s.secondary.mbufs.length := by
  simp [State.inUse, Nat.add_assoc]

theorem primaryMain_inUse {a : Answer}
    (h : s.inUse.length ≤ log.length + s.primary.share)
    (hstep : primaryMain a s = some t) :
    t.inUse.length ≤
      (log ++ missedEvents s (.primary a)).length + t.primary.share := by
  rw [length_inUse] at h ⊢
  cases hpc : s.primary with
  | alloc =>
      obtain ⟨-, rfl⟩ | ⟨mbuf, pool, -, rfl⟩ := primaryMain_of_alloc hpc hstep
      · simpa [missedEvents, hpc] using h
      · simp only [hpc, PrimaryPc.mbufs, PrimaryPc.share, missedEvents,
          List.length_nil, List.length_singleton, List.append_nil] at h ⊢
        omega
  | enqueue mbuf =>
      obtain rfl := primaryMain_of_enqueue hpc hstep
      cases a.accepted <;>
        simp only [hpc, PrimaryPc.mbufs, PrimaryPc.share, missedEvents,
          List.length_nil, List.length_singleton, List.append_nil,
          List.length_append, if_true, if_false, Bool.false_eq_true] at h ⊢ <;>
        omega
  | dequeue =>
      obtain ⟨hnone, rfl⟩ | ⟨rev, stored, hchosen, hperm, rfl⟩ :=
        primaryMain_of_dequeue hpc hstep
      · have hhand := length_secondary_le s.secondary
        cases hstored : s.stored with
        | nil =>
            -- only the secondary can have an mbuf
            simp only [PrimaryPc.mbufs, PrimaryPc.share, List.length_nil,
              List.length_append]
            omega
        | cons ev rest =>
            have hmissed : missedEvents s (.primary a) = [s.stored] := by
              simp [missedEvents, hpc, hnone, hstored]
            simp only [hmissed, hstored, hpc, PrimaryPc.mbufs,
              PrimaryPc.share, List.length_append, List.length_singleton,
              List.length_nil] at h ⊢
            omega
      · have hlength := hperm.length_eq
        simp only [hpc, PrimaryPc.mbufs, PrimaryPc.share, List.length_nil,
          List.length_append, List.length_cons] at h hlength ⊢
        omega
  | free rev =>
      obtain rfl := primaryMain_of_free hpc hstep
      simp only [hpc, PrimaryPc.mbufs, PrimaryPc.share, missedEvents,
        List.length_nil, List.length_singleton, List.append_nil] at h ⊢
      omega

theorem secondaryMain_inUse {a : Answer}
    (hstep : secondaryMain a s = some t) :
    t.inUse.length ≤ s.inUse.length ∧ t.primary = s.primary := by
  rw [length_inUse, length_inUse]
  cases hpc : s.secondary with
  | dequeue =>
      obtain ⟨-, rfl⟩ | ⟨ev, stored, -, hperm, rfl⟩ :=
        secondaryMain_of_dequeue hpc hstep
      · rw [hpc]
        exact ⟨le_rfl, rfl⟩
      · have hlength := hperm.length_eq
        refine ⟨?_, rfl⟩
        simp only [SecondaryPc.mbufs, List.length_nil, List.length_cons]
          at hlength ⊢
        omega
  | enqueue ev =>
      obtain rfl := secondaryMain_of_enqueue hpc hstep
      refine ⟨?_, rfl⟩
      cases a.accepted <;>
        simp only [SecondaryPc.mbufs, List.length_nil, List.length_singleton,
          List.length_append, if_true, if_false, Bool.false_eq_true] <;>
        omega

theorem reachable_inUse (h : (observed mp).Reachable (s, log)) :
    s.inUse.length ≤ log.length + s.primary.share := by
  refine h.invariant
    (P := fun u => u.1.inUse.length ≤ u.2.length + u.1.primary.share)
    (Nat.zero_le _) ?_
  intro u l v _ hu huv
  obtain ⟨hstep, hlog⟩ := TransitionSystem.recording_step_iff.mp huv
  rw [hlog]
  cases l with
  | primary a => exact primaryMain_inUse hu hstep
  | secondary a =>
      obtain ⟨hle, hpc⟩ := secondaryMain_inUse hstep
      rw [hpc, show missedEvents u.1 (.secondary a) = [] from rfl,
        List.append_nil]
      exact hle.trans hu

/-- For every interleaving and every behaviour of the device: no more mbufs
are in use than the primary has missed events, and two, and each mbuf is in
the pool, in use or that of a refused event.  In particular
`rte_pktmbuf_alloc` cannot fail before the missed and the refused events are as
many as the mbufs, up to two. -/
theorem backlog_le {ls : List Label}
    (h : (program mp).exec (launch mp) ls = some s) :
    ∃ log, (observed mp).exec (launch mp, []) ls = some (s, log) ∧
      s.inUse.length ≤ log.length + 2 ∧
      s.pool.length + s.inUse.length + s.refused.length = numMbufs := by
  obtain ⟨log, hlog⟩ :=
    TransitionSystem.exists_recording_exec missedEvents h []
  have hreach : (observed mp).Reachable (s, log) := ⟨ls, hlog⟩
  have hshare := share_le s.primary
  have hinUse : s.inUse.length ≤ log.length + 2 :=
    (reachable_inUse hreach).trans (Nat.add_le_add_left hshare _)
  have hpool := (reachable_balanced ⟨ls, h⟩).pool_perm.length_eq
  rw [mp.length_eq, List.length_append, List.length_append] at hpool
  exact ⟨log, hlog, hinUse, hpool.symm⟩

/-- The primary misses its first request, and the secondary answers it. -/
def missedRun : List Label :=
  [.primary (.place 0), .primary .accepting, .primary .accepting,
    .secondary (.place 0), .primary (.place 0), .secondary .refusing,
    .primary .accepting]

theorem backlog_le_missedRun : ∃ s log,
    (observed numberedPool).exec (launch numberedPool, []) missedRun =
      some (s, log) ∧ log.length = 1 ∧ s.inUse.length ≤ log.length + 2 ∧
      s.pool.length + s.inUse.length + s.refused.length = numMbufs := by
  have hend : ∃ s log,
      (program numberedPool).exec (launch numberedPool) missedRun = some s ∧
      (observed numberedPool).exec (launch numberedPool, []) missedRun =
        some (s, log) ∧ log.length = 1 := ⟨_, _, rfl, rfl, rfl⟩
  obtain ⟨s, log, hexec, hlog, hlength⟩ := hend
  obtain ⟨log', hlog', hbacklog⟩ := backlog_le hexec
  rw [hlog] at hlog'
  cases hlog'
  exact ⟨s, log, hlog, hlength, hbacklog⟩

end IpcEventdev
end DpdkFolder
