import DpdkFolder.Dpdk.ReorderInserts
import DpdkFolder.ReorderPacket.Model
import DpdkFolder.Support.Custody

/-!
# What is left in the reorder buffer

An empty burst ends the drain loop, but it does not mean that the buffer is
empty: a packet behind a missing one stays in it and is never freed.  Neither
is a packet whose pointer a second one with its sequence number writes over,
nor one that is moved to the ready buffer when that is full.  Everything else
is printed in order and freed once.
-/

namespace DpdkFolder
namespace ReorderPacket

open RteReorderBuffer

variable {p : Program}

/-- The accepted packets have been printed in order, every packet has been
freed once, the rejected ones when they were rejected and the accepted ones
when they were drained, and none is left. -/
structure CompletelyDrained (s : State p) : Prop where
  increasing : s.printed.IsChain (Ahead (2 * 2 ^ p.sizeLog))
  printedAll : s.printed.Perm (s.accepted.map Mbuf.seqn)
  createdOnce : s.created.Nodup
  freedOnce : (s.rejected ++ s.drained).Perm s.created
  drainedAll : s.drained.Perm s.accepted
  noneLeft : s.buf.held = []

/-- The program terminates, and then the buffer is completely drained. -/
def Drains (p : Program) (arrivals : List Arrival) : Prop :=
  ∃ s, (∃ n, ∀ fuel ≥ n, main p fuel arrivals = some s) ∧ CompletelyDrained s

/-- An arrival for which there is memory does not have the number of a packet
that is in the window. -/
def NumberUnused (s : State p) (a : Arrival) : Prop :=
  a.memory.isSome → Unused Mbuf.seqn s.buf a.seq

/-- An arrival for which there is memory does not move the window so far that
a packet in it overflows the ready buffer. -/
def ReadyBufFits (s : State p) (a : Arrival) : Prop :=
  a.memory.isSome → ¬s.buf.Overflows a.seq

/-! ## The loop that inserts -/

/-- What holds between two turns of the loop that inserts. -/
structure Inserting (s : State p) : Prop where
  ids : s.created.map Mbuf.id = List.range s.created.length
  output : ∀ m ∈ s.created, p.outputSeq m = m.seqn
  decided : s.created.Perm (s.rejected ++ s.accepted)
  account : s.accepted.Perm s.buf.account
  inOrder : s.buf.lost = [] → ∃ base past,
    InOrder Mbuf.seqn (readyBufFull p.sizeLog) s.buf base past

theorem createPacket_eq_some {s : State p} {a : Arrival} {m : Mbuf}
    (h : createPacket p s a = some m) :
    m.id = s.created.length ∧ m.seqn = a.seq ∧ p.outputSeq m = m.seqn := by
  rw [createPacket, rtePktmbufAlloc, Option.map_map,
    Option.map_eq_some_iff] at h
  obtain ⟨m', -, rfl⟩ := h
  refine ⟨p.id_fillPacket _ _, p.seqn_fillPacket _ _, ?_⟩
  exact (p.outputSeq_fillPacket _ _).trans (p.seqn_fillPacket _ _).symm

theorem createPacket_isSome (s : State p) (a : Arrival) :
    (createPacket p s a).isSome = a.memory.isSome := by
  rw [createPacket, rtePktmbufAlloc, Option.map_map, Option.isSome_map]

theorem insertPacket_of_none {s : State p} {a : Arrival}
    (h : createPacket p s a = none) : insertPacket p s a = s := by
  rw [insertPacket, h]

/-- One turn adds the packet to those rejected or to those accepted. -/
theorem insertPacket_of_some {s : State p} {a : Arrival} {m : Mbuf}
    (h : createPacket p s a = some m) : insertPacket p s a =
      let r := rteReorderInsert Mbuf.seqn (readyBufFull p.sizeLog) m s.buf
      { s with
        buf := r.2
        created := s.created ++ [m]
        rejected := s.rejected ++ if r.1 < 0 then [m] else []
        accepted := s.accepted ++ if r.1 < 0 then [] else [m] } := by
  rw [insertPacket, h]
  by_cases hret :
      (rteReorderInsert Mbuf.seqn (readyBufFull p.sizeLog) m s.buf).1 < 0
  · simp [hret]
  · simp [hret]

theorem inserting_launch (p : Program) : Inserting (launch p) := by
  refine ⟨rfl, ?_, List.Perm.refl _, ?_, fun _ =>
    ⟨0, [], inOrder_create _ _⟩⟩
  · exact fun m hm => absurd hm List.not_mem_nil
  · rw [launch, account_create]

theorem Inserting.insertPacket {s : State p} (h : Inserting s) (a : Arrival) :
    Inserting (insertPacket p s a) := by
  cases hcreate : createPacket p s a with
  | none =>
      rw [insertPacket_of_none hcreate]
      exact h
  | some m =>
      obtain ⟨hid, -, houtput⟩ := createPacket_eq_some hcreate
      have haccount := account_rteReorderInsert Mbuf.seqn
        (readyBufFull p.sizeLog) m s.buf
      rw [insertPacket_of_some hcreate]
      refine ⟨?_, ?_, ?_, ?_, ?_⟩
      · simp only [List.map_append, List.map_singleton, h.ids, hid,
          List.length_append, List.length_singleton, List.range_succ]
      · intro m' hm'
        rcases List.mem_append.mp hm' with hold | hnew
        · exact h.output m' hold
        · rw [List.mem_singleton.mp hnew]
          exact houtput
      · have hdecided := h.decided.append_right [m]
        refine hdecided.trans ?_
        simp only
        split
        · rw [List.append_nil, List.append_assoc, List.append_assoc]
          exact List.Perm.append_left _ List.perm_append_comm
        · rw [List.append_nil, List.append_assoc]
      · simp only
        split at haccount
        · next hret =>
            rw [if_pos hret, List.append_nil]
            exact h.account.trans haccount.symm
        · next hret =>
            rw [if_neg hret]
            exact ((List.perm_append_singleton m _).trans
              (h.account.cons m)).trans haccount.symm
      · intro hlost
        obtain ⟨hbefore, hkept⟩ := lost_insert_eq_nil_iff.mp hlost
        obtain ⟨base, past, horder⟩ := h.inOrder hbefore
        exact horder.insert m hkept

/-- A packet is lost exactly where the arrival has its number or makes it
overflow the ready buffer. -/
theorem lost_insertPacket {s : State p} (h : Inserting s) (a : Arrival) :
    (insertPacket p s a).buf.lost = [] ↔
      s.buf.lost = [] ∧ NumberUnused s a ∧ ReadyBufFits s a := by
  rw [NumberUnused, ReadyBufFits, ← createPacket_isSome s a]
  cases hcreate : createPacket p s a with
  | none =>
      rw [insertPacket_of_none hcreate]
      simp
  | some m =>
      obtain ⟨-, hseqn, -⟩ := createPacket_eq_some hcreate
      rw [insertPacket_of_some hcreate]
      simp only [lost_insert_eq_nil_iff, Option.isSome_some, forall_const]
      refine and_congr_right fun hlost => ?_
      obtain ⟨base, past, horder⟩ := h.inOrder hlost
      rw [horder.toAnchored.lost_insert_readyBufFull_iff p.sizeLog_lt m, hseqn]

theorem exec_inserts (s : State p) (arrivals : List Arrival) :
    (inserts p).exec s arrivals =
      some (arrivals.foldl (insertPacket p) s) := by
  induction arrivals generalizing s with
  | nil => rfl
  | cons a arrivals ih =>
      rw [TransitionSystem.exec_cons, List.foldl_cons]
      exact ih _

theorem inserting_of_reachable {s : State p} (h : (inserts p).Reachable s) :
    Inserting s := by
  refine h.invariant (P := Inserting) (inserting_launch p) ?_
  intro s a t _ hs hstep
  rw [← Option.some.inj hstep]
  exact hs.insertPacket a

theorem inserting_insertAll (p : Program) (arrivals : List Arrival) :
    Inserting (insertAll p arrivals) :=
  inserting_of_reachable ⟨arrivals, exec_inserts _ arrivals⟩

/-- No packet has been lost exactly if no arrival had the number of a packet
in the window or made one overflow the ready buffer. -/
theorem meetsAlong_iff_lost (p : Program) (arrivals : List Arrival) :
    (inserts p).MeetsAlong (fun s a => NumberUnused s a ∧ ReadyBufFits s a)
        (launch p) arrivals ↔
      (insertAll p arrivals).buf.lost = [] := by
  have hstep : ∀ s a t, (inserts p).Reachable s →
      (inserts p).step s a = some t →
      (t.buf.lost = [] ↔
        s.buf.lost = [] ∧ NumberUnused s a ∧ ReadyBufFits s a) := by
    intro s a t hreach hstep
    rw [← Option.some.inj hstep]
    exact lost_insertPacket (inserting_of_reachable hreach) a
  have hstart : (inserts p).start.buf.lost = [] := rfl
  exact TransitionSystem.meetsAlong_iff_kept hstep
    TransitionSystem.reachable_start hstart (exec_inserts _ arrivals)

/-! ## The loop that drains -/

/-- What holds between two turns of the loop that drains, which began in the
state `start`. -/
structure Draining (start s : State p) : Prop where
  created_eq : s.created = start.created
  accepted_eq : s.accepted = start.accepted
  rejected_eq : s.rejected = start.rejected
  drained_append : start.buf.held = s.drained ++ s.buf.held
  printed_eq : s.printed = s.drained.map p.outputSeq
  lost_eq : s.buf.lost = start.buf.lost
  gapless_iff : s.buf.orderBuf.Gapless ↔ start.buf.orderBuf.Gapless
  stopped : s.draining = false →
    s.buf.readyBuf = [] ∧ s.buf.orderBuf.get 0 = none

theorem drainBurst_of_nil {s : State p}
    (h : (rteReorderDrain burst s.buf).1 = []) :
    drainBurst p s = { s with draining := false } := by
  have hsame := (rteReorderDrain_of_nil (Nat.succ_pos 31) h).2.2
  change (rteReorderDrain burst s.buf).2 = s.buf at hsame
  rw [drainBurst]
  simp only [h, List.length_nil, if_true, hsame]

theorem drainBurst_of_ne_nil {s : State p}
    (h : (rteReorderDrain burst s.buf).1 ≠ []) :
    drainBurst p s = { s with
      buf := (rteReorderDrain burst s.buf).2
      drained := s.drained ++ (rteReorderDrain burst s.buf).1
      printed := s.printed ++
        (rteReorderDrain burst s.buf).1.map p.outputSeq } := by
  have hlength : ¬(rteReorderDrain burst s.buf).1.length = 0 := fun hzero =>
    h (List.eq_nil_of_length_eq_zero hzero)
  rw [drainBurst]
  simp only [hlength, if_false]

theorem draining_start {s : State p} (hdrained : s.drained = [])
    (hprinted : s.printed = []) (hgo : s.draining = true) :
    Draining s s := by
  refine ⟨rfl, rfl, rfl, ?_, ?_, rfl, Iff.rfl, ?_⟩
  · rw [hdrained, List.nil_append]
  · rw [hdrained, hprinted, List.map_nil]
  · exact fun hstop => absurd (hgo.symm.trans hstop) Bool.true_eq_false.mp

theorem Draining.drainBurst {start s : State p} (h : Draining start s)
    (hgo : s.draining = true) : Draining start (drainBurst p s) := by
  by_cases hempty : (rteReorderDrain burst s.buf).1 = []
  · obtain ⟨hready, hhead, -⟩ :=
      rteReorderDrain_of_nil (Nat.succ_pos 31) hempty
    rw [drainBurst_of_nil hempty]
    exact ⟨h.created_eq, h.accepted_eq, h.rejected_eq, h.drained_append,
      h.printed_eq, h.lost_eq, h.gapless_iff, fun _ => ⟨hready, hhead⟩⟩
  · rw [drainBurst_of_ne_nil hempty]
    refine ⟨h.created_eq, h.accepted_eq, h.rejected_eq, ?_, ?_, ?_, ?_, ?_⟩
    · rw [h.drained_append, held_rteReorderDrain burst s.buf,
        ← List.append_assoc]
    · simp only [h.printed_eq, List.map_append]
    · exact (lost_rteReorderDrain burst s.buf).trans h.lost_eq
    · exact (gapless_rteReorderDrain burst s.buf).trans h.gapless_iff
    · exact fun hstop => absurd (hgo.symm.trans hstop) Bool.true_eq_false.mp

/-- How many bursts there may still be. -/
def burstsLeft (s : State p) : ℕ :=
  if s.draining then s.buf.held.length + 1 else 0

theorem burstsLeft_drainBurst {s : State p} (hgo : s.draining = true) :
    burstsLeft (drainBurst p s) < burstsLeft s := by
  rw [burstsLeft, burstsLeft, if_pos hgo]
  by_cases hempty : (rteReorderDrain burst s.buf).1 = []
  · rw [drainBurst_of_nil hempty]
    exact Nat.succ_pos _
  · have hheld := congrArg List.length (held_rteReorderDrain burst s.buf)
    have hpos := List.length_pos_iff.mpr hempty
    rw [List.length_append] at hheld
    rw [drainBurst_of_ne_nil hempty]
    simp only [hgo, if_true]
    omega

/-- A buffer whose next packet is missing is empty if it has no gap. -/
theorem held_eq_nil_iff {μ : Type*} {e : ℕ} {b : RteReorderBuffer μ e}
    (hready : b.readyBuf = []) (hhead : b.orderBuf.get 0 = none) :
    b.held = [] ↔ b.orderBuf.Gapless := by
  rw [held, hready, List.nil_append,
    CircularWindow.gapless_iff_of_none hhead]

/-! ## The whole program -/

theorem insertAll_start (p : Program) (arrivals : List Arrival) :
    (insertAll p arrivals).drained = [] ∧
      (insertAll p arrivals).printed = [] ∧
        (insertAll p arrivals).draining = true := by
  have hkept : ∀ s a, (s : State p).drained = [] ∧ s.printed = [] ∧
      s.draining = true → (insertPacket p s a).drained = [] ∧
        (insertPacket p s a).printed = [] ∧
          (insertPacket p s a).draining = true := by
    intro s a hs
    cases hcreate : createPacket p s a with
    | none =>
        rw [insertPacket_of_none hcreate]
        exact hs
    | some m =>
        rw [insertPacket_of_some hcreate]
        exact hs
  exact List.foldlRecOn arrivals (insertPacket p) ⟨rfl, rfl, rfl⟩
    fun s hs a _ => hkept s a hs

/-- The program terminates. -/
theorem exists_main_eq_some (p : Program) (arrivals : List Arrival) :
    ∃ s, (∃ n, ∀ fuel ≥ n, main p fuel arrivals = some s) ∧
      Draining (insertAll p arrivals) s ∧ s.draining = false := by
  obtain ⟨hdrained, hprinted, hgo⟩ := insertAll_start p arrivals
  have hrun : ∃ s, main p (burstsLeft (insertAll p arrivals)) arrivals =
      some s ∧ Draining (insertAll p arrivals) s ∧ s.draining = false := by
    refine Loop.exists_runWhile (Draining (insertAll p arrivals)) burstsLeft
      ?_ (draining_start hdrained hprinted hgo) le_rfl
    intro s hs hgo
    exact ⟨drainBurst p s, rfl, hs.drainBurst hgo, burstsLeft_drainBurst hgo⟩
  obtain ⟨s, hmain, hs, hstop⟩ := hrun
  exact ⟨s, ⟨_, fun fuel hfuel => Loop.runWhile_of_le hmain hfuel⟩, hs, hstop⟩

/-- Every packet accepted has been drained, is held or has been lost. -/
theorem Draining.account {start s : State p} (hstart : Inserting start)
    (h : Draining start s) : s.accepted.Perm
      (s.drained ++ s.buf.held ++ start.buf.lost) := by
  rw [h.accepted_eq, ← h.drained_append]
  exact hstart.account

theorem Draining.printed_seqn {start s : State p} (hstart : Inserting start)
    (h : Draining start s) (hdrained : ∀ m ∈ s.drained, m ∈ s.created) :
    s.printed = s.drained.map Mbuf.seqn := by
  rw [h.printed_eq]
  apply List.map_congr_left
  intro m hm
  apply hstart.output m
  rw [← h.created_eq]
  exact hdrained m hm

/-- If nothing was lost and nothing is left, all went well. -/
theorem Draining.completelyDrained {start s : State p}
    (hstart : Inserting start) (h : Draining start s)
    (hlost : start.buf.lost = []) (hheld : s.buf.held = []) :
    CompletelyDrained s := by
  have hdrained : s.drained = start.buf.held := by
    rw [h.drained_append, hheld, List.append_nil]
  have hall : s.drained.Perm s.accepted := by
    have haccount := h.account hstart
    rw [hheld, hlost, List.append_nil, List.append_nil] at haccount
    exact haccount.symm
  have hcreated : s.created.Perm (s.rejected ++ s.accepted) := by
    rw [h.created_eq, h.rejected_eq, h.accepted_eq]
    exact hstart.decided
  have hprinted : s.printed = s.drained.map Mbuf.seqn := by
    apply h.printed_seqn hstart
    intro m hm
    rw [hcreated.mem_iff]
    exact List.mem_append_right _ (hall.mem_iff.mp hm)
  refine ⟨?_, ?_, ?_, ?_, hall, hheld⟩
  · obtain ⟨base, past, horder⟩ := hstart.inOrder hlost
    rw [hprinted, hdrained]
    exact horder.isChain_held p.sizeLog_lt
  · rw [hprinted]
    exact hall.map Mbuf.seqn
  · have hids : (start.created.map Mbuf.id).Nodup := by
      rw [hstart.ids]
      exact List.nodup_range
    rw [h.created_eq]
    exact hids.of_map Mbuf.id
  · exact (hall.append_left s.rejected).trans hcreated.symm

/-- At the end, the buffer is completely drained exactly if no packet was lost
and there was no gap in the window. -/
theorem Draining.completelyDrained_iff {start s : State p}
    (hstart : Inserting start) (h : Draining start s)
    (hstop : s.draining = false) :
    CompletelyDrained s ↔
      start.buf.lost = [] ∧ start.buf.orderBuf.Gapless := by
  obtain ⟨hready, hhead⟩ := h.stopped hstop
  have hnone : s.buf.held = [] ↔ start.buf.orderBuf.Gapless :=
    (held_eq_nil_iff hready hhead).trans h.gapless_iff
  rw [← hnone]
  constructor
  · intro hdone
    have haccount := h.account hstart
    rw [hdone.noneLeft, List.append_nil] at haccount
    exact ⟨haccount.perm_iff_eq_nil.mp hdone.drainedAll.symm, hdone.noneLeft⟩
  · rintro ⟨hlost, hheld⟩
    exact h.completelyDrained hstart hlost hheld

theorem drains_iff_lost (p : Program) (arrivals : List Arrival) :
    Drains p arrivals ↔ (insertAll p arrivals).buf.lost = [] ∧
      (insertAll p arrivals).buf.orderBuf.Gapless := by
  obtain ⟨s, ⟨n, hmain⟩, hs, hstop⟩ := exists_main_eq_some p arrivals
  rw [← hs.completelyDrained_iff (inserting_insertAll p arrivals) hstop]
  constructor
  · rintro ⟨t, ⟨n', hmain'⟩, ht⟩
    have hsame : s = t := by
      have hboth := hmain' (max n n') (le_max_right n n')
      rw [hmain (max n n') (le_max_left n n')] at hboth
      exact Option.some.inj hboth
    exact hsame ▸ ht
  · exact fun hdone => ⟨s, ⟨n, hmain⟩, hdone⟩

/-- The program drains the buffer completely exactly if no arrival has the
number of a packet that is in the window or makes one overflow the ready
buffer, and there is no gap in the window when the loop that drains begins. -/
theorem drains_iff (p : Program) (arrivals : List Arrival) :
    Drains p arrivals ↔
      (inserts p).MeetsAlong (fun s a => NumberUnused s a ∧ ReadyBufFits s a)
          (launch p) arrivals ∧
        (insertAll p arrivals).buf.orderBuf.Gapless := by
  rw [meetsAlong_iff_lost, drains_iff_lost]

/-- Arrivals of the given numbers, with memory for all of them. -/
def arrivalsOf (seqs : List UInt32) : List Arrival :=
  seqs.map fun seq => ⟨seq, some ⟨0, 0, 0, 0, 0⟩⟩

/-- Behind the missing packet 1 the packet 2 stays in the buffer. -/
theorem packetBehindGap_not_drained :
    ¬Drains reorderPacket (arrivalsOf [0, 2]) := by
  rw [drains_iff_lost]
  rintro ⟨-, hgapless⟩
  revert hgapless
  decide

-- the lists of the two programs leave no gap
example : Drains reorderPacket (arrivalsOf [0, 2, 1, 4, 3]) :=
  (drains_iff_lost _ _).mpr (by decide)

example : Drains reorderPacket2 (arrivalsOf [10, 35, 11, 12]) :=
  (drains_iff_lost _ _).mpr (by decide)

-- a full window overflows the ready buffer when it moves
example : ¬Drains reorderPacket2 (arrivalsOf [0, 1, 2, 3, 4]) :=
  (drains_iff_lost _ _).not.mpr (by decide)

-- a packet that finds no room is freed when it is rejected
example : Drains reorderPacket2 (arrivalsOf [0, 1, 2, 4, 8, 3]) :=
  (drains_iff_lost _ _).mpr (by decide)

end ReorderPacket
end DpdkFolder
