import DpdkFolder.Dpdk.ReorderOrder
import DpdkFolder.Support.TransitionSystem

/-!
# The reorder buffer as a stream

An application inserts packets and drains the buffer in any order of calls.
Whatever the room for ready packets, the packets drained come out at ascending
positions that are not far apart, and each one accepted is drained, held or
lost.

The positions of the packets drained are kept together with those of the ready
ones.  A packet is lost only behind one that has just become ready, since the
loops of `rte_reorder_fill_overflow` begin with room, so the loss of one packet
does not open a wide gap.
-/

namespace DpdkFolder
namespace RteReorderBuffer

variable {μ : Type*} {e : ℕ}

/-- A call of the library. -/
inductive Call (μ : Type*)
  | insert (m : μ)
  | drain (max : ℕ)

/-- A buffer in use: the packets accepted and those drained. -/
structure Stream (μ : Type*) (e : ℕ) where
  buf : RteReorderBuffer μ e
  accepted : List μ
  drained : List μ

/-- What a call does. -/
def call (seqn : μ → UInt32) (readyFull : ℕ → Bool) (s : Stream μ e) :
    Call μ → Stream μ e
  | .insert m =>
      let (ret, buf) := rteReorderInsert seqn readyFull m s.buf
      { s with
        buf
        accepted := s.accepted ++ if ret < 0 then [] else [m] }
  | .drain max =>
      let (ms, buf) := rteReorderDrain max s.buf
      { s with buf, drained := s.drained ++ ms }

/-- A buffer from `rte_reorder_create` on, under any order of calls. -/
def stream (seqn : μ → UInt32) (readyFull : ℕ → Bool) (e : ℕ) :
    TransitionSystem (Stream μ e) (Call μ) where
  start := ⟨create μ e, [], []⟩
  step s c := some (call seqn readyFull s c)

variable {seqn : μ → UInt32} {readyFull : ℕ → Bool} {out : List μ}
  {b : RteReorderBuffer μ e} {m : μ} {base adv : ℕ} {past : List ℕ}

/-! ## Positions -/

/-- A position no further below `x` than the size of the window, unless there
is none at all. -/
def Near (b : RteReorderBuffer μ e) (base : ℕ) (past : List ℕ) (x : ℕ) :
    Prop :=
  b.positions base past = [] ∨ ∃ p ∈ b.positions base past, x ≤ p + 2 ^ e

/-- The buffer between two calls, with the packets drained so far in `out`. -/
structure Streaming (seqn : μ → UInt32) (out : List μ)
    (b : RteReorderBuffer μ e) (base : ℕ) (past : List ℕ) : Prop
    extends Anchored (3 * 2 ^ e) seqn out b base past where
  near : b.Near base past base

theorem lt_of_mem_positions (hpast : ∀ q ∈ past, q < base) {x : ℕ}
    (h : x ∈ b.positions base past) : x < base + 2 ^ e := by
  rcases mem_positions.mp h with hx | ⟨k, hk, rfl⟩
  · exact Nat.lt_add_right _ (hpast x hx)
  · exact Nat.add_lt_add_left (CircularWindow.mem_offsets.mp hk).1 base

/-- The packets drained are in the order of their sequence numbers. -/
theorem Streaming.isChain_out (he : e < 31)
    (h : Streaming seqn out b base past) :
    (out.map seqn).IsChain (Ahead (3 * 2 ^ e)) := by
  have hgap : 3 * 2 ^ e ≤ 2 ^ 32 := by
    have hle : 2 ^ e ≤ 2 ^ 30 :=
      Nat.pow_le_pow_right Nat.two_pos (Nat.le_of_lt_succ he)
    omega
  have hall := h.toFlowing.isChain hgap
  rw [List.map_append] at hall
  exact hall.left_of_append

/-! ## The head moves on -/

/-- The head is moved on from `first`, where the ready packets were `ready`:
packets have been seen near `first`, and one has become ready since if the
ready ones are others. -/
structure Filling (seqn : μ → UInt32) (out : List μ) (first : ℕ)
    (ready : List μ) (b : RteReorderBuffer μ e) (base : ℕ) (past : List ℕ) :
    Prop extends Flowing (3 * 2 ^ e) seqn out b base past where
  below : ∀ x ∈ b.positions base past, x < first + 2 ^ e
  near : b.Near base past first
  pushed : b.readyBuf = ready ∨ ∃ p ∈ past, first ≤ p

theorem Streaming.filling (h : Streaming seqn out b base past) :
    Filling seqn out base b.readyBuf b base past :=
  ⟨h.toFlowing, fun _ => lt_of_mem_positions h.past_lt, h.near, Or.inl rfl⟩

/-- When the packet at the head is taken away, its position is. -/
theorem mem_positions_of_some (lost : List μ)
    (hhead : b.orderBuf.get 0 = some m) {x : ℕ} :
    x ∈ base :: positions { b with
        orderBuf := b.orderBuf.advance
        lost } (base + 1) past ↔
      x ∈ b.positions base past := by
  rw [← positions_of_some b.readyBuf base past hhead, List.mem_cons,
    mem_positions, mem_positions, List.mem_append, List.mem_singleton]
  tauto

/-- The packet at the head is lost behind one that has become ready. -/
theorem Filling.lost {first : ℕ} {ready : List μ}
    (h : Filling seqn out first ready b base past)
    (hhead : b.orderBuf.get 0 = some m) {p : ℕ} (hp : p ∈ past)
    (hfirst : first ≤ p) :
    Filling seqn out first ready { b with
      orderBuf := b.orderBuf.advance
      lost := b.lost ++ [m] } (base + 1) past := by
  have hmem := @mem_positions_of_some μ e b m base past
    (b.lost ++ [m]) hhead
  have hp' : p ∈ positions { b with
      orderBuf := b.orderBuf.advance
      lost := b.lost ++ [m] } (base + 1) past :=
    mem_positions.mpr (Or.inl hp)
  have hbelow : ∀ x ∈ positions { b with
      orderBuf := b.orderBuf.advance
      lost := b.lost ++ [m] } (base + 1) past, x < first + 2 ^ e :=
    fun x hx => h.below x (hmem.mp (List.mem_cons_of_mem base hx))
  refine ⟨⟨h.handed, h.window_advance, h.sorted, ?_, ?_⟩, hbelow, ?_,
    Or.inr ⟨p, hp, hfirst⟩⟩
  · exact fun q hq => Nat.lt_succ_of_lt (h.past_lt q hq)
  · refine (h.steps.congr fun x => hmem).erase hp' (h.past_lt p hp) ?_
    intro q hq _
    have hlt := hbelow q hq
    omega
  · exact Or.inr ⟨p, hp', hfirst.trans (Nat.le_add_right p _)⟩

/-- Moving the head on by one. -/
theorem Filling.passed {first : ℕ} {ready : List μ}
    (hroom : ¬readyFull ready.length)
    (h : Filling seqn out first ready b base past) (hbase : first ≤ base) :
    ∃ past', Filling seqn out first ready (passHead readyFull b) (base + 1)
      past' := by
  by_cases hlost : (b.orderBuf.get 0).isSome ∧ readyFull b.readyBuf.length
  · obtain ⟨hsome, hfull⟩ := hlost
    obtain ⟨m, hhead⟩ := Option.isSome_iff_exists.mp hsome
    rw [passHead_of_some hhead, if_pos hfull]
    -- there was room at first, so a packet has taken it
    obtain hready | ⟨p, hp, hfirst⟩ := h.pushed
    · exact absurd (hready ▸ hfull) hroom
    · exact ⟨past, h.lost hhead hp hfirst⟩
  · obtain ⟨past', hflow, hsame, hpast⟩ :=
      h.toFlowing.passed (not_and.mp hlost)
    refine ⟨past', hflow, ?_, ?_, ?_⟩
    · rw [hsame]
      exact h.below
    · rw [Near, hsame]
      exact h.near
    · rcases hpast with ⟨hready, rfl⟩ | rfl
      · rw [hready]
        exact h.pushed
      · exact Or.inr ⟨base, List.mem_append_right _
          (List.mem_singleton_self base), hbase⟩

/-- Moving the head on from a buffer with room for ready packets. -/
theorem Streaming.moved (h : Streaming seqn out b base past)
    (hroom : ¬readyFull b.readyBuf.length) (adv : ℕ) :
    ∃ past', Filling seqn out base b.readyBuf (moveOn readyFull adv b)
      (base + adv) past' := by
  have hiterate : ∃ past', Filling seqn out base b.readyBuf
      ((passHead readyFull)^[adv] b) (base + adv) past' := by
    induction adv with
    | zero => exact ⟨past, h.filling⟩
    | succ adv ih =>
        obtain ⟨mid, hmid⟩ := ih
        rw [Function.iterate_succ_apply']
        exact hmid.passed hroom (Nat.le_add_right base adv)
  obtain ⟨past', hfill⟩ := hiterate
  exact ⟨past', ⟨hfill.handed, hfill.window, hfill.sorted, hfill.past_lt,
    hfill.steps⟩, hfill.below, hfill.near, hfill.pushed⟩

/-! ## Inserts -/

/-- Storing a packet leaves a position near the head. -/
theorem Streaming.of_store (h : Anchored (3 * 2 ^ e) seqn out b base past)
    (hbegun : b.isInitialized = true) (hk : offset seqn m b < 2 ^ e)
    (hnear : b.positions base past = [] ∨
      ∃ p ∈ b.positions base past,
        base + offset seqn m b < p + 3 * 2 ^ e ∧
          p < base + offset seqn m b + 3 * 2 ^ e) :
    Streaming seqn out (store seqn m b) base past := by
  obtain ⟨hstored, hmem⟩ := h.stored hbegun hk hnear
  exact ⟨hstored, Or.inr ⟨_, hmem, by omega⟩⟩

theorem Streaming.begin (h : Streaming seqn out b base past) (m : μ) :
    ∃ base' past', Streaming seqn out (beginWindow seqn m b) base' past' := by
  obtain ⟨base', past', hbegin, hcase⟩ := h.toAnchored.begun m
  refine ⟨base', past', hbegin, ?_⟩
  rcases hcase with ⟨hsame, rfl, rfl⟩ | hnone
  · rw [hsame]
    exact h.near
  · exact Or.inl hnone

theorem Filling.anchored {first : ℕ} {ready : List μ}
    (h : Filling seqn out first ready (moveOn readyFull adv b) (base + adv)
      past)
    (hmin : b.minSeqn = UInt32.ofNat base) (hbegun : b.isInitialized = true) :
    Anchored (3 * 2 ^ e) seqn out (moveOn readyFull adv b) (base + adv)
      past := by
  refine ⟨h.toFlowing, minSeqn_moveOn hmin adv, fun hfresh => ?_⟩
  rw [isInitialized_moveOn, hbegun] at hfresh
  cases hfresh

/-- The head has moved on until there was no more room. -/
theorem Streaming.shifted (h : Streaming seqn out b base past)
    (hbegun : b.isInitialized = true)
    (hroom : ¬readyFull b.readyBuf.length) (hle : adv ≤ 2 ^ e)
    (hfull : FullAt readyFull b adv) :
    ∃ past', Streaming seqn out (moveOn readyFull adv b) (base + adv)
      past' := by
  obtain ⟨past', hmoved⟩ := h.moved hroom adv
  refine ⟨past', hmoved.anchored h.minSeqn_eq hbegun, ?_⟩
  obtain hsame | ⟨p, hp, hfirst⟩ := hmoved.pushed
  · change readyFull (moveOn readyFull adv b).readyBuf.length at hfull
    rw [hsame] at hfull
    exact absurd hfull hroom
  · exact Or.inr ⟨p, mem_positions.mpr (Or.inl hp), by omega⟩

/-- The head has moved on far enough for the packet to be stored. -/
theorem Streaming.shifted_store (h : Streaming seqn out b base past)
    (hbegun : b.isInitialized = true)
    (hroom : ¬readyFull b.readyBuf.length)
    (hle : adv ≤ offset seqn m b) (hnear : offset seqn m b < adv + 2 ^ e)
    (hlt : offset seqn m b < 2 * 2 ^ e) :
    ∃ past', Streaming seqn out (store seqn m (moveOn readyFull adv b))
      (base + adv) past' := by
  obtain ⟨past', hmoved⟩ := h.moved hroom adv
  have hoffset := offset_moveOn readyFull rfl hle
  refine ⟨past', Streaming.of_store (hmoved.anchored h.minSeqn_eq hbegun)
    ?_ ?_ (hmoved.near.imp_right ?_)⟩
  · rw [isInitialized_moveOn, hbegun]
  · rw [hoffset]
    omega
  · rintro ⟨p, hp, hfirst⟩
    have hbelow := hmoved.below p hp
    rw [hoffset]
    exact ⟨p, hp, by omega, by omega⟩

/-- An insert keeps what has been drained in order with what is held. -/
theorem Streaming.insert (readyFull : ℕ → Bool)
    (h : Streaming seqn out b base past) (m : μ) :
    ∃ base' past', Streaming seqn out (rteReorderInsert seqn readyFull m b).2
      base' past' := by
  obtain ⟨base, past, hbegin⟩ := h.begin m
  have hbegun := isInitialized_beginWindow seqn m b
  have hcase := rteReorderInsert_cases seqn readyFull m b
  generalize rteReorderInsert seqn readyFull m b = r at hcase
  cases hcase with
  | inside hin =>
      refine ⟨base, past, Streaming.of_store hbegin.toAnchored hbegun hin
        (hbegin.near.imp_right ?_)⟩
      rintro ⟨p, hp, hle⟩
      have hlt := lt_of_mem_positions hbegin.past_lt hp
      exact ⟨p, hp, by omega, by omega⟩
  | ahead adv hge hlt hfill henough =>
      have hle := hfill.le
      exact ⟨base + adv, hbegin.shifted_store hbegun
        (hfill.room_at_first (by omega)) (by omega) (by omega) hlt⟩
  | noRoom adv hge hlt hfill hfull =>
      rcases Nat.eq_zero_or_pos adv with rfl | hpos
      · rw [moveOn_zero]
        exact ⟨base, past, hbegin⟩
      · exact ⟨base + adv, hbegin.shifted hbegun
          (hfill.room_at_first hpos) hfill.le hfull⟩
  | refused => exact ⟨base, past, hbegin⟩

/-! ## Drains -/

/-- Ready packets are handed out. -/
theorem Streaming.takeReady (h : Streaming seqn out b base past) (max : ℕ) :
    Streaming seqn (out ++ b.readyBuf.take max)
      { b with readyBuf := b.readyBuf.drop max } base past := by
  refine ⟨⟨⟨?_, h.window, h.sorted, h.past_lt, h.steps⟩, h.minSeqn_eq,
    h.fresh⟩, h.near⟩
  rw [List.append_assoc, List.take_append_drop]
  exact h.handed

/-- Packets of the window are handed out when no ready ones are left. -/
theorem Streaming.drainWindow (h : Streaming seqn out b base past)
    (hready : b.readyBuf = []) (max : ℕ) :
    ∃ base' past', Streaming seqn
      (out ++ (RteReorderBuffer.drainWindow max b).1)
      (RteReorderBuffer.drainWindow max b).2 base' past' := by
  induction max generalizing out b base past with
  | zero =>
      refine ⟨base, past, ?_⟩
      rw [RteReorderBuffer.drainWindow, List.append_nil]
      exact h
  | succ max ih =>
      cases hhead : b.orderBuf.get 0 with
      | none =>
          refine ⟨base, past, ?_⟩
          rw [drainWindow_of_none hhead, List.append_nil]
          exact h
      | some m =>
          have hhanded : (out ++ [m]) ++ b.readyBuf =
              out ++ b.readyBuf ++ [m] := by
            rw [hready, List.append_nil, List.append_nil]
          obtain ⟨hflow, hsame⟩ := h.toFlowing.taken hhead
            (c := { b with
              orderBuf := b.orderBuf.advance
              minSeqn := b.minSeqn + 1 })
            hhanded rfl
          have hnext : Streaming seqn (out ++ [m]) { b with
              orderBuf := b.orderBuf.advance
              minSeqn := b.minSeqn + 1 } (base + 1) (past ++ [base]) := by
            refine ⟨⟨hflow, ?_, ?_⟩, Or.inr ⟨base, ?_, ?_⟩⟩
            · change b.minSeqn + 1 = _
              rw [h.minSeqn_eq, UInt32.ofNat_add]
              rfl
            · rw [hsame]
              exact h.fresh
            · exact mem_positions.mpr (Or.inl
                (List.mem_append_right _ (List.mem_singleton_self base)))
            · exact Nat.add_le_add_left Nat.one_le_two_pow base
          obtain ⟨base', past', hdone⟩ := ih hnext hready
          rw [List.append_assoc] at hdone
          rw [drainWindow_of_some hhead]
          exact ⟨base', past', hdone⟩

/-- What a drain returns follows what has been drained before. -/
theorem Streaming.drain (h : Streaming seqn out b base past) (max : ℕ) :
    ∃ base' past', Streaming seqn (out ++ (rteReorderDrain max b).1)
      (rteReorderDrain max b).2 base' past' := by
  have htaken := h.takeReady max
  rw [rteReorderDrain, ← List.append_assoc]
  rcases Nat.lt_or_ge max b.readyBuf.length with hlt | hge
  · have hnone : max - (b.readyBuf.take max).length = 0 := by
      rw [List.length_take]
      omega
    rw [hnone]
    refine ⟨base, past, ?_⟩
    rw [RteReorderBuffer.drainWindow, List.append_nil]
    exact htaken
  · exact htaken.drainWindow (List.drop_eq_nil_of_le hge) _

/-! ## Runs -/

/-- What holds between two calls. -/
structure StreamInv (seqn : μ → UInt32) (s : Stream μ e) : Prop where
  streaming : ∃ base past, Streaming seqn s.drained s.buf base past
  account : s.accepted.Perm (s.drained ++ s.buf.account)

theorem streamInv_start (seqn : μ → UInt32) (readyFull : ℕ → Bool) (e : ℕ) :
    StreamInv seqn (stream seqn readyFull e).start := by
  refine ⟨⟨0, [], anchored_create _ seqn,
    Or.inl (positions_of_nil held_create 0)⟩, ?_⟩
  change List.Perm [] ([] ++ (create μ e).account)
  rw [account_create]
  rfl

theorem account_rteReorderDrain (max : ℕ) (b : RteReorderBuffer μ e) :
    b.account = (rteReorderDrain max b).1 ++ (rteReorderDrain max b).2.account
    := by
  rw [RteReorderBuffer.account, RteReorderBuffer.account,
    held_rteReorderDrain max b, lost_rteReorderDrain, List.append_assoc]

theorem StreamInv.call {s : Stream μ e} (h : StreamInv seqn s)
    (readyFull : ℕ → Bool) (c : Call μ) :
    StreamInv seqn (call seqn readyFull s c) := by
  obtain ⟨base, past, hstream⟩ := h.streaming
  cases c with
  | insert m =>
      refine ⟨hstream.insert readyFull m, ?_⟩
      have haccount := account_rteReorderInsert seqn readyFull m s.buf
      change (s.accepted ++
          if (rteReorderInsert seqn readyFull m s.buf).1 < 0 then [] else [m]
        ).Perm
          (s.drained ++ (rteReorderInsert seqn readyFull m s.buf).2.account)
      split at haccount
      · next hret =>
          rw [if_pos hret, List.append_nil]
          exact h.account.trans (haccount.symm.append_left _)
      · next hret =>
          rw [if_neg hret]
          have hfirst : (s.accepted ++ [m]).Perm
              (m :: (s.drained ++ s.buf.account)) :=
            (List.perm_append_singleton m _).trans (h.account.cons m)
          have hplace : (s.accepted ++ [m]).Perm
              (s.drained ++ m :: s.buf.account) :=
            hfirst.trans List.perm_middle.symm
          exact hplace.trans (haccount.symm.append_left _)
  | drain max =>
      refine ⟨hstream.drain max, ?_⟩
      change s.accepted.Perm (s.drained ++ (rteReorderDrain max s.buf).1 ++
        (rteReorderDrain max s.buf).2.account)
      rw [List.append_assoc, ← account_rteReorderDrain]
      exact h.account

theorem reachable_streamInv {s : Stream μ e}
    (h : (stream seqn readyFull e).Reachable s) : StreamInv seqn s := by
  refine h.invariant (P := StreamInv seqn)
    (streamInv_start seqn readyFull e) ?_
  intro s c t _ hs hstep
  rw [← Option.some.inj hstep]
  exact hs.call readyFull c

/-- For every order of inserts and drains and whatever the room for ready
packets: the packets drained come out in the order of their sequence numbers,
each less than three windows ahead of the one before it, and the packets
accepted are those drained, those held and those lost. -/
theorem stream_in_order (he : e < 31) {s : Stream μ e}
    (h : (stream seqn readyFull e).Reachable s) :
    (s.drained.map seqn).IsChain (Ahead (3 * 2 ^ e)) ∧
      s.accepted.Perm (s.drained ++ s.buf.held ++ s.buf.lost) := by
  have hinv := reachable_streamInv h
  obtain ⟨base, past, hstream⟩ := hinv.streaming
  refine ⟨hstream.isChain_out he, ?_⟩
  rw [List.append_assoc]
  exact hinv.account

/-- In a window of two packets the packet 3 pushes 0 and 1 out, and there is
room for one of them. -/
def overflowingCalls : List (Call UInt32) :=
  [.insert 0, .insert 1, .insert 3, .drain 4, .insert 4, .drain 4]

theorem stream_in_order_overflowingCalls :
    ∃ s : Stream UInt32 1, (stream id (readyBufFull 1) 1).Reachable s ∧
      s.drained = [0, 3, 4] ∧ s.buf.lost = [1] ∧
        (s.drained.map id).IsChain (Ahead (3 * 2 ^ 1)) ∧
          s.accepted.Perm (s.drained ++ s.buf.held ++ s.buf.lost) := by
  have hreach : (stream id (readyBufFull 1) 1).Reachable
      (overflowingCalls.foldl (call id (readyBufFull 1))
        (stream id (readyBufFull 1) 1).start) :=
    ⟨overflowingCalls, rfl⟩
  exact ⟨_, hreach, by decide, by decide, stream_in_order (by decide) hreach⟩

end RteReorderBuffer
end DpdkFolder
