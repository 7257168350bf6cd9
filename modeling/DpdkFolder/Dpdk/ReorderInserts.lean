import DpdkFolder.Dpdk.ReorderOrder

/-!
# Inserts that lose nothing

As long as inserts lose no packet, the packets held are in the order of their
sequence numbers, and neighbours are less than two windows apart.  A packet is
accepted at most that far from the head, and either a packet waits behind the
head or the one before it is held; only after an insert that found no more room
is it the latter, and then the window does not move any more.
-/

namespace DpdkFolder
namespace RteReorderBuffer

variable {μ : Type*} {e : ℕ} {seqn : μ → UInt32} {readyFull : ℕ → Bool}
  {b : RteReorderBuffer μ e} {m : μ} {base adv : ℕ} {past : List ℕ}

/-- The buffer between two inserts: if no packet waits in the window, none has
become ready, or the last one that has is right behind the head and there is no
more room. -/
structure InOrder (seqn : μ → UInt32) (readyFull : ℕ → Bool)
    (b : RteReorderBuffer μ e) (base : ℕ) (past : List ℕ) : Prop
    extends Anchored (2 * 2 ^ e) seqn [] b base past where
  waiting : b.orderBuf.offsets = [] →
    past = [] ∨ readyFull b.readyBuf.length ∧ ∃ p ∈ past, base = p + 1

theorem inOrder_create (seqn : μ → UInt32) (readyFull : ℕ → Bool) :
    InOrder seqn readyFull (create μ e) 0 [] :=
  ⟨anchored_create _ seqn, fun _ => Or.inl rfl⟩

namespace InOrder

/-- The packets held are in the order of their sequence numbers. -/
theorem isChain_held (he : e < 32) (h : InOrder seqn readyFull b base past) :
    (b.held.map seqn).IsChain (Ahead (2 * 2 ^ e)) := by
  have hgap : 2 * 2 ^ e ≤ 2 ^ 32 := by
    rw [← pow_succ']
    exact Nat.pow_le_pow_right Nat.two_pos he
  exact h.toFlowing.isChain hgap

theorem begin (h : InOrder seqn readyFull b base past) (m : μ) :
    ∃ base' past',
      InOrder seqn readyFull (beginWindow seqn m b) base' past' := by
  obtain ⟨base', past', hbegin, hcase⟩ := h.toAnchored.begun m
  refine ⟨base', past', hbegin, ?_⟩
  rcases hcase with ⟨hsame, rfl, rfl⟩ | hnone
  · rw [hsame]
    exact h.waiting
  · exact fun _ => Or.inl (List.append_eq_nil_iff.mp hnone).1

/-- A packet that is accepted is near to the others. -/
theorem near (h : InOrder seqn readyFull b base past) {k : ℕ}
    (hk : k < 2 * 2 ^ e) (hroom : k < 2 ^ e ∨ ¬readyFull b.readyBuf.length) :
    b.positions base past = [] ∨
      ∃ near ∈ b.positions base past,
        base + k < near + 2 * 2 ^ e ∧ near < base + k + 2 * 2 ^ e := by
  rcases List.eq_nil_or_concat b.orderBuf.offsets with hnone | ⟨_, j, hj⟩
  · rcases h.waiting hnone with hpast | ⟨hfull, p, hp, hbase⟩
    · left
      rw [positions, hnone, hpast]
      rfl
    · right
      have hinside := hroom.resolve_right (not_not_intro hfull)
      exact ⟨p, mem_positions.mpr (Or.inl hp), by omega, by omega⟩
  · right
    have hmem : j ∈ b.orderBuf.offsets := by simp [hj]
    have hlt := (CircularWindow.mem_offsets.mp hmem).1
    exact ⟨base + j, mem_positions.mpr (Or.inr ⟨j, hmem, rfl⟩), by omega,
      by omega⟩

/-- Storing a packet leaves one waiting. -/
theorem of_store (h : Anchored (2 * 2 ^ e) seqn [] b base past)
    (hbegun : b.isInitialized = true) (hk : offset seqn m b < 2 ^ e)
    (hnear : b.positions base past = [] ∨
      ∃ near ∈ b.positions base past,
        base + offset seqn m b < near + 2 * 2 ^ e ∧
          near < base + offset seqn m b + 2 * 2 ^ e) :
    InOrder seqn readyFull (store seqn m b) base past := by
  refine ⟨(h.stored hbegun hk hnear).1, fun hnone => ?_⟩
  have hmem : offset seqn m b ∈
      (b.orderBuf.put (offset seqn m b) m).offsets :=
    (CircularWindow.mem_offsets_put hk m).mpr (Or.inl rfl)
  change (b.orderBuf.put (offset seqn m b) m).offsets = [] at hnone
  rw [hnone] at hmem
  exact absurd hmem List.not_mem_nil

/-- The head has moved on far enough for the packet to be stored. -/
theorem shifted_store (h : InOrder seqn readyFull b base past)
    (hbegun : b.isInitialized = true)
    (hroom : ∀ j < adv, ¬FullAt readyFull b j) (hpos : 0 < adv)
    (hle : adv ≤ offset seqn m b) (hnear : offset seqn m b < adv + 2 ^ e)
    (hlt : offset seqn m b < 2 * 2 ^ e) :
    ∃ past', InOrder seqn readyFull (store seqn m (moveOn readyFull adv b))
      (base + adv) past' := by
  obtain ⟨past', hmoved, hsame⟩ := h.toAnchored.moved hroom
  have hoffset := offset_moveOn readyFull rfl hle
  have hbase : base + adv + (offset seqn m b - adv) =
      base + offset seqn m b := by
    omega
  refine ⟨past', of_store hmoved ?_ ?_ ?_⟩
  · rw [isInitialized_moveOn, hbegun]
  · rw [hoffset]
    omega
  · rw [hsame, hoffset, hbase]
    exact h.near hlt (Or.inr (hroom 0 hpos))

/-- The head has moved on until there was no more room. -/
theorem shifted (h : InOrder seqn readyFull b base past)
    (hle : adv + 1 ≤ 2 ^ e) (hroom : ∀ j < adv + 1, ¬FullAt readyFull b j)
    (hfull : FullAt readyFull b (adv + 1)) :
    ∃ past', InOrder seqn readyFull (moveOn readyFull (adv + 1) b)
      (base + (adv + 1)) past' := by
  obtain ⟨past', hmoved, hsame⟩ := h.toAnchored.moved hroom
  refine ⟨past', hmoved, fun hnone => ?_⟩
  -- the last packet taken is the one that left no more room
  have hlast := isSome_of_fullAt hle (hroom adv (Nat.lt_succ_self adv)) hfull
  have hmem : base + adv ∈ b.positions base past :=
    mem_positions.mpr (Or.inr
      ⟨adv, CircularWindow.mem_offsets.mpr ⟨hle, hlast⟩, rfl⟩)
  rw [← hsame, mem_positions, hnone] at hmem
  rcases hmem with hpast | ⟨k, hk, -⟩
  · exact Or.inr ⟨hfull, base + adv, hpast, rfl⟩
  · exact absurd hk List.not_mem_nil

/-- Inserts that lose nothing keep the order. -/
theorem insert (h : InOrder seqn readyFull b base past) (m : μ)
    (hkept : (rteReorderInsert seqn readyFull m b).2.lost = b.lost) :
    ∃ base' past', InOrder seqn readyFull
      (rteReorderInsert seqn readyFull m b).2 base' past' := by
  obtain ⟨base, past, hbegin⟩ := h.begin m
  have hbegun := isInitialized_beginWindow seqn m b
  rw [← (orderBuf_beginWindow seqn m b).2] at hkept
  have hcase := rteReorderInsert_cases seqn readyFull m b
  generalize rteReorderInsert seqn readyFull m b = r at hcase hkept
  cases hcase with
  | inside hk =>
      exact ⟨base, past, of_store hbegin.toAnchored hbegun hk
        (hbegin.near (by omega) (Or.inl hk))⟩
  | ahead adv hge hlt hfill henough =>
      have hle := hfill.le
      have hroom := hfill.lost_iff.mp (hfill.lost_of_store hkept)
      exact ⟨base + adv, hbegin.shifted_store hbegun hroom (by omega)
        (by omega) (by omega) hlt⟩
  | noRoom adv hge hlt hfill hfull =>
      cases adv with
      | zero =>
          rw [moveOn_zero]
          exact ⟨base, past, hbegin⟩
      | succ adv =>
          exact ⟨_, hbegin.shifted hfill.le (hfill.lost_iff.mp hkept) hfull⟩
  | refused => exact ⟨base, past, hbegin⟩

end InOrder

end RteReorderBuffer
end DpdkFolder
