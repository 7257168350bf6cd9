import Mathlib.Data.Nat.Find
import DpdkFolder.Dpdk.Reorder

/-!
# When the ready buffer overflows

The inner loop of `rte_reorder_fill_overflow` looks for room only after it has
taken a packet, and then writes the next one, if it is right behind, to the
slot that the ready buffer keeps free.  That packet is lost.  Whether this
happens can be seen from the window before: the packet that fills the ready
buffer has another one right behind it, and the head gets that far.
-/

namespace DpdkFolder
namespace RteReorderBuffer

variable {μ : Type*} {e : ℕ}

/-- Moving the head on by at least `n` takes a packet without room: the packet
at `k` fills the ready buffer, there is one behind it, and the head passes both
since no packet is missing from `n` up to there. -/
def FillOverflows (n : ℕ) (b : RteReorderBuffer μ e) : Prop :=
  ∃ k < 2 ^ e - 1,
    (b.orderBuf.get k).isSome ∧ (b.orderBuf.get (k + 1)).isSome ∧
      (∀ j ≤ k + 1, n ≤ j → (b.orderBuf.get j).isSome) ∧
        readyBufFull e (b.readyBuf.length + b.orderBuf.countFirst (k + 1))

instance (n : ℕ) (b : RteReorderBuffer μ e) : Decidable (FillOverflows n b) :=
  inferInstanceAs (Decidable (∃ k < 2 ^ e - 1, _))

/-- An insert with the sequence number `s` moves the window, and a packet in
the window does not fit the ready buffer. -/
def Overflows (b : RteReorderBuffer μ e) (s : UInt32) : Prop :=
  2 ^ e ≤ (s - b.minSeqn).toNat ∧ (s - b.minSeqn).toNat < 2 * 2 ^ e ∧
    FillOverflows ((s - b.minSeqn).toNat + 1 - 2 ^ e) b

instance (b : RteReorderBuffer μ e) (s : UInt32) :
    Decidable (b.Overflows s) :=
  inferInstanceAs (Decidable (_ ∧ _ ∧ _))

variable {seqn : μ → UInt32} {readyFull : ℕ → Bool}
  {b : RteReorderBuffer μ e} {m : μ} {n adv : ℕ}

/-! ## Packets without room -/

/-- Moving the head on loses the packets that it takes without room. -/
theorem exists_lost_iterate (readyFull : ℕ → Bool)
    (b : RteReorderBuffer μ e) (hadv : adv ≤ 2 ^ e) :
    ∃ taken, ((passHead readyFull)^[adv] b).lost = b.lost ++ taken ∧
      (taken = [] ↔ ∀ j < adv, FullAt readyFull b j →
        b.orderBuf.get j = none) := by
  induction adv with
  | zero =>
      exact ⟨[], (List.append_nil _).symm,
        fun _ j hj => absurd hj (Nat.not_lt_zero j), fun _ => rfl⟩
  | succ adv ih =>
      obtain ⟨taken, hlost, hnone⟩ := ih (Nat.le_of_succ_le hadv)
      have hhead : ((passHead readyFull)^[adv] b).orderBuf.get 0 =
          b.orderBuf.get adv := head_iterate hadv
      rw [Function.iterate_succ_apply']
      simp only [Nat.forall_lt_succ_right]
      cases hget : b.orderBuf.get adv with
      | none =>
          rw [passHead_of_none (hhead.trans hget)]
          exact ⟨taken, hlost, hnone.trans (by simp)⟩
      | some m =>
          rw [passHead_of_some (hhead.trans hget)]
          split
          · next hfull =>
              refine ⟨taken ++ [m], ?_, ?_⟩
              · simp only [hlost, List.append_assoc]
              · simp [FullAt, hfull]
          · next hroom =>
              refine ⟨taken, hlost, hnone.trans ?_⟩
              simp [FullAt, hroom]

/-- As long as there is room, all packets become ready. -/
theorem length_readyBuf_iterate (hadv : adv ≤ 2 ^ e)
    (hroom : ∀ j < adv, ¬FullAt readyFull b j) :
    ((passHead readyFull)^[adv] b).readyBuf.length =
      b.readyBuf.length + b.orderBuf.countFirst adv := by
  induction adv with
  | zero => rfl
  | succ adv ih =>
      have hlength := ih (Nat.le_of_succ_le hadv) fun j hj =>
        hroom j (Nat.lt_succ_of_lt hj)
      have hhead : ((passHead readyFull)^[adv] b).orderBuf.get 0 =
          b.orderBuf.get adv := head_iterate hadv
      rw [Function.iterate_succ_apply', CircularWindow.countFirst_succ,
        ← Nat.add_assoc, ← hlength]
      cases hget : b.orderBuf.get adv with
      | none =>
          rw [passHead_of_none (hhead.trans hget)]
          rfl
      | some m =>
          have hfits : ¬readyFull
              ((passHead readyFull)^[adv] b).readyBuf.length :=
            hroom adv (Nat.lt_succ_self adv)
          rw [passHead_of_some (hhead.trans hget), if_neg hfits]
          exact List.length_append

/-- The loops lose nothing exactly if they always have room. -/
theorem Filled.lost_iff (h : Filled readyFull b n adv) :
    (moveOn readyFull adv b).lost = b.lost ↔
      ∀ j < adv, ¬FullAt readyFull b j := by
  obtain ⟨taken, hlost, hnone⟩ := exists_lost_iterate readyFull b h.le
  change ((passHead readyFull)^[adv] b).lost = b.lost ↔ _
  rw [hlost, List.append_right_eq_self, hnone]
  constructor
  · intro hall j hj hfull
    have hsome := (h.room j hj hfull).2.2
    rw [hall j hj hfull] at hsome
    cases hsome
  · exact fun hroom j hj hfull => absurd hfull (hroom j hj)

/-- The ready buffer becomes full by a packet. -/
theorem isSome_of_fullAt {j : ℕ} (hj : j < 2 ^ e)
    (hroom : ¬FullAt readyFull b j) (hfull : FullAt readyFull b (j + 1)) :
    (b.orderBuf.get j).isSome := by
  have hhead : ((passHead readyFull)^[j] b).orderBuf.get 0 =
      b.orderBuf.get j := head_iterate hj
  rw [← hhead, Option.isSome_iff_ne_none]
  intro hnone
  rw [FullAt, Function.iterate_succ_apply', passHead_of_none hnone] at hfull
  exact hroom hfull

/-- If storing a packet afterwards loses nothing, moving the head on did not
either. -/
theorem Filled.lost_of_store (h : Filled readyFull b n adv)
    (hkept : (store seqn m (moveOn readyFull adv b)).lost = b.lost) :
    (moveOn readyFull adv b).lost = b.lost := by
  obtain ⟨taken, hlost, -⟩ := exists_lost_iterate readyFull b h.le
  change ((passHead readyFull)^[adv] b).lost ++ _ = b.lost at hkept
  rw [hlost, List.append_assoc, List.append_right_eq_self,
    List.append_eq_nil_iff] at hkept
  change ((passHead readyFull)^[adv] b).lost = b.lost
  rw [hlost, hkept.1, List.append_nil]

/-- What is lost stays lost. -/
theorem exists_lost_insert (seqn : μ → UInt32) (readyFull : ℕ → Bool) (m : μ)
    (b : RteReorderBuffer μ e) :
    ∃ taken, (rteReorderInsert seqn readyFull m b).2.lost =
      b.lost ++ taken := by
  have hcase := rteReorderInsert_cases seqn readyFull m b
  rw [← (orderBuf_beginWindow seqn m b).2]
  generalize rteReorderInsert seqn readyFull m b = r at hcase
  cases hcase with
  | inside => exact ⟨_, rfl⟩
  | ahead adv _ _ hfill =>
      obtain ⟨taken, hlost, -⟩ :=
        exists_lost_iterate readyFull (beginWindow seqn m b) hfill.le
      exact ⟨_, (congrArg (· ++ _) hlost).trans (List.append_assoc _ _ _)⟩
  | noRoom adv _ _ hfill =>
      obtain ⟨taken, hlost, -⟩ :=
        exists_lost_iterate readyFull (beginWindow seqn m b) hfill.le
      exact ⟨taken, hlost⟩
  | refused => exact ⟨[], (List.append_nil _).symm⟩

theorem lost_insert_eq_nil_iff :
    (rteReorderInsert seqn readyFull m b).2.lost = [] ↔ b.lost = [] ∧
      (rteReorderInsert seqn readyFull m b).2.lost = b.lost := by
  obtain ⟨taken, hlost⟩ := exists_lost_insert seqn readyFull m b
  rw [hlost, List.append_eq_nil_iff, List.append_right_eq_self]

/-! ## What can be seen before -/

/-- Where the loops take a packet without room, the window was such. -/
theorem Filled.overflows (h : Filled (readyBufFull e) b n adv)
    (hfull : ∃ j, j < adv ∧ FullAt (readyBufFull e) b j) :
    FillOverflows n b := by
  classical
  obtain ⟨hj, hfullAt⟩ := Nat.find_spec hfull
  have hfirst : ∀ i < Nat.find hfull, ¬FullAt (readyBufFull e) b i :=
    fun i hi hat => Nat.find_min hfull hi ⟨hi.trans hj, hat⟩
  generalize Nat.find hfull = j at hj hfullAt hfirst
  obtain ⟨hpos, hbefore, hat⟩ := h.room j hj hfullAt
  obtain ⟨k, rfl⟩ := Nat.exists_eq_add_one.mpr hpos
  have hle := h.le
  have hlength := length_readyBuf_iterate (hj.le.trans hle) hfirst
  refine ⟨k, by omega, hbefore, hat, ?_, ?_⟩
  · exact fun i hi hn => h.needed i (by omega) hn
  · rw [← hlength]
    exact hfullAt

/-- Where the window is such, the loops do not stop before they take a packet
without room. -/
theorem Filled.exists_fullAt (h : Filled (readyBufFull e) b n adv)
    (hexit : n ≤ adv ∨ FullAt (readyBufFull e) b adv) (hn : 0 < n)
    (hover : FillOverflows n b) :
    ∃ j, j < adv ∧ FullAt (readyBufFull e) b j := by
  obtain ⟨k, hk, hfills, hbehind, hneeded, hfull⟩ := hover
  by_contra hnone
  have hroom : ∀ j < adv, ¬FullAt (readyBufFull e) b j :=
    fun j hj hat => hnone ⟨j, hj, hat⟩
  have hlength : ∀ i ≤ adv, FullAt (readyBufFull e) b i ↔
      b.readyBuf.length + b.orderBuf.countFirst i + 1 = 2 ^ e := by
    intro i hi
    rw [FullAt, length_readyBuf_iterate (hi.trans h.le) fun j hj =>
      hroom j (hj.trans_le hi), readyBufFull, decide_eq_true_iff]
  rw [readyBufFull, decide_eq_true_iff] at hfull
  have hadv : adv ≤ k + 1 := by
    by_contra hpassed
    exact hroom (k + 1) (by omega) ((hlength (k + 1) (by omega)).mpr hfull)
  have hstuck : 0 < adv ∧ (b.orderBuf.get adv).isSome := by
    rcases hexit with hge | hat
    · exact ⟨hn.trans_le hge, hneeded adv hadv hge⟩
    · -- the packet that fills the ready buffer has been taken
      have hcount := (hlength adv le_rfl).mp hat
      have hlast : adv = k + 1 := by
        by_contra hne
        have hlt := CircularWindow.countFirst_lt (w := b.orderBuf)
          (show adv ≤ k by omega) (Nat.lt_add_one k) hfills
        omega
      exact ⟨by omega, hlast ▸ hbehind⟩
  exact hroom (adv - 1) (by omega)
    (h.stopped hstuck.1 (by omega) hstuck.2)

/-- `rte_reorder_fill_overflow` loses a packet exactly in such a window. -/
theorem lost_rteReorderFillOverflow_iff (hn : 0 < n) (hle : n ≤ 2 ^ e) :
    (rteReorderFillOverflow (readyBufFull e) n b).2.lost = b.lost ↔
      ¬FillOverflows n b := by
  obtain ⟨adv, hmove, hfill, hexit⟩ :=
    rteReorderFillOverflow_eq (readyBufFull e) b hle
  rw [hmove, hfill.lost_iff]
  constructor
  · intro hroom hover
    obtain ⟨j, hj, hat⟩ := hfill.exists_fullAt hexit hn hover
    exact hroom j hj hat
  · exact fun hfits j hj hat => hfits (hfill.overflows ⟨j, hj, hat⟩)

/-- A ready buffer that always has room loses nothing. -/
theorem lost_rteReorderFillOverflow_neverFull (hle : n ≤ 2 ^ e) :
    (rteReorderFillOverflow neverFull n b).2.lost = b.lost := by
  obtain ⟨adv, hmove, hfill, -⟩ := rteReorderFillOverflow_eq neverFull b hle
  rw [hmove]
  exact (moveOn_neverFull adv).2

end RteReorderBuffer
end DpdkFolder
