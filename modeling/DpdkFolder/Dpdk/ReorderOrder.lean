import DpdkFolder.Dpdk.ReorderOverflow
import DpdkFolder.Support.SmallSteps

/-!
# The order of the packets in a reorder buffer

Sequence numbers wrap around, positions do not: a packet in the window stands
at the position of the head plus its offset, and its sequence number is that
position modulo `2 ^ 32`.  The packets that have left the window and those in it
stand at ascending positions with bounded gaps, and a packet in the window is
written over only by one with its own sequence number.
-/

namespace DpdkFolder
namespace RteReorderBuffer

variable {μ : Type*} {e : ℕ}

/-- The positions of the packets held, if those of the ready ones are `past`
and the head stands at `base`. -/
def positions (b : RteReorderBuffer μ e) (base : ℕ) (past : List ℕ) :
    List ℕ :=
  past ++ b.orderBuf.offsets.map (base + ·)

/-- The packets in `out` and those held stand where their sequence numbers
say, and neighbours are less than `gap` apart; `past` are the positions of those
in `out` and of the ready ones. -/
structure Flowing (gap : ℕ) (seqn : μ → UInt32) (out : List μ)
    (b : RteReorderBuffer μ e) (base : ℕ) (past : List ℕ) : Prop where
  handed : (out ++ b.readyBuf).map seqn = past.map UInt32.ofNat
  window : ∀ k < 2 ^ e, ∀ m, b.orderBuf.get k = some m →
    seqn m = UInt32.ofNat (base + k)
  sorted : past.Pairwise (· < ·)
  past_lt : ∀ q ∈ past, q < base
  steps : SmallSteps gap (b.positions base past)

variable {gap : ℕ} {seqn : μ → UInt32} {readyFull : ℕ → Bool} {out : List μ}
  {b : RteReorderBuffer μ e} {m : μ} {base adv : ℕ} {past : List ℕ}

theorem mem_positions {x : ℕ} : x ∈ b.positions base past ↔
    x ∈ past ∨ ∃ k ∈ b.orderBuf.offsets, base + k = x := by
  rw [positions, List.mem_append, List.mem_map]

theorem map_advance_offsets (xs : List ℕ) (base : ℕ) :
    (xs.map (· + 1)).map (base + ·) = xs.map (base + 1 + ·) := by
  rw [List.map_map]
  exact List.map_congr_left fun k _ => Nat.add_right_comm base k 1

theorem positions_of_none (base : ℕ) (past : List ℕ)
    (hhead : b.orderBuf.get 0 = none) :
    positions { b with orderBuf := b.orderBuf.advance } (base + 1) past =
      b.positions base past := by
  rw [positions, positions, b.orderBuf.offsets_advance, hhead,
    ← map_advance_offsets]
  rfl

theorem positions_of_some (ready : List μ) (base : ℕ) (past : List ℕ)
    (hhead : b.orderBuf.get 0 = some m) :
    positions { b with
        orderBuf := b.orderBuf.advance
        readyBuf := ready } (base + 1) (past ++ [base]) =
      b.positions base past := by
  rw [positions, positions, b.orderBuf.offsets_advance, hhead,
    ← map_advance_offsets, List.append_assoc, List.map_append]
  rfl

/-- The sequence number of a packet is that of its offset from the head. -/
theorem seqn_eq_ofNat (h : b.minSeqn = UInt32.ofNat base) (m : μ) :
    seqn m = UInt32.ofNat (base + offset seqn m b) := by
  rw [UInt32.ofNat_add, ← h, offset, UInt32.ofNat_toNat, UInt32.add_comm,
    UInt32.sub_add_cancel]

namespace Flowing

theorem window_advance (h : Flowing gap seqn out b base past) :
    ∀ k < 2 ^ e, ∀ m, b.orderBuf.advance.get k = some m →
      seqn m = UInt32.ofNat (base + 1 + k) := by
  intro k hk m hm
  rw [CircularWindow.get_advance hk] at hm
  split at hm
  · next hlt =>
      rw [h.window (k + 1) hlt m hm, Nat.add_right_comm, Nat.add_assoc]
  · simp at hm

theorem map_held (h : Flowing gap seqn out b base past) :
    (out ++ b.held).map seqn =
      (b.positions base past).map UInt32.ofNat := by
  rw [held, ← List.append_assoc, List.map_append, h.handed,
    CircularWindow.map_contents h.window, positions, List.map_append,
    List.map_map]
  rfl

theorem positions_pairwise (h : Flowing gap seqn out b base past) :
    (b.positions base past).Pairwise (· < ·) := by
  rw [positions, List.pairwise_append]
  refine ⟨h.sorted, ?_, ?_⟩
  · rw [List.pairwise_map]
    exact b.orderBuf.offsets_pairwise.imp fun hlt =>
      Nat.add_lt_add_left hlt base
  · intro x hx y hy
    obtain ⟨k, -, rfl⟩ := List.mem_map.mp hy
    exact Nat.lt_add_right k (h.past_lt x hx)

/-- The head moves on from an empty slot. -/
theorem skipped (h : Flowing gap seqn out b base past)
    (hhead : b.orderBuf.get 0 = none) :
    Flowing gap seqn out { b with orderBuf := b.orderBuf.advance } (base + 1)
      past := by
  refine ⟨h.handed, h.window_advance, h.sorted, ?_, ?_⟩
  · exact fun q hq => Nat.lt_succ_of_lt (h.past_lt q hq)
  · rw [positions_of_none base past hhead]
    exact h.steps

/-- The packet at the head becomes ready, or goes to `out` if none is. -/
theorem taken (h : Flowing gap seqn out b base past)
    (hhead : b.orderBuf.get 0 = some m) {out' : List μ}
    {c : RteReorderBuffer μ e}
    (hhanded : out' ++ c.readyBuf = out ++ b.readyBuf ++ [m])
    (hbuf : c.orderBuf = b.orderBuf.advance) :
    Flowing gap seqn out' c (base + 1) (past ++ [base]) ∧
      c.positions (base + 1) (past ++ [base]) = b.positions base past := by
  have hsame : c.positions (base + 1) (past ++ [base]) =
      b.positions base past := by
    rw [← positions_of_some b.readyBuf base past hhead, positions, hbuf]
    rfl
  refine ⟨⟨?_, ?_, ?_, ?_, ?_⟩, hsame⟩
  · rw [hhanded, List.map_append, h.handed, List.map_append,
      List.map_singleton, h.window 0 (Nat.two_pow_pos e) m hhead]
    rfl
  · rw [hbuf]
    exact h.window_advance
  · rw [List.pairwise_append]
    refine ⟨h.sorted, List.pairwise_singleton _ _, ?_⟩
    intro q hq y hy
    rw [List.mem_singleton.mp hy]
    exact h.past_lt q hq
  · intro q hq
    rcases List.mem_append.mp hq with hq | hq
    · exact Nat.lt_succ_of_lt (h.past_lt q hq)
    · exact List.mem_singleton.mp hq ▸ Nat.lt_succ_self base
  · rw [hsame]
    exact h.steps

/-- When the head moves on and there is room, the packets stay at their
positions, and the one at the head becomes ready. -/
theorem passed (h : Flowing gap seqn out b base past)
    (hroom : (b.orderBuf.get 0).isSome → ¬readyFull b.readyBuf.length) :
    ∃ past', Flowing gap seqn out (passHead readyFull b) (base + 1) past' ∧
      (passHead readyFull b).positions (base + 1) past' =
        b.positions base past ∧
      ((passHead readyFull b).readyBuf = b.readyBuf ∧ past' = past ∨
        past' = past ++ [base]) := by
  cases hhead : b.orderBuf.get 0 with
  | none =>
      rw [passHead_of_none hhead]
      exact ⟨past, h.skipped hhead, positions_of_none base past hhead,
        Or.inl ⟨rfl, rfl⟩⟩
  | some m =>
      rw [passHead_of_some hhead, if_neg (hroom (by rw [hhead]; rfl))]
      obtain ⟨hflow, hsame⟩ := h.taken hhead
        (c := { b with
          orderBuf := b.orderBuf.advance
          readyBuf := b.readyBuf ++ [m] })
        (List.append_assoc _ _ _).symm rfl
      exact ⟨past ++ [base], hflow, hsame, Or.inr rfl⟩

/-- As long as there is room, the packets stay at their positions. -/
theorem moved (h : Flowing gap seqn out b base past)
    (hroom : ∀ j < adv, ¬FullAt readyFull b j) :
    ∃ past', Flowing gap seqn out (moveOn readyFull adv b) (base + adv) past' ∧
      (moveOn readyFull adv b).positions (base + adv) past' =
        b.positions base past := by
  have hiterate : ∃ past',
      Flowing gap seqn out ((passHead readyFull)^[adv] b) (base + adv)
        past' ∧
      ((passHead readyFull)^[adv] b).positions (base + adv) past' =
        b.positions base past := by
    induction adv with
    | zero => exact ⟨past, h, rfl⟩
    | succ adv ih =>
        obtain ⟨mid, hmid, hsame⟩ := ih fun j hj =>
          hroom j (Nat.lt_succ_of_lt hj)
        obtain ⟨past', hpast', hnext, -⟩ :=
          hmid.passed fun _ => hroom adv (Nat.lt_succ_self adv)
        rw [Function.iterate_succ_apply']
        exact ⟨past', hpast', hnext.trans hsame⟩
  obtain ⟨past', hpast', hsame⟩ := hiterate
  exact ⟨past', ⟨hpast'.handed, hpast'.window, hpast'.sorted, hpast'.past_lt,
    hpast'.steps⟩, hsame⟩

/-- A packet may be stored at its offset unless that is far from every
position. -/
theorem stored (h : Flowing gap seqn out b base past)
    (hmin : b.minSeqn = UInt32.ofNat base) {k : ℕ} (hk : k < 2 ^ e)
    (hoffset : offset seqn m b = k)
    (hnear : b.positions base past = [] ∨
      ∃ p ∈ b.positions base past,
        base + k < p + gap ∧ p < base + k + gap) :
    Flowing gap seqn out (store seqn m b) base past ∧
      base + k ∈ (store seqn m b).positions base past := by
  have hbuf : (store seqn m b).orderBuf = b.orderBuf.put k m := by
    rw [← hoffset]
    rfl
  have hmem : ∀ x, x ∈ (store seqn m b).positions base past ↔
      x ∈ (base + k) :: b.positions base past := by
    intro x
    rw [mem_positions, List.mem_cons, mem_positions, hbuf]
    simp only [CircularWindow.mem_offsets_put hk]
    constructor
    · rintro (hx | ⟨j, rfl | hj, rfl⟩)
      · exact Or.inr (Or.inl hx)
      · exact Or.inl rfl
      · exact Or.inr (Or.inr ⟨j, hj, rfl⟩)
    · rintro (rfl | hx | ⟨j, hj, rfl⟩)
      · exact Or.inr ⟨k, Or.inl rfl, rfl⟩
      · exact Or.inl hx
      · exact Or.inr ⟨j, Or.inr hj, rfl⟩
  refine ⟨⟨h.handed, ?_, h.sorted, h.past_lt,
    (h.steps.insert hnear).congr hmem⟩, (hmem _).mpr List.mem_cons_self⟩
  intro j hj m' hm'
  rw [hbuf] at hm'
  by_cases hjk : j = k
  · rw [hjk, CircularWindow.get_put_self, Option.some.injEq] at hm'
    rw [← hm', hjk, ← hoffset]
    exact seqn_eq_ofNat hmin m
  · rw [CircularWindow.get_put_of_ne hj hk hjk] at hm'
    exact h.window j hj m' hm'

end Flowing

/-- `t` is ahead of `s` by less than `gap`, modulo `2 ^ 32`. -/
def Ahead (gap : ℕ) (s t : UInt32) : Prop :=
  0 < (t - s).toNat ∧ (t - s).toNat < gap

instance (gap : ℕ) (s t : UInt32) : Decidable (Ahead gap s t) :=
  inferInstanceAs (Decidable (_ ∧ _))

theorem ahead_ofNat {gap p q : ℕ} (hgap : gap ≤ 2 ^ 32) (hlt : p < q)
    (hclose : q < p + gap) :
    Ahead gap (UInt32.ofNat p) (UInt32.ofNat q) := by
  have hdiff : (UInt32.ofNat q - UInt32.ofNat p).toNat = q - p := by
    rw [← UInt32.ofNat_sub hlt.le]
    exact UInt32.toNat_ofNat_of_lt' (show q - p < 2 ^ 32 by omega)
  rw [Ahead, hdiff]
  omega

/-- The packets in `out` and those held are in the order of their sequence
numbers. -/
theorem Flowing.isChain (hgap : gap ≤ 2 ^ 32)
    (h : Flowing gap seqn out b base past) :
    ((out ++ b.held).map seqn).IsChain (Ahead gap) := by
  rw [h.map_held, List.isChain_map]
  exact (h.steps.isChain h.positions_pairwise.sortedLT).imp
    fun _ _ hstep => ahead_ofNat hgap hstep.1 hstep.2

/-! ## Between two calls -/

/-- The sequence number of the head is that of `base`, and nothing is there
before the first packet has set it. -/
structure Anchored (gap : ℕ) (seqn : μ → UInt32) (out : List μ)
    (b : RteReorderBuffer μ e) (base : ℕ) (past : List ℕ) : Prop
    extends Flowing gap seqn out b base past where
  minSeqn_eq : b.minSeqn = UInt32.ofNat base
  fresh : b.isInitialized = false → b.positions base past = []

theorem isInitialized_moveOn (readyFull : ℕ → Bool) (adv : ℕ)
    (b : RteReorderBuffer μ e) :
    (moveOn readyFull adv b).isInitialized = b.isInitialized :=
  Function.Iterate.rec
    (fun c => isInitialized c = b.isInitialized) rfl
    (fun _ hc => passHead_frame.2.1.trans hc) adv

/-- Moving on brings a packet nearer to the head. -/
theorem offset_moveOn (readyFull : ℕ → Bool) {adv k : ℕ}
    (hk : offset seqn m b = k) (h : adv ≤ k) :
    offset seqn m (moveOn readyFull adv b) = k - adv := by
  subst hk
  have hlt := (seqn m - b.minSeqn).toNat_lt
  have hadv : (UInt32.ofNat adv).toNat = adv :=
    UInt32.toNat_ofNat_of_lt' (lt_of_le_of_lt h hlt)
  have hle : UInt32.ofNat adv ≤ seqn m - b.minSeqn := by
    rw [UInt32.le_iff_toNat_le, hadv]
    exact h
  have hsub := UInt32.toNat_sub_of_le _ _ hle
  rw [hadv] at hsub
  rw [offset, offset, moveOn, ← hsub]
  simp only [UInt32.sub_eq_add_neg, UInt32.neg_add, UInt32.add_assoc]

theorem minSeqn_moveOn (h : b.minSeqn = UInt32.ofNat base) (adv : ℕ) :
    (moveOn readyFull adv b).minSeqn = UInt32.ofNat (base + adv) := by
  change _ + _ = _
  rw [h, UInt32.ofNat_add]

theorem positions_of_nil (h : b.held = []) (base : ℕ) :
    b.positions base [] = [] := by
  rw [positions, CircularWindow.contents_eq_nil_iff_offsets.mp
    (List.append_eq_nil_iff.mp h).2]
  rfl

theorem flowing_of_nil (h : b.held = []) (base : ℕ) :
    Flowing gap seqn [] b base [] := by
  obtain ⟨hready, hwindow⟩ := List.append_eq_nil_iff.mp h
  have hnone := CircularWindow.contents_eq_nil_iff.mp hwindow
  refine ⟨by rw [hready]; rfl, ?_, List.Pairwise.nil, ?_, ?_⟩
  · intro k hk m hm
    rw [hnone k hk] at hm
    exact absurd hm (Option.some_ne_none m).symm
  · exact fun q hq => absurd hq List.not_mem_nil
  · rw [positions_of_nil h]
    exact SmallSteps.nil

theorem anchored_create (gap : ℕ) (seqn : μ → UInt32) :
    Anchored gap seqn [] (create μ e) 0 [] :=
  ⟨flowing_of_nil held_create 0, rfl, fun _ => positions_of_nil held_create 0⟩

namespace Anchored

/-- The first packet sets the position of the head. -/
theorem begun (h : Anchored gap seqn out b base past) (m : μ) :
    ∃ base' past', Anchored gap seqn out (beginWindow seqn m b) base' past' ∧
      (beginWindow seqn m b = b ∧ base' = base ∧ past' = past ∨
        (beginWindow seqn m b).positions base' past' = []) := by
  rw [beginWindow]
  split
  · exact ⟨base, past, h, Or.inl ⟨rfl, rfl, rfl⟩⟩
  · next hfresh =>
      have hmap := h.map_held
      rw [h.fresh (Bool.eq_false_of_not_eq_true hfresh), List.map_nil,
        List.map_eq_nil_iff, List.append_eq_nil_iff] at hmap
      obtain ⟨rfl, hheld⟩ := hmap
      have hnone := positions_of_nil hheld (seqn m).toNat
      refine ⟨(seqn m).toNat, [], ⟨?_, UInt32.ofNat_toNat.symm,
        fun _ => hnone⟩, Or.inr hnone⟩
      apply flowing_of_nil
      exact hheld

theorem moved (h : Anchored gap seqn out b base past)
    (hroom : ∀ j < adv, ¬FullAt readyFull b j) :
    ∃ past', Anchored gap seqn out (moveOn readyFull adv b) (base + adv)
        past' ∧
      (moveOn readyFull adv b).positions (base + adv) past' =
        b.positions base past := by
  obtain ⟨past', hflow, hsame⟩ := h.toFlowing.moved hroom
  refine ⟨past', ⟨hflow, minSeqn_moveOn h.minSeqn_eq adv, ?_⟩, hsame⟩
  rw [isInitialized_moveOn, hsame]
  exact h.fresh

theorem stored (h : Anchored gap seqn out b base past)
    (hbegun : b.isInitialized = true) (hk : offset seqn m b < 2 ^ e)
    (hnear : b.positions base past = [] ∨
      ∃ p ∈ b.positions base past,
        base + offset seqn m b < p + gap ∧ p < base + offset seqn m b + gap) :
    Anchored gap seqn out (store seqn m b) base past ∧
      base + offset seqn m b ∈ (store seqn m b).positions base past := by
  obtain ⟨hflow, hmem⟩ := h.toFlowing.stored h.minSeqn_eq hk rfl hnear
  refine ⟨⟨hflow, h.minSeqn_eq, fun hfresh => ?_⟩, hmem⟩
  exact absurd (hbegun.symm.trans hfresh) Bool.true_eq_false.mp

end Anchored

/-! ## Packets that are lost -/

/-- No packet in the window has the sequence number `s`. -/
def Unused (seqn : μ → UInt32) (b : RteReorderBuffer μ e) (s : UInt32) :
    Prop :=
  ∀ m ∈ b.orderBuf.contents, seqn m ≠ s

theorem mem_contents : m ∈ b.orderBuf.contents ↔
    ∃ k < 2 ^ e, b.orderBuf.get k = some m := by
  simp only [CircularWindow.contents, List.mem_filterMap, List.mem_range]

/-- A sequence number is that of a packet in the window exactly if its place
is taken. -/
theorem Anchored.unused_iff (he : e < 32)
    (h : Anchored gap seqn out b base past) (m : μ) :
    Unused seqn b (seqn m) ↔ (offset seqn m b < 2 ^ e →
      b.orderBuf.get (offset seqn m b) = none) := by
  have hsize : 2 ^ e ≤ 2 ^ 32 := Nat.pow_le_pow_right Nat.two_pos he.le
  have hseqn : seqn m = UInt32.ofNat (base + offset seqn m b) :=
    seqn_eq_ofNat h.minSeqn_eq m
  constructor
  · intro hunused hk
    by_contra htaken
    obtain ⟨m', hm'⟩ := Option.ne_none_iff_exists'.mp htaken
    refine hunused m' (mem_contents.mpr ⟨_, hk, hm'⟩) ?_
    rw [h.window _ hk m' hm', ← hseqn]
  · intro hfree m' hm' hsame
    obtain ⟨j, hj, hget⟩ := mem_contents.mp hm'
    have hplace := h.window j hj m' hget
    rw [hsame, hseqn, UInt32.ofNat_add, UInt32.ofNat_add,
      UInt32.add_right_inj] at hplace
    have hnat := congrArg UInt32.toNat hplace
    rw [offset, UInt32.ofNat_toNat,
      UInt32.toNat_ofNat_of_lt' (lt_of_lt_of_le hj hsize)] at hnat
    change offset seqn m b = j at hnat
    have hnone := hfree (hnat ▸ hj)
    rw [hnat, hget] at hnone
    exact Option.some_ne_none m' hnone

/-- A place beyond the window is free when the head has moved near it. -/
theorem get_moveOn_of_ge (readyFull : ℕ → Bool) (b : RteReorderBuffer μ e)
    {adv k : ℕ} (hge : 2 ^ e ≤ k) (hle : adv ≤ 2 ^ e)
    (hnear : k - adv < 2 ^ e) :
    (moveOn readyFull adv b).orderBuf.get (k - adv) = none := by
  change ((passHead readyFull)^[adv] b).orderBuf.get (k - adv) = none
  rw [orderBuf_iterate_passHead,
    CircularWindow.get_iterate_advance adv hnear, if_neg (by omega)]

/-- An insert that moves the window loses what is lost when the head moves
on: the packet itself goes to a free place. -/
theorem lost_insert_of_ahead (readyFull : ℕ → Bool)
    (hge : 2 ^ e ≤ offset seqn m (beginWindow seqn m b))
    (hlt : offset seqn m (beginWindow seqn m b) < 2 * 2 ^ e) :
    (rteReorderInsert seqn readyFull m b).2.lost =
      (rteReorderFillOverflow readyFull
        (offset seqn m (beginWindow seqn m b) + 1 - 2 ^ e)
        (beginWindow seqn m b)).2.lost := by
  obtain ⟨adv, hmove, hfill, -⟩ :=
    rteReorderFillOverflow_eq readyFull (beginWindow seqn m b)
      (show offset seqn m (beginWindow seqn m b) + 1 - 2 ^ e ≤ 2 ^ e by omega)
  rw [rteReorderInsert_of_fill rfl hge.not_gt hlt hmove, hmove]
  split
  · rfl
  · next henough =>
      have hle := hfill.le
      have hfree := get_moveOn_of_ge readyFull (beginWindow seqn m b) hge hle
        (by omega)
      change _ ++ Option.toList _ = _
      rw [offset_moveOn readyFull rfl (hle.trans hge), hfree,
        Option.toList_none, List.append_nil]

/-- An insert loses nothing exactly if its number is not that of a packet in
the window and no packet is lost when the head moves on. -/
theorem Anchored.lost_insert_iff (he : e < 32) (readyFull : ℕ → Bool)
    (h : Anchored gap seqn out b base past) (m : μ) :
    (rteReorderInsert seqn readyFull m b).2.lost = b.lost ↔
      Unused seqn b (seqn m) ∧
        (2 ^ e ≤ offset seqn m (beginWindow seqn m b) →
          offset seqn m (beginWindow seqn m b) < 2 * 2 ^ e →
          (rteReorderFillOverflow readyFull
            (offset seqn m (beginWindow seqn m b) + 1 - 2 ^ e)
            (beginWindow seqn m b)).2.lost = b.lost) := by
  obtain ⟨hbuf, hlost⟩ := orderBuf_beginWindow seqn m b
  obtain ⟨base, past, hbegin, -⟩ := h.begun m
  have hunused := hbegin.unused_iff he m
  have hsame : Unused seqn b (seqn m) =
      Unused seqn (beginWindow seqn m b) (seqn m) := by
    rw [Unused, Unused, hbuf]
  rw [hsame, hunused]
  by_cases hin : offset seqn m (beginWindow seqn m b) < 2 ^ e
  · rw [rteReorderInsert_of_lt hin, ← hlost]
    change _ ++ Option.toList _ = _ ↔ _
    rw [List.append_right_eq_self, Option.toList_eq_nil_iff]
    exact ⟨fun hfree => ⟨fun _ => hfree, fun hge => absurd hin hge.not_gt⟩,
      fun hfree => hfree.1 hin⟩
  by_cases hahead : offset seqn m (beginWindow seqn m b) < 2 * 2 ^ e
  · have hge := not_lt.mp hin
    rw [lost_insert_of_ahead readyFull hge hahead]
    exact ⟨fun hkept => ⟨fun hk => absurd hk hin, fun _ _ => hkept⟩,
      fun hkept => hkept.2 hge hahead⟩
  · rw [rteReorderInsert_of_ge (not_lt.mp hahead)]
    exact ⟨fun _ => ⟨fun hk => absurd hk hin, fun _ hlt => absurd hlt hahead⟩,
      fun _ => hlost⟩

/-- With room for all, only a packet with the same number is written over. -/
theorem Anchored.lost_insert_neverFull_iff (he : e < 32)
    (h : Anchored gap seqn out b base past) (m : μ) :
    (rteReorderInsert seqn neverFull m b).2.lost = b.lost ↔
      Unused seqn b (seqn m) := by
  rw [h.lost_insert_iff he _ m, and_iff_left_iff_imp]
  intro _ hge hlt
  rw [lost_rteReorderFillOverflow_neverFull (by omega)]
  exact (orderBuf_beginWindow seqn m b).2

/-- With the ready buffer of the library, packets in the window may also
overflow it. -/
theorem Anchored.lost_insert_readyBufFull_iff (he : e < 32)
    (h : Anchored gap seqn out b base past) (m : μ) :
    (rteReorderInsert seqn (readyBufFull e) m b).2.lost = b.lost ↔
      Unused seqn b (seqn m) ∧ ¬b.Overflows (seqn m) := by
  rw [h.lost_insert_iff he _ m]
  refine and_congr_right fun _ => ?_
  by_cases hbegun : b.isInitialized
  · have hsame : beginWindow seqn m b = b := if_pos hbegun
    rw [hsame, Overflows, offset]
    constructor
    · rintro hkept ⟨hge, hlt, hover⟩
      exact (lost_rteReorderFillOverflow_iff (by omega) (by omega)).mp
        (hkept hge hlt) hover
    · intro hfits hge hlt
      rw [lost_rteReorderFillOverflow_iff (by omega) (by omega)]
      exact fun hover => hfits ⟨hge, hlt, hover⟩
  · -- the first packet finds an empty window and sets its head
    have hfresh := h.fresh (Bool.eq_false_of_not_eq_true hbegun)
    have hnone := CircularWindow.contents_eq_nil_iff.mp
      (CircularWindow.contents_eq_nil_iff_offsets.mpr
        (List.map_eq_nil_iff.mp (List.append_eq_nil_iff.mp hfresh).2))
    have hzero : offset seqn m (beginWindow seqn m b) = 0 := by
      rw [beginWindow, if_neg hbegun, offset, UInt32.sub_self]
      rfl
    have hpos := Nat.two_pow_pos e
    constructor
    · rintro - ⟨-, -, k, hk, hsome, -⟩
      rw [hnone k (by omega)] at hsome
      cases hsome
    · intro _ hge
      omega

end RteReorderBuffer
end DpdkFolder
