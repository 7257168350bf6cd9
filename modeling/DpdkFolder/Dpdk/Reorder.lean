import Mathlib.Data.Int.Notation
import DpdkFolder.Support.CircularWindow

/-!
# The reorder library as the programs rely on it

A window of packets that wait for earlier ones, kept in a circular array, and
a buffer of packets that the window has moved past.  Here the size of the
array is `2 ^ e`, `seqn` is the sequence number of a packet, and `readyFull`
tells by the number of ready packets whether there is no room for more.
-/

namespace DpdkFolder

/-- `struct rte_reorder_buffer`.  The packets in `lost` are those whose only
pointer has been written over. -/
structure RteReorderBuffer (μ : Type*) (e : ℕ) where
  minSeqn : UInt32
  isInitialized : Bool
  orderBuf : CircularWindow μ e
  readyBuf : List μ
  lost : List μ

namespace RteReorderBuffer

variable {μ : Type*} {e : ℕ}

/-- `rte_reorder_create`. -/
def create (μ : Type*) (e : ℕ) : RteReorderBuffer μ e where
  minSeqn := 0
  isInitialized := false
  orderBuf := CircularWindow.empty μ e
  readyBuf := []
  lost := []

/-- The packets in the buffer, those that are ready first. -/
def held (b : RteReorderBuffer μ e) : List μ :=
  b.readyBuf ++ b.orderBuf.contents

/-- The packets put into the buffer and not returned. -/
def account (b : RteReorderBuffer μ e) : List μ :=
  b.held ++ b.lost

section Operations

variable (seqn : μ → UInt32) (readyFull : ℕ → Bool)

/-- The branch of `rte_reorder_fill_overflow` that skips a missing packet:
by how much the head moves, and the buffer. -/
def skipMissing (b : RteReorderBuffer μ e) : ℕ × RteReorderBuffer μ e :=
  match b.orderBuf.get 0 with
  | none => (1, { b with orderBuf := b.orderBuf.moveHead })
  | some _ => (0, b)

/-- The inner loop of `rte_reorder_fill_overflow`, in at most the given
number of rounds: by how much the head moves, and the buffer. -/
def moveReady : ℕ → RteReorderBuffer μ e → ℕ × RteReorderBuffer μ e
  | 0, b => (0, b)
  | rounds + 1, b =>
      match b.orderBuf.get 0 with
      | none => (0, b)
      | some m =>
          let b := { b with orderBuf := b.orderBuf.advance }
          -- without room the packet is written where the next one will be
          if readyFull b.readyBuf.length then
            (1, { b with lost := b.lost ++ [m] })
          else
            let (adv, b) := moveReady rounds
              { b with readyBuf := b.readyBuf ++ [m] }
            (adv + 1, b)

/-- The outer loop of `rte_reorder_fill_overflow`, in at most the given
number of rounds, after the head has moved by `adv`. -/
def fillLoop (n : ℕ) :
    ℕ → ℕ → RteReorderBuffer μ e → ℕ × RteReorderBuffer μ e
  | 0, adv, b => (adv, b)
  | rounds + 1, adv, b =>
      if adv < n ∧ ¬readyFull b.readyBuf.length then
        let (skipped, b) := skipMissing b
        let (moved, b) := moveReady readyFull (2 ^ e) b
        fillLoop n rounds (adv + skipped + moved) b
      else (adv, b)

/-- `rte_reorder_fill_overflow`: by how much the head moves, and the
buffer. -/
def rteReorderFillOverflow (n : ℕ) (b : RteReorderBuffer μ e) :
    ℕ × RteReorderBuffer μ e :=
  let (adv, b) := fillLoop readyFull n n 0 b
  (adv, { b with minSeqn := b.minSeqn + UInt32.ofNat adv })

/-- How far a packet is ahead of the head, modulo `2 ^ 32`. -/
def offset (m : μ) (b : RteReorderBuffer μ e) : ℕ :=
  (seqn m - b.minSeqn).toNat

/-- Write a packet to its place in the window. -/
def store (m : μ) (b : RteReorderBuffer μ e) : RteReorderBuffer μ e :=
  { b with
    orderBuf := b.orderBuf.put (offset seqn m b) m
    lost := b.lost ++ (b.orderBuf.get (offset seqn m b)).toList }

/-- The first packet sets the sequence number of the head. -/
def beginWindow (m : μ) (b : RteReorderBuffer μ e) : RteReorderBuffer μ e :=
  if b.isInitialized then b
  else { b with minSeqn := seqn m, isInitialized := true }

/-- `rte_reorder_insert`. -/
def rteReorderInsert (m : μ) (b : RteReorderBuffer μ e) :
    ℤ × RteReorderBuffer μ e :=
  let b := beginWindow seqn m b
  let k := offset seqn m b
  if k < 2 ^ e then (0, store seqn m b)
  else if k < 2 * 2 ^ e then
    let (adv, b) := rteReorderFillOverflow readyFull (k + 1 - 2 ^ e) b
    if adv < k + 1 - 2 ^ e then (-1, b)
    else (0, store seqn m b)
  else (-1, b)

/-- The second loop of `rte_reorder_drain`: packets from the head on, at most
the given number, until one is missing. -/
def drainWindow : ℕ → RteReorderBuffer μ e → List μ × RteReorderBuffer μ e
  | 0, b => ([], b)
  | max + 1, b =>
      match b.orderBuf.get 0 with
      | none => ([], b)
      | some m =>
          let (ms, b) := drainWindow max { b with
            orderBuf := b.orderBuf.advance
            minSeqn := b.minSeqn + 1 }
          (m :: ms, b)

/-- `rte_reorder_drain`: the packets returned and the buffer. -/
def rteReorderDrain (max : ℕ) (b : RteReorderBuffer μ e) :
    List μ × RteReorderBuffer μ e :=
  let ready := b.readyBuf.take max
  let (ms, b) := drainWindow (max - ready.length)
    { b with readyBuf := b.readyBuf.drop max }
  (ready ++ ms, b)

end Operations

/-- The fullness test of `rte_reorder_fill_overflow`, by the number of packets
in a circular buffer of `2 ^ e` slots. -/
def readyBufFull (e n : ℕ) : Bool := decide (n + 1 = 2 ^ e)

/-- The fullness test of a ready buffer that always has room. -/
def neverFull (_ : ℕ) : Bool := false

/-! ## The head of the window -/

/-- What the loops of `rte_reorder_fill_overflow` do with the slot at the
head, be it empty or not. -/
def passHead (readyFull : ℕ → Bool) (b : RteReorderBuffer μ e) :
    RteReorderBuffer μ e :=
  let next := { b with orderBuf := b.orderBuf.advance }
  match b.orderBuf.get 0 with
  | none => next
  | some m =>
      if readyFull b.readyBuf.length then { next with lost := b.lost ++ [m] }
      else { next with readyBuf := b.readyBuf ++ [m] }

/-- The buffer after the head has moved on by `adv`. -/
def moveOn (readyFull : ℕ → Bool) (adv : ℕ) (b : RteReorderBuffer μ e) :
    RteReorderBuffer μ e :=
  { (passHead readyFull)^[adv] b with
    minSeqn := b.minSeqn + UInt32.ofNat adv }

variable {seqn : μ → UInt32} {readyFull : ℕ → Bool}
  {b : RteReorderBuffer μ e} {m : μ}

theorem moveOn_zero : moveOn readyFull 0 b = b := by
  have hmin : b.minSeqn + UInt32.ofNat 0 = b.minSeqn := UInt32.add_zero _
  rw [moveOn, Function.iterate_zero_apply, hmin]

theorem passHead_of_none (h : b.orderBuf.get 0 = none) :
    passHead readyFull b = { b with orderBuf := b.orderBuf.advance } := by
  rw [passHead, h]

theorem passHead_of_some (h : b.orderBuf.get 0 = some m) :
    passHead readyFull b =
      if readyFull b.readyBuf.length then
        { b with orderBuf := b.orderBuf.advance, lost := b.lost ++ [m] }
      else
        { b with
          orderBuf := b.orderBuf.advance
          readyBuf := b.readyBuf ++ [m] } := by
  rw [passHead, h]

theorem passHead_frame :
    (passHead readyFull b).minSeqn = b.minSeqn ∧
      (passHead readyFull b).isInitialized = b.isInitialized ∧
        (passHead readyFull b).orderBuf = b.orderBuf.advance := by
  cases h : b.orderBuf.get 0 with
  | none =>
      rw [passHead_of_none h]
      exact ⟨rfl, rfl, rfl⟩
  | some m =>
      rw [passHead_of_some h]
      split <;> exact ⟨rfl, rfl, rfl⟩

theorem orderBuf_iterate_passHead (adv : ℕ) :
    ((passHead readyFull)^[adv] b).orderBuf =
      CircularWindow.advance^[adv] b.orderBuf := by
  induction adv with
  | zero => rfl
  | succ adv ih =>
      rw [Function.iterate_succ_apply', Function.iterate_succ_apply',
        passHead_frame.2.2, ih]

/-- The slot that is at the head after some moves. -/
theorem head_iterate {j : ℕ} (hj : j < 2 ^ e) :
    ((passHead readyFull)^[j] b).orderBuf.get 0 = b.orderBuf.get j := by
  rw [orderBuf_iterate_passHead,
    CircularWindow.get_iterate_advance j (Nat.two_pow_pos e),
    Nat.add_zero, if_pos hj]

/-- After as many moves as there are slots no packet is left. -/
theorem lt_of_head_iterate {adv : ℕ}
    (h : ((passHead readyFull)^[adv] b).orderBuf.get 0 = some m) :
    adv < 2 ^ e := by
  by_contra hge
  rw [orderBuf_iterate_passHead,
    CircularWindow.get_iterate_advance adv (Nat.two_pow_pos e),
    if_neg (by omega)] at h
  simp at h

/-! ## `rte_reorder_fill_overflow` -/

/-- There is no room for ready packets when the head has moved on by `j`. -/
def FullAt (readyFull : ℕ → Bool) (b : RteReorderBuffer μ e) (j : ℕ) :
    Prop :=
  readyFull ((passHead readyFull)^[j] b).readyBuf.length

/-- What the loops of `rte_reorder_fill_overflow` do while they move the head
on by `n`: from `n` on they only take packets, without room they only take the
one right behind the last packet taken, and they do not stop before another
packet unless they have done that. -/
structure Filled (readyFull : ℕ → Bool) (b : RteReorderBuffer μ e)
    (n adv : ℕ) : Prop where
  le : adv ≤ 2 ^ e
  needed : ∀ j < adv, n ≤ j → (b.orderBuf.get j).isSome
  room : ∀ j < adv, FullAt readyFull b j →
    0 < j ∧ (b.orderBuf.get (j - 1)).isSome ∧ (b.orderBuf.get j).isSome
  stopped : 0 < adv → adv < 2 ^ e → (b.orderBuf.get adv).isSome →
    FullAt readyFull b (adv - 1)

/-- The loops begin with room if they move the head at all. -/
theorem Filled.room_at_first {n adv : ℕ} (h : Filled readyFull b n adv)
    (hpos : 0 < adv) : ¬readyFull b.readyBuf.length := fun hfull =>
  absurd (h.room 0 hpos hfull).1 (lt_irrefl 0)

/-- Skipping moves an empty head. -/
theorem skipMissing_iterate (readyFull : ℕ → Bool)
    (b : RteReorderBuffer μ e) (adv : ℕ) :
    ∃ k, skipMissing ((passHead readyFull)^[adv] b) =
        (k, (passHead readyFull)^[adv + k] b) ∧
      k ≤ 1 ∧
      (k = 0 → (((passHead readyFull)^[adv] b).orderBuf.get 0).isSome) ∧
      (FullAt readyFull b (adv + k) ↔ FullAt readyFull b adv) := by
  cases h : ((passHead readyFull)^[adv] b).orderBuf.get 0 with
  | none =>
      have hnext := Function.iterate_succ_apply' (passHead readyFull) adv b
      rw [passHead_of_none h] at hnext
      refine ⟨1, ?_, le_rfl, fun hzero => absurd hzero Nat.one_ne_zero, ?_⟩
      · rw [skipMissing, h, hnext, CircularWindow.moveHead_of_none h]
      · rw [FullAt, FullAt, hnext]
  | some m =>
      refine ⟨0, ?_, Nat.zero_le 1, fun _ => rfl, Iff.rfl⟩
      rw [skipMissing, h, Nat.add_zero]

/-- The inner loop takes packets up to the next missing one, unless it has
taken one without room. -/
theorem moveReady_iterate (readyFull : ℕ → Bool)
    (b : RteReorderBuffer μ e) (rounds : ℕ) {adv : ℕ} (hadv : adv ≤ 2 ^ e)
    (hrounds : 2 ^ e ≤ adv + rounds) :
    ∃ k, moveReady readyFull rounds ((passHead readyFull)^[adv] b) =
        (k, (passHead readyFull)^[adv + k] b) ∧
      adv + k ≤ 2 ^ e ∧
      (∀ j, adv ≤ j → j < adv + k → (b.orderBuf.get j).isSome) ∧
      (adv + k < 2 ^ e → (b.orderBuf.get (adv + k)).isSome →
        0 < k ∧ FullAt readyFull b (adv + k - 1)) := by
  induction rounds generalizing adv with
  | zero =>
      exact ⟨0, rfl, hadv, fun j hle hlt => absurd hlt (by omega),
        fun hlt => absurd hlt (by omega)⟩
  | succ rounds ih =>
      cases h : ((passHead readyFull)^[adv] b).orderBuf.get 0 with
      | none =>
          refine ⟨0, ?_, hadv, fun j hle hlt => absurd hlt (by omega), ?_⟩
          · rw [moveReady, h, Nat.add_zero]
          · intro hlt hsome
            rw [Nat.add_zero] at hlt
            rw [head_iterate hlt] at h
            rw [Nat.add_zero, h] at hsome
            cases hsome
      | some m =>
          have hlt := lt_of_head_iterate h
          have hsome : (b.orderBuf.get adv).isSome := by
            rw [← head_iterate hlt, h]
            rfl
          have hnext := Function.iterate_succ_apply' (passHead readyFull)
            adv b
          rw [passHead_of_some h] at hnext
          cases hfull :
              readyFull ((passHead readyFull)^[adv] b).readyBuf.length with
          | true =>
              refine ⟨1, ?_, hlt, ?_, fun _ _ => ⟨Nat.one_pos, hfull⟩⟩
              · rw [hnext, moveReady, h]
                simp only [hfull, if_true]
              · intro j hle hj
                rw [show j = adv by omega]
                exact hsome
          | false =>
              obtain ⟨k, hk, hle, htaken, hstop⟩ :=
                ih (Nat.succ_le_of_lt hlt) (by omega)
              refine ⟨k + 1, ?_, by omega, ?_, ?_⟩
              · rw [hnext] at hk
                rw [moveReady, h]
                simp only [hfull, Bool.false_eq_true, if_false] at hk ⊢
                rw [hk, Nat.succ_add_eq_add_succ]
              · intro j hj hlast
                rcases Nat.eq_or_lt_of_le hj with rfl | hafter
                · exact hsome
                · exact htaken j hafter (by omega)
              · rw [← Nat.succ_add_eq_add_succ]
                intro hinside hpresent
                exact ⟨Nat.succ_pos k, (hstop hinside hpresent).2⟩

/-- A round of the outer loop. -/
theorem Filled.round {n adv skipped moved : ℕ} (h : Filled readyFull b n adv)
    (hguard : adv < n ∧ ¬FullAt readyFull b adv) (hskipped : skipped ≤ 1)
    (hroom : FullAt readyFull b (adv + skipped) ↔ FullAt readyFull b adv)
    (hle : adv + skipped + moved ≤ 2 ^ e)
    (htaken : ∀ j, adv + skipped ≤ j → j < adv + skipped + moved →
      (b.orderBuf.get j).isSome)
    (hstop : adv + skipped + moved < 2 ^ e →
      (b.orderBuf.get (adv + skipped + moved)).isSome →
        0 < moved ∧ FullAt readyFull b (adv + skipped + moved - 1)) :
    Filled readyFull b n (adv + skipped + moved) := by
  refine ⟨hle, ?_, ?_, fun _ hlt hsome => (hstop hlt hsome).2⟩
  · intro j hj hn
    exact htaken j (by omega) hj
  · intro j hj hfull
    rcases Nat.lt_or_ge j adv with hold | hnew
    · exact h.room j hold hfull
    · have hne : j ≠ adv := fun heq => hguard.2 (heq ▸ hfull)
      have hne' : j ≠ adv + skipped := fun heq =>
        hguard.2 (hroom.mp (heq ▸ hfull))
      exact ⟨by omega, htaken (j - 1) (by omega) (by omega),
        htaken j (by omega) hj⟩

/-- The outer loop moves the head until it has moved enough or there is no
more room. -/
theorem fillLoop_iterate (readyFull : ℕ → Bool)
    (b : RteReorderBuffer μ e) {n : ℕ} (hn : n ≤ 2 ^ e) (rounds : ℕ)
    {adv : ℕ} (hadv : Filled readyFull b n adv)
    (hrounds : n ≤ adv + rounds) :
    ∃ k, fillLoop readyFull n rounds adv ((passHead readyFull)^[adv] b) =
        (k, (passHead readyFull)^[k] b) ∧
      Filled readyFull b n k ∧ (n ≤ k ∨ FullAt readyFull b k) := by
  induction rounds generalizing adv with
  | zero => exact ⟨adv, rfl, hadv, Or.inl hrounds⟩
  | succ rounds ih =>
      rw [fillLoop]
      split
      · next hguard =>
          obtain ⟨skipped, hskip, hskipped, hpresent, hroom⟩ :=
            skipMissing_iterate readyFull b adv
          obtain ⟨moved, hmove, hle, htaken, hstop⟩ :=
            moveReady_iterate readyFull b (2 ^ e)
              (show adv + skipped ≤ 2 ^ e by omega) (by omega)
          have hnext := hadv.round hguard hskipped hroom hle htaken hstop
          -- each round moves the head, by skipping or by taking
          have hprogress : 0 < skipped + moved := by
            rcases Nat.eq_zero_or_pos skipped with rfl | hpos
            · by_contra hnone
              obtain rfl : moved = 0 := by omega
              have hlt : adv < 2 ^ e := by omega
              have hhead := hpresent rfl
              rw [head_iterate hlt] at hhead
              exact absurd (hstop hlt hhead).1 (lt_irrefl 0)
            · exact Nat.add_pos_left hpos moved
          rw [hskip]
          simp only [hmove]
          exact ih hnext (by omega)
      · next hguard =>
          refine ⟨adv, rfl, hadv, ?_⟩
          rw [not_and_or, not_not, not_lt] at hguard
          exact hguard

theorem minSeqn_iterate_passHead (adv : ℕ) :
    ((passHead readyFull)^[adv] b).minSeqn = b.minSeqn :=
  Function.Iterate.rec (fun c => minSeqn c = b.minSeqn) rfl
    (fun _ hc => passHead_frame.1.trans hc) adv

/-- `rte_reorder_fill_overflow` moves the head by what it returns, which is
what is asked for if there is room. -/
theorem rteReorderFillOverflow_eq (readyFull : ℕ → Bool)
    (b : RteReorderBuffer μ e) {n : ℕ} (hn : n ≤ 2 ^ e) :
    ∃ adv, rteReorderFillOverflow readyFull n b =
        (adv, moveOn readyFull adv b) ∧
      Filled readyFull b n adv ∧ (n ≤ adv ∨ FullAt readyFull b adv) := by
  have hstart : Filled readyFull b n 0 :=
    ⟨Nat.zero_le _, fun j hj => absurd hj (Nat.not_lt_zero j),
      fun j hj => absurd hj (Nat.not_lt_zero j),
      fun hpos => absurd hpos (lt_irrefl 0)⟩
  obtain ⟨adv, hloop, hfilled, hexit⟩ :=
    fillLoop_iterate readyFull b hn n hstart (by omega)
  refine ⟨adv, ?_, hfilled, hexit⟩
  rw [Function.iterate_zero_apply] at hloop
  have hmin : ((passHead readyFull)^[adv] b).minSeqn = b.minSeqn :=
    minSeqn_iterate_passHead adv
  rw [rteReorderFillOverflow, hloop, moveOn, ← hmin]

/-! ## `rte_reorder_insert` -/

theorem isInitialized_beginWindow (seqn : μ → UInt32) (m : μ)
    (b : RteReorderBuffer μ e) :
    (beginWindow seqn m b).isInitialized = true := by
  rw [beginWindow]
  split
  · next h => exact h
  · rfl

theorem orderBuf_beginWindow (seqn : μ → UInt32) (m : μ)
    (b : RteReorderBuffer μ e) :
    (beginWindow seqn m b).orderBuf = b.orderBuf ∧
      (beginWindow seqn m b).lost = b.lost := by
  rw [beginWindow]
  split <;> exact ⟨rfl, rfl⟩

theorem rteReorderInsert_of_lt
    (h : offset seqn m (beginWindow seqn m b) < 2 ^ e) :
    rteReorderInsert seqn readyFull m b =
      (0, store seqn m (beginWindow seqn m b)) := by
  rw [rteReorderInsert]
  exact if_pos h

theorem rteReorderInsert_of_fill {k adv : ℕ} {c : RteReorderBuffer μ e}
    (hk : offset seqn m (beginWindow seqn m b) = k)
    (hge : ¬k < 2 ^ e) (hlt : k < 2 * 2 ^ e)
    (hfill : rteReorderFillOverflow readyFull (k + 1 - 2 ^ e)
      (beginWindow seqn m b) = (adv, c)) :
    rteReorderInsert seqn readyFull m b =
      if adv < k + 1 - 2 ^ e then (-1, c) else (0, store seqn m c) := by
  rw [rteReorderInsert]
  simp only [hk, hge, hlt, hfill, if_true, if_false]

theorem rteReorderInsert_of_ge
    (h : 2 * 2 ^ e ≤ offset seqn m (beginWindow seqn m b)) :
    rteReorderInsert seqn readyFull m b =
      (-1, beginWindow seqn m b) := by
  rw [rteReorderInsert]
  exact (if_neg (by omega)).trans (if_neg (not_lt.mpr h))

/-- What an insert may do: store the packet, store it after the head has
moved, give up because the head cannot move enough, or refuse it. -/
inductive InsertCase (seqn : μ → UInt32) (readyFull : ℕ → Bool) (m : μ)
    (b : RteReorderBuffer μ e) : ℤ × RteReorderBuffer μ e → Prop
  | inside (h : offset seqn m b < 2 ^ e) :
      InsertCase seqn readyFull m b (0, store seqn m b)
  | ahead (adv : ℕ) (hge : 2 ^ e ≤ offset seqn m b)
      (hlt : offset seqn m b < 2 * 2 ^ e)
      (hfill : Filled readyFull b (offset seqn m b + 1 - 2 ^ e) adv)
      (henough : offset seqn m b + 1 - 2 ^ e ≤ adv) :
      InsertCase seqn readyFull m b
        (0, store seqn m (moveOn readyFull adv b))
  | noRoom (adv : ℕ) (hge : 2 ^ e ≤ offset seqn m b)
      (hlt : offset seqn m b < 2 * 2 ^ e)
      (hfill : Filled readyFull b (offset seqn m b + 1 - 2 ^ e) adv)
      (hfull : FullAt readyFull b adv) :
      InsertCase seqn readyFull m b (-1, moveOn readyFull adv b)
  | refused (h : 2 * 2 ^ e ≤ offset seqn m b) :
      InsertCase seqn readyFull m b (-1, b)

theorem rteReorderInsert_cases (seqn : μ → UInt32) (readyFull : ℕ → Bool)
    (m : μ) (b : RteReorderBuffer μ e) :
    InsertCase seqn readyFull m (beginWindow seqn m b)
      (rteReorderInsert seqn readyFull m b) := by
  by_cases hin : offset seqn m (beginWindow seqn m b) < 2 ^ e
  · rw [rteReorderInsert_of_lt hin]
    exact .inside hin
  · by_cases hahead : offset seqn m (beginWindow seqn m b) < 2 * 2 ^ e
    · obtain ⟨adv, hmove, hfill, hexit⟩ :=
        rteReorderFillOverflow_eq readyFull (beginWindow seqn m b)
          (show offset seqn m (beginWindow seqn m b) + 1 - 2 ^ e ≤ 2 ^ e by
            omega)
      rw [rteReorderInsert_of_fill rfl hin hahead hmove]
      split
      · next hshort =>
          exact .noRoom adv (not_lt.mp hin) hahead hfill
            (hexit.resolve_left (by omega))
      · next henough =>
          exact .ahead adv (not_lt.mp hin) hahead hfill (not_lt.mp henough)
    · rw [rteReorderInsert_of_ge (not_lt.mp hahead)]
      exact .refused (not_lt.mp hahead)

/-! ## What becomes of the packets -/

@[simp] theorem held_create : (create μ e).held = [] := by
  rw [held, create, List.nil_append, CircularWindow.contents_eq_nil_iff]
  exact fun k _ => CircularWindow.get_empty k

@[simp] theorem account_create : (create μ e).account = [] := by
  rw [account, held_create]
  rfl

theorem account_passHead :
    (passHead readyFull b).account.Perm b.account := by
  have hcontents := b.orderBuf.contents_advance
  cases h : b.orderBuf.get 0 with
  | none =>
      rw [h, Option.toList_none, List.nil_append] at hcontents
      rw [passHead_of_none h, account, account, held, held, hcontents]
  | some m =>
      rw [h, Option.toList_some, List.singleton_append] at hcontents
      rw [passHead_of_some h, account, account, held, held, hcontents]
      split
      · classical
        rw [List.perm_iff_count]
        intro x
        simp only [List.count_append, List.count_cons, List.count_nil]
        omega
      · simp only [List.append_assoc, List.singleton_append]
        exact List.Perm.refl _

theorem account_moveOn (adv : ℕ) :
    (moveOn readyFull adv b).account.Perm b.account :=
  Function.Iterate.rec (fun c => (account c).Perm b.account)
    (List.Perm.refl _) (fun _ hc => account_passHead.trans hc) adv

theorem account_store : (store seqn m b).account.Perm (m :: b.account) := by
  obtain ⟨before, after, hold, hnew⟩ :=
    b.orderBuf.exists_contents_put (offset seqn m b) m
  classical
  rw [List.perm_iff_count]
  intro x
  simp only [account, held, store, hold, hnew, List.count_append,
    List.count_cons]
  omega

@[simp] theorem account_beginWindow :
    (beginWindow seqn m b).account = b.account := by
  rw [beginWindow]
  split <;> rfl

/-- Whatever an insert does, it adds the packet to the account exactly if it
succeeds. -/
theorem account_rteReorderInsert (seqn : μ → UInt32) (readyFull : ℕ → Bool)
    (m : μ) (b : RteReorderBuffer μ e) :
    (rteReorderInsert seqn readyFull m b).2.account.Perm
      (if (rteReorderInsert seqn readyFull m b).1 < 0 then b.account
        else m :: b.account) := by
  have hbegin : (beginWindow seqn m b).account = b.account :=
    account_beginWindow
  have hcase := rteReorderInsert_cases seqn readyFull m b
  rw [← hbegin]
  generalize rteReorderInsert seqn readyFull m b = r at hcase
  cases hcase with
  | inside => exact account_store
  | ahead adv => exact account_store.trans ((account_moveOn adv).cons m)
  | noRoom adv => exact account_moveOn adv
  | refused => exact List.Perm.refl _

/-! ## A ready buffer with room -/

theorem passHead_neverFull :
    (passHead neverFull b).held = b.held ∧
      (passHead neverFull b).lost = b.lost := by
  have hcontents := b.orderBuf.contents_advance
  cases h : b.orderBuf.get 0 with
  | none =>
      rw [h, Option.toList_none, List.nil_append] at hcontents
      rw [passHead_of_none h, held, held, hcontents]
      exact ⟨rfl, rfl⟩
  | some m =>
      rw [h, Option.toList_some] at hcontents
      rw [passHead_of_some h, held, held, hcontents]
      exact ⟨List.append_assoc _ _ _, rfl⟩

/-- Moving on keeps the packets and their order. -/
theorem moveOn_neverFull (adv : ℕ) :
    (moveOn neverFull adv b).held = b.held ∧
      (moveOn neverFull adv b).lost = b.lost :=
  Function.Iterate.rec (fun c => held c = b.held ∧ lost c = b.lost)
    ⟨rfl, rfl⟩ (fun _ hc => ⟨passHead_neverFull.1.trans hc.1,
      passHead_neverFull.2.trans hc.2⟩) adv

/-! ## `rte_reorder_drain` -/

theorem drainWindow_of_none (h : b.orderBuf.get 0 = none) (max : ℕ) :
    drainWindow max b = ([], b) := by
  cases max with
  | zero => rfl
  | succ max => rw [drainWindow, h]

theorem drainWindow_of_some (h : b.orderBuf.get 0 = some m) (max : ℕ) :
    drainWindow (max + 1) b =
      (m :: (drainWindow max { b with
          orderBuf := b.orderBuf.advance
          minSeqn := b.minSeqn + 1 }).1,
        (drainWindow max { b with
          orderBuf := b.orderBuf.advance
          minSeqn := b.minSeqn + 1 }).2) := by
  rw [drainWindow, h]

theorem contents_drainWindow (max : ℕ) (b : RteReorderBuffer μ e) :
    b.orderBuf.contents =
      (drainWindow max b).1 ++ (drainWindow max b).2.orderBuf.contents := by
  induction max generalizing b with
  | zero => rfl
  | succ max ih =>
      cases h : b.orderBuf.get 0 with
      | none => rw [drainWindow_of_none h, List.nil_append]
      | some m =>
          rw [drainWindow_of_some h, List.cons_append, ← ih,
            b.orderBuf.contents_advance, h, Option.toList_some,
            List.singleton_append]

theorem gapless_drainWindow (max : ℕ) (b : RteReorderBuffer μ e) :
    (drainWindow max b).2.orderBuf.Gapless ↔ b.orderBuf.Gapless := by
  induction max generalizing b with
  | zero => rfl
  | succ max ih =>
      cases h : b.orderBuf.get 0 with
      | none => rw [drainWindow_of_none h]
      | some m =>
          have hhead : (b.orderBuf.get 0).isSome := by rw [h]; rfl
          rw [drainWindow_of_some h, ih,
            CircularWindow.gapless_advance hhead]

theorem drainWindow_frame (max : ℕ) (b : RteReorderBuffer μ e) :
    (drainWindow max b).2.readyBuf = b.readyBuf ∧
      (drainWindow max b).2.lost = b.lost := by
  induction max generalizing b with
  | zero => exact ⟨rfl, rfl⟩
  | succ max ih =>
      cases h : b.orderBuf.get 0 with
      | none => rw [drainWindow_of_none h]; exact ⟨rfl, rfl⟩
      | some m =>
          rw [drainWindow_of_some h]
          exact ih _

/-- The packets returned are the first of those held. -/
theorem held_rteReorderDrain (max : ℕ) (b : RteReorderBuffer μ e) :
    b.held = (rteReorderDrain max b).1 ++ (rteReorderDrain max b).2.held := by
  have hcontents := contents_drainWindow
    (max - (b.readyBuf.take max).length)
    { b with readyBuf := b.readyBuf.drop max }
  have hframe := drainWindow_frame
    (max - (b.readyBuf.take max).length)
    { b with readyBuf := b.readyBuf.drop max }
  rw [held, held, rteReorderDrain, hframe.1, hcontents]
  rcases Nat.lt_or_ge b.readyBuf.length max with hlt | hge
  · rw [List.take_of_length_le hlt.le, List.drop_of_length_le hlt.le,
      List.nil_append, List.append_assoc]
  · have hnone : max - (b.readyBuf.take max).length = 0 := by
      rw [List.length_take]
      omega
    rw [hnone]
    change b.readyBuf ++ ([] ++ b.orderBuf.contents) =
      (b.readyBuf.take max ++ []) ++
        (b.readyBuf.drop max ++ b.orderBuf.contents)
    rw [List.nil_append, List.append_nil, ← List.append_assoc,
      List.take_append_drop]

theorem lost_rteReorderDrain (max : ℕ) (b : RteReorderBuffer μ e) :
    (rteReorderDrain max b).2.lost = b.lost :=
  (drainWindow_frame _ _).2

theorem gapless_rteReorderDrain (max : ℕ) (b : RteReorderBuffer μ e) :
    (rteReorderDrain max b).2.orderBuf.Gapless ↔ b.orderBuf.Gapless :=
  gapless_drainWindow _ _

/-- Nothing is returned only where the next packet is missing, and then
nothing changes. -/
theorem rteReorderDrain_of_nil {max : ℕ} (hmax : 0 < max)
    (h : (rteReorderDrain max b).1 = []) :
    b.readyBuf = [] ∧ b.orderBuf.get 0 = none ∧
      (rteReorderDrain max b).2 = b := by
  obtain ⟨max, rfl⟩ := Nat.exists_eq_add_one.mpr hmax
  obtain ⟨hready, hwindow⟩ := List.append_eq_nil_iff.mp h
  have hempty : b.readyBuf = [] := by
    rcases List.take_eq_nil_iff.mp hready with hzero | hempty
    · exact absurd hzero (Nat.succ_ne_zero max)
    · exact hempty
  have hsame : { b with readyBuf := b.readyBuf.drop (max + 1) } = b := by
    rw [hempty, List.drop_nil, ← hempty]
  have hdrain : rteReorderDrain (max + 1) b = drainWindow (max + 1) b := by
    rw [rteReorderDrain, hsame, hready]
    rfl
  rw [hready, hsame, List.length_nil, Nat.sub_zero] at hwindow
  cases hhead : b.orderBuf.get 0 with
  | none =>
      rw [hdrain, drainWindow_of_none hhead]
      exact ⟨hempty, rfl, rfl⟩
  | some m =>
      rw [drainWindow_of_some hhead] at hwindow
      exact absurd hwindow (List.cons_ne_nil _ _)

end RteReorderBuffer
end DpdkFolder
