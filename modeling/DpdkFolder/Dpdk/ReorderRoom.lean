import DpdkFolder.Dpdk.ReorderStream
import DpdkFolder.Support.Custody

/-!
# The room for ready packets

The ready buffer of the library has as many slots as the window and leaves one
of them free.  Which calls lose a packet can be seen from the buffer before
them: those that use the number of a packet in the window, and those that move
the window so far that a packet overflows the ready buffer.  As long as the
application drains before the buffer holds that many packets, the ready buffer
is never full, and the library behaves as if it had no bound.
-/

namespace DpdkFolder
namespace RteReorderBuffer

variable {μ : Type*} {e : ℕ}

/-- The buffer holds so few packets that all of them can become ready. -/
def HasRoom (s : Stream μ e) : Call μ → Prop
  | .insert _ => s.buf.held.length + 1 < 2 ^ e
  | .drain _ => True

/-- An insert does not use the number of a packet that waits in the window. -/
def NumberFree (seqn : μ → UInt32) (s : Stream μ e) : Call μ → Prop
  | .insert m => Unused seqn s.buf (seqn m)
  | .drain _ => True

/-- An insert does not use the number of a packet that waits in the window,
nor moves the window so far that one overflows the ready buffer. -/
def LosesNone (seqn : μ → UInt32) (s : Stream μ e) : Call μ → Prop
  | .insert m => Unused seqn s.buf (seqn m) ∧ ¬s.buf.Overflows (seqn m)
  | .drain _ => True

instance (s : Stream μ e) : (c : Call μ) → Decidable (HasRoom s c)
  | .insert _ => inferInstanceAs (Decidable (_ < _))
  | .drain _ => inferInstanceAs (Decidable True)

variable {seqn : μ → UInt32} {readyFull : ℕ → Bool}
  {b : RteReorderBuffer μ e} {s : Stream μ e}

/-! ## The ready buffer never fills -/

theorem not_readyBufFull (h : b.held.length + 1 < 2 ^ e) :
    readyBufFull e b.readyBuf.length = false := by
  rw [held, List.length_append] at h
  exact decide_eq_false (by omega)

theorem skipMissing_held (b : RteReorderBuffer μ e) :
    (skipMissing b).2.held = b.held := by
  obtain ⟨k, hskip, hk⟩ := skipMissing_iterate neverFull b 0
  rw [Function.iterate_zero_apply] at hskip
  rw [hskip]
  exact (moveOn_neverFull (0 + k)).1

theorem moveReady_held (b : RteReorderBuffer μ e) :
    (moveReady neverFull (2 ^ e) b).2.held = b.held := by
  obtain ⟨k, hmove, hk⟩ := moveReady_iterate neverFull b (2 ^ e)
    (Nat.zero_le (2 ^ e)) (Nat.le_add_left _ 0)
  rw [Function.iterate_zero_apply] at hmove
  rw [hmove]
  exact (moveOn_neverFull (0 + k)).1

theorem moveReady_readyBufFull (rounds : ℕ)
    (h : b.held.length + 1 < 2 ^ e) :
    moveReady (readyBufFull e) rounds b = moveReady neverFull rounds b := by
  induction rounds generalizing b with
  | zero => rfl
  | succ rounds ih =>
      cases hhead : b.orderBuf.get 0 with
      | none => rw [moveReady, moveReady, hhead]
      | some m =>
          have hkept := passHead_neverFull (b := b)
          rw [passHead_of_some hhead] at hkept
          have hnext := ih (hkept.1.symm ▸ h)
          rw [moveReady, moveReady, hhead]
          simp only [not_readyBufFull h, neverFull, Bool.false_eq_true,
            if_false] at hnext ⊢
          rw [hnext]

theorem fillLoop_readyBufFull (n rounds adv : ℕ)
    (h : b.held.length + 1 < 2 ^ e) :
    fillLoop (readyBufFull e) n rounds adv b =
      fillLoop neverFull n rounds adv b := by
  induction rounds generalizing adv b with
  | zero => rfl
  | succ rounds ih =>
      have hskip : (skipMissing b).2.held.length + 1 < 2 ^ e := by
        rw [skipMissing_held]
        exact h
      have hmove : (moveReady neverFull (2 ^ e)
          (skipMissing b).2).2.held.length + 1 < 2 ^ e := by
        rw [moveReady_held]
        exact hskip
      rw [fillLoop, fillLoop, not_readyBufFull h]
      refine if_congr Iff.rfl ?_ rfl
      simp only [moveReady_readyBufFull (2 ^ e) hskip]
      exact ih _ hmove

/-- With room for all packets an insert does what it does without a bound. -/
theorem rteReorderInsert_readyBufFull (h : b.held.length + 1 < 2 ^ e)
    (m : μ) :
    rteReorderInsert seqn (readyBufFull e) m b =
      rteReorderInsert seqn neverFull m b := by
  have hbegin : (beginWindow seqn m b).held = b.held := by
    rw [beginWindow]
    split <;> rfl
  rw [← hbegin] at h
  have hfill : ∀ n, rteReorderFillOverflow (readyBufFull e) n
      (beginWindow seqn m b) = rteReorderFillOverflow neverFull n
        (beginWindow seqn m b) := by
    intro n
    rw [rteReorderFillOverflow, fillLoop_readyBufFull _ _ _ h]
    rfl
  rw [rteReorderInsert, rteReorderInsert, hfill]

theorem step_readyBufFull {c : Call μ} (h : HasRoom s c) :
    (stream seqn (readyBufFull e) e).step s c =
      (stream seqn neverFull e).step s c := by
  cases c with
  | insert m =>
      simp only [stream, call, rteReorderInsert_readyBufFull h m]
  | drain max => rfl

/-! ## Calls that lose a packet -/

/-- A drain loses nothing. -/
theorem lost_call_iff {C : Call μ → Prop}
    (hinsert : ∀ m, (rteReorderInsert seqn readyFull m s.buf).2.lost =
      s.buf.lost ↔ C (.insert m))
    (hdrain : ∀ max, C (.drain max)) (c : Call μ) :
    (call seqn readyFull s c).buf.lost = [] ↔ s.buf.lost = [] ∧ C c := by
  cases c with
  | insert m =>
      change (rteReorderInsert seqn readyFull m s.buf).2.lost = [] ↔ _
      rw [lost_insert_eq_nil_iff, hinsert]
  | drain max =>
      change (rteReorderDrain max s.buf).2.lost = [] ↔ _
      rw [lost_rteReorderDrain]
      exact (and_iff_left (hdrain max)).symm

/-- With room for all, a call loses a packet exactly if it is an insert with
the number of a packet in the window. -/
theorem lost_call_neverFull (he : e < 32)
    (h : (stream seqn neverFull e).Reachable s) (c : Call μ) :
    (call seqn neverFull s c).buf.lost = [] ↔
      s.buf.lost = [] ∧ NumberFree seqn s c := by
  obtain ⟨base, past, hstream⟩ := (reachable_streamInv h).streaming
  exact lost_call_iff
    (fun m => hstream.toAnchored.lost_insert_neverFull_iff he m)
    (fun _ => trivial) c

theorem lost_call_readyBufFull (he : e < 32)
    (h : (stream seqn (readyBufFull e) e).Reachable s) (c : Call μ) :
    (call seqn (readyBufFull e) s c).buf.lost = [] ↔
      s.buf.lost = [] ∧ LosesNone seqn s c := by
  obtain ⟨base, past, hstream⟩ := (reachable_streamInv h).streaming
  exact lost_call_iff
    (fun m => hstream.toAnchored.lost_insert_readyBufFull_iff he m)
    (fun _ => trivial) c

/-- If a condition says which calls lose a packet, a run that meets it keeps
all packets. -/
theorem accepted_perm_iff {C : Stream μ e → Call μ → Prop}
    (hcall : ∀ s, (stream seqn readyFull e).Reachable s → ∀ c,
      ((call seqn readyFull s c).buf.lost = [] ↔ s.buf.lost = [] ∧ C s c))
    {calls : List (Call μ)}
    (hrun : (stream seqn readyFull e).exec (stream seqn readyFull e).start
      calls = some s) :
    s.accepted.Perm (s.drained ++ s.buf.held) ↔
      (stream seqn readyFull e).MeetsAlong C
        (stream seqn readyFull e).start calls := by
  have hkept : (stream seqn readyFull e).MeetsAlong C
      (stream seqn readyFull e).start calls ↔ s.buf.lost = [] := by
    refine TransitionSystem.meetsAlong_iff_kept
      (G := fun s => s.buf.lost = []) ?_ TransitionSystem.reachable_start
      rfl hrun
    intro s c t hs hstep
    rw [← Option.some.inj hstep]
    exact hcall s hs c
  have haccount := (reachable_streamInv ⟨calls, hrun⟩).account
  rw [account, ← List.append_assoc] at haccount
  exact haccount.perm_iff_eq_nil.trans hkept.symm

/-! ## Runs -/

/-- For every order of inserts and drains the packets accepted are those
drained and those held, each as often, if and only if no insert uses the number
of a packet that waits in the window or moves the window so far that one
overflows the ready buffer. -/
theorem stream_keeps_iff (he : e < 32) {calls : List (Call μ)}
    (hrun : (stream seqn (readyBufFull e) e).exec
      (stream seqn (readyBufFull e) e).start calls = some s) :
    s.accepted.Perm (s.drained ++ s.buf.held) ↔
      (stream seqn (readyBufFull e) e).MeetsAlong (LosesNone seqn)
        (stream seqn (readyBufFull e) e).start calls :=
  accepted_perm_iff (fun _ hs => lost_call_readyBufFull he hs) hrun

theorem stream_keeps_iff_overflowingCalls :
    ∃ s : Stream UInt32 1,
      (stream id (readyBufFull 1) 1).exec (stream id (readyBufFull 1) 1).start
          overflowingCalls = some s ∧
        ¬s.accepted.Perm (s.drained ++ s.buf.held) ∧
        ¬(stream id (readyBufFull 1) 1).MeetsAlong (LosesNone id)
          (stream id (readyBufFull 1) 1).start overflowingCalls := by
  obtain ⟨s, hrun, hlength⟩ : ∃ s : Stream UInt32 1,
      (stream id (readyBufFull 1) 1).exec (stream id (readyBufFull 1) 1).start
          overflowingCalls = some s ∧
        s.accepted.length ≠ (s.drained ++ s.buf.held).length :=
    ⟨_, rfl, by decide⟩
  have hnot : ¬s.accepted.Perm (s.drained ++ s.buf.held) :=
    fun hperm => hlength hperm.length_eq
  exact ⟨s, hrun, hnot, (stream_keeps_iff (by decide) hrun).not.mp hnot⟩

/-- For every order of inserts and drains in which each insert finds fewer
packets in the buffer than there is room for: the library does what it does
without a bound on ready packets, and the packets accepted are those drained
and those held, each as often, if and only if no insert uses the number of a
packet that waits in the window. -/
theorem stream_lossless_iff (he : e < 32) {calls : List (Call μ)}
    {s : Stream μ e}
    (hroom : (stream seqn (readyBufFull e) e).MeetsAlong HasRoom
      (stream seqn (readyBufFull e) e).start calls)
    (hrun : (stream seqn (readyBufFull e) e).exec
      (stream seqn (readyBufFull e) e).start calls = some s) :
    (stream seqn neverFull e).exec (stream seqn neverFull e).start calls =
        some s ∧
      (s.accepted.Perm (s.drained ++ s.buf.held) ↔
        (stream seqn (readyBufFull e) e).MeetsAlong (NumberFree seqn)
          (stream seqn (readyBufFull e) e).start calls) := by
  have hreach := TransitionSystem.reachable_start
    (T := stream seqn (readyBufFull e) e)
  have hsame : ∀ (s : Stream μ e) (c : Call μ),
      (stream seqn (readyBufFull e) e).Reachable s → HasRoom s c →
        (stream seqn (readyBufFull e) e).step s c =
          (stream seqn neverFull e).step s c :=
    fun s c _ hcall => step_readyBufFull hcall
  have hfree : (stream seqn neverFull e).exec
      (stream seqn neverFull e).start calls = some s :=
    (TransitionSystem.exec_congr hsame hreach hroom).symm.trans hrun
  refine ⟨hfree, ?_⟩
  rw [TransitionSystem.meetsAlong_congr (C := NumberFree seqn) hsame hreach
    hroom]
  exact accepted_perm_iff (fun _ hs => lost_call_neverFull he hs) hfree

/-- Packets that arrive out of order, drained in between. -/
def shuffledCalls : List (Call UInt32) :=
  [.insert 0, .insert 2, .drain 8, .insert 1, .insert 5, .drain 1, .drain 8]

theorem stream_lossless_iff_shuffledCalls :
    ∃ s : Stream UInt32 2,
      (stream id neverFull 2).exec (stream id neverFull 2).start
          shuffledCalls = some s ∧
        s.drained = [0, 1, 2] ∧ s.buf.held = [5] ∧
          (s.accepted.Perm (s.drained ++ s.buf.held) ↔
            (stream id (readyBufFull 2) 2).MeetsAlong (NumberFree id)
              (stream id (readyBufFull 2) 2).start shuffledCalls) := by
  have hroom : (stream id (readyBufFull 2) 2).MeetsAlong HasRoom
      (stream id (readyBufFull 2) 2).start shuffledCalls := by
    decide
  obtain ⟨hfree, hiff⟩ := stream_lossless_iff (by decide) hroom rfl
  exact ⟨_, hfree, by decide, by decide, hiff⟩

end RteReorderBuffer
end DpdkFolder
