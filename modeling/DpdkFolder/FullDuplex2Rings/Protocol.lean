import DpdkFolder.FullDuplex2Rings.Baton

/-!
# Safety of the request and reply protocol

Everything that the exchange promises is read off from the place of the
baton: at most one message is under way, the reply of round `i` holds
`10 * i`, the last enqueue of the primary finds an empty ring, and at the end
every object has been freed once.
-/

namespace DpdkFolder
namespace FullDuplex2Rings

theorem Carries.one_message {rounds : ℕ} {s : State} {b : Baton}
    (h : Carries rounds s b) :
    s.ring1.toList.length + s.ring2.toList.length + s.sec.hand.length ≤ 1 := by
  have hwaiting : ∀ pc : SecPc, pc.Waiting → pc.hand = [] := by
    rintro pc (rfl | ⟨reply, rfl⟩)
    · rfl
    · rfl
  have hsec := h.sec
  rw [h.ring1, h.ring2]
  cases b with
  | idle i | msgMade i | replyTaken i | stopMade | stopInRing =>
      simp [Baton.ring1, Baton.ring2, hwaiting _ hsec]
  | stopTaken =>
      rcases hsec with hpc | hpc <;>
        simp [Baton.ring1, Baton.ring2, hpc, SecPc.hand]
  | done =>
      simp [Baton.ring1, Baton.ring2, show s.sec = _ from hsec, SecPc.hand]
  | out i leg =>
      cases leg with
      | msgInRing | replyInRing =>
          simp [Baton.ring1, Baton.ring2, hwaiting _ hsec]
      | msgTaken =>
          rcases hsec with hpc | hpc | hpc | hpc <;>
            simp [Baton.ring1, Baton.ring2, hpc, SecPc.hand]
      | msgUsed | replyMade =>
          simp [Baton.ring1, Baton.ring2, show s.sec = _ from hsec,
            SecPc.hand]

theorem Carries.stopRet_of_returned {rounds : ℕ} {s : State} {b : Baton}
    (h : Carries rounds s b) (hpc : s.prim = .returned) :
    s.stopRet = some 0 := by
  have hprim := h.prim
  rw [h.stopRet]
  rw [hpc] at hprim
  cases b <;> simp [Baton.PrimAt] at hprim
  all_goals rfl

theorem replyValue_eq {rounds i : ℕ} (hi : i < rounds)
    (hfit : 10 * ((rounds : ℤ) - 1) ≤ intMax) : replyValue i = 10 * i := by
  have hle : (i : ℤ) ≤ rounds - 1 := by omega
  rw [replyValue, cInt_of_mem_range (by omega) (by omega), Int.mul_comm]

/-- For every number of rounds and every interleaving: at most one message is
in the rings or in the secondary's hand, the reply taken in round `i` holds
`10 * i`, the stop message is enqueued successfully, and when both processes
have returned every allocated object has been freed exactly once. -/
theorem exchange_protocol {rounds : ℕ}
    (hfit : 10 * ((rounds : ℤ) - 1) ≤ intMax) {s : State}
    (h : (exchange rounds).Reachable s) :
    s.ring1.toList.length + s.ring2.toList.length + s.sec.hand.length ≤ 1 ∧
      (∀ i msg received, s.prim = .printGot i msg received →
        s.heap.content received = some (10 * (i : ℤ))) ∧
      (s.prim = .returned → s.stopRet = some 0) ∧
      (s.prim = .returned → s.sec = .returned →
        ∀ obj, (s.heap.freed.map Prod.snd).count obj =
          if obj < s.heap.next then 1 else 0) := by
  obtain ⟨b, hb⟩ := reachable_carries h
  refine ⟨hb.one_message, ?_, hb.stopRet_of_returned, ?_⟩
  · intro i msg received hpc
    obtain ⟨hi, -, hheap, rfl⟩ := hb.printGot hpc
    rw [hheap, AllocHeap.content_single, replyValue_eq hi hfit]
  · intro hprim hsec obj
    have hdone := hb.eq_done hprim hsec
    subst hdone
    rw [hb.heap]
    exact AllocHeap.count_freedInOrder freer (2 * rounds + 1) obj

/-- A schedule under which both processes finish one round. -/
def oneRound : List Proc :=
  [.primary, .primary, .primary, .secondary, .secondary, .secondary,
    .secondary, .secondary, .secondary, .secondary, .secondary, .primary,
    .primary, .primary, .primary, .primary, .secondary, .secondary,
    .secondary]

theorem exchange_protocol_oneRound :
    ∃ s, (exchange 1).exec start oneRound = some s ∧
      s.prim = .returned ∧ s.sec = .returned ∧
      s.heap.next = 3 ∧ (s.heap.freed.map Prod.snd).count 2 = 1 := by
  have hfit : 10 * (((1 : ℕ) : ℤ) - 1) ≤ intMax := by decide
  refine ⟨_, rfl, rfl, rfl, rfl, ?_⟩
  exact (exchange_protocol hfit ⟨oneRound, rfl⟩).2.2.2 rfl rfl 2

end FullDuplex2Rings
end DpdkFolder
