import DpdkFolder.PacketParseerRing.Invariant

/-!
# Conservation and order

In every reachable state the packets received so far can be read off, in
order, from the log of `transmit_packet`, the two rings and the three hands.
Neither ring ever refuses a packet, so nothing is lost where the code does
not look at the result of an enqueue.
-/

namespace DpdkFolder
namespace PacketParseerRing

variable {α : Type*}

/-- No interleaving of the three stages loses, duplicates or reorders a
packet, and neither burst enqueue ever falls short. -/
theorem pipeline_conserves {s : State α} (h : (pipeline α).Reachable s) :
    s.received =
        s.txLog.map Disposal.packet ++ s.txPc.hand ++ s.parseToTx.toList ++
          s.parserPc.hand ++ s.rxToParser.toList ++ s.rxPc.hand ∧
      s.rxFreed = [] ∧
      (∀ packets, s.rxPc = .enqueueBurst packets →
        (rteRingEnqueueBurst s.rxToParser packets).1 = packets.length) ∧
      (∀ packets, s.parserPc = .enqueueBurst packets →
        (rteRingEnqueueBurst s.parseToTx packets).1 = packets.length) := by
  have hinv := reachable_inv h
  refine ⟨hinv.conserved, hinv.rxFreed, ?_, ?_⟩
  · intro packets hpc
    have hfits := hinv.rxToParser_fits
    rw [hpc] at hfits
    exact (rteRingEnqueueBurst_of_le hfits).1
  · intro packets hpc
    have hfits := hinv.parseToTx_fits
    rw [hpc] at hfits
    exact (rteRingEnqueueBurst_of_le hfits).1

/-- A run in which a packet waits in every place of the pipeline. -/
def midwayRun : List (Label ℕ) :=
  [.receive [1, 2], .receive [], .receive [], .receive [], .parse, .parse,
    .transmit 0, .transmit 1, .receive [3], .receive [], .parse, .parse,
    .receive [], .receive [], .receive [4], .receive [], .parse, .parse,
    .receive [], .receive [], .receive [5], .receive [], .receive [],
    .receive [], .receive [6]]

theorem pipeline_conserves_midway :
    ∃ s, (pipeline ℕ).exec (launch ℕ) midwayRun = some s ∧
      s.received = [1, 2, 3, 4, 5, 6] ∧
      s.received =
        s.txLog.map Disposal.packet ++ s.txPc.hand ++ s.parseToTx.toList ++
          s.parserPc.hand ++ s.rxToParser.toList ++ s.rxPc.hand := by
  refine ⟨_, rfl, rfl, ?_⟩
  exact (pipeline_conserves ⟨midwayRun, rfl⟩).1

end PacketParseerRing
end DpdkFolder
