import DpdkFolder.Dpdk.Graph
import DpdkFolder.Support.FixedArray

/-!
# The IPv4 node of disable_node

`ipv4_node_process` stores the packets of its burst in two local arrays and
enqueues what each of them holds, unless it is empty.
-/

namespace DpdkFolder
namespace DisableNode

/-- The arrays `tx_pkts` and `drop_pkts`, with their counters. -/
structure Sorted (μ : Type*) where
  txPkts : FixedArray μ rteGraphBurstSize
  dropPkts : FixedArray μ rteGraphBurstSize

/-- The arrays when the loop begins. -/
def Sorted.fresh (μ : Type*) : Sorted μ :=
  ⟨.fresh μ rteGraphBurstSize, .fresh μ rteGraphBurstSize⟩

open EdgeStreams

variable {μ : Type*}

/-- The body of the loop.  The counters are `uint16_t`, which they cannot
leave as long as the stores stay within the arrays. -/
def sortPkt (frame : μ → Mbuf) (s : Sorted μ) (pkt : μ) :
    Option (Sorted μ) :=
  if (frame pkt).isIpv4 then
    (s.txPkts.push pkt).map fun txPkts => { s with txPkts }
  else
    (s.dropPkts.push pkt).map fun dropPkts => { s with dropPkts }

/-- One of the two calls of `rte_node_enqueue` after the loop. -/
def enqueueSorted (next : ℕ) (pkts : FixedArray μ rteGraphBurstSize)
    (streams : EdgeStreams μ) : Option (EdgeStreams μ) :=
  if pkts.nb ≠ 0 then
    pkts.contents.map fun objs => rteNodeEnqueue next objs streams
  else some streams

/-- `ipv4_node_process`, with the streams it leaves and what it returns. -/
def ipv4NodeProcess (frame : μ → Mbuf) (obj : List μ)
    (streams : EdgeStreams μ) : Option (EdgeStreams μ × ℕ) := do
  let s ← obj.foldlM (sortPkt frame) (Sorted.fresh μ)
  let streams ← enqueueSorted 0 s.txPkts streams
  let streams ← enqueueSorted 1 s.dropPkts streams
  return (streams, obj.length)

/-! ## The sorting loop -/

/-- The arrays hold the packets seen so far, by their type and in their
order. -/
structure Sorted.Holds (frame : μ → Mbuf) (seen : List μ) (s : Sorted μ) :
    Prop where
  txPkts : s.txPkts.Holds (seen.filter fun p => (frame p).isIpv4)
  dropPkts : s.dropPkts.Holds (seen.filter fun p => !(frame p).isIpv4)

theorem fresh_holds (frame : μ → Mbuf) :
    (Sorted.fresh μ).Holds frame [] :=
  ⟨FixedArray.fresh_holds, FixedArray.fresh_holds⟩

/-- The body of the loop has room for the next packet of a burst that is not
longer than the arrays. -/
theorem exists_sortPkt {frame : μ → Mbuf} {seen : List μ} {pkt : μ}
    (hroom : (seen ++ [pkt]).length ≤ rteGraphBurstSize) {s : Sorted μ}
    (h : s.Holds frame seen) :
    ∃ t, sortPkt frame s pkt = some t ∧ t.Holds frame (seen ++ [pkt]) := by
  have hlt : ∀ p : μ → Bool, (seen.filter p).length < rteGraphBurstSize := by
    intro p
    have hle := List.length_filter_le p seen
    rw [List.length_append, List.length_singleton] at hroom
    omega
  by_cases hp : (frame pkt).isIpv4
  · obtain ⟨txPkts, hpush, htx⟩ := h.txPkts.push (hlt _) pkt
    refine ⟨{ s with txPkts }, ?_, ?_, ?_⟩
    · rw [sortPkt, if_pos hp, hpush, Option.map_some]
    · simpa [hp] using htx
    · simpa [hp] using h.dropPkts
  · obtain ⟨dropPkts, hpush, hdrop⟩ := h.dropPkts.push (hlt _) pkt
    refine ⟨{ s with dropPkts }, ?_, ?_, ?_⟩
    · rw [sortPkt, if_neg hp, hpush, Option.map_some]
    · simpa [hp] using h.txPkts
    · simpa [hp] using hdrop

/-- What is enqueued is what an array holds, also where it is empty and the
call is left out. -/
theorem enqueueSorted_of_holds {pkts : FixedArray μ rteGraphBurstSize}
    {xs : List μ} (h : pkts.Holds xs) (next : ℕ) (streams : EdgeStreams μ) :
    enqueueSorted next pkts streams =
      some (rteNodeEnqueue next xs streams) := by
  by_cases hxs : xs = []
  · have hnb : pkts.nb = 0 := by
      rw [h.nb_eq, hxs, List.length_nil]
    rw [enqueueSorted, if_neg (not_not.mpr hnb), hxs, rteNodeEnqueue_nil]
  · have hnb : pkts.nb ≠ 0 := by
      rw [h.nb_eq]
      exact mt List.eq_nil_of_length_eq_zero hxs
    rw [enqueueSorted, if_pos hnb, h.contents, Option.map_some]

end DisableNode
end DpdkFolder
