import DpdkFolder.Dpdk.Ethdev

/-!
# Who owns an mbuf in packet_parsing

`process_packet` reports each packet of a burst and frees it in the same
loop, offers the burst for transmission afterwards and frees what the driver
did not take.  The first packet of the burst is thus offered after it was
freed, so custody is kept only by calls that receive nothing.
-/

namespace DpdkFolder
namespace PacketParsing

/-- `BURST_SIZE`. -/
def burstSize : ℕ := 32

/-- What the device answers during one call of `process_packet`: the mbufs
of the received burst and the number it accepts for transmission. -/
structure Poll (μ : Type*) where
  rxPkts : List μ
  nbTx : ℕ
  length_le : rxPkts.length ≤ burstSize
  nodup : rxPkts.Nodup
  nbTx_le : nbTx ≤ rxPkts.length

variable {μ : Type*}

/-- `print_mbuff_info` reads the metadata and the headers of the mbuf. -/
def printMbuffInfo (m : μ) : List (CustodyEvent μ) := [.touch m]

/-- `print_mbuf_data` reads the headers of the packet. -/
def printMbufData (m : μ) : List (CustodyEvent μ) := [.touch m]

/-- The body of the per-packet loop. -/
def reportAndFree (m : μ) : List (CustodyEvent μ) :=
  printMbuffInfo m ++ printMbufData m ++ rtePktmbufFree m

/-- One call of `process_packet`. -/
def processPacket (p : Poll μ) : List (CustodyEvent μ) :=
  let nbRx := p.rxPkts.length
  rteEthRxBurst p.rxPkts ++
    if nbRx = 0 then []
    else
      p.rxPkts.flatMap reportAndFree ++
        (rteEthTxBurst p.rxPkts p.nbTx ++
          if p.nbTx < nbRx then
            (p.rxPkts.drop p.nbTx).flatMap rtePktmbufFree
          else [])

/-- The polling loop of `main`, for the calls it has completed. -/
def pollLoop (polls : List (Poll μ)) : List (CustodyEvent μ) :=
  polls.flatMap processPacket

theorem processPacket_of_nil {p : Poll μ} (h : p.rxPkts = []) :
    processPacket p = [] := by
  simp [processPacket, rteEthRxBurst, h]

variable [DecidableEq μ]

open CustodyEvent

theorem exec_reportAndFree (m : μ) (held : List μ) :
    (custodian μ).exec (m :: held) (reportAndFree m) = some held := by
  have hmem : m ∈ m :: held := by simp
  simp [reportAndFree, printMbuffInfo, printMbufData, rtePktmbufFree,
    step_touch hmem, step_release hmem]

/-- The loop gives up every mbuf of the burst. -/
theorem exec_reportAndFree_all (ms : List μ) :
    (custodian μ).exec ms (ms.flatMap reportAndFree) = some [] := by
  induction ms with
  | nil => rfl
  | cons m ms ih =>
      rw [List.flatMap_cons]
      exact TransitionSystem.exec_trans (exec_reportAndFree m ms) ih

/-- A call that received a packet offers it after freeing it. -/
theorem exec_processPacket_of_ne_nil {p : Poll μ} (h : p.rxPkts ≠ []) :
    (custodian μ).exec [] (processPacket p) = none := by
  have hrx : (custodian μ).exec [] (rteEthRxBurst p.rxPkts) =
      some p.rxPkts := exec_acquire_all p.nodup
  have hloop := exec_reportAndFree_all p.rxPkts
  obtain ⟨m, ms, hcons⟩ := List.exists_cons_of_ne_nil h
  have hlength : p.rxPkts.length ≠ 0 := by simp [h]
  have hoffer : ∀ rest, (custodian μ).exec []
      (rteEthTxBurst p.rxPkts p.nbTx ++ rest) = none := by
    intro rest
    rw [rteEthTxBurst, hcons]
    exact exec_touch_none List.not_mem_nil
  rw [processPacket, if_neg hlength, TransitionSystem.exec_append, hrx,
    Option.bind_some, TransitionSystem.exec_append, hloop, Option.bind_some]
  exact hoffer _

/-- For every sequence of calls, every burst and every number of accepted
packets: each mbuf is given up exactly once and never used afterwards if and
only if no call received a packet. -/
theorem pollLoop_disciplined_iff (polls : List (Poll μ)) :
    Disciplined (pollLoop polls) ↔ ∀ p ∈ polls, p.rxPkts = [] := by
  rw [disciplined_iff_exec]
  induction polls with
  | nil => simp [pollLoop]
  | cons p polls ih =>
      rw [pollLoop, List.flatMap_cons, TransitionSystem.exec_append]
      by_cases hp : p.rxPkts = []
      · rw [processPacket_of_nil hp, TransitionSystem.exec_nil,
          Option.bind_some, List.forall_mem_cons]
        exact ih.trans (by simp [hp])
      · rw [exec_processPacket_of_ne_nil hp, Option.bind_none]
        simp [hp]

/-- One packet that the driver accepts is freed before it is offered. -/
theorem onePacket_not_disciplined :
    ¬Disciplined (pollLoop
      [(⟨[0], 1, by decide, by decide, by decide⟩ : Poll ℕ)]) := by
  decide

end PacketParsing
end DpdkFolder
