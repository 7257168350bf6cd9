import DpdkFolder.Dpdk.Acl
import DpdkFolder.Dpdk.Mbuf

/-!
# The firewall of ACL_DPDK_2

The field definitions and the two rules handed to `rte_acl`, and the loop
that classifies a burst packet by packet.  The classifier is given the start
of the frame, although the offsets are those of `struct pkt`, which begins
with the IPv4 header.
-/

namespace DpdkFolder
namespace AclDpdk2

/-- `ACTION_ALLOW`. -/
def actionAllow : ℕ := 1

/-- `ACTION_DROP`. -/
def actionDrop : ℕ := 0

/-- The indices `PROTO` to `DST_PORT`. -/
inductive Field
  | proto
  | srcIp
  | dstIp
  | srcPort
  | dstPort
deriving DecidableEq, Repr

instance : Fintype Field where
  elems := {.proto, .srcIp, .dstIp, .srcPort, .dstPort}
  complete := by
    intro i
    cases i <;> decide

/-- `offsetof(pkt, ip_hdr)`. -/
def pktIpHdr : ℕ := 0

/-- `offsetof(pkt, tcp_hdr)`. -/
def pktTcpHdr : ℕ := ipv4HdrSize

/-- `field_defs`. -/
def fieldDefs : Field → AclFieldDef
  | .proto => ⟨.bitmask, 1, 0, pktIpHdr + ipv4NextProtoId⟩
  | .srcIp => ⟨.mask, 4, 1, pktIpHdr + ipv4SrcAddr⟩
  | .dstIp => ⟨.mask, 4, 2, pktIpHdr + ipv4DstAddr⟩
  | .srcPort => ⟨.range, 2, 3, pktTcpHdr + tcpSrcPort⟩
  | .dstPort => ⟨.range, 2, 4, pktTcpHdr + tcpDstPort⟩

/-- "Allow TCP from 192.168.1.0/24 to any dst port 80". -/
def allowRule : AclRule Field where
  priority := 10
  categoryMask := 1
  userdata := actionAllow
  field
    | .proto => ⟨ipprotoTcp, 0xFF⟩
    | .srcIp => ⟨rteIpv4 192 168 1 0, 24⟩
    | .dstIp => ⟨0, 0⟩
    | .srcPort => ⟨0, 65535⟩
    | .dstPort => ⟨80, 80⟩

/-- "Drop everything else": the fields are left as `memset` made them. -/
def dropRule : AclRule Field where
  priority := 1
  categoryMask := 1
  userdata := actionDrop
  field _ := ⟨0, 0⟩

/-- The rules of the context that `build_acl` returns. -/
def buildAcl : List (AclRule Field) := [allowRule, dropRule]

/-- The result that `firewall_loop` gets for the mbuf. -/
def classify (m : Mbuf) : ℕ :=
  rteAclClassify buildAcl fieldDefs 0 m.data

/-- What an iteration of `firewall_loop` has done with the burst so far. -/
structure Verdicts (μ : Type*) where
  txBufs : List μ
  freed : List μ

variable {μ : Type*}

/-- The body of the per-packet loop. -/
def judge (result : μ → ℕ) (v : Verdicts μ) (m : μ) : Verdicts μ :=
  if result m = actionAllow then { v with txBufs := v.txBufs ++ [m] }
  else { v with freed := v.freed ++ [m] }

/-- The per-packet loop over a received burst. -/
def firewallBurst (result : μ → ℕ) (rxBufs : List μ) : Verdicts μ :=
  rxBufs.foldl (judge result) ⟨[], []⟩

/-- The loop splits the burst by the results, each part in arrival order. -/
theorem firewallBurst_eq (result : μ → ℕ) (rxBufs : List μ) :
    firewallBurst result rxBufs =
      ⟨rxBufs.filter fun m => result m = actionAllow,
        rxBufs.filter fun m => ¬result m = actionAllow⟩ := by
  have hloop : ∀ v : Verdicts μ, rxBufs.foldl (judge result) v =
      ⟨v.txBufs ++ rxBufs.filter fun m => result m = actionAllow,
        v.freed ++ rxBufs.filter fun m => ¬result m = actionAllow⟩ := by
    induction rxBufs with
    | nil => simp
    | cons m ms ih =>
        intro v
        rw [List.foldl_cons, ih]
        by_cases hm : result m = actionAllow <;> simp [judge, hm]
  rw [firewallBurst, hloop]
  rfl

/-- The loop, where the results are known to be those of a test. -/
theorem firewallBurst_eq_of_iff {result : μ → ℕ} {P : μ → Prop}
    [DecidablePred P] {rxBufs : List μ}
    (h : ∀ m ∈ rxBufs, (result m = actionAllow ↔ P m)) :
    firewallBurst result rxBufs =
      ⟨rxBufs.filter (fun m => P m), rxBufs.filter (fun m => ¬P m)⟩ := by
  rw [firewallBurst_eq, Verdicts.mk.injEq]
  constructor
  · apply List.filter_congr
    intro m hm
    simp [h m hm]
  · apply List.filter_congr
    intro m hm
    simp [h m hm]

end AclDpdk2
end DpdkFolder
