import DpdkFolder.AclDpdk2.Totality

/-!
# The rule of ACL_DPDK and the firewall built from it

The context of `main` has one rule and leaves everything else to the default
result.  The rules of ACL_DPDK_2 are over the same fields.  They narrow this
rule to the destination port 80, and their rule "Drop everything else" does
nothing that the default would not do.
-/

namespace DpdkFolder
namespace AclDpdk

open AclDpdk2 (Field pktIpHdr pktTcpHdr byte_and_mask forall_field)

/-- `ACTION_ALLOW`. -/
def actionAllow : ℕ := 1

/-- `ACTION_DROP`. -/
def actionDrop : ℕ := 0

/-- `field_defs`, the same in both programs. -/
def fieldDefs : Field → AclFieldDef := AclDpdk2.fieldDefs

/-- "Rule 0: Allow TCP from 192.168.1.0/24". -/
def allowRule : AclRule Field where
  priority := 1
  categoryMask := 1
  userdata := actionAllow
  field
    | .proto => ⟨ipprotoTcp, 0xFF⟩
    | .srcIp => ⟨rteIpv4 192 168 1 0, 24⟩
    | .dstIp => ⟨0, 0⟩
    | .srcPort => ⟨0, 65535⟩
    | .dstPort => ⟨0, 65535⟩

/-- The rules of `acl_ctx`: `main` adds the first of its two. -/
def rules : List (AclRule Field) := [allowRule]

/-- `results[0]` for a `struct pkt`. -/
def classify (pkt : ℕ → UInt8) : ℕ :=
  rteAclClassify rules fieldDefs 0 pkt

/-- TCP from 192.168.1.0/24. -/
def TcpFromSubnet (pkt : ℕ → UInt8) : Prop :=
  bigEndian pkt (pktIpHdr + ipv4NextProtoId) 1 = ipprotoTcp ∧
    bigEndian pkt (pktIpHdr + ipv4SrcAddr) 4 / 256 =
      rteIpv4 192 168 1 0 / 256

/-- The destination port. -/
def dstPort (pkt : ℕ → UInt8) : ℕ := bigEndian pkt (pktTcpHdr + tcpDstPort) 2

variable {pkt : ℕ → UInt8}

theorem allowRule_matches_iff :
    allowRule.Matches fieldDefs pkt ↔ TcpFromSubnet pkt := by
  have hproto : (bigEndian pkt 9 1 &&& 0xFF = 6) ↔ bigEndian pkt 9 1 = 6 := by
    rw [byte_and_mask (bigEndian_lt pkt 9 1)]
  have hdstIp : bigEndian pkt 16 4 / 4294967296 = 0 :=
    Nat.div_eq_of_lt (bigEndian_lt pkt 16 4)
  have hport : ∀ i, 0 ≤ bigEndian pkt i 2 ∧ bigEndian pkt i 2 ≤ 65535 :=
    fun i => ⟨Nat.zero_le _, Nat.le_of_lt_succ (bigEndian_lt pkt i 2)⟩
  rw [AclRule.Matches, forall_field]
  constructor
  · rintro ⟨hmask, hsrcIp, -⟩
    exact ⟨hproto.mp hmask, hsrcIp⟩
  · rintro ⟨htcp, hsrcIp⟩
    exact ⟨hproto.mpr htcp, hsrcIp, hdstIp, hport 20, hport 22⟩

/-- Without a match the result is the default, which is the one to drop. -/
theorem classify_eq_ite [Decidable (TcpFromSubnet pkt)] :
    classify pkt = if TcpFromSubnet pkt then actionAllow else actionDrop := by
  rw [classify, rules, rteAclClassify_singleton]
  apply if_congr _ rfl rfl
  rw [allowRule_matches_iff]
  exact and_iff_right rfl

/-- The firewall's context gives the result of its allow rule alone. -/
theorem buildAcl_eq_allowRule :
    rteAclClassify AclDpdk2.buildAcl AclDpdk2.fieldDefs 0 pkt =
      rteAclClassify [AclDpdk2.allowRule] AclDpdk2.fieldDefs 0 pkt := by
  change rteAclClassify ([AclDpdk2.allowRule] ++ AclDpdk2.dropRule :: [])
    AclDpdk2.fieldDefs 0 pkt = rteAclClassify ([AclDpdk2.allowRule] ++ [])
      AclDpdk2.fieldDefs 0 pkt
  apply rteAclClassify_of_lowest rfl
  intro q hq
  rw [List.append_nil, List.mem_singleton] at hq
  subst hq
  decide

theorem buildAcl_eq_ite [Decidable (dstPort pkt = 80 ∧ TcpFromSubnet pkt)] :
    rteAclClassify AclDpdk2.buildAcl AclDpdk2.fieldDefs 0 pkt =
      if dstPort pkt = 80 ∧ TcpFromSubnet pkt then actionAllow
      else actionDrop := by
  rw [buildAcl_eq_allowRule, rteAclClassify_singleton]
  apply if_congr _ rfl rfl
  rw [AclDpdk2.allowRule_matches_pkt_iff]
  constructor
  · rintro ⟨-, htcp, hsrcIp, hport⟩
    exact ⟨hport, htcp, hsrcIp⟩
  · rintro ⟨hport, htcp, hsrcIp⟩
    exact ⟨rfl, htcp, hsrcIp, hport⟩

/-- For every content of a `struct pkt`: the context of ACL_DPDK allows
exactly TCP from 192.168.1.0/24, and the context of ACL_DPDK_2 gives the same
result on packets to port 80 and drops all others, with its rule "Drop
everything else" or without it. -/
theorem firewall_narrows (pkt : ℕ → UInt8) :
    (classify pkt = actionAllow ↔ TcpFromSubnet pkt) ∧
      rteAclClassify AclDpdk2.buildAcl AclDpdk2.fieldDefs 0 pkt =
        (if dstPort pkt = 80 then classify pkt else actionDrop) ∧
      rteAclClassify AclDpdk2.buildAcl AclDpdk2.fieldDefs 0 pkt =
        rteAclClassify [AclDpdk2.allowRule] AclDpdk2.fieldDefs 0 pkt := by
  classical
  refine ⟨?_, ?_, buildAcl_eq_allowRule⟩
  · rw [classify_eq_ite]
    split
    · exact iff_of_true rfl ‹_›
    · exact iff_of_false (by decide) ‹_›
  · rw [buildAcl_eq_ite, classify_eq_ite, ite_and]

end AclDpdk
end DpdkFolder
