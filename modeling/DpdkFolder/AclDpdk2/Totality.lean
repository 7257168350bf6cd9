import DpdkFolder.AclDpdk2.Policy

/-!
# The coverage of the rule set

For the field types `BITMASK` and `MASK` a cleared field matches everything,
for `RANGE` it matches zero alone.  The rule "Drop everything else" therefore
drops only what has both ports zero, and the rest is left to the default.
-/

namespace DpdkFolder
namespace AclDpdk2

/-- TCP from 192.168.1.0/24 to port 80, in a `struct pkt`. -/
def PktPermitted (pkt : ℕ → UInt8) : Prop :=
  bigEndian pkt (pktIpHdr + ipv4NextProtoId) 1 = ipprotoTcp ∧
    bigEndian pkt (pktIpHdr + ipv4SrcAddr) 4 / 256 =
      rteIpv4 192 168 1 0 / 256 ∧
    bigEndian pkt (pktTcpHdr + tcpDstPort) 2 = 80

/-- Both ports are zero. -/
def PortsZero (pkt : ℕ → UInt8) : Prop :=
  bigEndian pkt (pktTcpHdr + tcpSrcPort) 2 = 0 ∧
    bigEndian pkt (pktTcpHdr + tcpDstPort) 2 = 0

/-- The matching rule of highest priority. -/
def bestRule (pkt : ℕ → UInt8) : Option (AclRule Field) :=
  (matchingRules buildAcl fieldDefs 0 pkt).maxOn? AclRule.priority

/-- A rule decides, and it decides as the policy says. -/
def DecidedByRule (pkt : ℕ → UInt8) : Prop :=
  ∃ r, bestRule pkt = some r ∧ (r.userdata = actionAllow ↔ PktPermitted pkt)

variable {pkt : ℕ → UInt8}

/-! ## The two rules -/

theorem allowRule_matches_pkt_iff :
    allowRule.Matches fieldDefs pkt ↔ PktPermitted pkt := by
  have hsrcIp : bigEndian pkt 12 4 / 256 = bigEndian pkt 12 3 :=
    bigEndian_succ_div pkt 12 3
  have hlooks := allowRule_matches_iff ⟨pkt, ipv4HdrSize + tcpHdrSize⟩
  rw [LooksPermitted, ← hsrcIp] at hlooks
  exact hlooks

/-- The fields of the second rule that are not ranges match everything. -/
theorem dropRule_matches_iff :
    dropRule.Matches fieldDefs pkt ↔ PortsZero pkt := by
  have hsrcIp : bigEndian pkt 12 4 / 4294967296 = 0 :=
    Nat.div_eq_of_lt (bigEndian_lt pkt 12 4)
  have hdstIp : bigEndian pkt 16 4 / 4294967296 = 0 :=
    Nat.div_eq_of_lt (bigEndian_lt pkt 16 4)
  rw [AclRule.Matches, forall_field]
  constructor
  · rintro ⟨-, -, -, hsrcPort, hdstPort⟩
    exact ⟨Nat.le_zero.mp hsrcPort.2, Nat.le_zero.mp hdstPort.2⟩
  · rintro ⟨hsrcPort, hdstPort⟩
    refine ⟨?_, hsrcIp, hdstIp, ?_, ?_⟩
    · exact (Nat.and_zero _).trans (Nat.and_zero _).symm
    · exact ⟨Nat.zero_le _, Nat.le_of_eq hsrcPort⟩
    · exact ⟨Nat.zero_le _, Nat.le_of_eq hdstPort⟩

/-- The best rule is one of the two, it matches, and a matching rule is not
above it. -/
theorem bestRule_spec {r : AclRule Field} (h : bestRule pkt = some r) :
    (r = allowRule ∧ PktPermitted pkt) ∨
      (r = dropRule ∧ PortsZero pkt ∧ ¬PktPermitted pkt) := by
  obtain ⟨hr, hmax⟩ := maxOn?_spec h
  obtain ⟨hmem, -, hmatch⟩ := mem_matchingRules.mp hr
  rcases List.mem_pair.mp hmem with rfl | rfl
  · exact Or.inl ⟨rfl, allowRule_matches_pkt_iff.mp hmatch⟩
  · refine Or.inr ⟨rfl, dropRule_matches_iff.mp hmatch, ?_⟩
    intro hpermitted
    have hallow : allowRule ∈ matchingRules buildAcl fieldDefs 0 pkt :=
      mem_matchingRules.mpr ⟨List.mem_cons_self .., rfl,
        allowRule_matches_pkt_iff.mpr hpermitted⟩
    exact absurd (hmax allowRule hallow) (by decide)

/-- There is a best rule as soon as one of the two matches. -/
theorem exists_bestRule (h : PktPermitted pkt ∨ PortsZero pkt) :
    ∃ r, bestRule pkt = some r := by
  have hmatching : ∃ r, r ∈ matchingRules buildAcl fieldDefs 0 pkt := by
    obtain hpermitted | hports := h
    · exact ⟨allowRule, mem_matchingRules.mpr ⟨List.mem_cons_self .., rfl,
        allowRule_matches_pkt_iff.mpr hpermitted⟩⟩
    · exact ⟨dropRule, mem_matchingRules.mpr
        ⟨List.mem_cons_of_mem _ (List.mem_singleton_self _), rfl,
          dropRule_matches_iff.mpr hports⟩⟩
  obtain ⟨r, hr⟩ := hmatching
  exact Option.isSome_iff_exists.mp
    (List.isSome_maxOn?_of_mem (f := AclRule.priority) hr)

/-! ## When a rule decides -/

/-- For every content of a `struct pkt`: a rule matches and the best one is to
allow exactly what the policy permits, if and only if the packet is permitted
or both its ports are zero. -/
theorem decidedByRule_iff (pkt : ℕ → UInt8) :
    DecidedByRule pkt ↔ PktPermitted pkt ∨ PortsZero pkt := by
  constructor
  · rintro ⟨r, hbest, -⟩
    obtain ⟨-, hpermitted⟩ | ⟨-, hports, -⟩ := bestRule_spec hbest
    · exact Or.inl hpermitted
    · exact Or.inr hports
  · intro h
    obtain ⟨r, hbest⟩ := exists_bestRule h
    refine ⟨r, hbest, ?_⟩
    obtain ⟨rfl, hpermitted⟩ | ⟨rfl, -, hnot⟩ := bestRule_spec hbest
    · exact iff_of_true rfl hpermitted
    · exact iff_of_false (by decide) hnot

/-- An HTTPS request from 10.0.0.1: an IPv4 and a TCP header. -/
def httpsRequest : List UInt8 :=
  [0x45, 0, 0, 40, 0, 1, 0, 0, 64, 6, 0, 0, 10, 0, 0, 1, 10, 0, 0, 2] ++
    [0x9C, 0x40, 1, 187, 0, 0, 0, 1, 0, 0, 0, 0, 0x50, 0x02, 1, 0, 0, 0, 0, 0]

/-- No rule matches it. -/
theorem httpsRequest_not_decidedByRule :
    ¬∀ pkt : ℕ → UInt8, DecidedByRule pkt := by
  intro hall
  obtain ⟨r, hbest, -⟩ := hall (Mbuf.ofFrame httpsRequest).data
  have hnone : (bestRule (Mbuf.ofFrame httpsRequest).data).isNone := by
    decide
  rw [hbest] at hnone
  cases hnone

end AclDpdk2
end DpdkFolder
