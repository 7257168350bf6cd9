import DpdkFolder.AclDpdk2.Model

/-!
# The firewall against its policy

The policy is stated on the frame: a complete Ethernet, IPv4 and TCP frame
from 192.168.1.0/24 to port 80, the port being found behind the IPv4 options.
The classifier instead compares the bytes at the same offsets of the Ethernet
frame.  Both cannot hold of one frame, because the bytes that the classifier
takes for the source address include the EtherType, so the firewall follows
the policy on a burst exactly when neither holds of any frame in it.
-/

namespace DpdkFolder
namespace AclDpdk2

/-! ## The policy -/

/-- The version field of the IPv4 header. -/
def ipVersion (m : Mbuf) : ℕ :=
  (m.data (etherHdrSize + ipv4VersionIhl)).toNat / 16

/-- The header length field, in units of 4 bytes. -/
def ihl (m : Mbuf) : ℕ :=
  (m.data (etherHdrSize + ipv4VersionIhl)).toNat % 16

/-- The start of the TCP header behind the IPv4 options. -/
def tcpHdr (m : Mbuf) : ℕ := etherHdrSize + 4 * ihl m

/-- A complete Ethernet, IPv4 and TCP frame. -/
def TcpFrame (m : Mbuf) : Prop :=
  tcpHdr m + tcpHdrSize ≤ m.dataLen ∧
    bigEndian m.data etherTypeOffset 2 = etherTypeIpv4 ∧
    ipVersion m = 4 ∧ ipv4HdrSize ≤ 4 * ihl m ∧
    bigEndian m.data (etherHdrSize + ipv4NextProtoId) 1 = ipprotoTcp

/-- TCP from 192.168.1.0/24 to port 80. -/
def Permitted (m : Mbuf) : Prop :=
  TcpFrame m ∧
    bigEndian m.data (etherHdrSize + ipv4SrcAddr) 4 / 256 =
      rteIpv4 192 168 1 0 / 256 ∧
    bigEndian m.data (tcpHdr m + tcpDstPort) 2 = 80

instance (m : Mbuf) : Decidable (Permitted m) :=
  inferInstanceAs (Decidable ((_ ∧ _ ∧ _ ∧ _ ∧ _) ∧ _ ∧ _))

/-- The burst is split as the policy says, in arrival order. -/
def FollowsPolicy (rxBufs : List Mbuf) : Prop :=
  (firewallBurst classify rxBufs).txBufs =
      rxBufs.filter (fun m => Permitted m) ∧
    (firewallBurst classify rxBufs).freed =
      rxBufs.filter (fun m => ¬Permitted m)

/-! ## What the classifier tests -/

/-- Byte 9 of the Ethernet frame is 6, the bytes 12 to 14 are 192.168.1, and
the bytes 22 and 23 hold 80. -/
def LooksPermitted (m : Mbuf) : Prop :=
  bigEndian m.data 9 1 = ipprotoTcp ∧
    bigEndian m.data 12 3 = (192 * 256 + 168) * 256 + 1 ∧
    bigEndian m.data 22 2 = 80

theorem forall_field {P : Field → Prop} :
    (∀ i, P i) ↔
      P .proto ∧ P .srcIp ∧ P .dstIp ∧ P .srcPort ∧ P .dstPort := by
  constructor
  · intro h
    exact ⟨h _, h _, h _, h _, h _⟩
  · rintro ⟨hproto, hsrcIp, hdstIp, hsrcPort, hdstPort⟩ i
    cases i
    · exact hproto
    · exact hsrcIp
    · exact hdstIp
    · exact hsrcPort
    · exact hdstPort

/-- A mask of all ones keeps a byte. -/
theorem byte_and_mask {x : ℕ} (h : x < 256) : x &&& 0xFF = x := by
  have hmask : x &&& 0xFF = x % 256 := Nat.and_two_pow_sub_one_eq_mod x 8
  rw [hmask, Nat.mod_eq_of_lt h]

theorem allowRule_matches_iff (m : Mbuf) :
    allowRule.Matches fieldDefs m.data ↔ LooksPermitted m := by
  have hproto : (bigEndian m.data 9 1 &&& 0xFF = 6) ↔
      bigEndian m.data 9 1 = 6 := by
    rw [byte_and_mask (bigEndian_lt m.data 9 1)]
  have hsrcIp : bigEndian m.data 12 4 / 256 = bigEndian m.data 12 3 :=
    bigEndian_succ_div m.data 12 3
  have hdstIp : bigEndian m.data 16 4 / 4294967296 = 0 :=
    Nat.div_eq_of_lt (bigEndian_lt m.data 16 4)
  have hsrcPort : bigEndian m.data 20 2 < 65536 := bigEndian_lt m.data 20 2
  rw [AclRule.Matches, forall_field]
  constructor
  · rintro ⟨h1, h2, -, -, h5⟩
    refine ⟨hproto.mp h1, ?_, Nat.le_antisymm h5.2 h5.1⟩
    rw [← hsrcIp]
    exact h2
  · rintro ⟨h1, h2, h5⟩
    refine ⟨hproto.mpr h1, ?_, hdstIp, ?_, ?_⟩
    · exact hsrcIp.trans h2
    · exact ⟨Nat.zero_le _, Nat.le_of_lt_succ hsrcPort⟩
    · exact ⟨Nat.le_of_eq h5.symm, Nat.le_of_eq h5⟩

/-- The verdict is to allow exactly if the allow rule matches, since the
other rule has a lower priority and another action. -/
theorem classify_eq_allow_iff (m : Mbuf) :
    classify m = actionAllow ↔ LooksPermitted m := by
  rw [← allowRule_matches_iff]
  constructor
  · intro hallow
    have hne : classify m ≠ 0 := by
      rw [hallow]
      decide
    obtain ⟨r, hr, hmatch, huserdata, -⟩ :=
      exists_rule_of_rteAclClassify_ne hne
    rcases List.mem_pair.mp hr with rfl | rfl
    · exact hmatch
    · rw [show rteAclClassify buildAcl fieldDefs 0 m.data = actionAllow
        from hallow] at huserdata
      cases huserdata
  · intro hmatch
    apply rteAclClassify_of_best (List.mem_cons_self ..) rfl hmatch
    intro q hq _ hle
    rcases List.mem_pair.mp hq with rfl | rfl
    · rfl
    · exact absurd hle (by decide)

/-- What the classifier takes for a source address in 192.168.1.0/24 begins
with the EtherType, which is then not that of IPv4. -/
theorem not_permitted_of_looksPermitted {m : Mbuf} (h : LooksPermitted m) :
    ¬Permitted m := by
  rintro ⟨⟨-, htype, -⟩, -⟩
  have hleading := bigEndian_succ_div m.data 12 2
  rw [h.2.1, show bigEndian m.data 12 2 = 0x0800 from htype] at hleading
  cases hleading

/-- For every burst: the firewall sends exactly the permitted frames, in
order, and frees the others if and only if the burst contains no permitted
frame and none that looks permitted to the classifier. -/
theorem followsPolicy_iff (rxBufs : List Mbuf) :
    FollowsPolicy rxBufs ↔
      ∀ m ∈ rxBufs, ¬Permitted m ∧ ¬LooksPermitted m := by
  rw [FollowsPolicy]
  constructor
  · rw [firewallBurst_eq]
    rintro ⟨hsent, -⟩ m hm
    have hagree : classify m = actionAllow ↔ Permitted m := by
      have hlists : rxBufs.filter (fun m => classify m = actionAllow) =
          rxBufs.filter (fun m => Permitted m) := hsent
      have hmem := congrArg (m ∈ ·) hlists
      simpa [hm] using hmem
    rw [classify_eq_allow_iff] at hagree
    have hlooks : ¬LooksPermitted m := fun h =>
      not_permitted_of_looksPermitted h (hagree.mp h)
    exact ⟨fun h => hlooks (hagree.mpr h), hlooks⟩
  · intro h
    have hagree : ∀ m ∈ rxBufs, (classify m = actionAllow ↔ Permitted m) := by
      intro m hm
      rw [classify_eq_allow_iff]
      exact iff_of_false (h m hm).2 (h m hm).1
    rw [firewallBurst_eq_of_iff hagree]
    exact ⟨rfl, rfl⟩

/-- A request from 192.168.1.5 to port 80 with a header of 20 bytes. -/
def webRequest : Mbuf := .ofFrame <|
  [0x02, 0, 0, 0, 0, 0x01, 0x02, 0, 0, 0, 0, 0x02, 0x08, 0x00] ++
    [0x45, 0, 0, 40, 0, 1, 0, 0, 64, 6, 0, 0, 192, 168, 1, 5, 10, 0, 0, 1] ++
    [0x9C, 0x40, 0, 80, 0, 0, 0, 1, 0, 0, 0, 0, 0x50, 0x02, 1, 0, 0, 0, 0, 0]

/-- The firewall drops a permitted frame. -/
theorem webRequest_not_followsPolicy : ¬FollowsPolicy [webRequest] := by
  rintro ⟨hsent, -⟩
  have hpermitted : Permitted webRequest := by decide
  have hdropped : (firewallBurst classify [webRequest]).txBufs = [] := by
    decide
  rw [hdropped] at hsent
  simp [hpermitted] at hsent

end AclDpdk2
end DpdkFolder
