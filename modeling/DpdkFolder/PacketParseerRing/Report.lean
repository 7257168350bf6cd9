import DpdkFolder.PacketParseerRing.PacketInfo

/-!
# What the report of packet_info tells

The text that `packet_info` prints for a burst determines the number of its
packets and, for each of them, the addresses and the EtherType that the report
is about.  Nothing else of the packets shows in it.
-/

namespace DpdkFolder
namespace PacketParseerRing
namespace PacketInfo

open PrintedText

/-- `%02X:%02X:%02X:%02X:%02X:%02X`. -/
def macText (addr : List UInt8) : List Char :=
  [':'].intercalate (addr.map fun b => hexUpper 2 b.toNat)

/-- What the calls of `printf` print. -/
def Line.text : Line → List Char
  | newline => "\n".toList
  | packet number =>
      "\nPacket ".toList ++ Nat.toDigits 10 number ++ "\n".toList
  | srcMac addr => "SRC MAC: ".toList ++ macText addr ++ "\n".toList
  | dstMac addr => "DST MAC: ".toList ++ macText addr ++ "\n".toList
  | protocolIpv4 => "Protocol : IPv4\n".toList
  | protocolIpv6 => "Protocol : IPv6\n".toList
  | srcIp text => "SRC IP   : ".toList ++ text ++ "\n".toList
  | dstIp text => "DST IP   : ".toList ++ text ++ "\n".toList
  | protocolUnknown etherType =>
      "Protocol : Unknown (EtherType: 0x".toList ++ hexUpper 4 etherType ++
        ")\n".toList

/-- The output of `packet_info`. -/
def reportText (stack : ℕ → Buffers) (packets : List Mbuf) : List Char :=
  (packetInfo stack packets).flatMap Line.text

/-- The packets from the `i`-th one on, each with what the arrays hold in its
turn. -/
def turns (stack : ℕ → Buffers) : ℕ → List Mbuf → List (Buffers × Mbuf)
  | _, [] => []
  | i, m :: rest => (stack i, m) :: turns stack (i + 1) rest

/-- The strings that are printed as they are found have no newline. -/
def Readable (turn : Buffers × Mbuf) : Prop :=
  etherType turn.2 = etherTypeIpv6 →
    '\n' ∉ turn.1.src ∧ '\n' ∉ turn.1.dst

/-- The reports on two packets tell the same protocol and IP addresses. -/
structure SameSection (turn turn' : Buffers × Mbuf) : Prop where
  etherType : etherType turn.2 = etherType turn'.2
  ipv4 : PacketInfo.etherType turn.2 = etherTypeIpv4 →
    ipv4Address turn.2.data 26 = ipv4Address turn'.2.data 26 ∧
      ipv4Address turn.2.data 30 = ipv4Address turn'.2.data 30
  ipv6 : PacketInfo.etherType turn.2 = etherTypeIpv6 →
    turn.1.src = turn'.1.src ∧ turn.1.dst = turn'.1.dst

/-- The reports on two packets tell the same addresses and protocol. -/
structure SameReport (turn turn' : Buffers × Mbuf) : Prop
    extends SameSection turn turn' where
  srcMac : macAddress turn.2.data etherSrcAddr =
    macAddress turn'.2.data etherSrcAddr
  dstMac : macAddress turn.2.data etherDstAddr =
    macAddress turn'.2.data etherDstAddr

/-! ## Fields of the text -/

theorem hexUpper_byte_injective :
    Function.Injective fun b : UInt8 => hexUpper 2 b.toNat :=
  fun b b' h => UInt8.toNat_inj.mp (hexUpper_inj b.toNat_lt b'.toNat_lt h)

theorem macText_inj {addr addr' : List UInt8} (haddr : addr ≠ [])
    (haddr' : addr' ≠ []) (h : macText addr = macText addr') :
    addr = addr' := by
  apply intercalate_map_inj hexUpper_byte_injective _ haddr haddr' h
  intro b hcolon
  exact absurd (isAlphanum_of_mem_hexUpper hcolon) (by decide)

theorem newline_not_mem_macText (addr : List UInt8) :
    '\n' ∉ macText addr := by
  intro h
  obtain h | ⟨item, hitem, h⟩ := mem_intercalate h
  · exact absurd h (by decide)
  · obtain ⟨b, -, rfl⟩ := List.mem_map.mp hitem
    exact absurd (isAlphanum_of_mem_hexUpper h) (by decide)

theorem newline_not_mem_dottedQuad (addr : List UInt8) :
    '\n' ∉ Inet6.dottedQuad addr := by
  intro h
  obtain h | ⟨item, hitem, h⟩ := mem_intercalate h
  · exact absurd h (by decide)
  · obtain ⟨b, -, rfl⟩ := List.mem_map.mp hitem
    exact absurd (isAlphanum_of_mem_toDigits h) (by decide)

theorem newline_not_mem_toDigits (n : ℕ) : '\n' ∉ Nat.toDigits 10 n :=
  fun h => absurd (isAlphanum_of_mem_toDigits h) (by decide)

theorem newline_not_mem_hexUpper (width n : ℕ) :
    '\n' ∉ hexUpper width n :=
  fun h => absurd (isAlphanum_of_mem_hexUpper h) (by decide)

/-! ## Rows of the text -/

/-- The text of a line, cut at its newlines. -/
def Line.rows : Line → List (List Char)
  | newline => [[]]
  | packet number => [[], "Packet ".toList ++ Nat.toDigits 10 number]
  | srcMac addr => ["SRC MAC: ".toList ++ macText addr]
  | dstMac addr => ["DST MAC: ".toList ++ macText addr]
  | protocolIpv4 => ["Protocol : IPv4".toList]
  | protocolIpv6 => ["Protocol : IPv6".toList]
  | srcIp text => ["SRC IP   : ".toList ++ text]
  | dstIp text => ["DST IP   : ".toList ++ text]
  | protocolUnknown etherType =>
      ["Protocol : Unknown (EtherType: 0x".toList ++ hexUpper 4 etherType ++
        ")".toList]

theorem Line.text_eq_unlines (line : Line) :
    line.text = unlines line.rows := by
  cases line with
  | packet number =>
      rw [Line.rows, unlines_cons, unlines_cons]
      rfl
  | protocolUnknown etherType =>
      rw [Line.rows, unlines_cons, List.append_assoc]
      rfl
  | _ =>
      rw [Line.rows, unlines_cons]
      rfl

theorem flatMap_text (lines : List Line) :
    lines.flatMap Line.text = unlines (lines.flatMap Line.rows) := by
  rw [unlines, List.flatMap_assoc]
  congr 1
  funext line
  exact line.text_eq_unlines

/-- The rows of the report on one packet. -/
def turnRows (i : ℕ) (turn : Buffers × Mbuf) : List (List Char) :=
  ((printPacket turn.1 i).lines turn.2.data).flatMap Line.rows

/-- What follows the EtherType, for each protocol. -/
inductive SectionRows (turn : Buffers × Mbuf) : List (List Char) → Prop
  | ipv4 (htype : etherType turn.2 = etherTypeIpv4) :
      SectionRows turn ["Protocol : IPv4".toList,
        "SRC IP   : ".toList ++
          Inet6.dottedQuad (ipv4Address turn.2.data 26),
        "DST IP   : ".toList ++
          Inet6.dottedQuad (ipv4Address turn.2.data 30), [], []]
  | ipv6 (htype : etherType turn.2 = etherTypeIpv6) :
      SectionRows turn ["Protocol : IPv6".toList,
        "SRC IP   : ".toList ++ turn.1.src,
        "DST IP   : ".toList ++ turn.1.dst, [], []]
  | unknown (hnot4 : etherType turn.2 ≠ etherTypeIpv4)
      (hnot6 : etherType turn.2 ≠ etherTypeIpv6) :
      SectionRows turn ["Protocol : Unknown (EtherType: 0x".toList ++
        hexUpper 4 (etherType turn.2) ++ ")".toList]

theorem turnRows_eq (i : ℕ) (turn : Buffers × Mbuf) :
    ∃ rows, SectionRows turn rows ∧ turnRows i turn =
      [] :: ("Packet ".toList ++ Nat.toDigits 10 (i + 1)) ::
        ("SRC MAC: ".toList ++ macText (macAddress turn.2.data
          etherSrcAddr)) ::
        ("DST MAC: ".toList ++ macText (macAddress turn.2.data
          etherDstAddr)) :: [] :: [] :: rows := by
  refine ⟨(ipSection turn.1 turn.2.data).flatMap Line.rows, ?_, ?_⟩
  · rw [ipSection]
    split_ifs with h4 h6
    · exact .ipv4 h4
    · exact .ipv6 h6
    · exact .unknown h4 h6
  · rw [turnRows, lines_printPacket, List.flatMap_append]
    rfl

/-- No protocol is announced like an unknown one. -/
theorem protocol_ne_unknown (cs : List Char) :
    "Protocol : IPv4".toList ≠
        "Protocol : Unknown (EtherType: 0x".toList ++ cs ∧
      "Protocol : IPv6".toList ≠
        "Protocol : Unknown (EtherType: 0x".toList ++ cs := by
  constructor <;> simp

section Decoding

variable {turn turn' : Buffers × Mbuf}
  {rows rows' rest rest' : List (List Char)}

theorem ipv4Address_inj {data data' : ℕ → UInt8} {offset : ℕ}
    (h : Inet6.dottedQuad (ipv4Address data offset) =
      Inet6.dottedQuad (ipv4Address data' offset)) :
    ipv4Address data offset = ipv4Address data' offset :=
  Inet6.dottedQuad_inj (List.cons_ne_nil _ _) (List.cons_ne_nil _ _) h

/-- The rows of a section tell its protocol, its addresses and its end. -/
theorem SectionRows.same (h : SectionRows turn rows)
    (h' : SectionRows turn' rows') (heq : rows ++ rest = rows' ++ rest') :
    SameSection turn turn' ∧ rest = rest' := by
  cases h with
  | ipv4 htype =>
      cases h' with
      | ipv4 htype' =>
          simp only [List.cons_append, List.nil_append, List.cons.injEq,
            true_and, List.append_cancel_left_eq] at heq
          obtain ⟨hsrc, hdst, hrest⟩ := heq
          refine ⟨⟨htype.trans htype'.symm, fun _ =>
            ⟨ipv4Address_inj hsrc, ipv4Address_inj hdst⟩, ?_⟩, hrest⟩
          intro h6
          exact absurd (htype.symm.trans h6) (by decide)
      | ipv6 =>
          exact absurd (List.cons.inj heq).1 (by decide)
      | unknown =>
          rw [List.append_assoc] at heq
          exact absurd (List.cons.inj heq).1 (protocol_ne_unknown _).1
  | ipv6 htype =>
      cases h' with
      | ipv4 =>
          exact absurd (List.cons.inj heq).1 (by decide)
      | ipv6 htype' =>
          simp only [List.cons_append, List.nil_append, List.cons.injEq,
            true_and, List.append_cancel_left_eq] at heq
          obtain ⟨hsrc, hdst, hrest⟩ := heq
          refine ⟨⟨htype.trans htype'.symm, ?_, fun _ => ⟨hsrc, hdst⟩⟩,
            hrest⟩
          intro h4
          exact absurd (htype.symm.trans h4) (by decide)
      | unknown =>
          rw [List.append_assoc] at heq
          exact absurd (List.cons.inj heq).1 (protocol_ne_unknown _).2
  | unknown hnot4 hnot6 =>
      cases h' with
      | ipv4 =>
          rw [List.append_assoc] at heq
          exact absurd (List.cons.inj heq).1.symm (protocol_ne_unknown _).1
      | ipv6 =>
          rw [List.append_assoc] at heq
          exact absurd (List.cons.inj heq).1.symm (protocol_ne_unknown _).2
      | unknown =>
          obtain ⟨hprotocol, hrest⟩ := List.cons.inj heq
          rw [List.append_assoc, List.append_assoc] at hprotocol
          have hhex := List.append_cancel_right
            (List.append_cancel_left hprotocol)
          have htype := hexUpper_inj (bigEndian_lt _ _ 2)
            (bigEndian_lt _ _ 2) hhex
          exact ⟨⟨htype, fun h4 => absurd h4 hnot4,
            fun h6 => absurd h6 hnot6⟩, hrest⟩

theorem macAddress_inj {data data' : ℕ → UInt8} {offset : ℕ}
    (h : macText (macAddress data offset) =
      macText (macAddress data' offset)) :
    macAddress data offset = macAddress data' offset :=
  macText_inj (List.cons_ne_nil _ _) (List.cons_ne_nil _ _) h

/-- The rows on a packet tell what they are about and where they end. -/
theorem turnRows_same {i : ℕ}
    (heq : turnRows i turn ++ rest = turnRows i turn' ++ rest') :
    SameReport turn turn' ∧ rest = rest' := by
  obtain ⟨rows, hrows, hturn⟩ := turnRows_eq i turn
  obtain ⟨rows', hrows', hturn'⟩ := turnRows_eq i turn'
  rw [hturn, hturn'] at heq
  simp only [List.cons_append, List.cons.injEq, true_and,
    List.append_cancel_left_eq] at heq
  obtain ⟨hsrc, hdst, hsection⟩ := heq
  obtain ⟨hsame, hrest⟩ := hrows.same hrows' hsection
  exact ⟨⟨hsame, macAddress_inj hsrc, macAddress_inj hdst⟩, hrest⟩

theorem SectionRows.newline_not_mem (h : SectionRows turn rows)
    (hreadable : Readable turn) : ∀ row ∈ rows, '\n' ∉ row := by
  cases h with
  | ipv4 =>
      simp [newline_not_mem_dottedQuad]
  | ipv6 htype =>
      obtain ⟨hsrc, hdst⟩ := hreadable htype
      simp [hsrc, hdst]
  | unknown =>
      simp [newline_not_mem_hexUpper]

theorem newline_not_mem_turnRows (i : ℕ) (hreadable : Readable turn) :
    ∀ row ∈ turnRows i turn, '\n' ∉ row := by
  obtain ⟨rows, hrows, hturn⟩ := turnRows_eq i turn
  have hsection := hrows.newline_not_mem hreadable
  rw [hturn]
  simp only [List.forall_mem_cons, List.mem_append, not_or]
  exact ⟨by simp, ⟨by decide, newline_not_mem_toDigits _⟩,
    ⟨by decide, newline_not_mem_macText _⟩,
    ⟨by decide, newline_not_mem_macText _⟩, by simp, by simp, hsection⟩

/-- What shows in the report is all that it depends on. -/
theorem SameReport.lines_eq (h : SameReport turn turn') (i : ℕ) :
    (printPacket turn.1 i).lines turn.2.data =
      (printPacket turn'.1 i).lines turn'.2.data := by
  have htype : bigEndian turn'.2.data etherTypeOffset 2 =
      bigEndian turn.2.data etherTypeOffset 2 := h.etherType.symm
  rw [lines_printPacket, lines_printPacket, h.srcMac, h.dstMac, ipSection,
    ipSection, htype]
  split_ifs with h4 h6
  · rw [(h.ipv4 h4).1, (h.ipv4 h4).2]
  · rw [(h.ipv6 h6).1, (h.ipv6 h6).2]
  · rfl

end Decoding

/-! ## The text of a report -/

section Report

variable {stack stack' : ℕ → Buffers} {packets packets' : List Mbuf}

theorem printPackets_rows (stack : ℕ → Buffers) (i : ℕ) (m : Mbuf)
    (rest : List Mbuf) :
    (printPackets stack i (m :: rest)).flatMap Line.rows =
      turnRows i (stack i, m) ++
        (printPackets stack (i + 1) rest).flatMap Line.rows := by
  rw [printPackets, List.flatMap_append]
  rfl

/-- The rows of a report tell the packets apart. -/
theorem same_of_rows {i : ℕ}
    (h : (printPackets stack i packets).flatMap Line.rows =
      (printPackets stack' i packets').flatMap Line.rows) :
    List.Forall₂ SameReport (turns stack i packets)
      (turns stack' i packets') := by
  induction packets generalizing i packets' with
  | nil =>
      cases packets' with
      | nil => exact .nil
      | cons m' rest' =>
          obtain ⟨rows, -, hturn⟩ := turnRows_eq i (stack' i, m')
          rw [printPackets_rows, hturn] at h
          cases h
  | cons m rest ih =>
      cases packets' with
      | nil =>
          obtain ⟨rows, -, hturn⟩ := turnRows_eq i (stack i, m)
          rw [printPackets_rows, hturn] at h
          cases h
      | cons m' rest' =>
          rw [printPackets_rows, printPackets_rows] at h
          obtain ⟨hsame, hrest⟩ := turnRows_same h
          exact .cons hsame (ih hrest)

theorem printPackets_eq_of_same {i : ℕ}
    (h : List.Forall₂ SameReport (turns stack i packets)
      (turns stack' i packets')) :
    printPackets stack i packets = printPackets stack' i packets' := by
  induction packets generalizing i packets' with
  | nil =>
      cases packets' with
      | nil => rfl
      | cons => cases h
  | cons m rest ih =>
      cases packets' with
      | nil => cases h
      | cons m' rest' =>
          cases h with
          | cons hsame hrest =>
              rw [printPackets, printPackets, hsame.lines_eq i, ih hrest]

/-- No row contains a newline. -/
theorem newline_not_mem_rows {i : ℕ}
    (h : ∀ turn ∈ turns stack i packets, Readable turn) :
    ∀ row ∈ (printPackets stack i packets).flatMap Line.rows,
      '\n' ∉ row := by
  induction packets generalizing i with
  | nil => simp [printPackets]
  | cons m rest ih =>
      rw [turns, List.forall_mem_cons] at h
      rw [printPackets_rows, List.forall_mem_append]
      exact ⟨newline_not_mem_turnRows i h.1, ih h.2⟩

/-- For all bursts and all contents of the stack without a newline where it
is printed: the printed texts are the same if and only if there are as many
packets and each two of them have the same addresses and EtherType. -/
theorem reportText_eq_iff
    (h : ∀ turn ∈ turns stack 0 packets, Readable turn)
    (h' : ∀ turn ∈ turns stack' 0 packets', Readable turn) :
    reportText stack packets = reportText stack' packets' ↔
      List.Forall₂ SameReport (turns stack 0 packets)
        (turns stack' 0 packets') := by
  constructor
  · intro htext
    rw [reportText, reportText, flatMap_text, flatMap_text] at htext
    have hrows := unlines_inj ?_ ?_ htext
    · simp only [packetInfo, List.flatMap_cons] at hrows
      exact same_of_rows (List.append_cancel_left
        (List.append_cancel_left hrows))
    all_goals
      simp only [packetInfo, List.flatMap_cons, List.forall_mem_append]
    · exact ⟨by decide, by decide, newline_not_mem_rows h⟩
    · exact ⟨by decide, by decide, newline_not_mem_rows h'⟩
  · intro hsame
    rw [reportText, reportText, packetInfo, packetInfo,
      printPackets_eq_of_same hsame]

/-- An ARP and an IPv6 frame, where the stack holds addresses. -/
theorem reportText_eq_iff_readableStack :
    reportText (fun _ => ⟨"::1".toList, "::2".toList⟩)
        [.ofFrame (List.replicate 12 1 ++ [8, 6]), .ofFrame ipv6Frame] =
      reportText (fun _ => ⟨"::1".toList, "::2".toList⟩)
        [.ofFrame (List.replicate 12 1 ++ [8, 6, 0, 1]),
          .ofFrame ipv6Frame] := by
  apply (reportText_eq_iff ?_ ?_).mpr
  · -- The byte behind the header does not show.
    have harp : SameReport
        (⟨"::1".toList, "::2".toList⟩,
          .ofFrame (List.replicate 12 1 ++ [8, 6]))
        (⟨"::1".toList, "::2".toList⟩,
          .ofFrame (List.replicate 12 1 ++ [8, 6, 0, 1])) :=
      ⟨⟨rfl, fun h4 => absurd h4 (by decide),
        fun h6 => absurd h6 (by decide)⟩, rfl, rfl⟩
    have hipv6 : SameReport (⟨"::1".toList, "::2".toList⟩, .ofFrame ipv6Frame)
        (⟨"::1".toList, "::2".toList⟩, .ofFrame ipv6Frame) :=
      ⟨⟨rfl, fun _ => ⟨rfl, rfl⟩, fun _ => ⟨rfl, rfl⟩⟩, rfl, rfl⟩
    exact .cons harp (.cons hipv6 .nil)
  all_goals simp [turns, Readable]

end Report

end PacketInfo
end PacketParseerRing
end DpdkFolder
