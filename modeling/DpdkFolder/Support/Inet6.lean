import DpdkFolder.Support.PrintedText

/-!
# The text of an IPv6 address

Eight groups of hexadecimal digits without leading zeros.  The first of the
longest runs of at least two zero groups is left out between two colons, and
an IPv4 address behind such a run is written as a dotted quad.
-/

namespace Inet6

/-- The groups of two bytes of an address. -/
def groups : List UInt8 → List ℕ
  | high :: low :: rest =>
      (256 * high.toNat + low.toNat) :: groups rest
  | _ => []

/-- A run of zero groups, which is empty where there is none. -/
structure Run where
  base : ℕ
  len : ℕ
deriving DecidableEq, Repr

/-- The longer run, the former one of two that are equally long. -/
def Run.longer (best cur : Run) : Run :=
  if best.len < cur.len then cur else best

/-- The first of the longest runs of zeros in the groups from the `i`-th one
on, where `cur` ends just before them. -/
def longestRun : List ℕ → ℕ → Run → Run → Run
  | [], _, cur, best => best.longer cur
  | 0 :: rest, i, cur, best =>
      let cur := if cur.len = 0 then ⟨i, 1⟩ else ⟨cur.base, cur.len + 1⟩
      longestRun rest (i + 1) cur best
  | _ :: rest, i, cur, best =>
      longestRun rest (i + 1) ⟨0, 0⟩ (best.longer cur)

/-- The run that is left out. -/
def omitted (words : List ℕ) : Run :=
  let best := longestRun words 0 ⟨0, 0⟩ ⟨0, 0⟩
  if best.len < 2 then ⟨0, 0⟩ else best

/-- Four bytes as a dotted quad. -/
def dottedQuad (addr : List UInt8) : List Char :=
  ['.'].intercalate (addr.map fun b => Nat.toDigits 10 b.toNat)

theorem dottedQuad_inj {addr addr' : List UInt8} (haddr : addr ≠ [])
    (haddr' : addr' ≠ []) (h : dottedQuad addr = dottedQuad addr') :
    addr = addr' := by
  apply PrintedText.intercalate_map_inj _ _ haddr haddr' h
  · exact PrintedText.toDigits_ten_injective.comp
      fun _ _ => UInt8.toNat_inj.mp
  · intro b hdot
    exact absurd (PrintedText.isAlphanum_of_mem_toDigits hdot) (by decide)

/-- The run leaves only an IPv4 address of the groups. -/
def embedsIpv4 (words : List ℕ) (run : Run) : Bool :=
  run.base = 0 ∧ (run.len = 6 ∨ run.len = 5 ∧ words[5]? = some 0xffff)

/-- The text of the groups from the `i`-th one on. -/
def groupsText (addr : List UInt8) (words : List ℕ) (run : Run) :
    ℕ → List ℕ → List Char
  | _, [] => if run.len ≠ 0 ∧ run.base + run.len = 8 then [':'] else []
  | i, word :: rest =>
      if run.base ≤ i ∧ i < run.base + run.len then
        (if i = run.base then [':'] else []) ++
          groupsText addr words run (i + 1) rest
      else
        (if i = 0 then [] else [':']) ++
          if i = 6 ∧ embedsIpv4 words run then dottedQuad (addr.drop 12)
          else Nat.toDigits 16 word ++ groupsText addr words run (i + 1) rest

/-- The text of an address of 16 bytes. -/
def text (addr : List UInt8) : List Char :=
  let words := groups addr
  groupsText addr words (omitted words) 0 words

example : text [0x20, 1, 0x0D, 0xB8, 0, 0, 0, 0, 0, 1, 0, 0, 0, 0, 0, 0] =
    "2001:db8:0:0:1::".toList := by decide

example : text [0, 0, 0, 0, 0, 0, 0, 0, 0, 0, 0xFF, 0xFF, 192, 168, 0, 1] =
    "::ffff:192.168.0.1".toList := by decide

end Inet6
