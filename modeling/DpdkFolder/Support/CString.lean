import Mathlib.Data.Nat.Digits.Defs
import Mathlib.Tactic.Common

/-!
# Texts in C arrays

A text is stored in a `char` array of a fixed size and ends with a NUL
character; what is behind it in the array does not belong to it.
-/

namespace CString

variable {size m : ℕ}

/-- The character that ends a text. -/
def nul : Char := Char.ofNat 0

/-- Store a list of characters from the beginning of an array on, as far as
it fits. -/
def overwrite (a : Vector Char size) (cs : List Char) : Vector Char size :=
  Vector.ofFn fun i => cs[i.val]?.getD a[i]

/-- `snprintf`, with the size of the array for its limit. -/
def snprintf (a : Vector Char size) (text : List Char) : Vector Char size :=
  if size = 0 then a else overwrite a (text.take (size - 1) ++ [nul])

/-- `strlen`, which has no result on an array without a NUL. -/
def strlen (a : Vector Char size) : Option ℕ :=
  a.toList.findIdx? fun c => c = nul

/-- What `%s` prints for an array. -/
def text (a : Vector Char size) : List Char :=
  a.toList.takeWhile fun c => c ≠ nul

/-- `memcpy`, which must stay within both arrays. -/
def memcpy (dst : Vector Char size) (src : Vector Char m) (len : ℕ) :
    Option (Vector Char size) :=
  if len ≤ size ∧ len ≤ m then some (overwrite dst (src.toList.take len))
  else none

/-- What `%d` prints for a number. -/
def decimal (x : ℤ) : List Char :=
  if x < 0 then '-' :: Nat.toDigits 10 x.natAbs
  else Nat.toDigits 10 x.natAbs

/-- The array holds a text with a NUL behind it. -/
def Holds (a : Vector Char size) (cs : List Char) : Prop :=
  nul ∉ cs ∧ ∃ rest, a.toList = cs ++ nul :: rest

/-! ## Storing and reading a text -/

theorem toList_overwrite {a : Vector Char size} {cs : List Char}
    (h : cs.length ≤ size) :
    (overwrite a cs).toList = cs ++ a.toList.drop cs.length := by
  apply List.ext_getElem
  · simp
    omega
  · intro i hi _
    simp only [Vector.length_toList] at hi
    by_cases hlt : i < cs.length
    · simp [overwrite, hlt]
    · have hge : cs.length ≤ i := Nat.le_of_not_lt hlt
      simp [overwrite, List.getElem_append_right hge, hge]

variable {a : Vector Char size} {cs : List Char}

/-- A text that is short enough is stored. -/
theorem holds_snprintf (hnul : nul ∉ cs) (hlength : cs.length < size) :
    Holds (snprintf a cs) cs := by
  have hsize : size ≠ 0 := Nat.ne_zero_of_lt hlength
  have hfits : cs.take (size - 1) = cs :=
    List.take_of_length_le (Nat.le_sub_one_of_lt hlength)
  refine ⟨hnul, a.toList.drop (cs ++ [nul]).length, ?_⟩
  have hroom : (cs ++ [nul]).length ≤ size := by
    rw [List.length_append]
    exact hlength
  rw [snprintf, if_neg hsize, hfits, toList_overwrite hroom]
  simp

theorem Holds.length_lt (h : Holds a cs) : cs.length < size := by
  obtain ⟨-, rest, hrest⟩ := h
  have hlength := congrArg List.length hrest
  simp only [Vector.length_toList, List.length_append,
    List.length_cons] at hlength
  omega

theorem Holds.strlen_eq (h : Holds a cs) : strlen a = some cs.length := by
  obtain ⟨hnul, rest, hrest⟩ := h
  have hnone : cs.findIdx? (fun c => c = nul) = none := by
    rw [List.findIdx?_eq_none_iff]
    intro c hc
    exact decide_eq_false fun hc' => hnul (hc' ▸ hc)
  rw [strlen, hrest, List.findIdx?_append, hnone]
  simp [List.findIdx?_cons]

/-- A text is copied together with its NUL. -/
theorem Holds.memcpy (h : Holds a cs) (dst : Vector Char m)
    (hsize : cs.length < m) :
    ∃ b, CString.memcpy dst a (cs.length + 1) = some b ∧ Holds b cs := by
  have hlength := h.length_lt
  obtain ⟨hnul, rest, hrest⟩ := h
  refine ⟨_, if_pos ⟨hsize, hlength⟩, hnul,
    dst.toList.drop (cs.length + 1), ?_⟩
  have hcopied : a.toList.take (cs.length + 1) = cs ++ [nul] := by
    rw [hrest, List.take_length_add_append]
    rfl
  have hroom : (cs ++ [nul]).length ≤ m := by
    rw [List.length_append]
    exact hsize
  rw [hcopied, toList_overwrite hroom]
  simp

/-! ## Decimal numbers -/

theorem decimal_natCast (n : ℕ) : decimal n = Nat.toDigits 10 n := by
  rw [decimal, if_neg (Int.natCast_nonneg n).not_gt, Int.natAbs_natCast]

theorem nul_notMem_toDigits (n : ℕ) : nul ∉ Nat.toDigits 10 n := by
  intro h
  have hdigit := Nat.isDigit_of_mem_toDigits (by decide) (by decide) h
  exact absurd hdigit (by decide)

theorem length_decimal_le {n k : ℕ} (hk : 0 < k) (h : n < 10 ^ k) :
    (decimal n).length ≤ k := by
  rw [decimal_natCast]
  exact (Nat.length_toDigits_le_iff (by decide) hk).mpr h

end CString
