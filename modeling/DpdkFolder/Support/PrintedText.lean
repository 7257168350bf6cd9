import Mathlib.Algebra.Group.Nat.Defs
import Mathlib.Data.List.Basic
import Mathlib.Tactic.Common

/-!
# Reading printed text back

Numbers in decimal and in hexadecimal of a fixed width, items between
separators, and lines that end with a newline: what was printed can be told
from the text, because no field contains the character that ends it.
-/

namespace PrintedText

/-! ## Numbers -/

/-- A digit of `%X`. -/
def hexDigit (d : ℕ) : Char := d.digitChar.toUpper

/-- What `%0` with the given width and `X` prints for a number that has no
more digits. -/
def hexUpper : ℕ → ℕ → List Char
  | 0, _ => []
  | width + 1, n => hexUpper width (n / 16) ++ [hexDigit (n % 16)]

example : hexUpper 4 0x86DD = "86DD".toList := by decide

theorem hexDigit_inj {d e : ℕ} (hd : d < 16) (he : e < 16)
    (h : hexDigit d = hexDigit e) : d = e := by
  have hall : ∀ i < 16, ∀ j < 16, hexDigit i = hexDigit j → i = j := by decide
  exact hall d hd e he h

theorem hexDigit_isAlphanum {d : ℕ} (hd : d < 16) :
    (hexDigit d).isAlphanum := by
  have hall : ∀ i < 16, (hexDigit i).isAlphanum := by decide
  exact hall d hd

theorem isAlphanum_of_mem_hexUpper {width n : ℕ} {c : Char}
    (h : c ∈ hexUpper width n) : c.isAlphanum := by
  induction width generalizing n with
  | zero => cases h
  | succ width ih =>
      rw [hexUpper, List.mem_append, List.mem_singleton] at h
      obtain h | rfl := h
      · exact ih h
      · exact hexDigit_isAlphanum (Nat.mod_lt _ (by decide))

/-- Numbers that fit the width can be told from their text. -/
theorem hexUpper_inj {width m n : ℕ} (hm : m < 16 ^ width)
    (hn : n < 16 ^ width) (h : hexUpper width m = hexUpper width n) :
    m = n := by
  induction width generalizing m n with
  | zero =>
      rw [pow_zero] at hm hn
      omega
  | succ width ih =>
      rw [pow_succ] at hm hn
      obtain ⟨hinit, hlast⟩ := List.append_inj' h rfl
      have hdiv := ih (Nat.div_lt_of_lt_mul (by omega))
        (Nat.div_lt_of_lt_mul (by omega)) hinit
      have hmod := hexDigit_inj (Nat.mod_lt _ (by decide))
        (Nat.mod_lt _ (by decide)) (List.singleton_inj.mp hlast)
      omega

theorem toDigits_ten_injective : Function.Injective (Nat.toDigits 10) :=
  Function.LeftInverse.injective fun _ => Nat.ofDigitChars_ten_toDigits

theorem isAlphanum_of_mem_toDigits {n : ℕ} {c : Char}
    (h : c ∈ Nat.toDigits 10 n) : c.isAlphanum := by
  have hdigit := Nat.isDigit_of_mem_toDigits (by decide) (by decide) h
  simp [Char.isAlphanum, hdigit]

/-! ## Items between separators -/

/-- Items that are printed without the separator can be told from the text
of a list of them. -/
theorem intercalate_map_inj {α : Type} {f : α → List Char} {c : Char}
    (hf : Function.Injective f) (hfree : ∀ a, c ∉ f a) {xs ys : List α}
    (hxs : xs ≠ []) (hys : ys ≠ [])
    (h : [c].intercalate (xs.map f) = [c].intercalate (ys.map f)) :
    xs = ys := by
  have hsplit : ∀ zs : List α, zs ≠ [] →
      ([c].intercalate (zs.map f)).splitOn c = zs.map f := by
    intro zs hzs
    apply List.splitOn_intercalate
    · intro item hitem
      obtain ⟨a, -, rfl⟩ := List.mem_map.mp hitem
      exact hfree a
    · simpa using hzs
  have hitems := congrArg (List.splitOn c) h
  rw [hsplit xs hxs, hsplit ys hys] at hitems
  exact List.map_injective_iff.mpr hf hitems

theorem mem_intercalate {c d : Char} {items : List (List Char)}
    (h : d ∈ [c].intercalate items) :
    d = c ∨ ∃ item ∈ items, d ∈ item := by
  induction items with
  | nil => cases h
  | cons item rest ih =>
      cases rest with
      | nil =>
          rw [List.intercalate_singleton] at h
          exact Or.inr ⟨item, List.mem_singleton_self _, h⟩
      | cons next rest =>
          rw [List.intercalate_cons_cons, List.mem_append, List.mem_append,
            List.mem_singleton] at h
          obtain (h | h) | h := h
          · exact Or.inr ⟨item, List.mem_cons_self, h⟩
          · exact Or.inl h
          · exact (ih h).imp_right fun ⟨other, hother, hd⟩ =>
              ⟨other, List.mem_cons_of_mem _ hother, hd⟩

/-! ## Lines -/

/-- Print lines, each with a newline behind it. -/
def unlines (lines : List (List Char)) : List Char :=
  lines.flatMap fun line => line ++ ['\n']

@[simp] theorem unlines_nil : unlines [] = [] := rfl

@[simp] theorem unlines_cons (line : List Char) (rest : List (List Char)) :
    unlines (line :: rest) = line ++ '\n' :: unlines rest := by
  simp [unlines]

/-- A field ends at the first character that is not in it. -/
theorem append_cons_inj {c : Char} {xs ys rest rest' : List Char}
    (hxs : c ∉ xs) (hys : c ∉ ys)
    (h : xs ++ c :: rest = ys ++ c :: rest') : xs = ys ∧ rest = rest' := by
  induction xs generalizing ys with
  | nil =>
      cases ys with
      | nil => exact ⟨rfl, (List.cons.inj h).2⟩
      | cons y ys =>
          have hhead : c = y := (List.cons.inj h).1
          exact absurd (hhead ▸ List.mem_cons_self) hys
  | cons x xs ih =>
      cases ys with
      | nil =>
          have hhead : x = c := (List.cons.inj h).1
          exact absurd (hhead ▸ List.mem_cons_self) hxs
      | cons y ys =>
          obtain ⟨hhead, htail⟩ := List.cons.inj h
          obtain ⟨hinit, hrest⟩ := ih (List.not_mem_of_not_mem_cons hxs)
            (List.not_mem_of_not_mem_cons hys) htail
          exact ⟨by rw [hhead, hinit], hrest⟩

/-- Lines can be told from the text that they are printed as. -/
theorem unlines_inj {lines lines' : List (List Char)}
    (hlines : ∀ line ∈ lines, '\n' ∉ line)
    (hlines' : ∀ line ∈ lines', '\n' ∉ line)
    (h : unlines lines = unlines lines') : lines = lines' := by
  induction lines generalizing lines' with
  | nil =>
      cases lines' with
      | nil => rfl
      | cons line' rest' => simp at h
  | cons line rest ih =>
      cases lines' with
      | nil => simp at h
      | cons line' rest' =>
          rw [List.forall_mem_cons] at hlines hlines'
          rw [unlines_cons, unlines_cons] at h
          obtain ⟨hfirst, htext⟩ := append_cons_inj hlines.1 hlines'.1 h
          rw [hfirst, ih hlines.2 hlines'.2 htext]

end PrintedText
