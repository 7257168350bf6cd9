import Mathlib.Data.List.Basic
import Mathlib.Data.Nat.ModEq
import Mathlib.Logic.Function.Iterate

/-!
# Windows that slide over a circular array

An array of `2 ^ e` slots, each of which may hold an entry, and a head.  Slots
are addressed by their offset from the head, which a mask takes around the end
of the array.  When the head moves on, the slot it leaves becomes the last one
of the window.
-/

/-- The slots of the array and the index from which offsets count. -/
structure CircularWindow (α : Type*) (e : ℕ) where
  entries : Vector (Option α) (2 ^ e)
  head : ℕ

namespace CircularWindow

variable {α : Type*} {e : ℕ}

/-- A window without entries. -/
def empty (α : Type*) (e : ℕ) : CircularWindow α e :=
  ⟨Vector.replicate _ none, 0⟩

/-- The index of the slot at an offset from the head. -/
def slot (w : CircularWindow α e) (k : ℕ) : ℕ :=
  (w.head + k) &&& (2 ^ e - 1)

theorem slot_eq_mod (w : CircularWindow α e) (k : ℕ) :
    w.slot k = (w.head + k) % 2 ^ e :=
  Nat.and_two_pow_sub_one_eq_mod _ e

theorem slot_lt (w : CircularWindow α e) (k : ℕ) : w.slot k < 2 ^ e := by
  rw [slot_eq_mod]
  exact Nat.mod_lt _ (Nat.two_pow_pos e)

/-- The entry at an offset. -/
def get (w : CircularWindow α e) (k : ℕ) : Option α :=
  have hslot := w.slot_lt k
  w.entries[w.slot k]

/-- Store an entry at an offset, in the place of what is there. -/
def put (w : CircularWindow α e) (k : ℕ) (a : α) : CircularWindow α e :=
  { w with entries := w.entries.set (w.slot k) (some a) (w.slot_lt k) }

/-- Clear the slot at the head. -/
def clearHead (w : CircularWindow α e) : CircularWindow α e :=
  { w with entries := w.entries.set (w.slot 0) none (w.slot_lt 0) }

/-- Move the head to the next slot. -/
def moveHead (w : CircularWindow α e) : CircularWindow α e :=
  { w with head := (w.head + 1) &&& (2 ^ e - 1) }

/-- Clear the slot at the head and move on. -/
def advance (w : CircularWindow α e) : CircularWindow α e :=
  w.clearHead.moveHead

/-- The entries of the window, from the head on. -/
def contents (w : CircularWindow α e) : List α :=
  (List.range (2 ^ e)).filterMap w.get

/-- The offsets at which there are entries. -/
def offsets (w : CircularWindow α e) : List ℕ :=
  (List.range (2 ^ e)).filter fun k => (w.get k).isSome

/-- The number of entries at offsets below `k`. -/
def countFirst (w : CircularWindow α e) (k : ℕ) : ℕ :=
  (List.range k).countP fun j => (w.get j).isSome

/-- No slot is empty before one that is not. -/
def Gapless (w : CircularWindow α e) : Prop :=
  ∀ k < 2 ^ e, (w.get k).isSome → ∀ j < k, (w.get j).isSome

instance (w : CircularWindow α e) : Decidable w.Gapless :=
  inferInstanceAs (Decidable (∀ k < 2 ^ e, _ → ∀ j < k, _))

/-! ## Slots -/

variable {w : CircularWindow α e}

theorem get_congr {w' : CircularWindow α e} {j k : ℕ}
    (hentries : w'.entries = w.entries) (hslot : w'.slot j = w.slot k) :
    w'.get j = w.get k := by
  simp only [get, hentries, hslot]

theorem slot_inj {j k : ℕ} (hj : j < 2 ^ e) (hk : k < 2 ^ e)
    (h : w.slot j = w.slot k) : j = k := by
  rw [slot_eq_mod, slot_eq_mod] at h
  have hmod : j ≡ k [MOD 2 ^ e] := Nat.ModEq.add_left_cancel' w.head h
  exact hmod.eq_of_lt_of_lt hj hk

theorem slot_mod (k : ℕ) : w.slot (k % 2 ^ e) = w.slot k := by
  rw [slot_eq_mod, slot_eq_mod, Nat.add_mod_mod]

theorem slot_moveHead (k : ℕ) : w.moveHead.slot k = w.slot (k + 1) := by
  have hhead : w.moveHead.head = (w.head + 1) % 2 ^ e :=
    Nat.and_two_pow_sub_one_eq_mod _ e
  rw [slot_eq_mod, slot_eq_mod, hhead, Nat.mod_add_mod, Nat.add_assoc,
    Nat.add_comm 1 k]

theorem get_mod (k : ℕ) : w.get (k % 2 ^ e) = w.get k :=
  get_congr rfl (slot_mod k)

theorem put_mod (k : ℕ) (a : α) : w.put (k % 2 ^ e) a = w.put k a := by
  simp only [put, slot_mod]

@[simp] theorem get_empty (k : ℕ) : (empty α e).get k = none :=
  Vector.getElem_replicate _

@[simp] theorem get_put_self (k : ℕ) (a : α) :
    (w.put k a).get k = some a :=
  Vector.getElem_set_self _

theorem get_put_of_ne {j k : ℕ} (hj : j < 2 ^ e) (hk : k < 2 ^ e)
    (hne : j ≠ k) (a : α) : (w.put k a).get j = w.get j :=
  Vector.getElem_set_ne (w.slot_lt k) (w.slot_lt j) fun h =>
    hne (slot_inj hj hk h.symm)

theorem get_clearHead_zero : w.clearHead.get 0 = none :=
  Vector.getElem_set_self _

theorem get_clearHead_of_ne {k : ℕ} (hk : k < 2 ^ e) (hne : k ≠ 0) :
    w.clearHead.get k = w.get k :=
  Vector.getElem_set_ne (w.slot_lt 0) (w.slot_lt k) fun h =>
    hne (slot_inj hk (Nat.two_pow_pos e) h.symm)

theorem get_moveHead (k : ℕ) : w.moveHead.get k = w.get (k + 1) :=
  get_congr rfl (slot_moveHead k)

/-- Where the head is empty there is nothing to clear. -/
theorem clearHead_of_none (h : w.get 0 = none) : w.clearHead = w := by
  have hentries : w.entries.set (w.slot 0) none (w.slot_lt 0) =
      w.entries := by
    have hslot := w.slot_lt 0
    rw [← show w.entries[w.slot 0] = none from h, Vector.set_getElem_self]
  rw [clearHead, hentries]

theorem moveHead_of_none (h : w.get 0 = none) : w.moveHead = w.advance := by
  rw [advance, clearHead_of_none h]

/-- Entries come one place nearer, and the last slot becomes empty. -/
theorem get_advance {k : ℕ} (hk : k < 2 ^ e) :
    w.advance.get k = if k + 1 < 2 ^ e then w.get (k + 1) else none := by
  rw [advance, get_moveHead]
  split
  · next hlt => exact get_clearHead_of_ne hlt (Nat.succ_ne_zero k)
  · next hge =>
      have hlast : k + 1 = 2 ^ e := by omega
      rw [hlast, ← get_mod, Nat.mod_self]
      exact get_clearHead_zero

/-- Moving on some places brings the entries that many places nearer. -/
theorem get_iterate_advance (a : ℕ) {k : ℕ} (hk : k < 2 ^ e) :
    (advance^[a] w).get k = if a + k < 2 ^ e then w.get (a + k) else none := by
  induction a generalizing k with
  | zero => rw [Function.iterate_zero_apply, Nat.zero_add, if_pos hk]
  | succ a ih =>
      rw [Function.iterate_succ_apply', get_advance hk]
      split
      · next hlt => rw [ih hlt, Nat.add_right_comm, Nat.add_assoc]
      · rw [if_neg (by omega)]

/-! ## Entries in their order -/

theorem two_pow_eq_succ (e : ℕ) : ∃ n, 2 ^ e = n + 1 :=
  Nat.exists_eq_add_one.mpr (Nat.two_pow_pos e)

/-- The entries are the one at the head and those that remain. -/
theorem contents_advance :
    w.contents = (w.get 0).toList ++ w.advance.contents := by
  obtain ⟨n, hn⟩ := two_pow_eq_succ e
  have hrest : w.advance.contents =
      (List.range n).filterMap fun k => w.get (k + 1) := by
    rw [contents, hn, List.range_succ, List.filterMap_append]
    have hlast : w.advance.get n = none := by
      rw [get_advance (by omega), if_neg (by omega)]
    simp only [List.filterMap_cons, hlast, List.filterMap_nil,
      List.append_nil]
    apply List.filterMap_congr
    intro k hk
    rw [List.mem_range] at hk
    rw [get_advance (by omega), if_pos (by omega)]
  rw [contents, hrest, hn, List.range_succ_eq_map, List.filterMap_cons,
    List.filterMap_map]
  cases w.get 0 <;> rfl

theorem offsets_advance : w.offsets =
    (if (w.get 0).isSome then [0] else []) ++
      w.advance.offsets.map (· + 1) := by
  obtain ⟨n, hn⟩ := two_pow_eq_succ e
  have hrest : w.advance.offsets =
      (List.range n).filter fun k => (w.get (k + 1)).isSome := by
    rw [offsets, hn, List.range_succ, List.filter_append]
    have hlast : w.advance.get n = none := by
      rw [get_advance (by omega), if_neg (by omega)]
    simp only [List.filter_cons, hlast, List.filter_nil, Option.isSome_none,
      Bool.false_eq_true, if_false, List.append_nil]
    apply List.filter_congr
    intro k hk
    rw [List.mem_range] at hk
    rw [get_advance (by omega), if_pos (by omega)]
  rw [offsets, hrest, hn, List.range_succ_eq_map, List.filter_cons,
    List.filter_map]
  split <;> rfl

/-- The entries before an offset, the one at it, and those after it. -/
theorem contents_eq_around {k : ℕ} (hk : k < 2 ^ e) :
    w.contents = (List.range k).filterMap w.get ++ ((w.get k).toList ++
      (List.range (2 ^ e - (k + 1))).filterMap
        fun j => w.get (k + (j + 1))) := by
  obtain ⟨c, hc⟩ : ∃ c, 2 ^ e = k + (c + 1) := ⟨2 ^ e - (k + 1), by omega⟩
  have hrest : 2 ^ e - (k + 1) = c := by omega
  rw [contents, hrest, hc, List.range_add, List.filterMap_append,
    List.filterMap_map, List.range_succ_eq_map, List.filterMap_cons,
    List.filterMap_map]
  simp only [Function.comp_apply, Nat.add_zero]
  cases w.get k <;> rfl

/-- Storing an entry puts it in its place among the others. -/
theorem exists_contents_put (w : CircularWindow α e) (k : ℕ) (a : α) :
    ∃ before after, w.contents = before ++ ((w.get k).toList ++ after) ∧
      (w.put k a).contents = before ++ a :: after := by
  have hk : k % 2 ^ e < 2 ^ e := Nat.mod_lt _ (Nat.two_pow_pos e)
  rw [← get_mod k, ← put_mod k, contents_eq_around hk,
    contents_eq_around (w := w.put _ a) hk]
  refine ⟨_, _, rfl, ?_⟩
  congr 1
  · apply List.filterMap_congr
    intro j hj
    rw [List.mem_range] at hj
    exact get_put_of_ne (by omega) hk (by omega) a
  · rw [get_put_self, Option.toList_some, List.singleton_append]
    congr 1
    apply List.filterMap_congr
    intro j hj
    rw [List.mem_range] at hj
    exact get_put_of_ne (by omega) hk (by omega) a

theorem contents_eq_nil_iff :
    w.contents = [] ↔ ∀ k < 2 ^ e, w.get k = none := by
  simp only [contents, List.filterMap_eq_nil_iff, List.mem_range]

theorem mem_offsets {k : ℕ} :
    k ∈ w.offsets ↔ k < 2 ^ e ∧ (w.get k).isSome := by
  simp only [offsets, List.mem_filter, List.mem_range]

theorem mem_offsets_put {j k : ℕ} (hk : k < 2 ^ e) (a : α) :
    j ∈ (w.put k a).offsets ↔ j = k ∨ j ∈ w.offsets := by
  rw [mem_offsets, mem_offsets]
  by_cases hjk : j = k
  · simp [hjk, hk]
  · constructor
    · rintro ⟨hj, hsome⟩
      rw [get_put_of_ne hj hk hjk] at hsome
      exact Or.inr ⟨hj, hsome⟩
    · rintro (heq | ⟨hj, hsome⟩)
      · exact absurd heq hjk
      · rw [get_put_of_ne hj hk hjk]
        exact ⟨hj, hsome⟩

theorem offsets_pairwise (w : CircularWindow α e) :
    w.offsets.Pairwise (· < ·) :=
  List.pairwise_lt_range.filter _

theorem countFirst_succ (w : CircularWindow α e) (k : ℕ) :
    w.countFirst (k + 1) =
      w.countFirst k + if (w.get k).isSome then 1 else 0 := by
  rw [countFirst, List.range_succ, List.countP_append, List.countP_singleton]
  rfl

/-- An entry adds to the counts behind it. -/
theorem countFirst_lt {i j k : ℕ} (hji : j ≤ i) (hik : i < k)
    (hsome : (w.get i).isSome) : w.countFirst j < w.countFirst k := by
  have hmono : Monotone w.countFirst := monotone_nat_of_le_succ fun k => by
    rw [countFirst_succ]
    exact Nat.le_add_right _ _
  calc w.countFirst j ≤ w.countFirst i := hmono hji
    _ < w.countFirst (i + 1) := by
        rw [countFirst_succ, if_pos hsome]
        exact Nat.lt_succ_self _
    _ ≤ w.countFirst k := hmono hik

/-- What an offset says about its entry, the list of offsets says about the
list of entries. -/
theorem map_contents {β : Type*} {f : α → β} {g : ℕ → β}
    (h : ∀ k < 2 ^ e, ∀ a, w.get k = some a → f a = g k) :
    w.contents.map f = w.offsets.map g := by
  have hmap : ∀ l : List ℕ, (∀ k ∈ l, k < 2 ^ e) →
      (l.filterMap w.get).map f =
        (l.filter fun k => (w.get k).isSome).map g := by
    intro l
    induction l with
    | nil => intro _; rfl
    | cons k l ih =>
        intro hl
        have htail := ih fun j hj => hl j (List.mem_cons_of_mem _ hj)
        cases hget : w.get k with
        | none => simpa [hget] using htail
        | some a =>
            have hhead := h k (hl k List.mem_cons_self) a hget
            simpa [hget, hhead] using htail
  exact hmap _ fun k hk => List.mem_range.mp hk

theorem contents_eq_nil_iff_offsets : w.contents = [] ↔ w.offsets = [] := by
  have hlen : w.contents.map (fun _ => ()) = w.offsets.map fun _ => () :=
    map_contents fun _ _ _ _ => rfl
  rw [← List.map_eq_nil_iff (f := fun _ => ()), hlen, List.map_eq_nil_iff]

/-! ## Windows without gaps -/

/-- With an entry at the head, the gaps are those after it. -/
theorem gapless_advance (h : (w.get 0).isSome) :
    w.advance.Gapless ↔ w.Gapless := by
  constructor
  · intro hgapless k hk hsome j hj
    cases j with
    | zero => exact h
    | succ j =>
        obtain ⟨k, rfl⟩ : ∃ i, k = i + 1 := ⟨k - 1, by omega⟩
        have hnext := hgapless k (by omega)
          (by rwa [get_advance (by omega), if_pos hk]) j (by omega)
        rwa [get_advance (by omega), if_pos (by omega)] at hnext
  · intro hgapless k hk hsome j hj
    rw [get_advance hk] at hsome
    split at hsome
    · next hlt =>
        rw [get_advance (by omega), if_pos (by omega)]
        exact hgapless (k + 1) hlt hsome (j + 1) (by omega)
    · simp at hsome

/-- With an empty head, only a window without entries has no gap. -/
theorem gapless_iff_of_none (h : w.get 0 = none) :
    w.Gapless ↔ w.contents = [] := by
  rw [contents_eq_nil_iff]
  constructor
  · intro hgapless k hk
    by_contra hne
    have hsome := Option.isSome_iff_ne_none.mpr hne
    have hpos : 0 < k := by
      rcases Nat.eq_zero_or_pos k with rfl | hpos
      · exact absurd h hne
      · exact hpos
    have hhead := hgapless k hk hsome 0 hpos
    rw [h] at hhead
    simp at hhead
  · intro hnone k hk hsome
    rw [hnone k hk] at hsome
    simp at hsome

end CircularWindow
