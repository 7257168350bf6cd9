import Mathlib.Data.List.Chain
import Mathlib.Data.List.Sort

/-!
# Sets of numbers that ascend in small steps

Every number but the least has another one less than `g` below it.  In a
sorted list of such numbers each is then less than `g` above the one before
it, and nothing needs to be known about neighbours to add a number.
-/

/-- Every member is the least or has a member less than `g` below it. -/
def SmallSteps (g : ℕ) (xs : List ℕ) : Prop :=
  ∀ q ∈ xs, (∀ x ∈ xs, q ≤ x) ∨ ∃ p ∈ xs, p < q ∧ q < p + g

namespace SmallSteps

variable {g : ℕ} {xs ys : List ℕ}

theorem nil : SmallSteps g [] := fun _ h => absurd h List.not_mem_nil

/-- Only the members count, not their order or how often they occur. -/
theorem congr (h : SmallSteps g xs) (hmem : ∀ x, x ∈ ys ↔ x ∈ xs) :
    SmallSteps g ys := by
  intro q hq
  rcases h q ((hmem q).mp hq) with hleast | ⟨p, hp, hlt, hgap⟩
  · exact Or.inl fun x hx => hleast x ((hmem x).mp hx)
  · exact Or.inr ⟨p, (hmem p).mpr hp, hlt, hgap⟩

/-- Down from a member near `x` there is one near `x` and below it. -/
theorem exists_below {x y near : ℕ} (h : SmallSteps g xs) (hy : y ∈ xs)
    (hyx : y < x) (hnear : near ∈ xs) (habove : x < near + g) :
    ∃ p ∈ xs, p < x ∧ x < p + g := by
  induction near using Nat.strong_induction_on with
  | h near ih =>
      by_cases hlt : near < x
      · exact ⟨near, hnear, hlt, habove⟩
      · rcases h near hnear with hleast | ⟨p, hp, hpnear, hgap⟩
        · have hle := hleast y hy
          omega
        · exact ih p hpnear hp (by omega)

/-- A number less than `g` away from a member may be added, and any number
if there is no member. -/
theorem insert {x : ℕ} (h : SmallSteps g xs)
    (hnear : xs = [] ∨ ∃ near ∈ xs, x < near + g ∧ near < x + g) :
    SmallSteps g (x :: xs) := by
  intro q hq
  rcases hnear with rfl | ⟨near, hnear, habove, hbelow⟩
  · obtain rfl := List.mem_singleton.mp hq
    exact Or.inl fun y hy => (List.mem_singleton.mp hy).ge
  rcases List.mem_cons.mp hq with rfl | hq
  · by_cases hfirst : ∀ y ∈ xs, q ≤ y
    · left
      intro y hy
      rcases List.mem_cons.mp hy with rfl | hy
      · exact le_rfl
      · exact hfirst y hy
    · push Not at hfirst
      obtain ⟨y, hy, hyq⟩ := hfirst
      obtain ⟨p, hp, hlt, hgap⟩ := h.exists_below hy hyq hnear habove
      exact Or.inr ⟨p, List.mem_cons_of_mem q hp, hlt, hgap⟩
  · rcases h q hq with hfirst | ⟨p, hp, hlt, hgap⟩
    · by_cases hxq : x < q
      · have hle := hfirst near hnear
        exact Or.inr ⟨x, List.mem_cons_self, hxq, by omega⟩
      · left
        intro y hy
        rcases List.mem_cons.mp hy with rfl | hy
        · omega
        · exact hfirst y hy
    · exact Or.inr ⟨p, List.mem_cons_of_mem x hp, hlt, hgap⟩

/-- A number may be taken out if a member below it is near to all members
above it. -/
theorem erase {x p : ℕ} (h : SmallSteps g (x :: xs)) (hp : p ∈ xs)
    (hpx : p < x) (habove : ∀ q ∈ xs, x < q → q < p + g) :
    SmallSteps g xs := by
  intro q hq
  rcases h q (List.mem_cons_of_mem x hq) with hleast | ⟨r, hr, hrq, hgap⟩
  · exact Or.inl fun y hy => hleast y (List.mem_cons_of_mem x hy)
  · rcases List.mem_cons.mp hr with rfl | hr
    · exact Or.inr ⟨p, hp, hpx.trans hrq, habove q hq hrq⟩
    · exact Or.inr ⟨r, hr, hrq, hgap⟩

/-- In a sorted list the steps are those between neighbours. -/
theorem isChain (h : SmallSteps g xs) (hsorted : xs.SortedLT) :
    xs.IsChain fun p q => p < q ∧ q < p + g := by
  rw [List.isChain_iff_getElem]
  intro i hi
  have hlt : xs[i] < xs[i + 1] :=
    hsorted.getElem_lt_getElem_iff.mpr (Nat.lt_succ_self i)
  refine ⟨hlt, ?_⟩
  rcases h _ (List.getElem_mem hi) with hleast | ⟨p, hp, hpq, hgap⟩
  · have hle := hleast _ (List.getElem_mem (by omega : i < xs.length))
    omega
  · -- the member below stands at `i` or before it
    obtain ⟨j, hj, rfl⟩ := List.getElem_of_mem hp
    have hji : j ≤ i :=
      Nat.lt_succ_iff.mp (hsorted.getElem_lt_getElem_iff.mp hpq)
    have hle : xs[j] ≤ xs[i] := hsorted.getElem_le_getElem_iff.mpr hji
    omega

end SmallSteps
