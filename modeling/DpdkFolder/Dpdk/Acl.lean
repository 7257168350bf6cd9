import Mathlib.Data.Fintype.Basic
import DpdkFolder.Support.BigEndian

/-!
# Classification by rte_acl

A context is a list of rules over the fields `ι`.  A field is read in network
byte order at its offset from the data pointer and compared in one of three
ways; a rule matches when all its fields do.  The result of a category is the
userdata of the matching rule of highest priority, or 0 when none matches.
-/

namespace DpdkFolder

/-- `RTE_ACL_FIELD_TYPE_*`. -/
inductive AclFieldType
  | mask
  | range
  | bitmask
deriving DecidableEq, Repr

/-- `struct rte_acl_field_def`; the field index is the argument under which
a definition is filed. -/
structure AclFieldDef where
  type : AclFieldType
  size : ℕ
  inputIndex : ℕ
  offset : ℕ

/-- `struct rte_acl_field`. -/
structure AclField where
  value : ℕ
  maskRange : ℕ

/-- A rule with its `struct rte_acl_rule_data`. -/
structure AclRule (ι : Type*) where
  categoryMask : ℕ
  priority : ℤ
  userdata : ℕ
  field : ι → AclField

/-- How a field of each type compares its `input` of `size` bytes. -/
def AclField.Satisfies (f : AclField) (size input : ℕ) :
    AclFieldType → Prop
  | .mask =>
      input / 2 ^ (8 * size - f.maskRange) =
        f.value / 2 ^ (8 * size - f.maskRange)
  | .range => f.value ≤ input ∧ input ≤ f.maskRange
  | .bitmask => input &&& f.maskRange = f.value &&& f.maskRange

instance (f : AclField) (size input : ℕ) :
    (t : AclFieldType) → Decidable (f.Satisfies size input t)
  | .mask => inferInstanceAs (Decidable (_ = _))
  | .range => inferInstanceAs (Decidable (_ ∧ _))
  | .bitmask => inferInstanceAs (Decidable (_ = _))

variable {ι : Type*}

/-- The rule matches the bytes from the data pointer on. -/
def AclRule.Matches (r : AclRule ι) (defs : ι → AclFieldDef)
    (data : ℕ → UInt8) : Prop :=
  ∀ i, (r.field i).Satisfies (defs i).size
    (bigEndian data (defs i).offset (defs i).size) (defs i).type

/-- The highest-priority rule is one of the matching ones, and no matching
rule has a higher priority. -/
theorem maxOn?_spec {rs : List (AclRule ι)} {r : AclRule ι}
    (h : rs.maxOn? AclRule.priority = some r) :
    r ∈ rs ∧ ∀ q ∈ rs, q.priority ≤ r.priority := by
  refine ⟨List.maxOn?_mem h, ?_⟩
  intro q hq
  have hle := List.le_apply_get_maxOn?_of_mem (f := AclRule.priority) hq
  simpa only [h, Option.get_some] using hle

/-- The result, read off the best rule of the list, does not change with a
rule of the default result that is below all others. -/
theorem maxOn?_lowest {before after : List (AclRule ι)} {r : AclRule ι}
    (hdefault : r.userdata = 0)
    (hlow : ∀ q ∈ before ++ after, r.priority < q.priority) :
    ((before ++ r :: after).maxOn? AclRule.priority).elim 0 AclRule.userdata =
      ((before ++ after).maxOn? AclRule.priority).elim 0
        AclRule.userdata := by
  have hbelow : ∀ {rs : List (AclRule ι)} {q : AclRule ι},
      rs.maxOn? AclRule.priority = some q → (∀ p ∈ rs, p ∈ before ++ after) →
        r.priority < q.priority :=
    fun hmax hsub => hlow _ (hsub _ (maxOn?_spec hmax).1)
  rw [List.maxOn?_append, List.maxOn?_append, List.maxOn?_cons]
  cases hafter : after.maxOn? AclRule.priority with
  | some q =>
      -- the rule already loses against the best one that follows it
      have hlt := hbelow hafter fun p hp => List.mem_append_right _ hp
      rw [Option.elim_some, maxOn_eq_right_of_lt hlt]
  | none =>
      cases hbefore : before.maxOn? AclRule.priority with
      | some q =>
          have hlt := hbelow hbefore fun p hp => List.mem_append_left _ hp
          rw [Option.elim_none, Option.merge_some_some,
            maxOn_eq_left hlt.le, Option.merge_none_right]
      | none => exact hdefault

variable [Fintype ι]

instance (r : AclRule ι) (defs : ι → AclFieldDef) (data : ℕ → UInt8) :
    Decidable (r.Matches defs data) :=
  inferInstanceAs (Decidable (∀ _, _))

/-- The rules of a category that match. -/
def matchingRules (rules : List (AclRule ι)) (defs : ι → AclFieldDef)
    (category : ℕ) (data : ℕ → UInt8) : List (AclRule ι) :=
  rules.filter fun r =>
    r.categoryMask.testBit category && decide (r.Matches defs data)

/-- The result of `rte_acl_classify` for one category and one input. -/
def rteAclClassify (rules : List (AclRule ι)) (defs : ι → AclFieldDef)
    (category : ℕ) (data : ℕ → UInt8) : ℕ :=
  ((matchingRules rules defs category data).maxOn? AclRule.priority).elim 0
    AclRule.userdata

variable {rules : List (AclRule ι)} {defs : ι → AclFieldDef}
  {category : ℕ} {data : ℕ → UInt8}

theorem mem_matchingRules {r : AclRule ι} :
    r ∈ matchingRules rules defs category data ↔
      r ∈ rules ∧ r.categoryMask.testBit category = true ∧
        r.Matches defs data := by
  simp [matchingRules]

/-- A result other than the default is the userdata of a matching rule of
highest priority. -/
theorem exists_rule_of_rteAclClassify_ne
    (h : rteAclClassify rules defs category data ≠ 0) :
    ∃ r ∈ rules, r.Matches defs data ∧
      rteAclClassify rules defs category data = r.userdata ∧
      ∀ q ∈ rules, q.categoryMask.testBit category = true →
        q.Matches defs data → q.priority ≤ r.priority := by
  cases hbest : (matchingRules rules defs category data).maxOn?
      AclRule.priority with
  | none => simp [rteAclClassify, hbest] at h
  | some r =>
      obtain ⟨hr, hmax⟩ := maxOn?_spec hbest
      obtain ⟨hmem, -, hmatch⟩ := mem_matchingRules.mp hr
      refine ⟨r, hmem, hmatch, by simp [rteAclClassify, hbest], ?_⟩
      intro q hq hcategory hqmatch
      exact hmax q (mem_matchingRules.mpr ⟨hq, hcategory, hqmatch⟩)

/-- A matching rule whose priority exceeds that of every other matching one
decides the result. -/
theorem rteAclClassify_of_best {r : AclRule ι} (hr : r ∈ rules)
    (hcategory : r.categoryMask.testBit category = true)
    (hmatch : r.Matches defs data)
    (hbest : ∀ q ∈ rules, q.Matches defs data → r.priority ≤ q.priority →
      q.userdata = r.userdata) :
    rteAclClassify rules defs category data = r.userdata := by
  have hmem := mem_matchingRules.mpr ⟨hr, hcategory, hmatch⟩
  have hsome := List.isSome_maxOn?_of_mem (f := AclRule.priority) hmem
  obtain ⟨q, hmax⟩ := Option.isSome_iff_exists.mp hsome
  obtain ⟨hq, hle⟩ := maxOn?_spec hmax
  obtain ⟨hq, -, hqmatch⟩ := mem_matchingRules.mp hq
  rw [rteAclClassify, hmax, Option.elim_some]
  exact hbest q hq hqmatch (hle r hmem)

/-- A rule of the default result whose priority is below that of every other
rule changes no result, wherever it stands in the context. -/
theorem rteAclClassify_of_lowest {before after : List (AclRule ι)}
    {r : AclRule ι} (hdefault : r.userdata = 0)
    (hlow : ∀ q ∈ before ++ after, r.priority < q.priority) :
    rteAclClassify (before ++ r :: after) defs category data =
      rteAclClassify (before ++ after) defs category data := by
  rw [rteAclClassify, rteAclClassify, matchingRules, matchingRules,
    List.filter_append, List.filter_append, List.filter_cons]
  split
  · apply maxOn?_lowest hdefault
    intro q hq
    rw [← List.filter_append] at hq
    exact hlow q (List.mem_of_mem_filter hq)
  · rfl

/-- A context of one rule gives the userdata on a match and the default
otherwise. -/
theorem rteAclClassify_singleton (r : AclRule ι) :
    rteAclClassify [r] defs category data =
      if r.categoryMask.testBit category = true ∧ r.Matches defs data then
        r.userdata
      else 0 := by
  rw [rteAclClassify, matchingRules, List.filter_singleton]
  by_cases h : r.categoryMask.testBit category = true ∧ r.Matches defs data
  · rw [if_pos h, h.1, decide_eq_true h.2]
    rfl
  · have hno : (r.categoryMask.testBit category &&
        decide (r.Matches defs data)) = false := by
      rw [← Bool.not_eq_true, Bool.and_eq_true, decide_eq_true_iff]
      exact h
    rw [if_neg h, hno]
    rfl

end DpdkFolder
