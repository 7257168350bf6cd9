import Mathlib.Logic.Function.Basic
import DpdkFolder.AclDpdk2.Policy

/-!
# What the verdict depends on

`MIN_PKT_LEN` is defined but never compared with anything, so the classifier
also tests the bytes behind a short frame.  The verdict on it is its own only
if one of the tested bytes that it does contain rules out the allow rule.
-/

namespace DpdkFolder
namespace AclDpdk2

variable {μ : Type*}

/-- The burst is judged the same whatever its buffers hold behind the
frames. -/
def Noninterference (mem : μ → Mbuf) (rxBufs : List μ) : Prop :=
  ∀ mem' : μ → Mbuf, (∀ p ∈ rxBufs, SameFrame (mem p) (mem' p)) →
    firewallBurst (fun p => classify (mem' p)) rxBufs =
      firewallBurst (fun p => classify (mem p)) rxBufs

/-- The bytes on which the allow rule depends, and what it needs them to
be. -/
def testedBytes : List (ℕ × UInt8) :=
  [(9, 6), (12, 192), (13, 168), (14, 1), (22, 0), (23, 80)]

/-- The frame contains all tested bytes, or one that differs from what the
allow rule needs. -/
def Determined (m : Mbuf) : Prop :=
  24 ≤ m.dataLen ∨ ∃ t ∈ testedBytes, t.1 < m.dataLen ∧ m.data t.1 ≠ t.2

/-! ## The tested bytes -/

theorem looksPermitted_iff (m : Mbuf) :
    LooksPermitted m ↔ ∀ t ∈ testedBytes, m.data t.1 = t.2 := by
  have hbyte : ∀ (k : ℕ) (b : UInt8), m.data k = b ↔
      (m.data k).toNat = b.toNat := fun k b => UInt8.toNat_inj.symm
  have h12 := (m.data 12).toNat_lt
  have h13 := (m.data 13).toNat_lt
  have h14 := (m.data 14).toNat_lt
  have h22 := (m.data 22).toNat_lt
  have h23 := (m.data 23).toNat_lt
  simp only [LooksPermitted, testedBytes, bigEndian, ipprotoTcp,
    List.forall_mem_cons, List.not_mem_nil, IsEmpty.forall_iff, implies_true,
    and_true, hbyte, Nat.reduceAdd, Nat.add_zero, UInt8.reduceToNat]
  omega

theorem lt_of_mem_testedBytes {t : ℕ × UInt8} (ht : t ∈ testedBytes) :
    t.1 < 24 := by
  revert t
  decide

/-- The verdict on a determined frame does not depend on the rest of its
buffer. -/
theorem Determined.looksPermitted_iff {m m' : Mbuf} (h : Determined m)
    (hsame : SameFrame m m') : LooksPermitted m' ↔ LooksPermitted m := by
  rw [AclDpdk2.looksPermitted_iff, AclDpdk2.looksPermitted_iff]
  obtain hlength | ⟨t, ht, hlt, hne⟩ := h
  · have hbytes : ∀ t ∈ testedBytes, m'.data t.1 = m.data t.1 :=
      fun t ht => hsame.2 t.1
        (Nat.lt_of_lt_of_le (lt_of_mem_testedBytes ht) hlength)
    constructor
    · intro h t ht
      rw [← hbytes t ht, h t ht]
    · intro h t ht
      rw [hbytes t ht, h t ht]
  · apply iff_of_false
    · intro h
      exact hne ((hsame.2 t.1 hlt).symm.trans (h t ht))
    · intro h
      exact hne (h t ht)

/-! ## Buffers behind a frame -/

/-- What the allow rule needs a byte to be, and 0 where it needs nothing. -/
def wanted (k : ℕ) : UInt8 :=
  ((testedBytes.find? fun t => t.1 = k).map Prod.snd).getD 0

theorem wanted_of_mem {t : ℕ × UInt8} (ht : t ∈ testedBytes) :
    wanted t.1 = t.2 := by
  revert t
  decide

/-- A frame that is not determined is allowed or dropped as the bytes behind
it are. -/
theorem exists_tails_of_not_determined {m : Mbuf} (h : ¬Determined m) :
    LooksPermitted (m.withTail wanted) ∧
      ¬LooksPermitted (m.withTail fun _ => 0) := by
  obtain ⟨hlength, hbytes⟩ := not_or.mp h
  rw [looksPermitted_iff, looksPermitted_iff]
  constructor
  · intro t ht
    by_cases hlt : t.1 < m.dataLen
    · by_contra hne
      rw [m.withTail_of_lt wanted hlt] at hne
      exact hbytes ⟨t, ht, hlt, hne⟩
    · rw [m.withTail_of_not_lt wanted hlt]
      exact wanted_of_mem ht
  · intro hall
    have hlast : ¬23 < m.dataLen := hlength
    have hport := hall (23, 80) (by decide)
    rw [m.withTail_of_not_lt _ hlast] at hport
    exact absurd hport (by decide)

/-! ## When the verdicts are noninterfering -/

theorem noninterference_of_determined {mem : μ → Mbuf} {rxBufs : List μ}
    (h : ∀ p ∈ rxBufs, Determined (mem p)) : Noninterference mem rxBufs := by
  intro mem' hsame
  have hverdict : ∀ p ∈ rxBufs, classify (mem' p) = actionAllow ↔
      classify (mem p) = actionAllow := by
    intro p hp
    rw [classify_eq_allow_iff, classify_eq_allow_iff]
    exact (h p hp).looksPermitted_iff (hsame p hp)
  rw [firewallBurst_eq_of_iff hverdict, firewallBurst_eq]

theorem Noninterference.determined {mem : μ → Mbuf} {rxBufs : List μ}
    (h : Noninterference mem rxBufs) {p : μ} (hp : p ∈ rxBufs) :
    Determined (mem p) := by
  classical
  by_contra hnot
  obtain ⟨hallowed, hdropped⟩ := exists_tails_of_not_determined hnot
  -- The buffer of `p` alone is changed.
  have hverdict : ∀ tail, LooksPermitted ((mem p).withTail tail) ↔
      LooksPermitted (mem p) := by
    intro tail
    have hsame : ∀ q ∈ rxBufs, SameFrame (mem q)
        (Function.update mem p ((mem p).withTail tail) q) := by
      intro q _
      by_cases hq : q = p
      · rw [hq, Function.update_self]
        exact (mem p).sameFrame_withTail tail
      · rw [Function.update_of_ne hq]
        exact ⟨rfl, fun _ _ => rfl⟩
    have hburst := h _ hsame
    rw [firewallBurst_eq, firewallBurst_eq, Verdicts.mk.injEq] at hburst
    have hmem := congrArg (p ∈ ·) hburst.1
    simpa [hp, classify_eq_allow_iff] using hmem
  exact hdropped ((hverdict _).mpr ((hverdict _).mp hallowed))

/-- For every burst and all contents of its buffers: the verdicts do not
depend on what is behind the frames if and only if each frame contains all
tested bytes or one that rules out the allow rule. -/
theorem noninterference_iff (mem : μ → Mbuf) (rxBufs : List μ) :
    Noninterference mem rxBufs ↔ ∀ p ∈ rxBufs, Determined (mem p) :=
  ⟨fun h _ hp => h.determined hp, noninterference_of_determined⟩

/-- A frame that ends before the bytes taken for the destination port. -/
def shortFrame : List UInt8 :=
  List.replicate 9 0 ++ [6, 0, 0, 192, 168, 1] ++ List.replicate 5 0

/-- That frame is dropped in a cleared buffer, and allowed behind a packet
that left 80 where its port would be. -/
theorem shortFrame_interferes :
    ¬∀ (mem : Unit → Mbuf) (rxBufs : List Unit),
      Noninterference mem rxBufs := by
  intro hall
  have hsame : SameFrame (.ofFrame shortFrame)
      ((Mbuf.ofFrame shortFrame).withTail wanted) :=
    Mbuf.sameFrame_withTail _ _
  have hdropped : (firewallBurst (fun _ : Unit =>
      classify (.ofFrame shortFrame)) [()]).txBufs = [] := by decide
  have hallowed : (firewallBurst (fun _ : Unit =>
      classify ((Mbuf.ofFrame shortFrame).withTail wanted))
        [()]).txBufs = [()] := by decide
  have hburst := hall (fun _ => .ofFrame shortFrame) [()]
    (fun _ => (Mbuf.ofFrame shortFrame).withTail wanted) fun _ _ => hsame
  rw [hburst, hdropped] at hallowed
  exact List.cons_ne_nil _ _ hallowed.symm

end AclDpdk2
end DpdkFolder
