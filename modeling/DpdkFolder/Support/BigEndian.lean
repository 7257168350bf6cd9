import Mathlib.Algebra.Group.Nat.Defs
import Mathlib.Tactic.Common

/-!
# Numbers in network byte order

Reading a number of a given size out of a byte sequence, most significant
byte first, and what a little-endian host makes of the same bytes.
-/

/-- The number held by the `size` bytes of `data` from `offset` on. -/
def bigEndian (data : ℕ → UInt8) (offset : ℕ) : ℕ → ℕ
  | 0 => 0
  | size + 1 =>
      256 * bigEndian data offset size + (data (offset + size)).toNat

variable (data : ℕ → UInt8) (offset size : ℕ)

theorem bigEndian_succ : bigEndian data offset (size + 1) =
    256 * bigEndian data offset size + (data (offset + size)).toNat := rfl

theorem bigEndian_lt : bigEndian data offset size < 256 ^ size := by
  induction size with
  | zero => exact Nat.one_pos
  | succ size ih =>
      have hbyte := (data (offset + size)).toNat_lt
      rw [bigEndian_succ, pow_succ]
      omega

/-- The leading bytes of a number are its quotient. -/
theorem bigEndian_succ_div :
    bigEndian data offset (size + 1) / 256 = bigEndian data offset size := by
  have hbyte := (data (offset + size)).toNat_lt
  rw [bigEndian_succ]
  omega

/-! ## Little-endian hosts -/

/-- The number a little-endian host loads from the `size` bytes of `data` from
`offset` on. -/
def littleEndian (data : ℕ → UInt8) : ℕ → ℕ → ℕ
  | _, 0 => 0
  | offset, size + 1 =>
      (data offset).toNat + 256 * littleEndian data (offset + 1) size

/-- Reverse the order of the `size` bytes of a number. -/
def swapBytes : ℕ → ℕ → ℕ
  | 0, _ => 0
  | size + 1, x => 256 ^ size * (x % 256) + swapBytes size (x / 256)

/-- The first byte is the leading one. -/
theorem bigEndian_succ_left : bigEndian data offset (size + 1) =
    256 ^ size * (data offset).toNat + bigEndian data (offset + 1) size := by
  induction size with
  | zero => simp [bigEndian]
  | succ size ih =>
      have hoffset : offset + 1 + size = offset + (size + 1) := by omega
      rw [bigEndian_succ, ih, bigEndian_succ _ (offset + 1), hoffset, pow_succ,
        Nat.mul_add, Nat.mul_comm (256 ^ size) 256, Nat.mul_assoc,
        Nat.add_assoc]

theorem littleEndian_mod (size : ℕ) :
    littleEndian data offset (size + 1) % 256 = (data offset).toNat := by
  have hbyte := (data offset).toNat_lt
  rw [littleEndian]
  omega

theorem littleEndian_div (size : ℕ) :
    littleEndian data offset (size + 1) / 256 =
      littleEndian data (offset + 1) size := by
  have hbyte := (data offset).toNat_lt
  rw [littleEndian]
  omega

/-- What was loaded from network byte order is the number meant, once its
bytes are swapped. -/
theorem swapBytes_littleEndian :
    swapBytes size (littleEndian data offset size) =
      bigEndian data offset size := by
  induction size generalizing offset with
  | zero => rfl
  | succ size ih =>
      rw [swapBytes, littleEndian_mod, littleEndian_div, ih,
        bigEndian_succ_left]

/-- The bytes of a loaded number, from the least significant one on, are the
bytes of the memory in their order. -/
theorem littleEndian_shiftRight {k : ℕ} (hk : k < size) :
    littleEndian data offset size >>> (8 * k) &&& 0xff =
      (data (offset + k)).toNat := by
  have hmask : ∀ x, x &&& 0xff = x % 256 :=
    fun x => Nat.and_two_pow_sub_one_eq_mod x 8
  rw [hmask]
  induction k generalizing offset size with
  | zero =>
      obtain ⟨size, rfl⟩ := Nat.exists_eq_succ_of_ne_zero
        (Nat.ne_of_gt hk)
      exact littleEndian_mod data offset size
  | succ k ih =>
      obtain ⟨size, rfl⟩ := Nat.exists_eq_succ_of_ne_zero
        (Nat.ne_zero_of_lt hk)
      have hshift : 8 * (k + 1) = 8 + 8 * k := by omega
      have hoffset : offset + (k + 1) = offset + 1 + k := by omega
      rw [hshift, Nat.shiftRight_add, Nat.shiftRight_eq_div_pow _ 8,
        littleEndian_div, hoffset]
      exact ih (offset + 1) size (Nat.lt_of_succ_lt_succ hk)

theorem littleEndian_succ_right : littleEndian data offset (size + 1) =
    littleEndian data offset size +
      256 ^ size * (data (offset + size)).toNat := by
  induction size generalizing offset with
  | zero => simp [littleEndian]
  | succ size ih =>
      have hoffset : offset + 1 + size = offset + (size + 1) := by omega
      rw [littleEndian, ih, hoffset, littleEndian, pow_succ, Nat.mul_add,
        Nat.mul_comm (256 ^ size) 256, Nat.mul_assoc, Nat.add_assoc]

/-- Swapping the bytes of the number meant gives what is loaded. -/
theorem swapBytes_bigEndian :
    swapBytes size (bigEndian data offset size) =
      littleEndian data offset size := by
  induction size with
  | zero => rfl
  | succ size ih =>
      have hbyte := (data (offset + size)).toNat_lt
      have hlast : bigEndian data offset (size + 1) % 256 =
          (data (offset + size)).toNat := by
        rw [bigEndian_succ]
        omega
      rw [swapBytes, hlast, bigEndian_succ_div, ih, littleEndian_succ_right,
        Nat.add_comm]

/-- What is loaded compares to a swapped number as the number meant does to
the number itself. -/
theorem littleEndian_eq_swapBytes_iff {x : ℕ}
    (hx : swapBytes size (swapBytes size x) = x) :
    littleEndian data offset size = swapBytes size x ↔
      bigEndian data offset size = x := by
  constructor
  · intro h
    rw [← swapBytes_littleEndian, h, hx]
  · intro h
    rw [← swapBytes_bigEndian, h]

/-! ## The bytes of a number -/

/-- Shifting takes out the bytes of a number, from the last one on. -/
theorem bigEndian_shiftRight (k : ℕ) :
    bigEndian data offset (size + k + 1) >>> (8 * k) &&& 0xff =
      (data (offset + size)).toNat := by
  have hmask : ∀ x, x &&& 0xff = x % 256 :=
    fun x => Nat.and_two_pow_sub_one_eq_mod x 8
  rw [hmask]
  induction k with
  | zero =>
      have hbyte := (data (offset + size)).toNat_lt
      rw [Nat.mul_zero, Nat.shiftRight_zero, Nat.add_zero, bigEndian_succ]
      omega
  | succ k ih =>
      have hshift : 8 * (k + 1) = 8 + 8 * k := by omega
      rw [hshift, Nat.shiftRight_add, Nat.shiftRight_eq_div_pow _ 8,
        bigEndian_succ_div]
      exact ih

/-- Numbers of one size are equal when all their bytes are. -/
theorem bigEndian_eq_iff (offset' : ℕ) :
    bigEndian data offset size = bigEndian data offset' size ↔
      ∀ k < size, data (offset + k) = data (offset' + k) := by
  induction size with
  | zero => simp [bigEndian]
  | succ size ih =>
      have hbyte := (data (offset + size)).toNat_lt
      have hbyte' := (data (offset' + size)).toNat_lt
      rw [bigEndian_succ, bigEndian_succ]
      constructor
      · intro h k hk
        have hlast : data (offset + size) = data (offset' + size) := by
          apply UInt8.toNat.inj
          omega
        obtain hk | rfl := Nat.lt_succ_iff_lt_or_eq.mp hk
        · apply ih.mp _ k hk
          rw [hlast] at h
          omega
        · exact hlast
      · intro h
        rw [ih.mpr fun k hk => h k (Nat.lt_succ_of_lt hk),
          h size (Nat.lt_succ_self size)]

/-- A number depends on its bytes only. -/
theorem bigEndian_congr {data' : ℕ → UInt8}
    (h : ∀ k < size, data' (offset + k) = data (offset + k)) :
    bigEndian data' offset size = bigEndian data offset size := by
  induction size with
  | zero => rfl
  | succ size ih =>
      rw [bigEndian_succ, bigEndian_succ, h size (Nat.lt_succ_self size),
        ih fun k hk => h k (Nat.lt_succ_of_lt hk)]

/-- Two sequences of bytes are equal when both their parts are. -/
theorem bytes_eq_add_iff (offset' more : ℕ) :
    (∀ k < size + more, data (offset + k) = data (offset' + k)) ↔
      (∀ k < size, data (offset + k) = data (offset' + k)) ∧
        ∀ k < more, data (offset + size + k) = data (offset' + size + k) := by
  constructor
  · intro h
    refine ⟨fun k hk => h k (by omega), ?_⟩
    intro k hk
    rw [Nat.add_assoc, Nat.add_assoc]
    exact h (size + k) (by omega)
  · rintro ⟨hfirst, hrest⟩ k hk
    by_cases hlt : k < size
    · exact hfirst k hlt
    · obtain ⟨j, rfl⟩ := Nat.exists_eq_add_of_le (Nat.not_lt.mp hlt)
      rw [← Nat.add_assoc, ← Nat.add_assoc]
      exact hrest j (by omega)
