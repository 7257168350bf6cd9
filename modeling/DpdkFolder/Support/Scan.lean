import DpdkFolder.Support.BigEndian

/-!
# Programs that scan a byte sequence

A scan reads bytes at offsets it may choose by what it has read before, and
prints lines.  Running it on a byte sequence gives its value, the lines it
prints and the offsets it reads.
-/

/-- A scan that prints lines of `L` and returns a value of `α`. -/
inductive Scan (L α : Type)
  | done (a : α)
  | read (offset : ℕ) (next : UInt8 → Scan L α)
  | print (line : L) (next : Scan L α)

namespace Scan

variable {L α β : Type}

/-- Go on with `f` where the scan is done. -/
def bind : Scan L α → (α → Scan L β) → Scan L β
  | done a, f => f a
  | read offset next, f => read offset fun b => (next b).bind f
  | print line next, f => print line (next.bind f)

instance : Monad (Scan L) where
  pure := done
  bind := bind

/-- Read the byte at an offset. -/
def byte (offset : ℕ) : Scan L UInt8 := read offset done

/-- Print a line. -/
def emit (line : L) : Scan L Unit := print line (done ())

variable (data : ℕ → UInt8)

/-- What the scan returns. -/
def value : Scan L α → α
  | done a => a
  | read offset next => (next (data offset)).value
  | print _ next => next.value

/-- The lines that the scan prints. -/
def lines : Scan L α → List L
  | done _ => []
  | read offset next => (next (data offset)).lines
  | print line next => line :: next.lines

/-- The offsets that the scan reads. -/
def reads : Scan L α → List ℕ
  | done _ => []
  | read offset next => offset :: (next (data offset)).reads
  | print _ next => next.reads

/-! ## Running a scan -/

@[simp] theorem value_pure (a : α) : (pure a : Scan L α).value data = a := rfl

@[simp] theorem lines_pure (a : α) : (pure a : Scan L α).lines data = [] :=
  rfl

@[simp] theorem reads_pure (a : α) : (pure a : Scan L α).reads data = [] :=
  rfl

@[simp] theorem value_byte (offset : ℕ) :
    (byte offset : Scan L UInt8).value data = data offset := rfl

@[simp] theorem lines_byte (offset : ℕ) :
    (byte offset : Scan L UInt8).lines data = [] := rfl

@[simp] theorem reads_byte (offset : ℕ) :
    (byte offset : Scan L UInt8).reads data = [offset] := rfl

@[simp] theorem lines_emit (line : L) : (emit line).lines data = [line] :=
  rfl

@[simp] theorem reads_emit (line : L) : (emit line).reads data = [] := rfl

@[simp] theorem value_bind (x : Scan L α) (f : α → Scan L β) :
    (x >>= f).value data = (f (x.value data)).value data := by
  induction x with
  | done a => rfl
  | read offset next ih => exact ih (data offset)
  | print line next ih => exact ih

@[simp] theorem lines_bind (x : Scan L α) (f : α → Scan L β) :
    (x >>= f).lines data =
      x.lines data ++ (f (x.value data)).lines data := by
  induction x with
  | done a => rfl
  | read offset next ih => exact ih (data offset)
  | print line next ih => exact congrArg (line :: ·) ih

@[simp] theorem reads_bind (x : Scan L α) (f : α → Scan L β) :
    (x >>= f).reads data =
      x.reads data ++ (f (x.value data)).reads data := by
  induction x with
  | done a => rfl
  | read offset next ih => exact congrArg (offset :: ·) (ih (data offset))
  | print line next ih => exact ih

/-! ## Loading numbers -/

/-- Load a number of the given size as a little-endian host does. -/
def load (offset : ℕ) : ℕ → Scan L ℕ
  | 0 => pure 0
  | size + 1 => do
      let low ← byte offset
      let high ← load (offset + 1) size
      return low.toNat + 256 * high

@[simp] theorem value_load (offset size : ℕ) :
    (load offset size : Scan L ℕ).value data =
      littleEndian data offset size := by
  induction size generalizing offset with
  | zero => rfl
  | succ size ih => simp [load, littleEndian, ih]

@[simp] theorem lines_load (offset size : ℕ) :
    (load offset size : Scan L ℕ).lines data = [] := by
  induction size generalizing offset with
  | zero => rfl
  | succ size ih => simp [load, ih]

/-- Read the bytes from an offset on. -/
def bytes (offset : ℕ) : ℕ → Scan L (List UInt8)
  | 0 => pure []
  | size + 1 => do
      let first ← byte offset
      let rest ← bytes (offset + 1) size
      return first :: rest

@[simp] theorem value_bytes (offset size : ℕ) :
    (bytes offset size : Scan L (List UInt8)).value data =
      (List.range size).map fun k => data (offset + k) := by
  induction size generalizing offset with
  | zero => rfl
  | succ size ih =>
      have hoffset : ∀ k, offset + 1 + k = offset + (k + 1) := by
        intro k
        omega
      simp [bytes, ih, List.range_succ_eq_map, Function.comp_def, hoffset]

@[simp] theorem lines_bytes (offset size : ℕ) :
    (bytes offset size : Scan L (List UInt8)).lines data = [] := by
  induction size generalizing offset with
  | zero => rfl
  | succ size ih => simp [bytes, ih]

/-! ## Reading below a bound -/

/-- All offsets that the scan reads are below `n`. -/
def StaysBelow (n : ℕ) (x : Scan L α) : Prop := ∀ k ∈ x.reads data, k < n

variable {n : ℕ}

@[simp] theorem staysBelow_pure (a : α) :
    (pure a : Scan L α).StaysBelow data n := by
  simp [StaysBelow]

@[simp] theorem staysBelow_byte_iff (offset : ℕ) :
    (byte offset : Scan L UInt8).StaysBelow data n ↔ offset < n := by
  simp [StaysBelow]

@[simp] theorem staysBelow_emit (line : L) :
    (emit line).StaysBelow data n := by
  simp [StaysBelow]

@[simp] theorem staysBelow_bind_iff (x : Scan L α) (f : α → Scan L β) :
    (x >>= f).StaysBelow data n ↔
      x.StaysBelow data n ∧ (f (x.value data)).StaysBelow data n := by
  simp only [StaysBelow, reads_bind, List.forall_mem_append]

@[simp] theorem staysBelow_load_iff (offset size : ℕ) :
    (load offset (size + 1) : Scan L ℕ).StaysBelow data n ↔
      offset + size < n := by
  induction size generalizing offset with
  | zero => simp [load]
  | succ size ih =>
      have hoffset : offset + 1 + size = offset + (size + 1) := by omega
      rw [load, staysBelow_bind_iff, staysBelow_bind_iff, ih,
        staysBelow_byte_iff, hoffset]
      simp only [staysBelow_pure, and_true, and_iff_right_iff_imp]
      intro hlast
      omega

@[simp] theorem staysBelow_bytes_iff (offset size : ℕ) :
    (bytes offset (size + 1) : Scan L (List UInt8)).StaysBelow data n ↔
      offset + size < n := by
  induction size generalizing offset with
  | zero => simp [bytes]
  | succ size ih =>
      have hoffset : offset + 1 + size = offset + (size + 1) := by omega
      rw [bytes, staysBelow_bind_iff, staysBelow_bind_iff, ih,
        staysBelow_byte_iff, hoffset]
      simp only [staysBelow_pure, and_true, and_iff_right_iff_imp]
      intro hlast
      omega

end Scan
