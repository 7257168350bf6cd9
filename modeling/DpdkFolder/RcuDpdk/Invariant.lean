import DpdkFolder.RcuDpdk.Model

/-!
# The grace-period invariant

Versions are numbered in the order of allocation, and version `k` holds the
value `k`.  For each point of the writer, `Versions` says which version is
published, how many have been freed and replaced, and how many exist.

The heart is `Held`: a pointer that a reader has loaded and not yet
dereferenced is the published one, or it is the version that the writer has
just replaced, and then the synchronization has not started, or has not seen
this reader pass and cannot, because the reader's counter is behind the new
token.  Hence nobody holds the old version when the synchronization returns.
-/

namespace DpdkFolder
namespace RcuDpdk

variable {ι : Type*}

/-- Version `published` is in `gdata`, the first `freed` versions have been
freed and the first `replaced` ones replaced, each once and in order, and the
versions from `freed` up to `allocated` hold their own number. -/
def Versions (s : State ι) (published freed replaced allocated : ℕ) : Prop :=
  s.gdata = published ∧
    s.heap.freed = AllocHeap.freedInOrder (fun _ => .writer) freed ∧
    s.replaced = List.range replaced ∧ s.heap.next = allocated ∧
    ∀ k, freed ≤ k → k < allocated → s.heap.content k = some (k : ℤ)

def AllReturned (s : State ι) : Prop := ∀ r, s.readers r = .returned

/-- The versions as a function of where the main lcore stands. -/
def WriterOk (rounds : ℕ) (s : State ι) : Prop :=
  match s.writer with
  | .loopHead i => i ≤ rounds ∧ Versions s i i i (i + 1)
  | .exchange i new => i < rounds ∧ new = i + 1 ∧ Versions s i i i (i + 2)
  | .syncStart i old =>
      i < rounds ∧ old = i ∧ Versions s (i + 1) i (i + 1) (i + 2)
  | .syncCheck i old token =>
      i < rounds ∧ old = i ∧ token = s.qsbr.token ∧
        Versions s (i + 1) i (i + 1) (i + 2)
  | .freeOld i old =>
      i < rounds ∧ old = i ∧ Versions s (i + 1) i (i + 1) (i + 2)
  | .waitLcores => Versions s rounds rounds rounds (rounds + 1)
  | .freeData =>
      Versions s rounds rounds rounds (rounds + 1) ∧ AllReturned s
  | .returned =>
      s.gdata = rounds ∧
        s.heap.freed =
          AllocHeap.freedInOrder (fun _ => .writer) rounds ++
            [(.cleanup, rounds)] ∧
        s.replaced = List.range rounds ∧ AllReturned s

/-- A thread between coming online and going offline. -/
def Online (s : State ι) (r : ι) : Prop :=
  s.qsbr.registered r = true ∧ s.qsbr.cnt r ≠ cntThrOffline

/-- The pointer `d` loaded by `r` is still protected. -/
def Held (s : State ι) (r : ι) (d : ℕ) : Prop :=
  d = s.gdata ∨
    match s.writer with
    | .syncStart _ old => d = old
    | .syncCheck _ old token =>
        d = old ∧ s.qsbr.cnt r < token ∧ s.checked r = false
    | _ => False

def ReaderOk (s : State ι) (r : ι) : Prop :=
  match s.readers r with
  | .onlineLoad => s.qsbr.registered r = true
  | .onlineStore token =>
      s.qsbr.registered r = true ∧ token ≠ cntThrOffline ∧
        token ≤ s.qsbr.token
  | .testStop => Online s r
  | .loadData => Online s r
  | .deref d => Online s r ∧ Held s r d
  | .quiescentLoad => Online s r
  | .quiescentStore token =>
      Online s r ∧ token ≠ cntThrOffline ∧ token ≤ s.qsbr.token
  | _ => True

/-- The newest version that a reader can have seen. -/
def newest (s : State ι) (r : ι) : ℕ :=
  match s.readers r with
  | .deref d => d
  | _ => s.gdata

/-- The reader has printed values in increasing order, none of them newer
than what it can have seen. -/
def PrintedOk (s : State ι) (r : ι) : Prop :=
  ∃ values : List ℤ, s.printed r = values.map some ∧
    values.Pairwise (· ≤ ·) ∧ ∀ v ∈ values, v ≤ newest s r

structure Inv (rounds : ℕ) (s : State ι) : Prop where
  token_pos : cntThrOffline < s.qsbr.token
  cnt_le : ∀ r, s.qsbr.cnt r ≤ s.qsbr.token
  writer : WriterOk rounds s
  readers : ∀ r, ReaderOk s r
  printed : ∀ r, PrintedOk s r

theorem inv_launch (rounds : ℕ) : Inv rounds (launch ι) where
  token_pos := Nat.zero_lt_one
  cnt_le := fun _ => by
    simp [launch, Qsbr.init, cntThrOffline, cntInit]
  writer := by
    refine ⟨Nat.zero_le rounds, rfl, rfl, rfl, rfl, ?_⟩
    intro k _ hk
    have hzero : k = 0 := by omega
    subst hzero
    exact AllocHeap.content_alloc_fresh AllocHeap.empty (some 0)
  readers := fun _ => trivial
  printed := fun _ => ⟨[], rfl, List.Pairwise.nil, by simp⟩

/-! ## What a held pointer guarantees -/

theorem Inv.held_of_deref {rounds : ℕ} {s : State ι} {r : ι} {d : ℕ}
    (h : Inv rounds s) (hpc : s.readers r = .deref d) :
    Online s r ∧ Held s r d := by
  have hreader := h.readers r
  simpa only [ReaderOk, hpc] using hreader

theorem Versions.of_range {s : State ι} {p f k n d : ℕ}
    (h : Versions s p f k n) (hd : f ≤ d) (hn : d < n) :
    d ∉ s.heap.freed.map Prod.snd ∧ s.heap.content d = some (d : ℤ) := by
  refine ⟨?_, h.2.2.2.2 d hd hn⟩
  rw [h.2.1]
  simp only [List.mem_map, Prod.exists, exists_eq_right, not_exists,
    AllocHeap.mem_freedInOrder]
  intro site hmem
  omega

/-- The version that a reader is about to dereference has not been freed,
holds its number, and is not newer than the published one. -/
theorem Inv.deref_spec {rounds : ℕ} {s : State ι} {r : ι} {d : ℕ}
    (h : Inv rounds s) (hpc : s.readers r = .deref d) :
    d ∉ s.heap.freed.map Prod.snd ∧ s.heap.content d = some (d : ℤ) ∧
      d ≤ s.gdata := by
  have hheld := (h.held_of_deref hpc).2
  have hwriter := h.writer
  have hnot : ¬AllReturned s := by
    intro hall
    rw [hall r] at hpc
    cases hpc
  have hfinish : ∀ {p f k n : ℕ}, Versions s p f k n → f ≤ d → d < n →
      d ≤ p → d ∉ s.heap.freed.map Prod.snd ∧
        s.heap.content d = some (d : ℤ) ∧ d ≤ s.gdata := by
    intro p f k n hv hf hn hp
    exact ⟨(hv.of_range hf hn).1, (hv.of_range hf hn).2, hv.1 ▸ hp⟩
  cases hw : s.writer with
  | loopHead i | waitLcores =>
      simp only [WriterOk, Held, hw, or_false] at hwriter hheld
      obtain hv : Versions s _ _ _ _ := by first | exact hwriter.2 | exact hwriter
      rw [hv.1] at hheld
      exact hfinish hv (by omega) (by omega) (by omega)
  | exchange i new =>
      simp only [WriterOk, Held, hw, or_false] at hwriter hheld
      obtain ⟨-, -, hv⟩ := hwriter
      rw [hv.1] at hheld
      exact hfinish hv (by omega) (by omega) (by omega)
  | syncStart i old =>
      simp only [WriterOk, Held, hw] at hwriter hheld
      obtain ⟨-, rfl, hv⟩ := hwriter
      rw [hv.1] at hheld
      exact hfinish hv (by omega) (by omega) (by omega)
  | syncCheck i old token =>
      simp only [WriterOk, Held, hw] at hwriter hheld
      obtain ⟨-, rfl, -, hv⟩ := hwriter
      rw [hv.1] at hheld
      exact hfinish hv (by omega) (by omega) (by omega)
  | freeOld i old =>
      simp only [WriterOk, Held, hw, or_false] at hwriter hheld
      obtain ⟨-, -, hv⟩ := hwriter
      rw [hv.1] at hheld
      exact hfinish hv (by omega) (by omega) (by omega)
  | freeData =>
      simp only [WriterOk, hw] at hwriter
      exact absurd hwriter.2 hnot
  | returned =>
      simp only [WriterOk, hw] at hwriter
      exact absurd hwriter.2.2.2 hnot

/-! ## Steps that do not touch a reader -/

theorem ReaderOk.transfer {s t : State ι} {r : ι} (h : ReaderOk s r)
    (hpc : t.readers r = s.readers r)
    (hreg : t.qsbr.registered r = s.qsbr.registered r)
    (hcnt : t.qsbr.cnt r = s.qsbr.cnt r)
    (htoken : s.qsbr.token ≤ t.qsbr.token)
    (hheld : ∀ d, s.readers r = .deref d → Online s r → Held s r d →
      Held t r d) : ReaderOk t r := by
  have honline : Online s r → Online t r := by
    intro hon
    rw [Online, hreg, hcnt]
    exact hon
  cases hs : s.readers r with
  | register | unregister | returned | offline =>
      simp [ReaderOk, hpc, hs]
  | onlineLoad =>
      simp only [ReaderOk, hpc, hs, hreg] at h ⊢
      exact h
  | onlineStore token =>
      simp only [ReaderOk, hpc, hs, hreg] at h ⊢
      exact ⟨h.1, h.2.1, h.2.2.trans htoken⟩
  | testStop | loadData | quiescentLoad =>
      simp only [ReaderOk, hpc, hs] at h ⊢
      exact honline h
  | deref d =>
      simp only [ReaderOk, hpc, hs] at h ⊢
      exact ⟨honline h.1, hheld d hs h.1 h.2⟩
  | quiescentStore token =>
      simp only [ReaderOk, hpc, hs] at h ⊢
      exact ⟨honline h.1, h.2.1, h.2.2.trans htoken⟩

theorem PrintedOk.transfer {s t : State ι} {r : ι} (h : PrintedOk s r)
    (hprinted : t.printed r = s.printed r)
    (hnewest : newest s r ≤ newest t r) : PrintedOk t r := by
  obtain ⟨values, heq, hsorted, hle⟩ := h
  refine ⟨values, hprinted.trans heq, hsorted, ?_⟩
  intro v hv
  exact (hle v hv).trans (by exact_mod_cast hnewest)

theorem newest_le {s t : State ι} {r : ι}
    (hpc : t.readers r = s.readers r) (hgdata : s.gdata ≤ t.gdata) :
    newest s r ≤ newest t r := by
  simp only [newest, hpc]
  split
  · exact Nat.le_refl _
  · exact hgdata

/-! ## Steps of the main lcore -/

/-- A step of the main lcore that keeps the token and lets no pointer go
from held to unprotected keeps the readers' part of the invariant. -/
theorem Inv.of_writer {rounds : ℕ} {s t : State ι} (h : Inv rounds s)
    (hwriter : WriterOk rounds t) (hreaders : t.readers = s.readers)
    (hprinted : t.printed = s.printed) (hqsbr : t.qsbr = s.qsbr)
    (hgdata : s.gdata ≤ t.gdata)
    (hheld : ∀ r d, Held s r d → Held t r d) : Inv rounds t where
  token_pos := hqsbr ▸ h.token_pos
  cnt_le := fun r => hqsbr ▸ h.cnt_le r
  writer := hwriter
  readers := by
    intro r
    refine (h.readers r).transfer (by rw [hreaders]) (by rw [hqsbr])
      (by rw [hqsbr]) (by rw [hqsbr]) ?_
    intro d _ _ hd
    exact hheld r d hd
  printed := by
    intro r
    exact (h.printed r).transfer (by rw [hprinted])
      (newest_le (by rw [hreaders]) hgdata)

/-- A step of the main lcore from a point at which only the published version
is protected. -/
theorem Inv.of_writer_idle {rounds : ℕ} {s t : State ι} (h : Inv rounds s)
    (hidle : ∀ r d, Held s r d → d = s.gdata)
    (hwriter : WriterOk rounds t) (hreaders : t.readers = s.readers)
    (hprinted : t.printed = s.printed) (hqsbr : t.qsbr = s.qsbr)
    (hgdata : t.gdata = s.gdata) : Inv rounds t := by
  apply h.of_writer hwriter hreaders hprinted hqsbr (Nat.le_of_eq hgdata.symm)
  intro r d hheld
  exact Or.inl ((hidle r d hheld).trans hgdata.symm)

/-- Allocating a version extends the numbered ones by the next number. -/
theorem Versions.alloc {s t : State ι} {p f k n : ℕ}
    (h : Versions s p f k n)
    (hheap : t.heap = s.heap.alloc (some (n : ℤ)))
    (hgdata : t.gdata = s.gdata) (hreplaced : t.replaced = s.replaced) :
    Versions t p f k (n + 1) := by
  obtain ⟨hp, hf, hk, hn, hcontent⟩ := h
  refine ⟨hgdata.trans hp, ?_, hreplaced.trans hk, ?_, ?_⟩
  · rw [hheap, AllocHeap.freed_alloc, hf]
  · rw [hheap, AllocHeap.next_alloc, hn]
  · intro j hj hlt
    rw [hheap]
    by_cases hjn : j = s.heap.next
    · rw [hjn, AllocHeap.content_alloc_fresh, hn]
    · rw [AllocHeap.content_alloc_of_ne hjn]
      exact hcontent j hj (by omega)

/-- Freeing the oldest version. -/
theorem Versions.free {s t : State ι} {p f k n : ℕ}
    (h : Versions s p f k n) (hheap : t.heap = s.heap.free .writer f)
    (hgdata : t.gdata = s.gdata) (hreplaced : t.replaced = s.replaced) :
    Versions t p (f + 1) k n := by
  obtain ⟨hp, hf, hk, hn, hcontent⟩ := h
  refine ⟨hgdata.trans hp, ?_, hreplaced.trans hk, ?_, ?_⟩
  · rw [hheap, AllocHeap.freed_free, hf, AllocHeap.freedInOrder_succ]
  · rw [hheap, AllocHeap.next_free, hn]
  · intro j hj hlt
    rw [hheap, AllocHeap.content_free_of_ne (by omega)]
    exact hcontent j (by omega) hlt

/-- The token grows when a synchronization starts, so it exceeds every
counter, and a reader that still holds the old version is behind it. -/
theorem syncStart_inv {rounds i old : ℕ} {s : State ι}
    (h : Inv rounds s) (hw : s.writer = .syncStart i old) :
    Inv rounds { s with
      qsbr := s.qsbr.start
      checked := fun _ => false
      writer := .syncCheck i old s.qsbr.start.token } where
  token_pos := Nat.lt_succ_of_lt h.token_pos
  cnt_le := fun r => Nat.le_succ_of_le (h.cnt_le r)
  writer := by
    have hwriter := h.writer
    simp only [WriterOk, hw] at hwriter
    exact ⟨hwriter.1, hwriter.2.1, rfl, hwriter.2.2⟩
  readers := by
    intro r
    refine (h.readers r).transfer rfl rfl rfl (Nat.le_succ _) ?_
    intro d _ _ hheld
    simp only [Held, hw] at hheld ⊢
    have hbehind : s.qsbr.cnt r < s.qsbr.start.token :=
      Nat.lt_succ_of_le (h.cnt_le r)
    exact hheld.imp id fun hold => ⟨hold, hbehind, trivial⟩
  printed := fun r => (h.printed r).transfer rfl (Nat.le_refl _)

/-- The synchronization has seen every reader, so nobody holds the old
version any more. -/
theorem syncCheck_inv {rounds i old token : ℕ} {s : State ι}
    (h : Inv rounds s) (hw : s.writer = .syncCheck i old token)
    (hall : ∀ r, s.checked r = true) :
    Inv rounds { s with writer := .freeOld i old } := by
  refine h.of_writer ?_ rfl rfl rfl (Nat.le_refl _) ?_
  · have hwriter := h.writer
    simp only [WriterOk, hw] at hwriter
    exact ⟨hwriter.1, hwriter.2.1, hwriter.2.2.2⟩
  · intro r d hheld
    simp only [Held, hw, hall r, Bool.true_eq_false, and_false,
      or_false] at hheld
    exact Or.inl hheld

theorem loopHead_inv [Fintype ι] {rounds i : ℕ} {s t : State ι}
    (h : Inv rounds s) (hw : s.writer = .loopHead i)
    (hstep : writer rounds s = some t) : Inv rounds t := by
  have hidle : ∀ r d, Held s r d → d = s.gdata := by simp [Held, hw]
  have hwriter := h.writer
  simp only [WriterOk, hw] at hwriter
  obtain ⟨hi, hv⟩ := hwriter
  simp only [writer, hw] at hstep
  split at hstep
  case isTrue hlt =>
    cases hstep
    refine h.of_writer_idle hidle ?_ rfl rfl rfl rfl
    exact ⟨hlt, hv.2.2.2.1, hv.alloc (by push_cast; rfl) rfl rfl⟩
  case isFalse hge =>
    cases hstep
    have hround : i = rounds := by omega
    subst hround
    exact h.of_writer_idle hidle hv rfl rfl rfl rfl

/-- From the exchange on, readers may hold the version that was current. -/
theorem exchange_inv [Fintype ι] {rounds i new : ℕ} {s t : State ι}
    (h : Inv rounds s) (hw : s.writer = .exchange i new)
    (hstep : writer rounds s = some t) : Inv rounds t := by
  have hwriter := h.writer
  simp only [WriterOk, hw] at hwriter
  obtain ⟨hi, rfl, hp, hf, hk, hn, hcontent⟩ := hwriter
  simp only [writer, hw, Option.some.injEq] at hstep
  subst hstep
  refine h.of_writer ⟨hi, hp, rfl, hf, ?_, hn, hcontent⟩ rfl rfl rfl ?_ ?_
  · rw [List.range_succ, hk, hp]
  · rw [hp]
    exact Nat.le_succ i
  · intro r d hheld
    simp only [Held, hw, or_false] at hheld ⊢
    exact Or.inr hheld

theorem writer_inv [Fintype ι] {rounds : ℕ} {s t : State ι}
    (h : Inv rounds s) (hstep : writer rounds s = some t) :
    Inv rounds t := by
  have hwriter := h.writer
  cases hw : s.writer with
  | loopHead i => exact loopHead_inv h hw hstep
  | exchange i new => exact exchange_inv h hw hstep
  | syncStart i old =>
      simp only [writer, hw, Option.some.injEq] at hstep
      subst hstep
      exact syncStart_inv h hw
  | syncCheck i old token =>
      simp only [writer, hw] at hstep
      split at hstep
      case isTrue hall =>
        cases hstep
        exact syncCheck_inv h hw hall
      case isFalse => cases hstep
  | freeOld i old =>
      have hidle : ∀ r d, Held s r d → d = s.gdata := by simp [Held, hw]
      simp only [WriterOk, hw] at hwriter
      obtain ⟨hi, rfl, hv⟩ := hwriter
      simp only [writer, hw, Option.some.injEq] at hstep
      subst hstep
      exact h.of_writer_idle hidle ⟨hi, hv.free rfl rfl rfl⟩ rfl rfl rfl rfl
  | waitLcores =>
      have hidle : ∀ r d, Held s r d → d = s.gdata := by simp [Held, hw]
      simp only [WriterOk, hw] at hwriter
      simp only [writer, hw] at hstep
      split at hstep
      case isTrue hall =>
        cases hstep
        exact h.of_writer_idle hidle ⟨hwriter, hall⟩ rfl rfl rfl rfl
      case isFalse => cases hstep
  | freeData =>
      have hidle : ∀ r d, Held s r d → d = s.gdata := by simp [Held, hw]
      simp only [WriterOk, hw] at hwriter
      obtain ⟨⟨hp, hf, hk, -, -⟩, hall⟩ := hwriter
      simp only [writer, hw, Option.some.injEq] at hstep
      subst hstep
      refine h.of_writer_idle hidle ⟨hp, ?_, hk, hall⟩ rfl rfl rfl rfl
      rw [AllocHeap.freed_free, hf, hp]
  | returned => simp [writer, hw] at hstep

/-! ## Steps of a reader -/

/-- What the other threads see of a reader's step: nothing. -/
structure ReaderFrame (s t : State ι) (r : ι) : Prop where
  heap : t.heap = s.heap
  gdata : t.gdata = s.gdata
  writer : t.writer = s.writer
  checked : t.checked = s.checked
  replaced : t.replaced = s.replaced
  token : t.qsbr.token = s.qsbr.token
  readers : ∀ q, q ≠ r → t.readers q = s.readers q
  registered : ∀ q, q ≠ r → t.qsbr.registered q = s.qsbr.registered q
  cnt : ∀ q, q ≠ r → t.qsbr.cnt q = s.qsbr.cnt q
  printed : ∀ q, q ≠ r → t.printed q = s.printed q

/-- A version count survives a step that leaves the versions alone. -/
theorem WriterOk.of_frame {rounds : ℕ} {s t : State ι} {r : ι}
    (h : WriterOk rounds s) (hframe : ReaderFrame s t r)
    (hnot : s.readers r ≠ .returned) : WriterOk rounds t := by
  obtain ⟨hheap, hgdata, hwriter, -, hreplaced, htoken, -, -, -, -⟩ := hframe
  have hversions : ∀ p f k n, Versions s p f k n → Versions t p f k n := by
    intro p f k n hv
    rw [Versions, hheap, hgdata, hreplaced]
    exact hv
  cases hw : s.writer <;>
    simp only [WriterOk, hwriter, hw, htoken] at h ⊢
  case freeData => exact absurd (h.2 r) hnot
  case returned => exact absurd (h.2.2.2 r) hnot
  case loopHead => exact ⟨h.1, hversions _ _ _ _ h.2⟩
  case exchange => exact ⟨h.1, h.2.1, hversions _ _ _ _ h.2.2⟩
  case syncStart => exact ⟨h.1, h.2.1, hversions _ _ _ _ h.2.2⟩
  case syncCheck => exact ⟨h.1, h.2.1, h.2.2.1, hversions _ _ _ _ h.2.2.2⟩
  case freeOld => exact ⟨h.1, h.2.1, hversions _ _ _ _ h.2.2⟩
  case waitLcores => exact hversions _ _ _ _ h

variable [DecidableEq ι]

theorem reader_frame {s t : State ι} {r : ι} (hstep : reader s r = some t) :
    ReaderFrame s t r ∧ s.readers r ≠ .returned := by
  cases hpc : s.readers r <;> simp only [reader, hpc] at hstep <;> cases hstep
  all_goals
    constructor
    · constructor <;> first | rfl | (intro q hne; simp [State.setReader, hne])
    · simp

/-- After a step of the reader, nothing newer than the published version can
have been seen. -/
theorem newest_reader {s t : State ι} {r : ι} (hstep : reader s r = some t) :
    newest t r = s.gdata := by
  cases hpc : s.readers r <;> simp only [reader, hpc] at hstep <;>
    cases hstep
  case testStop =>
    by_cases hstop : s.stop <;> simp [newest, State.setReader, hstop]
  all_goals simp [newest, State.setReader]

/-- Only a dereference prints. -/
theorem reader_printed {s t : State ι} {r : ι}
    (hstep : reader s r = some t) :
    (∃ d, s.readers r = .deref d ∧
        t.printed r = s.printed r ++ [s.heap.content d]) ∨
      newest s r = s.gdata ∧ t.printed r = s.printed r := by
  cases hpc : s.readers r <;> simp only [reader, hpc] at hstep <;>
    cases hstep
  case deref d =>
    exact Or.inl ⟨d, rfl, Function.update_self _ _ _⟩
  all_goals
    refine Or.inr ⟨?_, rfl⟩
    simp [newest, hpc]

theorem reader_printedOk {rounds : ℕ} {s t : State ι} {r : ι}
    (h : Inv rounds s) (hstep : reader s r = some t) : PrintedOk t r := by
  have hnewest := newest_reader hstep
  obtain ⟨d, hpc, hprinted⟩ | ⟨hsame, hprinted⟩ := reader_printed hstep
  · obtain ⟨values, heq, hsorted, hbound⟩ := h.printed r
    obtain ⟨-, hcontent, hle⟩ := h.deref_spec hpc
    simp only [newest, hpc] at hbound
    refine ⟨values ++ [(d : ℤ)], ?_, ?_, ?_⟩
    · simp [hprinted, heq, hcontent]
    · rw [List.pairwise_append]
      refine ⟨hsorted, List.pairwise_singleton _ _, ?_⟩
      intro v hv w hw
      rw [List.mem_singleton.mp hw]
      exact hbound v hv
    · intro v hv
      have hvd : v ≤ d := by
        rcases List.mem_append.mp hv with hold | hnew
        · exact hbound v hold
        · rw [List.mem_singleton.mp hnew]
      have hdg : (d : ℤ) ≤ s.gdata := by exact_mod_cast hle
      rw [hnewest]
      exact hvd.trans hdg
  · apply (h.printed r).transfer hprinted
    rw [hnewest, hsame]

/-- The reader's own part of the invariant after one of its steps. -/
theorem reader_self {rounds : ℕ} {s t : State ι} {r : ι}
    (h : Inv rounds s) (hstep : reader s r = some t) :
    t.qsbr.cnt r ≤ t.qsbr.token ∧ ReaderOk t r := by
  have hcnt := h.cnt_le r
  have htoken := h.token_pos
  have hreader := h.readers r
  cases hpc : s.readers r with
  | register =>
      simp only [reader, hpc, Option.some.injEq] at hstep
      subst hstep
      exact ⟨hcnt, by simp [ReaderOk, State.setReader]⟩
  | onlineLoad =>
      simp only [ReaderOk, hpc] at hreader
      simp only [reader, hpc, Option.some.injEq] at hstep
      subst hstep
      refine ⟨hcnt, ?_⟩
      simp only [ReaderOk, State.setReader, Function.update_self]
      exact ⟨hreader, Nat.ne_of_gt htoken, Nat.le_refl _⟩
  | onlineStore token =>
      simp only [ReaderOk, hpc] at hreader
      simp only [reader, hpc, Option.some.injEq] at hstep
      subst hstep
      refine ⟨?_, ?_⟩
      · simpa using hreader.2.2
      · simp [ReaderOk, Online, State.setReader, hreader.1, hreader.2.1]
  | testStop =>
      simp only [ReaderOk, hpc] at hreader
      simp only [reader, hpc, Option.some.injEq] at hstep
      subst hstep
      refine ⟨hcnt, ?_⟩
      by_cases hstop : s.stop <;>
        simp [ReaderOk, Online, State.setReader, hstop]
      exact hreader
  | loadData =>
      simp only [ReaderOk, hpc] at hreader
      simp only [reader, hpc, Option.some.injEq] at hstep
      subst hstep
      refine ⟨hcnt, ?_⟩
      simp only [ReaderOk, State.setReader, Function.update_self]
      exact ⟨hreader, Or.inl rfl⟩
  | deref d =>
      simp only [ReaderOk, hpc] at hreader
      simp only [reader, hpc, Option.some.injEq] at hstep
      subst hstep
      refine ⟨hcnt, ?_⟩
      simp only [ReaderOk, State.setReader, Function.update_self]
      exact hreader.1
  | quiescentLoad =>
      simp only [ReaderOk, hpc] at hreader
      simp only [reader, hpc, Option.some.injEq] at hstep
      subst hstep
      refine ⟨hcnt, ?_⟩
      simp only [ReaderOk, State.setReader, Function.update_self]
      exact ⟨hreader, Nat.ne_of_gt htoken, Nat.le_refl _⟩
  | quiescentStore token =>
      simp only [ReaderOk, hpc] at hreader
      simp only [reader, hpc, Option.some.injEq] at hstep
      subst hstep
      refine ⟨?_, ?_⟩
      · simpa using hreader.2.2
      · simp [ReaderOk, Online, State.setReader, hreader.1.1, hreader.2.1]
  | offline =>
      simp only [reader, hpc, Option.some.injEq] at hstep
      subst hstep
      refine ⟨?_, ?_⟩
      · simp [cntThrOffline]
      · simp [ReaderOk, State.setReader]
  | unregister =>
      simp only [reader, hpc, Option.some.injEq] at hstep
      subst hstep
      exact ⟨hcnt, by simp [ReaderOk, State.setReader]⟩
  | returned => simp [reader, hpc] at hstep

theorem reader_inv {rounds : ℕ} {s t : State ι} {r : ι}
    (h : Inv rounds s) (hstep : reader s r = some t) : Inv rounds t := by
  obtain ⟨hframe, hnot⟩ := reader_frame hstep
  obtain ⟨hcnt, hself⟩ := reader_self h hstep
  have hprinted := reader_printedOk h hstep
  refine ⟨?_, ?_, h.writer.of_frame hframe hnot, ?_, ?_⟩
  · rw [hframe.token]
    exact h.token_pos
  · intro q
    by_cases hq : q = r
    · exact hq ▸ hcnt
    · rw [hframe.cnt q hq, hframe.token]
      exact h.cnt_le q
  · intro q
    by_cases hq : q = r
    · exact hq ▸ hself
    · refine (h.readers q).transfer (hframe.readers q hq)
        (hframe.registered q hq) (hframe.cnt q hq)
        (Nat.le_of_eq hframe.token.symm) ?_
      intro d _ _ hheld
      rw [Held, hframe.gdata, hframe.writer, hframe.cnt q hq,
        hframe.checked]
      exact hheld
  · intro q
    by_cases hq : q = r
    · exact hq ▸ hprinted
    · exact (h.printed q).transfer (hframe.printed q hq)
        (newest_le (hframe.readers q hq) (Nat.le_of_eq hframe.gdata.symm))

/-! ## The invariant along runs -/

/-- A reader that holds the old version does not pass, so looking at a
reader never marks one that the writer still has to wait for. -/
theorem checkReader_inv {rounds : ℕ} {s t : State ι} {r : ι}
    (h : Inv rounds s) (hstep : checkReader s r = some t) :
    Inv rounds t := by
  cases hw : s.writer with
  | syncCheck i old token =>
      simp only [checkReader, hw] at hstep
      split at hstep
      case isFalse => cases hstep
      case isTrue hpasses =>
        cases hstep
        refine ⟨h.token_pos, h.cnt_le, ?_, ?_, ?_⟩
        · have hwriter := h.writer
          simp only [WriterOk, hw] at hwriter ⊢
          exact hwriter
        · intro q
          refine (h.readers q).transfer rfl rfl rfl (Nat.le_refl _) ?_
          intro d _ honline hheld
          simp only [Held, hw] at hheld ⊢
          apply hheld.imp id
          rintro ⟨hold, hbehind, hunchecked⟩
          have hne : q ≠ r := by
            rintro rfl
            rcases hpasses with hunregistered | hoffline | hreached
            · rw [honline.1] at hunregistered
              cases hunregistered
            · exact honline.2 hoffline
            · omega
          exact ⟨hold, hbehind, by simp [hne, hunchecked]⟩
        · exact fun q => (h.printed q).transfer rfl (Nat.le_refl _)
  | _ => simp [checkReader, hw] at hstep

theorem step_inv [Fintype ι] {rounds : ℕ} {s t : State ι}
    {a : Label ι} (h : Inv rounds s) (hstep : step rounds s a = some t) :
    Inv rounds t := by
  cases a with
  | reader r => exact reader_inv h hstep
  | writer => exact writer_inv h hstep
  | check r => exact checkReader_inv h hstep

theorem reachable_inv [Fintype ι] {rounds : ℕ} {s : State ι}
    (h : (rcu ι rounds).Reachable s) : Inv rounds s :=
  h.invariant (P := Inv rounds) (inv_launch rounds)
    fun _ _ _ _ hinv hstep => step_inv hinv hstep

end RcuDpdk
end DpdkFolder
