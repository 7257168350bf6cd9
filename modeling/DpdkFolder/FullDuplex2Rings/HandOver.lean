import DpdkFolder.FullDuplex2Rings.Baton

/-!
# Reads after the message has been handed over

A process that has enqueued a pointer keeps it.  The primary prints through
the pointer it sent once right after sending and once more after the reply
has come; by then the secondary has freed the object in every run, and the
line that announces the reply reads the old message instead.  The runs
without a read after the peer's free are exactly those in which that line is
never reached and the first print comes before the secondary's free.
-/

namespace DpdkFolder
namespace FullDuplex2Rings

/-- No process has read an object that the other had freed, and every value
printed as received in round `i` was `10 * i`. -/
def HandOverSafe (s : State) : Prop :=
  (∀ r ∈ s.reads, r.stale = false) ∧
    ∀ g ∈ s.got, g.2 = some (10 * (g.1 : ℤ))

/-- The condition on a step: the primary does not print a received value,
and it prints a sent one only while the secondary has not freed it. -/
def ReadsInTime (s : State) : Proc → Prop
  | .secondary => True
  | .primary =>
      (∀ i msg received, s.prim ≠ .printGot i msg received) ∧
        ∀ i msg, s.prim = .printSent i msg →
          (Proc.secondary, msg) ∉ s.heap.freed

/-- How many rounds have printed a received value when the primary stands at
the given point. -/
def PrimPc.printed (rounds : ℕ) : PrimPc → ℕ
  | .loopHead i => i
  | .enqueue i _ => i
  | .printSent i _ => i
  | .dequeue i _ => i
  | .printGot i _ _ => i
  | .freeReceived i _ => i + 1
  | .enqueueStop _ => rounds
  | .returned => rounds

/-- What the logs say: one line per finished print, a stale read behind every
such line, and no free by the primary before the first of them. -/
structure Logged (rounds : ℕ) (s : State) : Prop where
  got_length : s.got.length = s.prim.printed rounds
  stale_of_got : s.got ≠ [] → ∃ r ∈ s.reads, r.stale = true
  not_freed : s.got = [] → ∀ obj, (Proc.primary, obj) ∉ s.heap.freed

theorem logged_start (rounds : ℕ) :
    Logged rounds FullDuplex2Rings.start where
  got_length := rfl
  stale_of_got := by simp [FullDuplex2Rings.start]
  not_freed := by simp [FullDuplex2Rings.start, AllocHeap.empty]

/-- The message printed together with the reply has been freed by the
secondary before. -/
theorem printGot_freed {rounds : ℕ} {s : State} {b : Baton}
    {i msg received : ℕ} (hb : Carries rounds s b)
    (hpc : s.prim = .printGot i msg received) :
    (Proc.secondary, msg) ∈ s.heap.freed := by
  obtain ⟨-, rfl, hheap, -⟩ := hb.printGot hpc
  rw [hheap, AllocHeap.freed_single, AllocHeap.mem_freedInOrder]
  exact ⟨Nat.lt_succ_self _, freer_msg i⟩

/-! ## What one step logs -/

/-- The object that the next step of a process dereferences. -/
def State.derefs (s : State) : Proc → Option ℕ
  | .primary =>
      match s.prim with
      | .printSent _ msg => some msg
      | .printGot _ msg _ => some msg
      | _ => none
  | .secondary =>
      match s.sec with
      | .testStop val => some val
      | .printReceived val => some val
      | .computeRes val => some val
      | .printSent reply => some reply
      | _ => none

/-- The round and value that the next step of a process prints as received. -/
def State.prints (s : State) : Proc → Option (ℕ × Option ℤ)
  | .primary =>
      match s.prim with
      | .printGot i msg _ => some (i, s.heap.content msg)
      | _ => none
  | .secondary => none

theorem step_logs {rounds : ℕ} {s t : State} {p : Proc}
    (hstep : (exchange rounds).step s p = some t) :
    t.reads = s.reads ++ (s.derefs p).toList.map (s.readOf p) ∧
      t.got = s.got ++ (s.prints p).toList := by
  cases p with
  | primary =>
      change primStep rounds s = some t at hstep
      unfold primStep at hstep
      cases hpc : s.prim <;> simp only [hpc] at hstep
      case dequeue =>
        split at hstep <;> cases hstep <;>
          simp [State.derefs, State.prints, hpc]
      case loopHead | enqueue =>
        split at hstep <;> cases hstep <;>
          simp [State.derefs, State.prints, hpc]
      all_goals
        cases hstep
        try simp [State.derefs, State.prints, State.deref, hpc]
  | secondary =>
      change secStep s = some t at hstep
      unfold secStep at hstep
      cases hpc : s.sec <;> simp only [hpc] at hstep
      case dequeue =>
        split at hstep <;> cases hstep <;>
          simp [State.derefs, State.prints, hpc]
      case enqueue =>
        split at hstep <;> cases hstep <;>
          simp [State.derefs, State.prints, hpc]
      all_goals
        cases hstep
        try simp [State.derefs, State.prints, State.deref, hpc]

/-- Safety after a step is safety before it together with the step's own
read being in time and its own line being right. -/
theorem handOverSafe_step {rounds : ℕ} {s t : State} {p : Proc}
    (hstep : (exchange rounds).step s p = some t) :
    HandOverSafe t ↔ HandOverSafe s ∧
      (∀ obj, s.derefs p = some obj → (p.peer, obj) ∉ s.heap.freed) ∧
      ∀ g, s.prints p = some g → g.2 = some (10 * (g.1 : ℤ)) := by
  obtain ⟨hreads, hgot⟩ := step_logs hstep
  rw [HandOverSafe, HandOverSafe, hreads, hgot]
  cases hd : s.derefs p <;> cases hp : s.prints p <;>
    simp [or_imp, forall_and, State.readOf]
  all_goals tauto

/-! ## The logs along a run -/

theorem Logged.of_same {rounds : ℕ} {s t : State} (h : Logged rounds s)
    (hgot : t.got = s.got)
    (hprinted : t.prim.printed rounds = s.prim.printed rounds)
    (hreads : ∀ r ∈ s.reads, r ∈ t.reads)
    (hfreed : ∀ obj, (Proc.primary, obj) ∈ t.heap.freed →
      (Proc.primary, obj) ∈ s.heap.freed) : Logged rounds t where
  got_length := by rw [hgot, hprinted, h.got_length]
  stale_of_got := by
    intro hne
    obtain ⟨r, hr, hstale⟩ := h.stale_of_got (hgot ▸ hne)
    exact ⟨r, hreads r hr, hstale⟩
  not_freed := by
    intro hnil obj hmem
    exact h.not_freed (hgot ▸ hnil) obj (hfreed obj hmem)

theorem primStep_logged {rounds : ℕ} {s t : State} {b : Baton}
    (hb : Carries rounds s b) (h : Logged rounds s)
    (hstep : primStep rounds s = some t) : Logged rounds t := by
  cases hpc : s.prim with
  | printGot i msg received =>
      have hfreed := printGot_freed hb hpc
      have hlen := h.got_length
      simp only [hpc, PrimPc.printed] at hlen
      simp only [primStep, hpc, Option.some.injEq] at hstep
      subst hstep
      refine ⟨?_, ?_, ?_⟩
      · simp [PrimPc.printed, hlen]
      · intro _
        refine ⟨s.readOf .primary msg, ?_, ?_⟩
        · exact List.mem_append_right _ (List.mem_singleton_self _)
        · exact decide_eq_true hfreed
      · intro hnil
        simp at hnil
  | freeReceived i received =>
      have hlen := h.got_length
      simp only [hpc, PrimPc.printed] at hlen
      have hne : s.got ≠ [] := by
        intro hnil
        simp [hnil] at hlen
      simp only [primStep, hpc, Option.some.injEq] at hstep
      subst hstep
      exact ⟨hlen, h.stale_of_got, fun hnil => absurd hnil hne⟩
  | loopHead i =>
      have hle := hb.loopHead hpc
      simp only [primStep, hpc] at hstep
      split at hstep
      · cases hstep
        exact h.of_same rfl (by simp [hpc, PrimPc.printed])
          (fun _ hr => hr) (fun _ hmem => hmem)
      · cases hstep
        refine h.of_same rfl ?_ (fun _ hr => hr) (fun _ hmem => hmem)
        simp only [hpc, PrimPc.printed]
        omega
  | enqueue i msg =>
      simp only [primStep, hpc] at hstep
      split at hstep
      · cases hstep
        exact h
      · cases hstep
        exact h.of_same rfl (by simp [hpc, PrimPc.printed])
          (fun _ hr => hr) (fun _ hmem => hmem)
  | printSent i msg =>
      simp only [primStep, hpc, Option.some.injEq] at hstep
      subst hstep
      exact h.of_same rfl (by simp [hpc, PrimPc.printed])
        (fun _ hr => List.mem_append_left _ hr) (fun _ hmem => hmem)
  | dequeue i msg =>
      simp only [primStep, hpc] at hstep
      split at hstep
      · cases hstep
        exact h.of_same rfl (by simp [hpc, PrimPc.printed])
          (fun _ hr => hr) (fun _ hmem => hmem)
      · cases hstep
        exact h
  | enqueueStop stop =>
      simp only [primStep, hpc, Option.some.injEq] at hstep
      subst hstep
      exact h.of_same rfl (by simp [hpc, PrimPc.printed])
        (fun _ hr => hr) (fun _ hmem => hmem)
  | returned => simp [primStep, hpc] at hstep

/-- The secondary moves neither the primary nor its log, and what it frees it
frees itself. -/
theorem secStep_frame {s t : State} (hstep : secStep s = some t) :
    t.prim = s.prim ∧ t.got = s.got ∧
      ∀ obj, (Proc.primary, obj) ∈ t.heap.freed →
        (Proc.primary, obj) ∈ s.heap.freed := by
  unfold secStep at hstep
  cases hpc : s.sec <;> simp only [hpc] at hstep
  case dequeue | enqueue =>
    split at hstep <;> cases hstep <;> exact ⟨rfl, rfl, fun _ h => h⟩
  case freeStop | freeVal =>
    cases hstep
    exact ⟨rfl, rfl, by simp⟩
  all_goals
    cases hstep
    try exact ⟨rfl, rfl, fun _ h => h⟩

theorem reachable_logged {rounds : ℕ} {s : State}
    (h : (exchange rounds).Reachable s) : Logged rounds s := by
  apply h.invariant (P := Logged rounds) (logged_start rounds)
  intro u p v hreach hu hstep
  obtain ⟨b, hb⟩ := reachable_carries hreach
  cases p with
  | primary => exact primStep_logged hb hu hstep
  | secondary =>
      obtain ⟨hprim, hgot, hfreed⟩ := secStep_frame hstep
      refine hu.of_same hgot (by rw [hprim]) ?_ hfreed
      intro r hr
      rw [(step_logs hstep).1]
      exact List.mem_append_left _ hr

/-- As long as the run is safe nothing has been printed as received, and so
the primary has freed nothing. -/
theorem not_freed_of_handOverSafe {rounds : ℕ} {s : State}
    (hlog : Logged rounds s) (hsafe : HandOverSafe s) (obj : ℕ) :
    (Proc.primary, obj) ∉ s.heap.freed := by
  refine hlog.not_freed ?_ obj
  by_contra hne
  obtain ⟨r, hr, hstale⟩ := hlog.stale_of_got hne
  rw [hsafe.1 r hr] at hstale
  cases hstale

/-- From a safe state, exactly the steps that read in time keep safety. -/
theorem readsInTime_iff {rounds : ℕ} {s t : State} {p : Proc}
    (hreach : (exchange rounds).Reachable s) (hsafe : HandOverSafe s)
    (hstep : (exchange rounds).step s p = some t) :
    ReadsInTime s p ↔ HandOverSafe t := by
  obtain ⟨b, hb⟩ := reachable_carries hreach
  rw [handOverSafe_step hstep]
  simp only [hsafe, true_and]
  cases p with
  | secondary =>
      have hfreed := not_freed_of_handOverSafe (reachable_logged hreach) hsafe
      simp [ReadsInTime, State.prints, Proc.peer, hfreed]
  | primary =>
      cases hpc : s.prim with
      | printGot i msg received =>
          have hfreed := printGot_freed hb hpc
          simp [ReadsInTime, State.derefs, Proc.peer, hpc, hfreed]
      | printSent i msg =>
          simp [ReadsInTime, State.derefs, State.prints, Proc.peer, hpc]
      | _ => simp [ReadsInTime, State.derefs, State.prints, hpc]

/-- Without rounds there is nothing to print. -/
theorem readsInTime_of_no_rounds {s : State}
    (h : (exchange 0).Reachable s) (p : Proc) : ReadsInTime s p := by
  obtain ⟨b, hb⟩ := reachable_carries h
  cases p with
  | secondary => trivial
  | primary =>
      constructor
      · intro i msg received hpc
        exact absurd (hb.printGot hpc).1 (Nat.not_lt_zero i)
      · intro i msg hpc
        exact absurd (hb.printSent hpc) (Nat.not_lt_zero i)

/-- A run is free of reads after the peer's free, with every received value
printed right, if and only if it never prints a received value and prints
each sent value before the secondary has freed it.  No run that completes a
round is such a run. -/
theorem handOverSafe_iff (rounds : ℕ) :
    (∀ ps s, (exchange rounds).exec start ps = some s →
      (HandOverSafe s ↔
        (exchange rounds).MeetsAlong ReadsInTime start ps)) ∧
      ∀ s, (exchange rounds).Reachable s → s.prim = .returned →
        (HandOverSafe s ↔ rounds = 0) := by
  have hrun : ∀ ps s, (exchange rounds).exec start ps = some s →
      (HandOverSafe s ↔
        (exchange rounds).MeetsAlong ReadsInTime start ps) := by
    intro ps s h
    refine (TransitionSystem.meetsAlong_iff_good ?_ ?_
      TransitionSystem.reachable_start ?_ h).symm
    · intro u p v hreach hu hstep
      exact readsInTime_iff hreach hu hstep
    · intro u p v _ hstep hv
      exact ((handOverSafe_step hstep).mp hv).1
    · exact ⟨by simp [exchange, start], by simp [exchange, start]⟩
  refine ⟨hrun, ?_⟩
  intro s hreach hpc
  have hlog := reachable_logged hreach
  have hlen := hlog.got_length
  rw [hpc, PrimPc.printed] at hlen
  constructor
  · intro hsafe
    by_contra hne
    have hgot : s.got ≠ [] := by
      intro hnil
      rw [hnil] at hlen
      exact hne hlen.symm
    obtain ⟨r, hr, hstale⟩ := hlog.stale_of_got hgot
    rw [hsafe.1 r hr] at hstale
    cases hstale
  · rintro rfl
    obtain ⟨ps, hps⟩ := hreach
    refine (hrun ps s hps).mpr (TransitionSystem.meetsAlong_of_forall ?_ ps
      TransitionSystem.reachable_start)
    exact fun u p hu => readsInTime_of_no_rounds hu p

/-- Round 0 in the order in which the two processes wait for each other. -/
def roundZero : List Proc :=
  [.primary, .primary, .primary, .secondary, .secondary, .secondary,
    .secondary, .secondary, .secondary, .secondary, .primary]

/-- With the ten rounds of the program, the first received value that is
printed is read from an object already freed by the secondary. -/
theorem roundZero_not_handOverSafe :
    ∃ s, (exchange 10).exec start (roundZero ++ [.primary]) = some s ∧
      s.got = [(0, none)] ∧ ¬HandOverSafe s := by
  refine ⟨_, rfl, rfl, ?_⟩
  intro hsafe
  exact absurd (hsafe.2 (0, none) (by decide)) (by decide)

theorem handOverSafe_iff_roundZero :
    (exchange 10).MeetsAlong ReadsInTime start roundZero := by
  refine ((handOverSafe_iff 10).1 roundZero _ rfl).mp ⟨?_, ?_⟩
  · decide
  · decide

end FullDuplex2Rings
end DpdkFolder
