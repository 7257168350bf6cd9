import DpdkFolder.FullDuplex2Rings.Model

/-!
# The exchange as the passing of a baton

What the two loops are meant to do is to pass one message back and forth.
`Baton` says where that message is; `Baton.next` is the whole protocol.
`Carries` relates a state of the two processes to the place of the baton:
rings and heap are functions of it, and each program counter is confined to
the points where its process can be.  Every step of either process keeps the
baton in place or passes it on once.
-/

namespace DpdkFolder
namespace FullDuplex2Rings

/-- The legs of a round on which the primary is only waiting. -/
inductive Leg
  | msgInRing
  | msgTaken
  | msgUsed
  | replyMade
  | replyInRing
deriving DecidableEq, Repr

/-- Where the message is; `idle i` is the moment before round `i`. -/
inductive Baton
  | idle (i : ℕ)
  | msgMade (i : ℕ)
  | out (i : ℕ) (leg : Leg)
  | replyTaken (i : ℕ)
  | stopMade
  | stopInRing
  | stopTaken
  | done
deriving DecidableEq, Repr

/-- One message per round, one reply per message, then the stop message. -/
def Baton.next (rounds : ℕ) : Baton → Option Baton
  | .idle i => some (if i < rounds then .msgMade i else .stopMade)
  | .msgMade i => some (.out i .msgInRing)
  | .out i .msgInRing => some (.out i .msgTaken)
  | .out i .msgTaken => some (.out i .msgUsed)
  | .out i .msgUsed => some (.out i .replyMade)
  | .out i .replyMade => some (.out i .replyInRing)
  | .out i .replyInRing => some (.replyTaken i)
  | .replyTaken i => some (.idle (i + 1))
  | .stopMade => some .stopInRing
  | .stopInRing => some .stopTaken
  | .stopTaken => some .done
  | .done => none

/-- The value of the reply in round `i`. -/
def replyValue (i : ℕ) : ℤ := cInt (i * 10)

/-- Messages are freed by the secondary, replies by the primary; they are
allocated in turn. -/
def freer (obj : ℕ) : Proc :=
  if obj % 2 = 0 then .secondary else .primary

def Baton.ring1 (rounds : ℕ) : Baton → List ℕ
  | .out i .msgInRing => [2 * i]
  | .stopInRing => [2 * rounds]
  | _ => []

def Baton.ring2 : Baton → List ℕ
  | .out i .replyInRing => [2 * i + 1]
  | _ => []

def Baton.heap (rounds : ℕ) : Baton → AllocHeap Proc ℤ
  | .idle i => .single freer (2 * i) none
  | .msgMade i | .out i .msgInRing | .out i .msgTaken =>
      .single freer (2 * i) (some i)
  | .out i .msgUsed => .single freer (2 * i + 1) none
  | .out i .replyMade | .out i .replyInRing | .replyTaken i =>
      .single freer (2 * i + 1) (some (replyValue i))
  | .stopMade | .stopInRing | .stopTaken =>
      .single freer (2 * rounds) (some (-1))
  | .done => .single freer (2 * rounds + 1) none

def Baton.stopRet : Baton → Option ℤ
  | .stopInRing | .stopTaken | .done => some 0
  | _ => none

/-- Where the primary can be while the baton is at `b`. -/
def Baton.PrimAt (rounds : ℕ) : Baton → PrimPc → Prop
  | .idle i, pc => pc = .loopHead i ∧ i ≤ rounds
  | .msgMade i, pc => pc = .enqueue i (2 * i) ∧ i < rounds
  | .out i _, pc =>
      (pc = .printSent i (2 * i) ∨ pc = .dequeue i (2 * i)) ∧ i < rounds
  | .replyTaken i, pc =>
      (pc = .printGot i (2 * i) (2 * i + 1) ∨
        pc = .freeReceived i (2 * i + 1)) ∧ i < rounds
  | .stopMade, pc => pc = .enqueueStop (2 * rounds)
  | .stopInRing, pc | .stopTaken, pc | .done, pc => pc = .returned

/-- The secondary has passed its last reply on and waits for a message,
possibly with one more look at that reply before it. -/
def SecPc.Waiting (pc : SecPc) : Prop :=
  pc = .dequeue ∨ ∃ reply, pc = .printSent reply

/-- Where the secondary can be while the baton is at `b`. -/
def Baton.SecAt (rounds : ℕ) : Baton → SecPc → Prop
  | .out i .msgTaken, pc =>
      pc = .testStop (2 * i) ∨ pc = .printReceived (2 * i) ∨
        pc = .computeRes (2 * i) ∨
        pc = .freeVal (2 * i) (some (replyValue i))
  | .out i .msgUsed, pc => pc = .mallocReply (some (replyValue i))
  | .out i .replyMade, pc => pc = .enqueue (2 * i + 1)
  | .stopTaken, pc =>
      pc = .testStop (2 * rounds) ∨ pc = .freeStop (2 * rounds)
  | .done, pc => pc = .returned
  | _, pc => pc.Waiting

/-- The state `s` carries the baton at `b`. -/
structure Carries (rounds : ℕ) (s : State) (b : Baton) : Prop where
  ring1 : s.ring1.toList = b.ring1 rounds
  ring2 : s.ring2.toList = b.ring2
  heap : s.heap = b.heap rounds
  stopRet : s.stopRet = b.stopRet
  prim : b.PrimAt rounds s.prim
  sec : b.SecAt rounds s.sec

theorem carries_start (rounds : ℕ) :
    Carries rounds FullDuplex2Rings.start (.idle 0) where
  ring1 := rfl
  ring2 := rfl
  heap := AllocHeap.empty_eq_single freer
  stopRet := rfl
  prim := ⟨rfl, Nat.zero_le rounds⟩
  sec := Or.inl rfl

/-! ## The rings when at most one object is in them -/

variable {r : RteRing ℕ ringSize}

theorem rteRingEnqueue_of_nil (h : r.toList = []) (obj : ℕ) :
    (rteRingEnqueue r obj).1 = 0 ∧
      (rteRingEnqueue r obj).2.toList = [obj] := by
  have hfree : 0 < r.free := by
    simp [BoundedFifo.free, h, ringSize]
  have hfits : r.toList.length + [obj].length ≤ ringSize - 1 := by
    simp [h, ringSize]
  rw [rteRingEnqueue, if_pos hfree]
  refine ⟨rfl, ?_⟩
  rw [BoundedFifo.toList_insertBurst_of_le hfits, h]
  rfl

theorem rteRingDequeue_of_nil (h : r.toList = []) :
    rteRingDequeue r = (eNoEnt, none, r) := by
  simp [rteRingDequeue, h]

theorem rteRingDequeue_of_singleton {obj : ℕ} (h : r.toList = [obj]) :
    rteRingDequeue r = (0, some obj, .empty) := by
  have hremove : r.removeBurst 1 = .empty := by
    ext1
    simp [h]
  simp [rteRingDequeue, h, hremove]

/-! ## One step of either process -/

/-- The baton stays where it is or is passed on once. -/
def Follows (rounds : ℕ) (t : State) (b : Baton) : Prop :=
  Carries rounds t b ∨ ∃ b', b.next rounds = some b' ∧ Carries rounds t b'

theorem freer_msg (i : ℕ) : freer (2 * i) = .secondary := by
  simp [freer]

theorem freer_reply (i : ℕ) : freer (2 * i + 1) = .primary := by
  simp [freer, Nat.add_mod]

/-- The primary makes the message of the next round, or the stop message. -/
theorem Carries.idle_follows {rounds i : ℕ} {s t : State}
    (h : Carries rounds s (.idle i)) (hstep : primStep rounds s = some t) :
    Follows rounds t (.idle i) := by
  obtain ⟨hring1, hring2, hheap, hret, ⟨hpc, hle⟩, hsec⟩ := h
  simp only [primStep, hpc] at hstep
  refine Or.inr ⟨_, rfl, ?_⟩
  by_cases hi : i < rounds
  · rw [if_pos hi, Option.some.injEq] at hstep
    subst hstep
    rw [if_pos hi]
    refine ⟨hring1, hring2, ?_, hret, ⟨?_, hi⟩, hsec⟩
    · simp [hheap, Baton.heap]
    · simp [hheap, Baton.heap]
  · have hrounds : i = rounds := by omega
    subst hrounds
    rw [if_neg hi, Option.some.injEq] at hstep
    subst hstep
    rw [if_neg hi]
    refine ⟨hring1, hring2, ?_, hret, ?_, hsec⟩
    · simp [hheap, Baton.heap]
    · simp [hheap, Baton.heap, Baton.PrimAt]

theorem primStep_follows {rounds : ℕ} {s t : State} {b : Baton}
    (h : Carries rounds s b) (hstep : primStep rounds s = some t) :
    Follows rounds t b := by
  have ⟨hring1, hring2, hheap, hret, hprim, hsec⟩ := h
  cases b with
  | idle i => exact h.idle_follows hstep
  | msgMade i =>
      obtain ⟨hpc, hi⟩ := hprim
      obtain ⟨hok, hring⟩ := rteRingEnqueue_of_nil hring1 (2 * i)
      simp only [primStep, hpc, hok, ne_eq, not_true_eq_false, if_false,
        Option.some.injEq] at hstep
      subst hstep
      exact Or.inr ⟨_, rfl, hring, hring2, hheap, hret, ⟨Or.inl rfl, hi⟩,
        hsec⟩
  | out i leg =>
      obtain ⟨hpc | hpc, hi⟩ := hprim
      · simp only [primStep, hpc, Option.some.injEq] at hstep
        subst hstep
        exact Or.inl ⟨hring1, hring2, hheap, hret, ⟨Or.inr rfl, hi⟩, hsec⟩
      · cases leg with
        | replyInRing =>
            simp only [primStep, hpc, rteRingDequeue_of_singleton hring2,
              Option.some.injEq] at hstep
            subst hstep
            exact Or.inr ⟨_, rfl, hring1, rfl, hheap, hret,
              ⟨Or.inl rfl, hi⟩, hsec⟩
        | msgInRing | msgTaken | msgUsed | replyMade =>
            -- `ring2` is empty, so the primary spins.
            simp only [primStep, hpc, rteRingDequeue_of_nil hring2,
              Option.some.injEq] at hstep
            subst hstep
            exact Or.inl ⟨hring1, hring2, hheap, hret,
              ⟨Or.inr hpc, hi⟩, hsec⟩
  | replyTaken i =>
      obtain ⟨hpc | hpc, hi⟩ := hprim
      · simp only [primStep, hpc, Option.some.injEq] at hstep
        subst hstep
        exact Or.inl ⟨hring1, hring2, hheap, hret, ⟨Or.inr rfl, hi⟩, hsec⟩
      · simp only [primStep, hpc, Option.some.injEq] at hstep
        subst hstep
        refine Or.inr ⟨_, rfl, hring1, hring2, ?_, hret, ⟨rfl, hi⟩, hsec⟩
        rw [hheap]
        exact AllocHeap.free_single (freer_reply i)
  | stopMade =>
      obtain ⟨hok, hring⟩ := rteRingEnqueue_of_nil hring1 (2 * rounds)
      simp only [primStep, show s.prim = _ from hprim, hok,
        Option.some.injEq] at hstep
      subst hstep
      exact Or.inr ⟨_, rfl, hring, hring2, hheap, rfl, rfl, hsec⟩
  | stopInRing | stopTaken | done =>
      simp [primStep, show s.prim = _ from hprim] at hstep

theorem waiting_step {s t : State} (hwait : s.sec.Waiting)
    (hring : s.ring1.toList = []) (hstep : secStep s = some t) :
    t.ring1 = s.ring1 ∧ t.ring2 = s.ring2 ∧ t.heap = s.heap ∧
      t.stopRet = s.stopRet ∧ t.prim = s.prim ∧ t.sec.Waiting := by
  rcases hwait with hpc | ⟨reply, hpc⟩
  · simp only [secStep, hpc, rteRingDequeue_of_nil hring,
      Option.some.injEq] at hstep
    subst hstep
    exact ⟨rfl, rfl, rfl, rfl, rfl, Or.inl hpc⟩
  · simp only [secStep, hpc, Option.some.injEq] at hstep
    subst hstep
    exact ⟨rfl, rfl, rfl, rfl, rfl, Or.inl rfl⟩

/-- While nothing is in `ring1` a waiting secondary leaves the baton alone. -/
theorem carries_of_waiting {rounds : ℕ} {s t : State} {b : Baton}
    (h : Carries rounds s b) (hwait : s.sec.Waiting)
    (hsecAt : ∀ pc : SecPc, pc.Waiting → b.SecAt rounds pc)
    (hring : b.ring1 rounds = []) (hstep : secStep s = some t) :
    Carries rounds t b := by
  obtain ⟨hr1, hr2, hheap, hret, hprim, hsec⟩ :=
    waiting_step hwait (h.ring1.trans hring) hstep
  refine ⟨?_, ?_, ?_, ?_, ?_, hsecAt _ hsec⟩
  · rw [hr1]
    exact h.ring1
  · rw [hr2]
    exact h.ring2
  · rw [hheap]
    exact h.heap
  · rw [hret]
    exact h.stopRet
  · rw [hprim]
    exact h.prim

/-- A waiting secondary takes the message out of `ring1`. -/
theorem waiting_take {s t : State} {msg : ℕ} (hwait : s.sec.Waiting)
    (hring : s.ring1.toList = [msg]) (hstep : secStep s = some t) :
    t.ring2 = s.ring2 ∧ t.heap = s.heap ∧ t.stopRet = s.stopRet ∧
      t.prim = s.prim ∧
      ((t.ring1 = s.ring1 ∧ t.sec.Waiting) ∨
        (t.ring1.toList = [] ∧ t.sec = .testStop msg)) := by
  rcases hwait with hpc | ⟨reply, hpc⟩
  · simp only [secStep, hpc, rteRingDequeue_of_singleton hring,
      Option.some.injEq] at hstep
    subst hstep
    exact ⟨rfl, rfl, rfl, rfl, Or.inr ⟨rfl, rfl⟩⟩
  · simp only [secStep, hpc, Option.some.injEq] at hstep
    subst hstep
    exact ⟨rfl, rfl, rfl, rfl, Or.inl ⟨rfl, Or.inl rfl⟩⟩

/-- When the message in `ring1` is all that the next place of the baton
lacks, a waiting secondary passes the baton on by taking it. -/
theorem follows_of_take {rounds msg : ℕ} {s t : State} {b b' : Baton}
    (h : Carries rounds s b) (hnext : b.next rounds = some b')
    (hwait : s.sec.Waiting)
    (hstay : ∀ pc : SecPc, pc.Waiting → b.SecAt rounds pc)
    (hring : b.ring1 rounds = [msg]) (htaken : b'.ring1 rounds = [])
    (hring2 : b'.ring2 = b.ring2) (hheap : b'.heap rounds = b.heap rounds)
    (hret : b'.stopRet = b.stopRet)
    (hprim : ∀ pc, b.PrimAt rounds pc → b'.PrimAt rounds pc)
    (hsec : b'.SecAt rounds (.testStop msg))
    (hstep : secStep s = some t) : Follows rounds t b := by
  obtain ⟨hr2, hhp, hrt, hpm, ⟨hr1, hpc⟩ | ⟨hr1, hpc⟩⟩ :=
    waiting_take hwait (h.ring1.trans hring) hstep
  · left
    refine ⟨?_, ?_, ?_, ?_, ?_, hstay _ hpc⟩
    · rw [hr1, h.ring1]
    · rw [hr2, h.ring2]
    · rw [hhp, h.heap]
    · rw [hrt, h.stopRet]
    · rw [hpm]
      exact h.prim
  · refine Or.inr ⟨b', hnext, ?_, ?_, ?_, ?_, ?_, ?_⟩
    · rw [hr1, htaken]
    · rw [hr2, h.ring2, hring2]
    · rw [hhp, h.heap, hheap]
    · rw [hrt, h.stopRet, hret]
    · rw [hpm]
      exact hprim _ h.prim
    · rw [hpc]
      exact hsec

/-- The secondary works on the message of round `i` and then frees it. -/
theorem Carries.msgTaken_follows {rounds i : ℕ} {s t : State}
    (h : Carries rounds s (.out i .msgTaken)) (hstep : secStep s = some t) :
    Follows rounds t (.out i .msgTaken) := by
  obtain ⟨hring1, hring2, hheap, hret, hprim, hpc⟩ := h
  have hval : s.heap.content (2 * i) = some (i : ℤ) := by
    rw [hheap]
    exact AllocHeap.content_single freer (2 * i) (some (i : ℤ))
  rcases hpc with hpc | hpc | hpc | hpc
  · -- The message of a round is never the stop value.
    have hne : ¬(i : ℤ) = -1 := by omega
    simp only [secStep, hpc, hval, Option.some.injEq, hne, if_false] at hstep
    subst hstep
    exact Or.inl ⟨hring1, hring2, hheap, hret, hprim, Or.inr (Or.inl rfl)⟩
  · simp only [secStep, hpc, Option.some.injEq] at hstep
    subst hstep
    exact Or.inl ⟨hring1, hring2, hheap, hret, hprim,
      Or.inr (Or.inr (Or.inl rfl))⟩
  · simp only [secStep, hpc, hval, Option.map_some, Option.some.injEq] at hstep
    subst hstep
    exact Or.inl ⟨hring1, hring2, hheap, hret, hprim,
      Or.inr (Or.inr (Or.inr rfl))⟩
  · simp only [secStep, hpc, Option.some.injEq] at hstep
    subst hstep
    refine Or.inr ⟨_, rfl, hring1, hring2, ?_, hret, hprim, rfl⟩
    rw [hheap]
    exact AllocHeap.free_single (freer_msg i)

/-- The secondary frees the stop message and returns. -/
theorem Carries.stopTaken_follows {rounds : ℕ} {s t : State}
    (h : Carries rounds s .stopTaken) (hstep : secStep s = some t) :
    Follows rounds t .stopTaken := by
  obtain ⟨hring1, hring2, hheap, hret, hprim, hpc | hpc⟩ := h
  · have hval : s.heap.content (2 * rounds) = some (-1) := by
      rw [hheap]
      exact AllocHeap.content_single freer (2 * rounds) (some (-1))
    simp only [secStep, hpc, hval, if_true, Option.some.injEq] at hstep
    subst hstep
    exact Or.inl ⟨hring1, hring2, hheap, hret, hprim, Or.inr rfl⟩
  · simp only [secStep, hpc, Option.some.injEq] at hstep
    subst hstep
    refine Or.inr ⟨_, rfl, hring1, hring2, ?_, hret, hprim, rfl⟩
    rw [hheap]
    exact AllocHeap.free_single (freer_msg rounds)

theorem secStep_follows {rounds : ℕ} {s t : State} {b : Baton}
    (h : Carries rounds s b) (hstep : secStep s = some t) :
    Follows rounds t b := by
  have hsec := h.sec
  cases b with
  | idle i | msgMade i | replyTaken i | stopMade =>
      exact Or.inl (carries_of_waiting h hsec (fun _ hpc => hpc) rfl hstep)
  | stopInRing =>
      exact follows_of_take h rfl hsec (fun _ hpc => hpc) rfl rfl rfl rfl rfl
        (fun _ hpc => hpc) (Or.inl rfl) hstep
  | stopTaken => exact h.stopTaken_follows hstep
  | done => simp [secStep, show s.sec = _ from hsec] at hstep
  | out i leg =>
      cases leg with
      | replyInRing =>
          exact Or.inl
            (carries_of_waiting h hsec (fun _ hpc => hpc) rfl hstep)
      | msgInRing =>
          exact follows_of_take h rfl hsec (fun _ hpc => hpc) rfl rfl rfl rfl
            rfl (fun _ hpc => hpc) (Or.inl rfl) hstep
      | msgTaken => exact h.msgTaken_follows hstep
      | msgUsed =>
          obtain ⟨hring1, hring2, hheap, hret, hprim, hpc⟩ := h
          simp only [secStep, show s.sec = _ from hpc,
            Option.some.injEq] at hstep
          subst hstep
          refine Or.inr ⟨_, rfl, hring1, hring2, ?_, hret, hprim, ?_⟩
          · rw [hheap]
            exact AllocHeap.alloc_single freer (2 * i + 1) (replyValue i)
          · simp [hheap, Baton.heap, Baton.SecAt]
      | replyMade =>
          obtain ⟨hring1, hring2, hheap, hret, hprim, hpc⟩ := h
          obtain ⟨hok, hring⟩ := rteRingEnqueue_of_nil hring2 (2 * i + 1)
          simp only [secStep, show s.sec = _ from hpc, hok, Int.lt_irrefl,
            if_false, Option.some.injEq] at hstep
          subst hstep
          exact Or.inr ⟨_, rfl, hring1, hring, hheap, hret, hprim,
            Or.inr ⟨_, rfl⟩⟩

/-- Every reachable state carries the baton somewhere. -/
theorem reachable_carries {rounds : ℕ} {s : State}
    (h : (exchange rounds).Reachable s) : ∃ b, Carries rounds s b := by
  refine h.invariant (P := fun u => ∃ b, Carries rounds u b)
    ⟨_, carries_start rounds⟩ ?_
  rintro u p v - ⟨b, hb⟩ hstep
  have hfollows : Follows rounds v b := by
    cases p with
    | primary => exact primStep_follows hb hstep
    | secondary => exact secStep_follows hb hstep
  rcases hfollows with hstay | ⟨b', -, hpass⟩
  · exact ⟨b, hstay⟩
  · exact ⟨b', hpass⟩

/-! ## What the program counters tell about the baton -/

theorem Carries.loopHead {rounds : ℕ} {s : State} {b : Baton} {i : ℕ}
    (h : Carries rounds s b) (hpc : s.prim = .loopHead i) : i ≤ rounds := by
  have hprim := h.prim
  rw [hpc] at hprim
  cases b <;> simp [Baton.PrimAt] at hprim
  exact hprim.1 ▸ hprim.2

theorem Carries.printSent {rounds : ℕ} {s : State} {b : Baton} {i msg : ℕ}
    (h : Carries rounds s b) (hpc : s.prim = .printSent i msg) :
    i < rounds := by
  have hprim := h.prim
  rw [hpc] at hprim
  cases b <;> simp [Baton.PrimAt] at hprim
  exact hprim.1.1 ▸ hprim.2

/-- The primary holds a reply only in round `i < rounds`, and then it is the
second object of that round. -/
theorem Carries.printGot {rounds : ℕ} {s : State} {b : Baton}
    {i msg received : ℕ} (h : Carries rounds s b)
    (hpc : s.prim = .printGot i msg received) :
    i < rounds ∧ msg = 2 * i ∧
      s.heap = .single freer (2 * i + 1) (some (replyValue i)) ∧
      received = 2 * i + 1 := by
  have hprim := h.prim
  rw [hpc] at hprim
  cases b <;> simp [Baton.PrimAt] at hprim
  obtain ⟨⟨rfl, rfl, rfl⟩, hi⟩ := hprim
  exact ⟨hi, rfl, h.heap, rfl⟩

/-- When both processes have returned the baton has arrived. -/
theorem Carries.eq_done {rounds : ℕ} {s : State} {b : Baton}
    (h : Carries rounds s b) (hprim : s.prim = .returned)
    (hsec : s.sec = .returned) : b = .done := by
  have hprimAt := h.prim
  have hsecAt := h.sec
  rw [hprim] at hprimAt
  rw [hsec] at hsecAt
  cases b <;> simp [Baton.PrimAt, Baton.SecAt, SecPc.Waiting] at hprimAt hsecAt
  rfl

end FullDuplex2Rings
end DpdkFolder
