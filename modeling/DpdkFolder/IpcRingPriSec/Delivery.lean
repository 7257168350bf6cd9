import DpdkFolder.IpcRingPriSec.Model

/-!
# Every number arrives once and in order

Message `k` is object `k` of the heap.  One equation holds in every reachable
state: the objects that the secondary has freed, the one in its hand, those
in the ring and the one in the primary's hand are, in this order, all objects
that have been allocated.  With it nothing is lost, doubled or overtaken and
nothing is read after it has been freed.

While the primary waits for room in the ring the secondary has something to
take out of it, so if both keep moving every message arrives.
-/

namespace DpdkFolder
namespace IpcRingPriSec

variable {size messages : ℕ}

/-- The messages in the ring, none before it exists. -/
def State.inRing (s : State size) : List ℕ :=
  s.ring.elim [] BoundedFifo.toList

/-- The message that the primary has allocated and not yet enqueued. -/
def PrimPc.hand : PrimPc → List ℕ
  | .enqueue _ msg => [msg]
  | _ => []

/-- The message that the secondary has dequeued and not yet freed. -/
def SecPc.hand : SecPc → List ℕ
  | .printReceived val => [val]
  | .free val => [val]
  | _ => []

/-- How many messages the secondary has printed when it has freed `k`. -/
def SecPc.printed (k : ℕ) : SecPc → ℕ
  | .free _ => k + 1
  | _ => k

/-- The loop of the primary between two calls. -/
def PrimPc.Ok (messages next : ℕ) : PrimPc → Prop
  | .ringCreate => next = 0
  | .loopHead i => i = next ∧ next ≤ messages
  | .enqueue i _ => i + 1 = next ∧ next ≤ messages
  | .returned => next = messages

/-- The secondary has freed the first `k` messages. -/
structure Inv (messages : ℕ) (s : State size) (k : ℕ) : Prop where
  prim : s.prim.Ok messages s.heap.next
  freed : s.heap.freed = AllocHeap.freedInOrder (fun _ => .secondary) k
  order : List.range k ++ s.sec.hand ++ s.inRing ++ s.prim.hand =
    List.range s.heap.next
  content : ∀ j, k ≤ j → j < s.heap.next → s.heap.content j = some (j : ℤ)
  received : s.received =
    (List.range (s.sec.printed k)).map fun j : ℕ => some (j : ℤ)
  created : s.ring = none → s.prim = .ringCreate ∧ s.sec = .ringLookup

theorem inv_start (messages size : ℕ) : Inv messages (start size) 0 where
  prim := rfl
  freed := rfl
  order := rfl
  content := fun j _ hj => absurd hj (Nat.not_lt_zero j)
  received := rfl
  created := fun _ => ⟨rfl, rfl⟩

variable {s t : State size} {k : ℕ}

/-- The message in the secondary's hand is the next one to be freed. -/
theorem Inv.hand_eq (h : Inv messages s k) {val : ℕ}
    (hhand : s.sec.hand = [val]) : val = k ∧ k < s.heap.next := by
  have horder := h.order
  rw [hhand, List.append_assoc, List.append_assoc] at horder
  have hget := congrArg (·[k]?) horder
  simp only [List.getElem?_append_right, List.length_range, le_rfl,
    Nat.sub_self, List.singleton_append, List.getElem?_cons_zero] at hget
  obtain ⟨hlt, heq⟩ := List.getElem?_eq_some_iff.mp hget.symm
  rw [List.getElem_range] at heq
  rw [List.length_range] at hlt
  exact ⟨heq.symm, hlt⟩

theorem Inv.ring_ne_none (h : Inv messages s k) {i msg : ℕ}
    (hpc : s.prim = .enqueue i msg) : s.ring ≠ none := by
  intro hnone
  have hcreate := (h.created hnone).1
  rw [hpc] at hcreate
  cases hcreate

/-! ## One step of either process -/

/-- What a step of the primary does. -/
inductive PrimCase (messages : ℕ) (s : State size) : State size → Prop
  | create (hpc : s.prim = .ringCreate) :
      PrimCase messages s
        { s with ring := some .empty, prim := .loopHead 0 }
  | malloc (i : ℕ) (hpc : s.prim = .loopHead i) (hi : i < messages) :
      PrimCase messages s { s with
        heap := s.heap.alloc (some i)
        prim := .enqueue i s.heap.fresh }
  | leave (i : ℕ) (hpc : s.prim = .loopHead i) (hi : ¬i < messages) :
      PrimCase messages s { s with prim := .returned }
  | spin (i msg : ℕ) (ring : RteRing ℕ size) (hpc : s.prim = .enqueue i msg)
      (hring : s.ring = some ring) (hfull : ring.free = 0) :
      PrimCase messages s s
  | send (i msg : ℕ) (ring ring' : RteRing ℕ size)
      (hpc : s.prim = .enqueue i msg) (hring : s.ring = some ring)
      (hstored : ring'.toList = ring.toList ++ [msg]) :
      PrimCase messages s
        { s with ring := some ring', prim := .loopHead (i + 1) }

theorem primStep_cases (hstep : primStep messages s = some t) :
    PrimCase messages s t := by
  cases hpc : s.prim with
  | ringCreate =>
      simp only [primStep, hpc, Option.some.injEq] at hstep
      exact hstep ▸ .create hpc
  | loopHead i =>
      simp only [primStep, hpc] at hstep
      split at hstep
      · next hi =>
          cases hstep
          exact .malloc i hpc hi
      · next hi =>
          cases hstep
          exact .leave i hpc hi
  | enqueue i msg =>
      simp only [primStep, hpc] at hstep
      obtain ⟨ring, hring, rfl⟩ := Option.map_eq_some_iff.mp hstep
      by_cases hfree : 0 < ring.free
      · have hfits : ring.toList.length + [msg].length ≤ size - 1 := by
          simp only [BoundedFifo.free] at hfree
          simp only [List.length_singleton]
          omega
        simp only [rteRingEnqueue, hfree, if_true, Int.lt_irrefl, if_false]
        exact .send i msg ring _ hpc hring
          (BoundedFifo.toList_insertBurst_of_le hfits)
      · have hfull : eNoBufs < 0 := by decide
        simp only [rteRingEnqueue, hfree, if_false, hfull, if_true]
        exact .spin i msg ring hpc hring (Nat.eq_zero_of_not_pos hfree)
  | returned => simp [primStep, hpc] at hstep

/-- What a step of the secondary does. -/
inductive SecCase (s : State size) : State size → Prop
  | look (hpc : s.sec = .ringLookup) (hring : s.ring = none) : SecCase s s
  | found (ring : RteRing ℕ size) (hpc : s.sec = .ringLookup)
      (hring : s.ring = some ring) : SecCase s { s with sec := .dequeue }
  | spin (hpc : s.sec = .dequeue) (hnone : s.inRing = []) : SecCase s s
  | take (msg : ℕ) (rest : RteRing ℕ size) (hpc : s.sec = .dequeue)
      (htaken : s.inRing = msg :: rest.toList) :
      SecCase s { s with ring := some rest, sec := .printReceived msg }
  | print (val : ℕ) (hpc : s.sec = .printReceived val) :
      SecCase s { s with
        received := s.received ++ [s.heap.content val]
        sec := .free val }
  | free (val : ℕ) (hpc : s.sec = .free val) :
      SecCase s
        { s with heap := s.heap.free .secondary val, sec := .dequeue }

theorem secStep_cases (hstep : secStep s = some t) : SecCase s t := by
  cases hpc : s.sec with
  | ringLookup =>
      simp only [secStep, hpc] at hstep
      split at hstep
      · next hring =>
          cases hstep
          exact .look hpc hring
      · next ring hring =>
          cases hstep
          exact .found ring hpc hring
  | dequeue =>
      simp only [secStep, hpc] at hstep
      obtain ⟨ring, hring, rfl⟩ := Option.map_eq_some_iff.mp hstep
      have hin : s.inRing = ring.toList := by
        rw [State.inRing, hring]
        rfl
      cases hlist : ring.toList with
      | nil =>
          simp only [rteRingDequeue, hlist]
          exact .spin hpc (hin.trans hlist)
      | cons msg rest =>
          simp only [rteRingDequeue, hlist]
          refine .take msg _ hpc ?_
          rw [hin, BoundedFifo.toList_removeBurst, hlist]
          rfl
  | printReceived val =>
      simp only [secStep, hpc, Option.some.injEq] at hstep
      exact hstep ▸ .print val hpc
  | free val =>
      simp only [secStep, hpc, Option.some.injEq] at hstep
      exact hstep ▸ .free val hpc

theorem PrimCase.inv (h : Inv messages s k) (hcase : PrimCase messages s t) :
    Inv messages t k := by
  have hprim := h.prim
  have horder := h.order
  cases hcase with
  | create hpc =>
      rw [hpc] at hprim
      have hnext : s.heap.next = 0 := hprim
      rw [hpc, hnext] at horder
      have hnil := List.append_eq_nil_iff.mp
        (List.append_eq_nil_iff.mp horder).1
      refine ⟨⟨hnext.symm, hnext.le.trans (Nat.zero_le messages)⟩, h.freed,
        ?_, h.content, h.received,
        fun hnone => absurd hnone (Option.some_ne_none _)⟩
      change List.range k ++ s.sec.hand ++ [] ++ [] = _
      rw [hnil.1, hnext]
      rfl
  | malloc i hpc hi =>
      rw [hpc] at hprim
      obtain ⟨rfl, hle⟩ := hprim
      rw [hpc] at horder
      refine ⟨⟨rfl, hi⟩, h.freed, ?_, ?_, h.received, ?_⟩
      · change _ ++ [s.heap.next] = List.range (s.heap.next + 1)
        rw [List.range_succ, ← horder]
        exact congrArg (· ++ _) (List.append_nil _).symm
      · intro j hj hlt
        by_cases hjn : j = s.heap.next
        · subst hjn
          exact AllocHeap.content_alloc_fresh _ _
        · change (s.heap.alloc _).content j = _
          rw [AllocHeap.content_alloc_of_ne hjn]
          exact h.content j hj (Nat.lt_of_le_of_ne (Nat.le_of_lt_succ hlt) hjn)
      · intro hnone
        exact absurd (h.created hnone).1 (by simp [hpc])
  | leave i hpc hi =>
      rw [hpc] at hprim horder
      refine ⟨?_, h.freed, horder, h.content, h.received, ?_⟩
      · exact Nat.le_antisymm hprim.2 (hprim.1 ▸ not_lt.mp hi)
      · intro hnone
        exact absurd (h.created hnone).1 (by simp [hpc])
  | spin => exact h
  | send i msg ring ring' hpc hring hstored =>
      rw [hpc] at hprim horder
      refine ⟨hprim, h.freed, ?_, h.content, h.received,
        fun hnone => absurd hnone (Option.some_ne_none _)⟩
      change List.range k ++ s.sec.hand ++ ring'.toList ++ [] = _
      rw [hstored, List.append_nil, ← horder, State.inRing, hring,
        ← List.append_assoc]
      rfl

theorem SecCase.inv (h : Inv messages s k) (hcase : SecCase s t) :
    ∃ k', Inv messages t k' := by
  have horder := h.order
  have hreceived := h.received
  cases hcase with
  | look | spin => exact ⟨k, h⟩
  | found ring hpc hring =>
      rw [hpc] at horder hreceived
      refine ⟨k, h.prim, h.freed, horder, h.content, hreceived, ?_⟩
      intro hnone
      rw [hring] at hnone
      cases hnone
  | take msg rest hpc htaken =>
      rw [hpc, htaken] at horder
      rw [hpc] at hreceived
      refine ⟨k, h.prim, h.freed, ?_, h.content, hreceived,
        fun hnone => absurd hnone (Option.some_ne_none _)⟩
      rw [← horder]
      change List.range k ++ [msg] ++ rest.toList ++ s.prim.hand =
        List.range k ++ [] ++ (msg :: rest.toList) ++ s.prim.hand
      rw [List.append_nil, List.append_assoc (List.range k)]
      rfl
  | print val hpc =>
      have hhand : s.sec.hand = [val] := by rw [hpc]; rfl
      obtain ⟨rfl, hlt⟩ := h.hand_eq hhand
      rw [hpc] at horder hreceived
      refine ⟨val, h.prim, h.freed, horder, h.content, ?_, ?_⟩
      · change s.received ++ [s.heap.content val] = _
        rw [hreceived, h.content val le_rfl hlt]
        change _ = (List.range (val + 1)).map _
        rw [List.range_succ, List.map_append]
        rfl
      · intro hnone
        exact absurd (h.created hnone).2 (by simp [hpc])
  | free val hpc =>
      have hhand : s.sec.hand = [val] := by rw [hpc]; rfl
      obtain ⟨rfl, hlt⟩ := h.hand_eq hhand
      rw [hpc] at horder hreceived
      refine ⟨val + 1, h.prim, ?_, ?_, ?_, hreceived, ?_⟩
      · change (s.heap.free .secondary val).freed = _
        rw [AllocHeap.freed_free, h.freed, AllocHeap.freedInOrder_succ]
      · change List.range (val + 1) ++ [] ++ s.inRing ++ s.prim.hand = _
        rw [List.append_nil, List.range_succ]
        exact horder
      · intro j hj hjlt
        change (s.heap.free .secondary val).content j = _
        rw [AllocHeap.content_free_of_ne (by omega)]
        exact h.content j (by omega) hjlt
      · intro hnone
        exact absurd (h.created hnone).2 (by simp [hpc])

theorem reachable_inv (h : (delivery messages size).Reachable s) :
    ∃ k, Inv messages s k := by
  refine h.invariant (P := fun s => ∃ k, Inv messages s k)
    ⟨0, inv_start messages size⟩ ?_
  rintro s p t - ⟨k, hk⟩ hstep
  cases p with
  | primary => exact ⟨k, (primStep_cases hstep).inv hk⟩
  | secondary => exact (secStep_cases hstep).inv hk

/-! ## Safety -/

/-- In every reachable state of every interleaving: the secondary has printed
the numbers from 0 on, in order and each once; the message it is about to
print or to free is live and holds its number; and every message allocated so
far is freed, in the secondary's hand, in the ring or in the primary's hand,
in this order, and freed at most once. -/
theorem delivery_in_order (h : (delivery messages size).Reachable s) :
    (∃ k, k ≤ messages ∧
      s.received = (List.range k).map fun j : ℕ => some (j : ℤ)) ∧
      (∀ val ∈ s.sec.hand, val ∉ s.heap.freed.map Prod.snd ∧
        s.heap.content val = some (val : ℤ)) ∧
      s.heap.freed.map Prod.snd ++ s.sec.hand ++ s.inRing ++ s.prim.hand =
        List.range s.heap.next := by
  obtain ⟨k, hk⟩ := reachable_inv h
  have hfreed : s.heap.freed.map Prod.snd = List.range k := by
    rw [hk.freed, AllocHeap.freedInOrder, List.map_map]
    exact List.map_id _
  have hnext : s.heap.next ≤ messages := by
    have hprim := hk.prim
    cases hpc : s.prim <;> simp only [hpc, PrimPc.Ok] at hprim <;> omega
  have hhand : ∀ val ∈ s.sec.hand, val = k ∧ k < s.heap.next := by
    intro val hval
    cases hpc : s.sec <;> simp only [hpc, SecPc.hand, List.not_mem_nil,
      List.mem_singleton] at hval
    all_goals
      subst hval
      exact hk.hand_eq (by rw [hpc]; rfl)
  refine ⟨⟨_, ?_, hk.received⟩, ?_, hfreed ▸ hk.order⟩
  · have hlen := congrArg List.length hk.order
    simp only [List.length_append, List.length_range] at hlen
    cases hpc : s.sec <;>
      simp only [hpc, SecPc.hand, SecPc.printed, List.length_nil,
        List.length_singleton] at hlen ⊢ <;> omega
  · intro val hval
    obtain ⟨rfl, hlt⟩ := hhand val hval
    refine ⟨?_, hk.content val le_rfl hlt⟩
    rw [hfreed, List.mem_range]
    exact lt_irrefl val

/-- A schedule after which message 0 is in the secondary's hand, message 1 in
the ring and message 2 in the primary's hand, which finds the ring full. -/
def fullRun : List Proc :=
  [.primary, .primary, .secondary, .primary, .primary, .secondary, .primary,
    .primary, .primary, .secondary]

theorem delivery_in_order_full :
    ∃ s, (delivery 3 2).exec (start 2) fullRun = some s ∧
      s.received = [some 0] ∧
      s.heap.freed.map Prod.snd ++ s.sec.hand ++ s.inRing ++ s.prim.hand =
        [0, 1, 2] := by
  have hrun : ∃ s, (delivery 3 2).exec (start 2) fullRun = some s ∧
      s.received = [some 0] ∧ s.heap.next = 3 := ⟨_, rfl, rfl, rfl⟩
  obtain ⟨s, hexec, hreceived, hnext⟩ := hrun
  have horder := (delivery_in_order ⟨fullRun, hexec⟩).2.2
  rw [hnext] at horder
  exact ⟨s, hexec, hreceived, horder⟩

/-! ## Progress -/

/-- All messages have arrived and the secondary waits for more. -/
def Finished (s : State size) : Prop :=
  s.prim = .returned ∧ s.sec = .dequeue ∧ s.inRing = []

/-- How many steps the primary has before it, without those on which it
spins. -/
def PrimPc.remaining (messages : ℕ) : PrimPc → ℕ
  | .ringCreate => 2 * messages + 2
  | .loopHead i => 2 * (messages - i) + 1
  | .enqueue i _ => 2 * (messages - i)
  | .returned => 0

/-- The secondary's work on the message it has taken. -/
def SecPc.remaining : SecPc → ℕ
  | .ringLookup => 1
  | .dequeue => 0
  | .printReceived _ => 2
  | .free _ => 1

/-- What is left to be done by both processes. -/
def State.rank (messages : ℕ) (s : State size) : ℕ :=
  4 * s.prim.remaining messages + 3 * s.inRing.length + s.sec.remaining

/-- The primary can do nothing but wait for the secondary. -/
def State.PrimWaits (s : State size) : Prop :=
  s.prim = .returned ∨ (∃ i msg, s.prim = .enqueue i msg) ∧
    ∃ ring, s.ring = some ring ∧ ring.free = 0

/-- The secondary can do nothing but wait for the primary. -/
def State.SecWaits (s : State size) : Prop :=
  (s.sec = .ringLookup ∧ s.ring = none) ∨ (s.sec = .dequeue ∧ s.inRing = [])

/-- A ring with room for one message is not full and empty at once. -/
theorem Inv.finished_of_waits (hsize : 2 ≤ size) (h : Inv messages s k)
    (hprim : s.PrimWaits) (hsec : s.SecWaits) : Finished s := by
  rcases hprim with hpc | ⟨⟨i, msg, hpc⟩, ring, hring, hfull⟩
  · rcases hsec with ⟨-, hnone⟩ | ⟨hsec, hnone⟩
    · exact absurd (h.created hnone).1 (by simp [hpc])
    · exact ⟨hpc, hsec, hnone⟩
  · rcases hsec with ⟨-, hnone⟩ | ⟨-, hnone⟩
    · rw [hring] at hnone
      cases hnone
    · have hempty : ring.toList = [] := by
        rwa [State.inRing, hring] at hnone
      rw [BoundedFifo.free, hempty, List.length_nil] at hfull
      omega

theorem PrimCase.rank (h : Inv messages s k) (hcase : PrimCase messages s t) :
    t.rank messages < s.rank messages ∨ (t = s ∧ s.PrimWaits) := by
  have hprim := h.prim
  cases hcase with
  | create hpc =>
      left
      simp only [State.rank, hpc, PrimPc.remaining, State.inRing,
        Option.elim_some, BoundedFifo.toList_empty, List.length_nil]
      omega
  | malloc i hpc hi =>
      left
      simp only [State.rank, hpc, PrimPc.remaining, State.inRing]
      omega
  | leave i hpc hi =>
      left
      simp only [State.rank, hpc, PrimPc.remaining, State.inRing]
      omega
  | spin i msg ring hpc hring hfull =>
      exact Or.inr ⟨rfl, Or.inr ⟨⟨i, msg, hpc⟩, ring, hring, hfull⟩⟩
  | send i msg ring ring' hpc hring hstored =>
      rw [hpc] at hprim
      obtain ⟨hi, hle⟩ := hprim
      left
      simp only [State.rank, hpc, PrimPc.remaining, State.inRing, hring,
        Option.elim_some, hstored, List.length_append,
        List.length_singleton]
      omega

theorem SecCase.rank (hcase : SecCase s t) :
    t.rank messages < s.rank messages ∨ (t = s ∧ s.SecWaits) := by
  cases hcase with
  | look hpc hring => exact Or.inr ⟨rfl, Or.inl ⟨hpc, hring⟩⟩
  | spin hpc hnone => exact Or.inr ⟨rfl, Or.inr ⟨hpc, hnone⟩⟩
  | take msg rest hpc htaken =>
      left
      have hlen := congrArg List.length htaken
      rw [List.length_cons] at hlen
      have hrest : State.inRing { s with
          ring := some rest, sec := .printReceived msg } = rest.toList := rfl
      simp only [State.rank, hrest, hpc, SecPc.remaining]
      omega
  | found ring hpc hring | print val hpc | free val hpc =>
      left
      simp only [State.rank, hpc, SecPc.remaining, State.inRing]
      omega

open Classical in
/-- The process whose next step is not a spin. -/
noncomputable def State.helper (s : State size) : Proc :=
  if s.PrimWaits then .secondary else .primary

theorem primStep_ne_none (h : Inv messages s k)
    (hpc : s.prim ≠ .returned) : primStep messages s ≠ none := by
  unfold primStep
  cases hp : s.prim with
  | returned => exact absurd hp hpc
  | ringCreate => exact Option.some_ne_none _
  | loopHead i =>
      simp only
      split <;> exact Option.some_ne_none _
  | enqueue i msg =>
      simpa using h.ring_ne_none hp

theorem secStep_ne_none (h : Inv messages s k) : secStep s ≠ none := by
  unfold secStep
  cases hp : s.sec with
  | ringLookup =>
      simp only
      split <;> exact Option.some_ne_none _
  | dequeue =>
      have hring : s.ring ≠ none := fun hnone =>
        absurd (h.created hnone).2 (by simp [hp])
      simpa using hring
  | _ => exact Option.some_ne_none _

theorem leadsTo_finished (messages : ℕ) (hsize : 2 ≤ size) :
    (delivery messages size).LeadsTo id (fun s => ¬Finished s) Finished := by
  refine TransitionSystem.leadsTo_of_helper (State.rank messages)
    State.helper ?_ ?_
  · rintro s p hreach - rfl
    obtain ⟨k, hk⟩ := reachable_inv hreach
    by_cases hwait : s.PrimWaits
    · have hhelper : s.helper = .secondary := if_pos hwait
      rw [hhelper]
      exact secStep_ne_none hk
    · have hhelper : s.helper = .primary := if_neg hwait
      rw [hhelper]
      exact primStep_ne_none hk fun hprim => hwait (Or.inl hprim)
  · intro s p t hreach hnot hstep
    obtain ⟨k, hk⟩ := reachable_inv hreach
    refine (em (Finished t)).imp_right fun ht => ⟨ht, ?_⟩
    cases p with
    | primary =>
        rcases (primStep_cases hstep).rank hk with hlt | ⟨rfl, hwait⟩
        · exact Or.inl hlt
        · have hhelper : t.helper = .secondary := if_pos hwait
          refine Or.inr ⟨rfl, rfl, ?_⟩
          rw [hhelper]
          decide
    | secondary =>
        have hcase := secStep_cases hstep
        rcases SecCase.rank hcase with
          hlt | ⟨rfl, hwait⟩
        · exact Or.inl hlt
        · have hhelper : t.helper = .primary := if_neg fun hprim =>
            hnot (hk.finished_of_waits hsize hprim hwait)
          refine Or.inr ⟨rfl, rfl, ?_⟩
          rw [hhelper]
          decide

/-- Everything has been sent, printed and freed. -/
structure Completed (messages : ℕ) (s : State size) : Prop where
  finished : Finished s
  received : s.received =
    (List.range messages).map fun j : ℕ => some (j : ℤ)
  freed : s.heap.freed =
    AllocHeap.freedInOrder (fun _ => .secondary) messages
  allocated : s.heap.next = messages

theorem Inv.completed (h : Inv messages s k) (hfinished : Finished s) :
    Completed messages s := by
  obtain ⟨hprim, hsec, hnone⟩ := hfinished
  have hnext := h.prim
  have horder := h.order
  have hreceived := h.received
  have hfreed := h.freed
  rw [hprim] at hnext
  rw [hprim, hsec, hnone, show s.heap.next = messages from hnext] at horder
  have hk : k = messages := by
    have hlen := congrArg List.length horder
    simpa [SecPc.hand, PrimPc.hand] using hlen
  subst hk
  rw [hsec] at hreceived
  exact ⟨⟨hprim, hsec, hnone⟩, hreceived, hfreed, hnext⟩

/-- When all messages have arrived only the secondary moves, and it spins. -/
theorem finished_step {p : Proc} (h : Finished s)
    (hstep : (delivery messages size).step s p = some t) : t = s := by
  obtain ⟨hprim, hsec, hnone⟩ := h
  cases p with
  | primary =>
      change primStep messages s = some t at hstep
      simp [primStep, hprim] at hstep
  | secondary =>
      cases secStep_cases hstep with
      | look | spin => rfl
      | take msg rest hpc htaken => rw [hnone] at htaken; cases htaken
      | found ring hpc => rw [hsec] at hpc; cases hpc
      | print val hpc => rw [hsec] at hpc; cases hpc
      | free val hpc => rw [hsec] at hpc; cases hpc

/-- For every number of messages, every ring with room for one of them and
every fair schedule there is a moment from which on the secondary has printed
all the numbers, each object has been freed once, and nothing is left in the
ring. -/
theorem delivery_completes (messages : ℕ) (hsize : 2 ≤ size)
    {sched : ℕ → Proc} (hfair : TransitionSystem.Fair id sched) :
    ∃ n, ∀ m, n ≤ m →
      Completed messages ((delivery messages size).along sched m) := by
  obtain ⟨n, hn⟩ := (leadsTo_finished messages hsize).settles
    (by simp [delivery, start, Finished])
    (fun s p t _ hs hstep => finished_step hs hstep ▸ hs) hfair
  refine ⟨n, fun m hle => ?_⟩
  obtain ⟨hreach, hfinished⟩ := hn m hle
  obtain ⟨k, hk⟩ := reachable_inv hreach
  exact hk.completed hfinished

/-- The two processes in turn. -/
def inTurn : ℕ → Proc :=
  TransitionSystem.roundRobin [.primary, .secondary] (by decide)

theorem delivery_completes_inTurn :
    ∃ n, ∀ m, n ≤ m →
      Completed 10 ((delivery 10 1024).along inTurn m) := by
  refine delivery_completes 10 (by decide)
    (TransitionSystem.fair_roundRobin _ ?_)
  intro p
  exact ⟨p, by cases p <;> decide, rfl⟩

end IpcRingPriSec
end DpdkFolder
