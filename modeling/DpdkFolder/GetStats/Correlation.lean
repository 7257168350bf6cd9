import DpdkFolder.GetStats.Counting

/-!
# Which request a printed reply answers

A reply is matched to the pending request of its receiver, not to the request
it was produced for.  While a secondary has never timed out, each iteration
ends with nothing of it in flight, so the reply that arrives is its own.  A
request that is left in flight behind its iteration is therefore explained by
a timeout in this iteration or an earlier one, and so is every stale reply.
-/

namespace DpdkFolder
namespace GetStats

variable {κ : Type*} {cfg : Config} {s t : State κ}

/-- The requests on their way to the primary, and those whose replies are
being produced or on their way back. -/
def inFlight (s : State κ) : List (Request κ) :=
  s.requests ++ (s.callback.toList ++ s.replies).map Reply.request

/-- The secondary of the request has timed out in its iteration or before. -/
def Explained (s : State κ) (x : Request κ) : Prop :=
  ∃ j ≤ x.iteration, ⟨x.peer, j⟩ ∈ s.timeouts

theorem Explained.mono {x : Request κ} (h : Explained s x)
    (htimeouts : ∀ y ∈ s.timeouts, y ∈ t.timeouts) : Explained t x := by
  obtain ⟨j, hj, hmem⟩ := h
  exact ⟨j, hj, htimeouts _ hmem⟩

theorem explained_of_mem {x : Request κ} (h : x ∈ s.timeouts) :
    Explained s x := ⟨x.iteration, Nat.le_refl _, h⟩

/-- A reply printed in the iteration `own` was produced for a request of the
same secondary: for `own`, or for one of an earlier iteration, and then the
secondary had timed out in that iteration or before. -/
def PrintedOk (s : State κ) (own : Request κ) (reply : Reply κ) : Prop :=
  reply.request ∈ s.handled ∧
    (reply.request = own ∨
      reply.request.peer = own.peer ∧
        reply.request.iteration < own.iteration ∧
        Explained s reply.request)

theorem PrintedOk.mono {own : Request κ} {reply : Reply κ}
    (h : PrintedOk s own reply) (hhandled : ∀ y ∈ s.handled, y ∈ t.handled)
    (htimeouts : ∀ y ∈ s.timeouts, y ∈ t.timeouts) :
    PrintedOk t own reply := by
  obtain ⟨hmem, hmatch⟩ := h
  refine ⟨hhandled _ hmem, hmatch.imp id ?_⟩
  rintro ⟨hpeer, hlt, hexplained⟩
  exact ⟨hpeer, hlt, hexplained.mono htimeouts⟩

variable [DecidableEq κ]

/-- The iteration `j` is over. -/
def SecPc.Past (j : ℕ) : SecPc → Prop
  | loopHead i => j < i
  | retryHead i _ => j < i
  | pending i _ => j < i
  | returned => True

/-- How many attempts of iteration `j` are being waited for. -/
def SecPc.waiting (j : ℕ) : SecPc → ℕ
  | pending i _ => if j = i then 1 else 0
  | _ => 0

/-- A request in flight whose iteration is over is explained, and one whose
iteration is not over is in flight as often as it has timed out, and once
more if it is being waited for. -/
structure FlightOk (s : State κ) (x : Request κ) : Prop where
  past : (s.secs x.peer).Past x.iteration → x ∈ inFlight s → Explained s x
  current : ¬(s.secs x.peer).Past x.iteration →
    (inFlight s).count x ≤
      s.timeouts.count x + (s.secs x.peer).waiting x.iteration

structure Correlated (s : State κ) : Prop where
  produced : ∀ reply ∈ s.callback.toList ++ s.replies,
    reply.request ∈ s.handled
  flight : ∀ x, FlightOk s x
  printed : ∀ p ∈ s.printed, PrintedOk s p.1 p.2

/-- What is in flight without being waited for is explained. -/
theorem FlightOk.explained {x : Request κ} (h : FlightOk s x)
    (hwaiting : (s.secs x.peer).waiting x.iteration = 0)
    (hmem : x ∈ inFlight s) : Explained s x := by
  by_cases hpast : (s.secs x.peer).Past x.iteration
  · exact h.past hpast hmem
  · have hle := h.current hpast
    have hpos := List.count_pos_iff.mpr hmem
    exact explained_of_mem (List.count_pos_iff.mp (by omega))

/-- A request in flight belongs to an iteration that its secondary has
begun. -/
theorem Inv.begun (hinv : Inv cfg s) (h : Correlated s) {x : Request κ}
    (hmem : x ∈ inFlight s) :
    0 < (s.secs x.peer).attempted cfg x.iteration := by
  have hsent : 0 < sentCount s x := by
    rcases List.mem_append.mp hmem with hrequest | hreply
    · have hpos := List.count_pos_iff.mpr hrequest
      rw [sentCount]
      omega
    · obtain ⟨reply, hin, rfl⟩ := List.mem_map.mp hreply
      have hpos := List.count_pos_iff.mpr (h.produced reply hin)
      rw [sentCount]
      omega
  exact hsent.trans_le ((hinv.sent_le x).trans (hinv.attempts_le x))

/-- Fewer requests in flight and more timeouts do no harm, and neither does
the end of an iteration in which nothing is being waited for. -/
theorem FlightOk.mono {x : Request κ} (h : FlightOk s x)
    (hflight : (inFlight t).count x ≤ (inFlight s).count x)
    (htimeouts : ∀ y, s.timeouts.count y ≤ t.timeouts.count y)
    (hpast : (s.secs x.peer).Past x.iteration →
      (t.secs x.peer).Past x.iteration)
    (hwaiting : (s.secs x.peer).waiting x.iteration ≤
      (t.secs x.peer).waiting x.iteration)
    (hover : (t.secs x.peer).Past x.iteration →
      (s.secs x.peer).Past x.iteration ∨
        (s.secs x.peer).waiting x.iteration = 0) : FlightOk t x where
  past := by
    intro hpastAfter hmem
    have hpos := List.count_pos_iff.mpr hmem
    have hbefore : x ∈ inFlight s := List.count_pos_iff.mp (by omega)
    have hexplained : Explained s x := by
      rcases hover hpastAfter with hpastBefore | hsettled
      · exact h.past hpastBefore hbefore
      · exact h.explained hsettled hbefore
    apply hexplained.mono
    intro y hy
    have hypos := List.count_pos_iff.mpr hy
    exact List.count_pos_iff.mp (hypos.trans_le (htimeouts y))
  current := by
    intro hopen
    have hle := h.current fun hpastBefore => hopen (hpast hpastBefore)
    have hmore := htimeouts x
    omega

/-- Moving the secondary `k` while it does not wait for `x`. -/
theorem FlightOk.of_move {x : Request κ} {k : κ} {pc : SecPc}
    (h : FlightOk s x) (hsecs : t.secs = Function.update s.secs k pc)
    (hflight : (inFlight t).count x ≤ (inFlight s).count x)
    (htimeouts : ∀ y, s.timeouts.count y ≤ t.timeouts.count y)
    (hpast : (s.secs k).Past x.iteration → pc.Past x.iteration)
    (hwaiting : x.peer = k → (s.secs k).waiting x.iteration = 0) :
    FlightOk t x := by
  by_cases hx : x.peer = k
  · have hsettled : (s.secs x.peer).waiting x.iteration = 0 := by
      rw [hx]
      exact hwaiting hx
    have hmoved : t.secs x.peer = pc := by
      rw [hsecs, hx, Function.update_self]
    apply h.mono hflight htimeouts
    · rw [hmoved, hx]
      exact hpast
    · rw [hsettled]
      exact Nat.zero_le _
    · intro _
      exact Or.inr hsettled
  · have hsame : t.secs x.peer = s.secs x.peer := by
      rw [hsecs, Function.update_of_ne hx]
    apply h.mono hflight htimeouts
    · rw [hsame]
      exact id
    · rw [hsame]
    · rw [hsame]
      exact Or.inl

/-! ## Steps of the messages -/

theorem Correlated.of_messages (h : Correlated s) (hsecs : t.secs = s.secs)
    (htimeouts : t.timeouts = s.timeouts)
    (hhandled : ∀ x ∈ s.handled, x ∈ t.handled)
    (hprinted : t.printed = s.printed)
    (hflight : ∀ x, (inFlight t).count x ≤ (inFlight s).count x)
    (hproduced : ∀ reply ∈ t.callback.toList ++ t.replies,
      reply.request ∈ t.handled) : Correlated t where
  produced := hproduced
  flight := by
    intro x
    refine (h.flight x).mono (hflight x) ?_ ?_ ?_ ?_
    · rw [htimeouts]
      exact fun _ => Nat.le_refl _
    · rw [hsecs]
      exact id
    · rw [hsecs]
    · rw [hsecs]
      exact Or.inl
  printed := by
    intro p hp
    rw [hprinted] at hp
    apply (h.printed p hp).mono hhandled
    rw [htimeouts]
    exact fun _ hy => hy

theorem mpCallback_correlated {req : Request κ} (h : Correlated s)
    (hstep : mpCallback s req = some t) : Correlated t := by
  obtain ⟨hmem, hidle, rfl⟩ := mpCallback_cases hstep
  refine h.of_messages rfl rfl ?_ rfl ?_ ?_
  · intro x hx
    exact List.mem_append_left _ hx
  · intro x
    have hpos := List.count_pos_iff.mpr hmem
    simp only [inFlight, hidle, Option.toList_some, Option.toList_none,
      List.nil_append, List.count_append, List.cons_append, List.map_cons,
      List.count_cons]
    by_cases hx : req = x
    · subst hx
      simp only [List.count_erase_self, beq_self_eq_true, if_true]
      omega
    · have hne : x ≠ req := fun heq => hx heq.symm
      simp [List.count_erase_of_ne hne, hx]
  · intro reply hin
    rcases List.mem_append.mp hin with hcallback | hreply
    · rw [Option.toList_some, List.mem_singleton] at hcallback
      rw [hcallback]
      simp
    · refine List.mem_append_left _ (h.produced reply ?_)
      exact List.mem_append_right _ hreply

theorem mpReply_correlated {sent : Bool} (h : Correlated s)
    (hstep : mpReply s sent = some t) : Correlated t := by
  obtain ⟨reply, hcallback, rfl⟩ := mpReply_cases hstep
  have hsub : ∀ r ∈ (if sent = true then s.replies ++ [reply]
      else s.replies), r ∈ s.callback.toList ++ s.replies := by
    intro r hr
    rw [hcallback]
    cases sent with
    | false => exact List.mem_append_right _ hr
    | true =>
        rcases List.mem_append.mp hr with hold | hnew
        · exact List.mem_append_right _ hold
        · exact List.mem_append_left _ hnew
  refine h.of_messages rfl rfl (fun _ hx => hx) rfl ?_ ?_
  · intro x
    simp only [inFlight, hcallback, Option.toList_none, Option.toList_some,
      List.nil_append, List.count_append, List.map_append]
    cases sent
    · simp
    · simp
      omega
  · intro r hr
    exact h.produced r (hsub r hr)

/-! ## Steps of a secondary -/

/-- The secondary `k` goes to a place where the iterations that were over
are still over, and nothing is in flight or printed that was not before. -/
theorem Correlated.of_move {k : κ} {pc : SecPc} (h : Correlated s)
    (hpast : ∀ j, (s.secs k).Past j → pc.Past j)
    (hwaiting : ∀ j, (s.secs k).waiting j = 0) :
    Correlated (s.setSec k pc) where
  produced := h.produced
  flight := by
    intro x
    exact (h.flight x).of_move rfl (Nat.le_refl _) (fun _ => Nat.le_refl _)
      (hpast x.iteration) fun _ => hwaiting x.iteration
  printed := h.printed

theorem advance_correlated {k : κ} (h : Correlated s)
    (hstep : advance cfg s k = some t) : Correlated t := by
  rcases advance_cases hstep with ⟨i, hpc, hnext⟩ | ⟨i, retry, hpc, rfl⟩
  · rcases hnext with rfl | rfl
    · exact h.of_move (by simp [hpc, SecPc.Past]) (by simp [hpc, SecPc.waiting])
    · exact h.of_move (by simp [hpc, SecPc.Past]) (by simp [hpc, SecPc.waiting])
  · refine h.of_move ?_ (by simp [hpc, SecPc.waiting])
    intro j hj
    rw [hpc] at hj
    exact Nat.lt_succ_of_lt hj

theorem requestSync_correlated {k : κ} {o : SendOutcome} (h : Correlated s)
    (hstep : requestSync cfg s k o = some t) : Correlated t := by
  obtain ⟨i, retry, hpc, -, ht⟩ := requestSync_cases hstep
  have hsecs : t.secs = Function.update s.secs k (o.next i retry) := by
    rw [ht]
    rfl
  have htimeouts : t.timeouts = s.timeouts := by rw [ht]; rfl
  have hflight : ∀ x, (inFlight t).count x =
      (inFlight s).count x + if o = .sent ∧ x = ⟨k, i⟩ then 1 else 0 := by
    intro x
    rw [ht]
    simp only [inFlight, State.setSec, List.count_append]
    by_cases ho : o = .sent
    · rw [if_pos ho, count_concat]
      simp only [ho, true_and]
      omega
    · simp [ho]
  refine ⟨?_, ?_, ?_⟩
  · rw [ht]
    exact h.produced
  · rintro ⟨q, j⟩
    by_cases hnew : o = .sent ∧ (⟨q, j⟩ : Request κ) = ⟨k, i⟩
    · -- the request is sent and waited for from now on
      have hcount := hflight ⟨q, j⟩
      rw [if_pos hnew] at hcount
      obtain ⟨rfl, heq⟩ := hnew
      cases heq
      have hcurrent := (h.flight ⟨k, i⟩).current (by simp [hpc, SecPc.Past])
      constructor
      · intro hpast
        simp [hsecs, SendOutcome.next, SecPc.Past] at hpast
      · intro _
        rw [hcount, htimeouts]
        simp only [hpc, SecPc.waiting] at hcurrent
        simpa [hsecs, SendOutcome.next, SecPc.waiting] using hcurrent
    · refine (h.flight ⟨q, j⟩).of_move hsecs ?_ ?_ ?_ ?_
      · rw [hflight, if_neg hnew]
        exact Nat.le_refl _
      · rw [htimeouts]
        exact fun _ => Nat.le_refl _
      · rw [hpc]
        cases o
        · exact id
        · exact id
        · exact Nat.lt_succ_of_lt
      · intro _
        rw [hpc]
        rfl
  · intro p hp
    rw [ht] at hp ⊢
    exact h.printed p hp

theorem timeout_correlated {k : κ} (h : Correlated s)
    (hstep : timeout s k = some t) : Correlated t := by
  obtain ⟨i, retry, hpc, rfl⟩ := timeout_cases hstep
  refine ⟨h.produced, ?_, ?_⟩
  · rintro ⟨q, j⟩
    by_cases hown : (⟨q, j⟩ : Request κ) = ⟨k, i⟩
    · cases hown
      have hcurrent := (h.flight ⟨k, i⟩).current (by simp [hpc, SecPc.Past])
      constructor
      · intro hpast
        simp [State.setSec, SecPc.Past] at hpast
      · intro _
        simp [State.setSec, SecPc.waiting, hpc, inFlight] at hcurrent ⊢
        exact hcurrent
    · refine (h.flight ⟨q, j⟩).of_move rfl (Nat.le_refl _) ?_ ?_ ?_
      · intro y
        rw [List.count_append]
        exact Nat.le_add_right _ _
      · rw [hpc]
        exact id
      · rw [hpc]
        rintro rfl
        have hj : j ≠ i := by
          rintro rfl
          exact hown rfl
        exact if_neg hj
  · intro p hp
    apply (h.printed p hp).mono
    · exact fun _ hy => hy
    · exact fun _ hy => List.mem_append_left _ hy

/-- Taking a reply out of flight takes out its request once. -/
theorem count_inFlight_erase {reply : Reply κ} (hmem : reply ∈ s.replies)
    (x : Request κ) :
    (s.requests ++ (s.callback.toList ++
        s.replies.erase reply).map Reply.request).count x +
        (if reply.request = x then 1 else 0) =
      (inFlight s).count x := by
  have hperm := ((List.perm_cons_erase hmem).map Reply.request).count_eq x
  rw [List.map_cons, List.count_cons] at hperm
  simp only [inFlight, List.map_append, List.count_append, hperm, beq_iff_eq]
  omega

/-- A reply that arrives while its receiver waits in iteration `i` was
produced for this iteration, or is explained by a timeout. -/
theorem Correlated.matches {reply : Reply κ} {i retry : ℕ}
    (hinv : Inv cfg s) (h : Correlated s) (hmem : reply ∈ s.replies)
    (hpc : s.secs reply.request.peer = .pending i retry) :
    reply.request = ⟨reply.request.peer, i⟩ ∨
      reply.request.iteration < i ∧ Explained s reply.request := by
  have hflying : reply.request ∈ inFlight s := by
    refine List.mem_append_right _ (List.mem_map_of_mem ?_)
    exact List.mem_append_right _ hmem
  have hbegun := hinv.begun h hflying
  have hle : reply.request.iteration ≤ i := by
    by_contra hlt
    have hne : ¬reply.request.iteration < i := by omega
    have hne' : reply.request.iteration ≠ i := by omega
    simp [hpc, SecPc.attempted, hne, hne'] at hbegun
  rcases Nat.lt_or_eq_of_le hle with hlt | heq
  · refine Or.inr ⟨hlt, (h.flight reply.request).past ?_ hflying⟩
    rw [hpc]
    exact hlt
  · left
    rw [← heq]

theorem receiveReply_correlated {reply : Reply κ} (hinv : Inv cfg s)
    (h : Correlated s) (hstep : receiveReply s reply = some t) :
    Correlated t := by
  obtain ⟨hmem, hcases⟩ := receiveReply_cases hstep
  have hproduced : ∀ r ∈ s.callback.toList ++ s.replies.erase reply,
      r.request ∈ s.handled := by
    intro r hr
    apply h.produced r
    rcases List.mem_append.mp hr with hcallback | hreply
    · exact List.mem_append_left _ hcallback
    · exact List.mem_append_right _ (List.mem_of_mem_erase hreply)
  have hcount := count_inFlight_erase hmem
  rcases hcases with ⟨i, retry, hpc, rfl⟩ | rfl
  · have hmatches := h.matches hinv hmem hpc
    refine ⟨hproduced, ?_, ?_⟩
    · rintro ⟨q, j⟩
      by_cases hown : (⟨q, j⟩ : Request κ) = ⟨reply.request.peer, i⟩
      · -- the iteration is over now, so what is left of it is explained
        cases hown
        constructor
        · intro _ hleft
          rcases hmatches with hequal | ⟨hlt, j, hj, htimeout⟩
          · have hcurrent := (h.flight ⟨reply.request.peer, i⟩).current
              (by simp [hpc, SecPc.Past])
            have htaken := hcount ⟨reply.request.peer, i⟩
            have hpos := List.count_pos_iff.mpr hleft
            rw [if_pos hequal] at htaken
            simp only [hpc, SecPc.waiting, if_true] at hcurrent
            simp only [inFlight, State.setSec] at hpos htaken hcurrent
            refine explained_of_mem (List.count_pos_iff.mp ?_)
            show 0 < s.timeouts.count _
            omega
          · exact ⟨j, hj.trans (Nat.le_of_lt hlt), htimeout⟩
        · intro hopen
          simp [State.setSec, SecPc.Past] at hopen
      · refine (h.flight ⟨q, j⟩).of_move rfl ?_ (fun _ => Nat.le_refl _) ?_ ?_
        · rw [← hcount]
          exact Nat.le_add_right _ _
        · rw [hpc]
          exact Nat.lt_succ_of_lt
        · rw [hpc]
          rintro rfl
          have hj : j ≠ i := by
            rintro rfl
            exact hown rfl
          exact if_neg hj
    · intro p hp
      rcases List.mem_append.mp hp with hold | hnew
      · exact (h.printed p hold).mono (fun _ hy => hy) fun _ hy => hy
      · rw [List.mem_singleton.mp hnew]
        refine ⟨h.produced reply (List.mem_append_right _ hmem), ?_⟩
        exact hmatches.imp id fun hstale => ⟨rfl, hstale⟩
  · refine h.of_messages rfl rfl (fun _ hx => hx) rfl ?_ hproduced
    intro x
    rw [← hcount]
    exact Nat.le_add_right _ _

theorem step_correlated {a : Label κ} (hinv : Inv cfg s) (h : Correlated s)
    (hstep : step cfg s a = some t) : Correlated t := by
  cases a with
  | signal k =>
      obtain rfl := signalHandler_cases hstep
      exact h.of_messages rfl rfl (fun _ hx => hx) rfl
        (fun _ => Nat.le_refl _) h.produced
  | advance k => exact advance_correlated h hstep
  | request k o => exact requestSync_correlated h hstep
  | timeout k => exact timeout_correlated h hstep
  | callback req => exact mpCallback_correlated h hstep
  | reply sent => exact mpReply_correlated h hstep
  | receive reply => exact receiveReply_correlated hinv h hstep

theorem correlated_launch : Correlated (launch κ) where
  produced := by simp [launch]
  flight := fun x => by
    constructor
    · intro _ hmem
      simp [launch, inFlight] at hmem
    · intro _
      exact Nat.zero_le _
  printed := by simp [launch]

theorem reachable_correlated (h : (session cfg κ).Reachable s) :
    Correlated s :=
  h.invariant (P := Correlated) correlated_launch
    fun _ _ _ hreach hs hstep => step_correlated (reachable_inv hreach) hs hstep

/-- For any secondaries and every interleaving: a reply that a secondary
prints in an iteration was produced by `mp_callback` for a request that the
same secondary sent in this iteration, or in an earlier one, and then one of
its requests up to that iteration had timed out. -/
theorem printed_reply_matches (h : (multipleMsgPassing κ).Reachable s)
    {own : Request κ} {reply : Reply κ} (hp : (own, reply) ∈ s.printed) :
    reply.request ∈ s.handled ∧ reply.request ∈ s.attempts ∧
      (reply.request = own ∨
        reply.request.peer = own.peer ∧
          reply.request.iteration < own.iteration ∧
          ∃ j ≤ reply.request.iteration, ⟨own.peer, j⟩ ∈ s.timeouts) := by
  obtain ⟨hhandled, hmatch⟩ := (reachable_correlated h).printed _ hp
  refine ⟨hhandled, (reachable_inv h).handled_issued hhandled, ?_⟩
  apply hmatch.imp id
  rintro ⟨hpeer, hlt, hexplained⟩
  exact ⟨hpeer, hlt, hpeer ▸ hexplained⟩

/-- The request of iteration 1 times out before the primary gets to it, and
its reply completes the request of iteration 2. -/
def staleRun : List (Label Unit) :=
  [.advance (), .request () .sent, .timeout (), .advance (), .advance (),
    .request () .sent, .callback ⟨(), 1⟩, .reply true, .receive ⟨1, ⟨(), 1⟩⟩]

theorem staleRun_mismatched :
    ¬∀ s, (multipleMsgPassing Unit).Reachable s →
      ∀ p ∈ s.printed, p.2.request = p.1 := by
  intro hmatched
  have hend : ∃ s, (multipleMsgPassing Unit).exec (launch Unit)
      staleRun = some s ∧ s.printed = [(⟨(), 2⟩, ⟨1, ⟨(), 1⟩⟩)] :=
    ⟨_, rfl, rfl⟩
  obtain ⟨s, hexec, hprinted⟩ := hend
  have hequal := hmatched s ⟨staleRun, hexec⟩ (⟨(), 2⟩, ⟨1, ⟨(), 1⟩⟩)
    (by simp [hprinted])
  exact absurd hequal (by decide)

theorem printed_reply_matches_stale :
    ∃ s, (multipleMsgPassing Unit).exec (launch Unit) staleRun =
      some s ∧ (⟨(), 1⟩ : Request Unit) ∈ s.handled := by
  have hend : ∃ s, (multipleMsgPassing Unit).exec (launch Unit)
      staleRun = some s ∧ s.printed = [(⟨(), 2⟩, ⟨1, ⟨(), 1⟩⟩)] :=
    ⟨_, rfl, rfl⟩
  obtain ⟨s, hexec, hprinted⟩ := hend
  have hp : ((⟨(), 2⟩, ⟨1, ⟨(), 1⟩⟩) : Request Unit × Reply Unit) ∈
      s.printed := by simp [hprinted]
  exact ⟨s, hexec, (printed_reply_matches ⟨staleRun, hexec⟩ hp).1⟩

end GetStats
end DpdkFolder
