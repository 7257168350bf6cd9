import Mathlib.Algebra.BigOperators.Group.Finset.Piecewise
import DpdkFolder.GetStats.Correlation
import DpdkFolder.GetStats.Termination

/-!
# Sessions in which nothing goes wrong

If no signal arrives, no request times out and no call fails, then every
secondary has at most one request in flight, the one it is waiting for.  Each
iteration then ends with the reply to its own request, and the numbers that
the replies report are those of the callback's runs, each of them once.
-/

namespace DpdkFolder
namespace GetStats

variable {κ : Type*} {cfg : Config}

/-- How many iterations are over. -/
def SecPc.finished (cfg : Config) : SecPc → ℕ
  | loopHead i => i - 1
  | retryHead i _ => i - 1
  | pending i _ => i - 1
  | returned => cfg.iterations

/-- The request that the secondary `k` waits for. -/
def SecPc.awaited (k : κ) : SecPc → List (Request κ)
  | pending i _ => [⟨k, i⟩]
  | _ => []

/-- The loop variable is in its range, and no attempt has failed. -/
def SecPc.Steady (cfg : Config) : SecPc → Prop
  | loopHead i => 1 ≤ i ∧ i ≤ cfg.iterations + 1
  | retryHead i retry => (1 ≤ i ∧ i ≤ cfg.iterations) ∧ retry = 0
  | pending i retry => (1 ≤ i ∧ i ≤ cfg.iterations) ∧ retry = 0
  | returned => True

/-- The replies to requests that are handled in the given order. -/
def numbered (handled : List (Request κ)) : List (Reply κ) :=
  handled.zipIdx.map fun p => ⟨cInt (p.2 + 1), p.1⟩

/-- The requests of the first iterations of the secondary `k`. -/
def firstRequests (k : κ) (count : ℕ) : List (Request κ) :=
  (List.range' 1 count).map fun i => ⟨k, i⟩

variable [DecidableEq κ] {s t : State κ}

/-- What the secondary `k` has printed: in which iteration, and the request
that the reply answers. -/
def printedBy (s : State κ) (k : κ) : List (Request κ × Request κ) :=
  (s.printed.filter fun p => p.1.peer = k).map fun p => (p.1, p.2.request)

/-- Nothing has gone wrong so far. -/
structure Undisturbed (cfg : Config) (s : State κ) : Prop where
  steady : ∀ k, (s.secs k).Steady cfg
  forceQuit : ∀ k, s.forceQuit k = false
  flight : ∀ k, ((inFlight s).filter fun x => x.peer = k).Perm
    ((s.secs k).awaited k)
  printed : ∀ k, printedBy s k =
    (firstRequests k ((s.secs k).finished cfg)).map fun x => (x, x)
  replied : (s.callback.toList ++ s.replies ++
    s.printed.map Prod.snd).Perm (numbered s.handled)

omit [DecidableEq κ] in
theorem numbered_append (handled : List (Request κ)) (x : Request κ) :
    numbered (handled ++ [x]) =
      numbered handled ++ [⟨cInt (handled.length + 1), x⟩] := by
  simp [numbered, List.zipIdx_append]

omit [DecidableEq κ] in
theorem length_numbered (handled : List (Request κ)) :
    (numbered handled).length = handled.length := by
  simp [numbered]

omit [DecidableEq κ] in
theorem firstRequests_succ (k : κ) (count : ℕ) :
    firstRequests k (count + 1) =
      firstRequests k count ++ [⟨k, count + 1⟩] := by
  simp [firstRequests, List.range'_concat, Nat.add_comm]

theorem undisturbed_launch : Undisturbed cfg (launch κ) where
  steady := fun _ => ⟨le_rfl, Nat.le_add_left 1 _⟩
  forceQuit := fun _ => rfl
  flight := fun _ => List.Perm.nil
  printed := fun _ => rfl
  replied := List.Perm.nil

/-! ## Steps -/

/-- Moving a secondary that does not wait, within an iteration. -/
theorem Undisturbed.setSec (h : Undisturbed cfg s) {k : κ} {pc : SecPc}
    (hsteady : pc.Steady cfg) (hold : (s.secs k).awaited k = [])
    (hnew : pc.awaited k = [])
    (hfinished : pc.finished cfg = (s.secs k).finished cfg) :
    Undisturbed cfg (s.setSec k pc) where
  steady := by
    intro q
    by_cases hq : q = k
    · subst hq
      simpa [State.setSec] using hsteady
    · simpa [State.setSec, hq] using h.steady q
  forceQuit := h.forceQuit
  flight := by
    intro q
    have hflight := h.flight q
    by_cases hq : q = k
    · subst hq
      rw [hold] at hflight
      simpa [State.setSec, hnew, inFlight] using hflight
    · simpa [State.setSec, hq, inFlight] using hflight
  printed := by
    intro q
    have hprinted := h.printed q
    by_cases hq : q = k
    · subst hq
      simpa [State.setSec, hfinished, printedBy] using hprinted
    · simpa [State.setSec, hq, printedBy] using hprinted
  replied := h.replied

theorem advance_undisturbed (hretries : 0 < cfg.maxRetries)
    (h : Undisturbed cfg s) {k : κ} (hstep : advance cfg s k = some t) :
    Undisturbed cfg t := by
  have hsteady := h.steady k
  have hquit := h.forceQuit k
  cases hpc : s.secs k with
  | loopHead i =>
      rw [hpc] at hsteady
      simp only [advance, hpc, hquit, and_true, Option.some.injEq] at hstep
      subst hstep
      by_cases hi : i ≤ cfg.iterations
      · rw [if_pos hi]
        exact h.setSec ⟨⟨hsteady.1, hi⟩, rfl⟩ (by rw [hpc]; rfl) rfl
          (by rw [hpc]; rfl)
      · -- the loop is left after its last iteration
        have hlast : i = cfg.iterations + 1 := by
          have hle := hsteady.2
          omega
        rw [if_neg hi]
        refine h.setSec trivial (by rw [hpc]; rfl) rfl ?_
        rw [hpc, hlast]
        rfl
  | retryHead i retry =>
      rw [hpc] at hsteady
      obtain ⟨-, rfl⟩ := hsteady
      simp [advance, hpc, hquit, hretries] at hstep
  | pending i retry => simp [advance, hpc] at hstep
  | returned => simp [advance, hpc] at hstep

theorem requestSync_undisturbed (h : Undisturbed cfg s) {k : κ}
    (hstep : requestSync cfg s k .sent = some t) : Undisturbed cfg t := by
  obtain ⟨i, retry, hpc, -, rfl⟩ := requestSync_cases hstep
  have hsteady := h.steady k
  rw [hpc] at hsteady
  obtain ⟨hrange, rfl⟩ := hsteady
  refine ⟨?_, h.forceQuit, ?_, ?_, h.replied⟩
  · intro q
    by_cases hq : q = k
    · subst hq
      simpa [State.setSec, SendOutcome.next] using ⟨hrange, rfl⟩
    · simpa [State.setSec, hq] using h.steady q
  · intro q
    have hflight := h.flight q
    have hnew : (s.requests ++ [(⟨k, i⟩ : Request κ)] ++
        (s.callback.toList ++ s.replies).map Reply.request).Perm
          (⟨k, i⟩ :: inFlight s) := by
      rw [inFlight, List.append_assoc]
      exact List.perm_middle
    refine (hnew.filter fun x => x.peer = q).trans ?_
    by_cases hq : q = k
    · subst hq
      rw [hpc] at hflight
      simpa [State.setSec, SendOutcome.next, SecPc.awaited] using hflight
    · have hne : ¬k = q := fun heq => hq heq.symm
      simpa [State.setSec, hq, hne] using hflight
  · intro q
    have hprinted := h.printed q
    by_cases hq : q = k
    · subst hq
      rw [hpc] at hprinted
      simpa [State.setSec, SendOutcome.next, printedBy, SecPc.finished]
        using hprinted
    · simpa [State.setSec, hq, printedBy] using hprinted

/-- A step that only moves a message. -/
theorem Undisturbed.of_message (h : Undisturbed cfg s)
    (hsecs : t.secs = s.secs) (hquit : t.forceQuit = s.forceQuit)
    (hprinted : t.printed = s.printed)
    (hflight : (inFlight t).Perm (inFlight s))
    (hreplied : (t.callback.toList ++ t.replies ++
      t.printed.map Prod.snd).Perm (numbered t.handled)) :
    Undisturbed cfg t where
  steady := by
    rw [hsecs]
    exact h.steady
  forceQuit := by
    rw [hquit]
    exact h.forceQuit
  flight := by
    intro k
    rw [hsecs]
    exact (hflight.filter _).trans (h.flight k)
  printed := by
    intro k
    rw [printedBy, hprinted, hsecs]
    exact h.printed k
  replied := hreplied

theorem mpCallback_undisturbed (h : Undisturbed cfg s)
    (hcount : s.requestCount = cInt s.handled.length) {req : Request κ}
    (hstep : mpCallback s req = some t) : Undisturbed cfg t := by
  obtain ⟨hmem, hnone, rfl⟩ := mpCallback_cases hstep
  have hreplied := h.replied
  rw [hnone] at hreplied
  refine h.of_message rfl rfl rfl ?_ ?_
  · have hperm := List.perm_cons_erase hmem
    simp only [inFlight, hnone, Option.toList_some, Option.toList_none,
      List.nil_append, List.singleton_append, List.map_cons]
    exact List.perm_middle.trans (hperm.symm.append_right _)
  · rw [numbered_append, hcount, cInt_cInt_add]
    simp only [Option.toList_some, List.cons_append]
    exact (List.Perm.cons _ hreplied).trans
      (List.perm_append_singleton _ _).symm

theorem mpReply_undisturbed (h : Undisturbed cfg s)
    (hstep : mpReply s true = some t) : Undisturbed cfg t := by
  obtain ⟨reply, hsome, rfl⟩ := mpReply_cases hstep
  have hreplied := h.replied
  rw [hsome] at hreplied
  refine h.of_message rfl rfl rfl ?_ ?_
  · simp only [inFlight, hsome, if_true, Option.toList_some,
      Option.toList_none, List.nil_append, List.singleton_append]
    exact (((List.perm_append_singleton _ _).map _).append_left _)
  · simp only [if_true, Option.toList_some, Option.toList_none,
      List.nil_append, List.singleton_append] at hreplied ⊢
    exact ((List.perm_append_singleton _ _).append_right _).trans hreplied

/-- A reply that arrives is the one that its receiver waits for. -/
theorem Undisturbed.awaits (h : Undisturbed cfg s) {reply : Reply κ}
    (hmem : reply ∈ s.replies) :
    reply.request ∈
      (s.secs reply.request.peer).awaited reply.request.peer := by
  have hflight : reply.request ∈ inFlight s := by
    rw [inFlight, List.mem_append]
    exact Or.inr (List.mem_map_of_mem
      (List.mem_append_right _ hmem))
  exact (h.flight reply.request.peer).mem_iff.mp
    (List.mem_filter.mpr ⟨hflight, by simp⟩)

theorem receiveReply_undisturbed (h : Undisturbed cfg s) {reply : Reply κ}
    (hstep : receiveReply s reply = some t) : Undisturbed cfg t := by
  obtain ⟨hmem, -⟩ := receiveReply_cases hstep
  obtain ⟨k, hk⟩ : ∃ k, k = reply.request.peer := ⟨_, rfl⟩
  have hawaits := h.awaits hmem
  have hsteady := h.steady k
  rw [← hk] at hawaits
  cases hpc : s.secs k with
  | loopHead | retryHead | returned =>
      rw [hpc] at hawaits
      cases hawaits
  | pending i retry =>
      rw [hpc] at hawaits hsteady
      obtain ⟨⟨hone, hle⟩, rfl⟩ := hsteady
      have hrequest : reply.request = ⟨k, i⟩ := List.mem_singleton.mp hawaits
      rw [receiveReply, if_pos hmem, ← hk, hpc] at hstep
      simp only [Option.some.injEq] at hstep
      subst hstep
      have herase := List.perm_cons_erase hmem
      refine ⟨?_, h.forceQuit, ?_, ?_, ?_⟩
      · intro q
        by_cases hq : q = k
        · subst hq
          simpa [State.setSec, SecPc.Steady] using hle
        · simpa [State.setSec, hq] using h.steady q
      · intro q
        have hflight := h.flight q
        have hnew : (inFlight s).Perm (⟨k, i⟩ :: (s.requests ++
            (s.callback.toList ++ s.replies.erase reply).map
              Reply.request)) := by
          have hreplies := ((herase.append_left s.callback.toList).trans
            List.perm_middle).map Reply.request
          rw [List.map_cons, hrequest] at hreplies
          exact (hreplies.append_left s.requests).trans List.perm_middle
        have hfiltered := (hnew.filter fun x => x.peer = q).symm.trans hflight
        by_cases hq : q = k
        · subst hq
          rw [hpc] at hfiltered
          simpa [State.setSec, SecPc.awaited, inFlight] using hfiltered
        · have hne : ¬k = q := fun heq => hq heq.symm
          simpa [State.setSec, hq, hne, inFlight] using hfiltered
      · intro q
        have hprinted := h.printed q
        by_cases hq : q = k
        · subst hq
          have hsucc : i = i - 1 + 1 := by omega
          rw [hpc] at hprinted
          simp only [printedBy, SecPc.finished] at hprinted
          simp only [State.setSec, printedBy, Function.update_self,
            SecPc.finished, Nat.add_sub_cancel, List.filter_append,
            List.map_append, hprinted]
          rw [hsucc, firstRequests_succ]
          simp [hrequest, ← hsucc]
        · have hne : ¬k = q := fun heq => hq heq.symm
          simpa [State.setSec, hq, hne, printedBy] using hprinted
      · have hreplied := h.replied
        have hreplies := ((herase.append_left s.callback.toList).trans
          List.perm_middle).append_right (s.printed.map Prod.snd)
        refine List.Perm.trans ?_ (hreplies.symm.trans hreplied)
        rw [List.map_append, ← List.append_assoc]
        exact List.perm_append_singleton _ _

theorem step_undisturbed (hretries : 0 < cfg.maxRetries)
    (hinv : Inv cfg s) (h : Undisturbed cfg s) {a : Label κ}
    (hregular : a.IsRegular) (hstep : step cfg s a = some t) :
    Undisturbed cfg t := by
  cases a with
  | signal k => cases hregular
  | advance k => exact advance_undisturbed hretries h hstep
  | request k o =>
      cases hregular
      exact requestSync_undisturbed h hstep
  | timeout k => cases hregular
  | callback req => exact mpCallback_undisturbed h hinv.count hstep
  | reply sent =>
      cases hregular
      exact mpReply_undisturbed h hstep
  | receive reply => exact receiveReply_undisturbed h hstep

/-! ## Runs -/

theorem undisturbed_of_exec (hretries : 0 < cfg.maxRetries)
    {as : List (Label κ)} (hregular : ∀ a ∈ as, a.IsRegular)
    (h : (session cfg κ).exec (launch κ) as = some s) :
    Undisturbed cfg s :=
  TransitionSystem.exec_invariant_of_forall (P := Undisturbed cfg)
    (fun _ _ _ hreach hu ha hstep =>
      step_undisturbed hretries (reachable_inv hreach) hu ha hstep)
    TransitionSystem.reachable_start undisturbed_launch hregular h

/-- Where no regular step is left, everything has been done. -/
theorem Undisturbed.quiet (hretries : 0 < cfg.maxRetries)
    (h : Undisturbed cfg s)
    (hstop : ∀ a : Label κ, a.IsRegular → step cfg s a = none) :
    Quiet s := by
  have hmessages : s.messageWork = 0 := by
    by_contra hne
    obtain ⟨a, hregular, hstep⟩ := exists_message_step cfg hne
    exact hstep (hstop a hregular)
  rw [State.messageWork] at hmessages
  have hrequests : s.requests = [] :=
    List.eq_nil_of_length_eq_zero (by omega)
  have hcallback : s.callback = none :=
    Option.toList_eq_nil_iff.mp (List.eq_nil_of_length_eq_zero (by omega))
  have hreplies : s.replies = [] :=
    List.eq_nil_of_length_eq_zero (by omega)
  refine ⟨fun k => ?_, hrequests, hcallback, hreplies⟩
  have hsteady := h.steady k
  cases hpc : s.secs k with
  | loopHead i =>
      have hadvance := hstop (.advance k) trivial
      simp [step, advance, hpc] at hadvance
  | retryHead i retry =>
      rw [hpc] at hsteady
      obtain ⟨-, rfl⟩ := hsteady
      have hrequest := hstop (.request k .sent) rfl
      simp [step, requestSync, hpc, hretries, h.forceQuit k] at hrequest
  | pending i retry =>
      have hflight := (h.flight k).length_eq
      simp [inFlight, hrequests, hcallback, hreplies, hpc,
        SecPc.awaited] at hflight
  | returned => rfl

omit [DecidableEq κ] in
theorem map_reqNum_numbered (handled : List (Request κ)) :
    (numbered handled).map Reply.reqNum =
      (List.range handled.length).map fun j : ℕ => cInt (j + 1) := by
  have hindices : List.range handled.length =
      handled.zipIdx.map Prod.snd := by
    rw [List.zipIdx_map_snd, List.range_eq_range']
  rw [numbered, List.map_map, hindices, List.map_map]
  simp only [Function.comp_def]

/-- The elements of a list, counted by what a function makes of them. -/
theorem length_eq_sum_filter [Fintype κ] {α : Type*} (f : α → κ)
    (l : List α) : l.length = ∑ k, (l.filter fun x => f x = k).length := by
  induction l with
  | nil => simp
  | cons x l ih =>
      have hcons : ∀ k, ((x :: l).filter fun y => f y = k).length =
          (if f x = k then 1 else 0) +
            (l.filter fun y => f y = k).length := by
        intro k
        by_cases hx : f x = k <;> simp [hx, Nat.add_comm]
      simp only [hcons]
      rw [Finset.sum_add_distrib, ← ih, Finset.sum_ite_eq]
      simp [Nat.add_comm]

theorem Undisturbed.length_printed [Fintype κ] (h : Undisturbed cfg s)
    (hreturned : ∀ k, s.secs k = .returned) :
    s.printed.length = Fintype.card κ * cfg.iterations := by
  have hlength : ∀ k,
      (s.printed.filter fun p => p.1.peer = k).length = cfg.iterations := by
    intro k
    have hprinted := congrArg List.length (h.printed k)
    rw [hreturned k] at hprinted
    simpa [printedBy, firstRequests, SecPc.finished] using hprinted
  rw [length_eq_sum_filter fun p : Request κ × Reply κ => p.1.peer]
  simp [hlength]

/-- For any number of secondaries and every run without failures, timeouts and
signals: where nothing is left to be done, everything is quiet, each secondary
has printed, in order, one reply for each iteration, which was produced for
its request, every request was counted once, and the replies report all values
of the counter, each of them once. -/
theorem session_exactly_once [Fintype κ] (hretries : 0 < cfg.maxRetries)
    {as : List (Label κ)} (hregular : ∀ a ∈ as, a.IsRegular)
    (h : (session cfg κ).exec (launch κ) as = some s)
    (hstop : ∀ a : Label κ, a.IsRegular → step cfg s a = none) :
    Quiet s ∧
      (∀ k, printedBy s k =
        (firstRequests k cfg.iterations).map fun x => (x, x)) ∧
      s.requestCount = cInt (Fintype.card κ * cfg.iterations : ℕ) ∧
      (s.printed.map fun p => p.2.reqNum).Perm
        ((List.range (Fintype.card κ * cfg.iterations)).map
          fun j : ℕ => cInt (j + 1)) := by
  have hkept := undisturbed_of_exec hretries hregular h
  have hquiet := hkept.quiet hretries hstop
  have hreplied := hkept.replied
  rw [hquiet.callback, hquiet.replies, Option.toList_none, List.append_nil,
    List.nil_append] at hreplied
  have hhandled : s.handled.length = Fintype.card κ * cfg.iterations := by
    rw [← hkept.length_printed hquiet.returned, ← length_numbered,
      ← hreplied.length_eq, List.length_map]
  refine ⟨hquiet, fun k => ?_, ?_, ?_⟩
  · rw [hkept.printed k, hquiet.returned k]
    rfl
  · rw [(reachable_inv ⟨as, h⟩).count, hhandled]
  · have hnumbers := hreplied.map Reply.reqNum
    rwa [List.map_map, map_reqNum_numbered, hhandled] at hnumbers

/-- Two secondaries that send their requests one after the other, before any
of them is answered. -/
def crossingRun : List (Label Bool) :=
  [1, 2, 3].flatMap (fun i => [.advance false, .advance true,
    .request false .sent, .request true .sent, .callback ⟨true, i⟩,
    .reply true, .callback ⟨false, i⟩, .reply true,
    .receive ⟨2 * i, ⟨false, i⟩⟩, .receive ⟨2 * i - 1, ⟨true, i⟩⟩]) ++
      [.advance true, .advance false]

theorem session_exactly_once_crossing :
    ∃ s, (multipleMsgPassing Bool).exec (launch Bool) crossingRun = some s ∧
      Quiet s ∧ s.requestCount = 6 := by
  have hend : ∃ s, (multipleMsgPassing Bool).exec (launch Bool) crossingRun =
      some s ∧ s.requests = [] ∧ s.callback = none ∧ s.replies = [] ∧
        s.secs true = .returned ∧ s.secs false = .returned :=
    ⟨_, rfl, rfl, rfl, rfl, rfl, rfl⟩
  obtain ⟨s, hexec, hrequests, hcallback, hreplies, htrue, hfalse⟩ := hend
  have hreturned : ∀ k, s.secs k = .returned := by
    rintro (_ | _)
    · exact hfalse
    · exact htrue
  have hregular : ∀ a ∈ crossingRun, a.IsRegular := by
    simp [crossingRun, Label.IsRegular]
  obtain ⟨hquiet, -, hcount, -⟩ :=
    session_exactly_once (by decide) hregular hexec (by
      intro a _
      cases a with
      | signal k => rfl
      | advance k => simp [step, advance, hreturned k]
      | request k o => simp [step, requestSync, hreturned k]
      | timeout k => simp [step, timeout, hreturned k]
      | callback req => simp [step, mpCallback, hrequests]
      | reply sent => simp [step, mpReply, hcallback]
      | receive reply => simp [step, receiveReply, hreplies])
  refine ⟨s, hexec, hquiet, hcount.trans ?_⟩
  rw [Fintype.card_bool]
  rfl

end GetStats
end DpdkFolder
