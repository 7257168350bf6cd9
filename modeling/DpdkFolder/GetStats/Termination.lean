import DpdkFolder.GetStats.Counting

/-!
# The end of a session

Every secondary has a limited number of iterations and attempts, a pending
request may time out, and a message makes only so many steps.  A run can
therefore not go on for ever, except by signals that change nothing any more,
and it stops only when all secondaries have returned and no message is left.
-/

namespace DpdkFolder
namespace GetStats

variable {κ : Type*} [DecidableEq κ] {cfg : Config} {s t : State κ}

/-! ## What is left to be done -/

/-- The steps that an iteration may take: entering and leaving it, and for
each attempt the call, its end, and the three steps of its message. -/
def Config.iterationWork (cfg : Config) : ℕ := 5 * cfg.maxRetries + 2

/-- The steps from the head of the loop on. -/
def Config.loopWork (cfg : Config) (i : ℕ) : ℕ :=
  (cfg.iterations + 1 - i) * cfg.iterationWork + 1

/-- The steps that a secondary and the messages it will send may take. -/
def SecPc.work (cfg : Config) : SecPc → ℕ
  | loopHead i => cfg.loopWork i
  | retryHead i retry =>
      cfg.loopWork (i + 1) + 1 + 5 * (cfg.maxRetries - retry)
  | pending i retry =>
      cfg.loopWork (i + 1) + 2 + 5 * (cfg.maxRetries - (retry + 1))
  | returned => 0

/-- The steps of the messages on their way. -/
def State.messageWork (s : State κ) : ℕ :=
  3 * s.requests.length + 2 * s.callback.toList.length + s.replies.length

/-- The steps that are left. -/
def State.work [Fintype κ] (cfg : Config) (s : State κ) : ℕ :=
  ∑ k, (s.secs k).work cfg + s.messageWork

/-- A step of a secondary or of the primary. -/
def Label.IsProgress : Label κ → Bool
  | .signal _ => false
  | _ => true

/-- A step that is neither a failure nor a timeout nor a signal. -/
def Label.IsRegular : Label κ → Prop
  | .signal _ => False
  | .timeout _ => False
  | .request _ o => o = .sent
  | .reply sent => sent = true
  | _ => True

/-- All secondaries have returned and no message is left. -/
structure Quiet (s : State κ) : Prop where
  returned : ∀ k, s.secs k = .returned
  requests : s.requests = []
  callback : s.callback = none
  replies : s.replies = []

/-! ## Steps -/

theorem loopWork_of_le {i : ℕ} (h : i ≤ cfg.iterations) :
    cfg.loopWork i = cfg.loopWork (i + 1) + cfg.iterationWork := by
  have hsucc : cfg.iterations + 1 - i = cfg.iterations + 1 - (i + 1) + 1 := by
    omega
  rw [Config.loopWork, Config.loopWork, hsucc, Nat.succ_mul]
  omega

/-- A secondary that enters an iteration has the work for it. -/
theorem advance_work {k : κ} (h : advance cfg s k = some t) :
    ∃ pc, t = s.setSec k pc ∧ pc.work cfg + 1 ≤ (s.secs k).work cfg := by
  cases hpc : s.secs k with
  | loopHead i =>
      simp only [advance, hpc, Option.some.injEq] at h
      subst h
      refine ⟨_, rfl, ?_⟩
      split
      · next henter =>
          have hloop := loopWork_of_le henter.1
          simp only [SecPc.work, Nat.sub_zero, hloop, Config.iterationWork]
          omega
      · exact Nat.le_add_left 1 _
  | retryHead i retry =>
      simp only [advance, hpc] at h
      split at h
      · cases h
      · refine ⟨_, (Option.some.inj h).symm, ?_⟩
        simp only [SecPc.work]
        omega
  | pending i retry => simp [advance, hpc] at h
  | returned => simp [advance, hpc] at h

theorem SendOutcome.work_next {i retry : ℕ} (o : SendOutcome)
    (hretry : retry < cfg.maxRetries) :
    (o.next i retry).work cfg + 3 * (if o = .sent then 1 else 0) + 1 ≤
      (SecPc.retryHead i retry).work cfg := by
  cases o with
  | sent =>
      simp only [SendOutcome.next, SecPc.work, if_true]
      omega
  | failed | unreachable =>
      simp only [SendOutcome.next, SecPc.work, reduceCtorEq, if_false]
      omega

section Finite

variable [Fintype κ]

/-- When a secondary moves, the work of all changes by what its own does. -/
theorem sum_work_update {k : κ} {pc : SecPc} {n : ℕ}
    (h : pc.work cfg + n ≤ (s.secs k).work cfg) :
    ∑ q, (Function.update s.secs k pc q).work cfg + n ≤
      ∑ q, (s.secs q).work cfg := by
  have hmem := Finset.mem_univ k
  rw [← Finset.add_sum_erase _ _ hmem,
    ← Finset.add_sum_erase _ (fun q => (s.secs q).work cfg) hmem,
    Function.update_self]
  have hrest : ∑ q ∈ Finset.univ.erase k,
      (Function.update s.secs k pc q).work cfg =
        ∑ q ∈ Finset.univ.erase k, (s.secs q).work cfg := by
    apply Finset.sum_congr rfl
    intro q hq
    rw [Function.update_of_ne (Finset.ne_of_mem_erase hq)]
  omega

/-- Every step of a secondary or of the primary uses up some work. -/
theorem step_work {a : Label κ} (h : step cfg s a = some t) :
    t.work cfg + (if a.IsProgress = true then 1 else 0) ≤ s.work cfg := by
  cases a with
  | signal k =>
      obtain rfl := signalHandler_cases h
      exact le_rfl
  | advance k =>
      obtain ⟨pc, rfl, hpc⟩ := advance_work h
      have hsum := sum_work_update hpc
      simp only [State.work, State.messageWork, State.setSec,
        Label.IsProgress, if_true] at hsum ⊢
      omega
  | request k o =>
      obtain ⟨i, retry, hpc, hretry, rfl⟩ := requestSync_cases h
      have hnext := o.work_next (i := i) hretry
      rw [← hpc, Nat.add_assoc] at hnext
      have hsum := sum_work_update hnext
      have hlength : (if o = .sent then s.requests ++ [⟨k, i⟩]
          else s.requests).length =
            s.requests.length + if o = .sent then 1 else 0 := by
        split <;> simp
      simp only [State.work, State.messageWork, State.setSec,
        Label.IsProgress, if_true, hlength] at hsum ⊢
      omega
  | timeout k =>
      obtain ⟨i, retry, hpc, rfl⟩ := timeout_cases h
      have hnext : (SecPc.retryHead i (retry + 1)).work cfg + 1 ≤
          (s.secs k).work cfg := by
        rw [hpc]
        simp only [SecPc.work]
        omega
      have hsum := sum_work_update hnext
      simp only [State.work, State.messageWork, State.setSec,
        Label.IsProgress, if_true] at hsum ⊢
      omega
  | callback req =>
      obtain ⟨hmem, hnone, rfl⟩ := mpCallback_cases h
      have hlength := List.length_erase_add_one hmem
      simp only [State.work, State.messageWork, Label.IsProgress, if_true,
        hnone, Option.toList_some, Option.toList_none, List.length_nil,
        List.length_singleton]
      omega
  | reply sent =>
      obtain ⟨reply, hsome, rfl⟩ := mpReply_cases h
      have hlength : (if sent = true then s.replies ++ [reply]
          else s.replies).length ≤ s.replies.length + 1 := by
        split <;> simp
      simp only [State.work, State.messageWork, Label.IsProgress, if_true,
        hsome, Option.toList_some, Option.toList_none, List.length_nil,
        List.length_singleton]
      omega
  | receive reply =>
      obtain ⟨hmem, hcase⟩ := receiveReply_cases h
      have hlength := List.length_erase_add_one hmem
      obtain ⟨i, retry, hpc, rfl⟩ | rfl := hcase
      · have hnext : (SecPc.loopHead (i + 1)).work cfg + 1 ≤
            (s.secs reply.request.peer).work cfg := by
          rw [hpc]
          simp only [SecPc.work]
          omega
        have hsum := sum_work_update hnext
        simp only [State.work, State.messageWork, State.setSec,
          Label.IsProgress, if_true] at hsum ⊢
        omega
      · simp only [State.work, State.messageWork, Label.IsProgress, if_true]
        omega

omit [DecidableEq κ] in
theorem launch_work (cfg : Config) : (launch κ).work cfg =
    Fintype.card κ * (cfg.iterations * cfg.iterationWork + 1) := by
  simp [State.work, State.messageWork, launch, SecPc.work, Config.loopWork]

end Finite

/-! ## Where a run stops -/

theorem exists_secondary_step (cfg : Config) {k : κ}
    (h : s.secs k ≠ .returned) :
    ∃ a : Label κ, a.IsProgress = true ∧ step cfg s a ≠ none := by
  cases hpc : s.secs k with
  | loopHead i =>
      refine ⟨.advance k, rfl, ?_⟩
      simp [step, advance, hpc]
  | retryHead i retry =>
      by_cases hretry : retry < cfg.maxRetries ∧ s.forceQuit k = false
      · refine ⟨.request k .failed, rfl, ?_⟩
        simp [step, requestSync, hpc, hretry]
      · refine ⟨.advance k, rfl, ?_⟩
        simp only [step, advance, hpc, if_neg hretry]
        exact Option.some_ne_none _
  | pending i retry =>
      refine ⟨.timeout k, rfl, ?_⟩
      simp [step, timeout, hpc]
  | returned => exact absurd hpc h

omit [DecidableEq κ] in
theorem Label.IsRegular.isProgress {a : Label κ} (h : a.IsRegular) :
    a.IsProgress = true := by
  cases a with
  | signal k => cases h
  | _ => rfl

theorem exists_message_step (cfg : Config) (h : s.messageWork ≠ 0) :
    ∃ a : Label κ, a.IsRegular ∧ step cfg s a ≠ none := by
  cases hcallback : s.callback with
  | some reply =>
      refine ⟨.reply true, rfl, ?_⟩
      simp [step, mpReply, hcallback]
  | none =>
      cases hrequests : s.requests with
      | cons req rest =>
          refine ⟨.callback req, trivial, ?_⟩
          simp [step, mpCallback, hcallback, hrequests]
      | nil =>
          cases hreplies : s.replies with
          | cons reply rest =>
              refine ⟨.receive reply, trivial, ?_⟩
              simp only [step, receiveReply, hreplies, List.mem_cons,
                true_or, if_true]
              split <;> exact Option.some_ne_none _
          | nil =>
              simp [State.messageWork, hcallback, hrequests, hreplies] at h

/-- Only a quiet state has no next step. -/
theorem quiet_of_stuck
    (h : ∀ a : Label κ, a.IsProgress = true → step cfg s a = none) :
    Quiet s := by
  have hmessages : s.messageWork = 0 := by
    by_contra hne
    obtain ⟨a, hregular, hstep⟩ := exists_message_step cfg hne
    exact hstep (h a hregular.isProgress)
  rw [State.messageWork] at hmessages
  refine ⟨?_, List.eq_nil_of_length_eq_zero (by omega),
    Option.toList_eq_nil_iff.mp (List.eq_nil_of_length_eq_zero (by omega)),
    List.eq_nil_of_length_eq_zero (by omega)⟩
  intro k
  by_contra hne
  obtain ⟨a, hprogress, hstep⟩ := exists_secondary_step cfg hne
  exact hstep (h a hprogress)

/-- For any number of secondaries and every run: the secondaries and the
primary take a limited number of steps altogether, and where none of them can
take another one, every secondary has returned, every message sent has been
handled and every reply received, and the counter is the number of callback
runs. -/
theorem session_terminates [Fintype κ] {as : List (Label κ)}
    (h : (session cfg κ).exec (launch κ) as = some s) :
    as.countP Label.IsProgress ≤
        Fintype.card κ * (cfg.iterations * (5 * cfg.maxRetries + 2) + 1) ∧
      ((∀ a : Label κ, a.IsProgress = true → step cfg s a = none) →
        Quiet s ∧ s.requestCount = cInt s.handled.length) := by
  constructor
  · have hcount := TransitionSystem.countP_add_rank_le (State.work cfg)
      Label.IsProgress (fun _ _ _ _ hstep => step_work hstep)
      TransitionSystem.reachable_start h
    have hstart : (session cfg κ).start.work cfg = _ := launch_work cfg
    rw [hstart] at hcount
    exact (Nat.le_add_right _ _).trans hcount
  · intro hstuck
    exact ⟨quiet_of_stuck hstuck, (reachable_inv ⟨as, h⟩).count⟩

/-- One secondary whose requests are all answered at once. -/
def answeredRun : List (Label Unit) :=
  [1, 2, 3].flatMap (fun i => [.advance (), .request () .sent,
    .callback ⟨(), i⟩, .reply true, .receive ⟨i, ⟨(), i⟩⟩]) ++ [.advance ()]

theorem session_terminates_answeredRun :
    ∃ s, (multipleSenderMp Unit).exec (launch Unit) answeredRun = some s ∧
      answeredRun.countP Label.IsProgress ≤
        Fintype.card Unit * (3 * (5 * maxRetries + 2) + 1) ∧
      Quiet s ∧ s.requestCount = 3 := by
  have hend : ∃ s, (multipleSenderMp Unit).exec (launch Unit) answeredRun =
      some s ∧ s.secs () = .returned ∧ s.requests = [] ∧
        s.callback = none ∧ s.replies = [] ∧ s.requestCount = 3 :=
    ⟨_, rfl, rfl, rfl, rfl, rfl, rfl⟩
  obtain ⟨s, hexec, hpc, hrequests, hcallback, hreplies, hcount⟩ := hend
  obtain ⟨hsteps, hquiet⟩ := session_terminates hexec
  refine ⟨s, hexec, hsteps, (hquiet ?_).1, hcount⟩
  intro a hprogress
  cases a with
  | signal k => cases hprogress
  | advance k => simp [step, advance, hpc]
  | request k o => simp [step, requestSync, hpc]
  | timeout k => simp [step, timeout, hpc]
  | callback req => simp [step, mpCallback, hrequests]
  | reply sent => simp [step, mpReply, hcallback]
  | receive reply => simp [step, receiveReply, hreplies]

end GetStats
end DpdkFolder
