import Mathlib.Algebra.BigOperators.Group.Finset.Basic
import Mathlib.Algebra.Order.BigOperators.Group.Finset
import DpdkFolder.GetStats.Model

/-!
# How often a request is counted

The primary counts every run of `mp_callback`, and a secondary sends the same
request again after an attempt has failed.  A message is counted at most once,
so a logical request is counted at most as often as it was attempted.  While
it has never timed out, at most one of its messages was sent.
-/

namespace DpdkFolder
namespace GetStats

variable {κ : Type*} [DecidableEq κ] {cfg : Config} {s t : State κ}

/-- The messages of a request that have been sent: those in flight and those
that the callback has been run for. -/
def sentCount (s : State κ) (x : Request κ) : ℕ :=
  s.handled.count x + s.requests.count x

/-- How many attempts an iteration `j` can have made when its secondary
stands at the given point. -/
def SecPc.attempted (cfg : Config) (j : ℕ) : SecPc → ℕ
  | loopHead i => if j < i then cfg.maxRetries else 0
  | retryHead i retry =>
      if j < i then cfg.maxRetries else if j = i then retry else 0
  | pending i retry =>
      if j < i then cfg.maxRetries else if j = i then retry + 1 else 0
  | returned => cfg.maxRetries

/-- How many attempts of an iteration `j` can have been sent without having
timed out. -/
def SecPc.unsettled (j : ℕ) : SecPc → ℕ
  | loopHead i => if j < i then 1 else 0
  | retryHead i _ => if j < i then 1 else 0
  | pending i _ => if j ≤ i then 1 else 0
  | returned => 1

/-- The attempts of an iteration stay within the limit. -/
def SecPc.InLimit (cfg : Config) : SecPc → Prop
  | retryHead _ retry => retry ≤ cfg.maxRetries
  | pending _ retry => retry < cfg.maxRetries
  | _ => True

structure Inv (cfg : Config) (s : State κ) : Prop where
  count : s.requestCount = cInt s.handled.length
  inLimit : ∀ k, (s.secs k).InLimit cfg
  sent_le : ∀ x, sentCount s x ≤ s.attempts.count x
  attempts_le : ∀ x : Request κ,
    s.attempts.count x ≤ (s.secs x.peer).attempted cfg x.iteration
  sent_settled : ∀ x, sentCount s x ≤
    s.timeouts.count x + (s.secs x.peer).unsettled x.iteration

theorem SecPc.InLimit.attempted_le {pc : SecPc} (h : pc.InLimit cfg)
    (j : ℕ) : pc.attempted cfg j ≤ cfg.maxRetries := by
  cases pc with
  | loopHead i =>
      simp only [SecPc.attempted]
      split <;> omega
  | retryHead i retry =>
      have hle : retry ≤ cfg.maxRetries := h
      simp only [SecPc.attempted]
      split_ifs <;> omega
  | pending i retry =>
      have hlt : retry < cfg.maxRetries := h
      simp only [SecPc.attempted]
      split_ifs <;> omega
  | returned => exact Nat.le_refl _

theorem SecPc.unsettled_le (pc : SecPc) (j : ℕ) : pc.unsettled j ≤ 1 := by
  cases pc <;> simp only [SecPc.unsettled] <;> (try split) <;> omega

theorem inv_launch (cfg : Config) : Inv cfg (launch κ) where
  count := by simp [launch, cInt]
  inLimit := fun _ => trivial
  sent_le := fun _ => Nat.le_refl _
  attempts_le := fun _ => Nat.zero_le _
  sent_settled := fun _ => Nat.zero_le _

/-! ## Steps that only move a secondary -/

/-- Moving the secondary `k` keeps the invariant if the new place allows as
many attempts as the old one. -/
theorem Inv.of_move {k : κ} {pc : SecPc} (h : Inv cfg s)
    (hsecs : t.secs = Function.update s.secs k pc)
    (hcount : t.requestCount = s.requestCount)
    (hhandled : t.handled = s.handled) (hrequests : t.requests = s.requests)
    (hattempts : t.attempts = s.attempts)
    (htimeouts : ∀ x, s.timeouts.count x ≤ t.timeouts.count x)
    (hlimit : (s.secs k).InLimit cfg → pc.InLimit cfg)
    (hattempted : (s.secs k).InLimit cfg → ∀ j,
      (s.secs k).attempted cfg j ≤ pc.attempted cfg j)
    (hunsettled : ∀ j, s.timeouts.count ⟨k, j⟩ + (s.secs k).unsettled j ≤
      t.timeouts.count ⟨k, j⟩ + pc.unsettled j) : Inv cfg t := by
  have hsent : ∀ x, sentCount t x = sentCount s x := fun x => by
    rw [sentCount, hhandled, hrequests, sentCount]
  refine ⟨?_, ?_, ?_, ?_, ?_⟩
  · rw [hcount, hhandled]
    exact h.count
  · intro q
    by_cases hq : q = k
    · subst hq
      simpa [hsecs] using hlimit (h.inLimit q)
    · simpa [hsecs, hq] using h.inLimit q
  · intro x
    rw [hsent, hattempts]
    exact h.sent_le x
  · rintro ⟨q, j⟩
    rw [hattempts, hsecs]
    by_cases hq : q = k
    · subst hq
      rw [Function.update_self]
      exact (h.attempts_le ⟨q, j⟩).trans (hattempted (h.inLimit q) j)
    · rw [Function.update_of_ne hq]
      exact h.attempts_le ⟨q, j⟩
  · rintro ⟨q, j⟩
    rw [hsent, hsecs]
    by_cases hq : q = k
    · subst hq
      rw [Function.update_self]
      exact (h.sent_settled ⟨q, j⟩).trans (hunsettled j)
    · rw [Function.update_of_ne hq]
      exact (h.sent_settled ⟨q, j⟩).trans
        (Nat.add_le_add_right (htimeouts ⟨q, j⟩) _)

theorem advance_inv {k : κ} (h : Inv cfg s)
    (hstep : advance cfg s k = some t) : Inv cfg t := by
  rcases advance_cases hstep with ⟨i, hpc, hnext⟩ | ⟨i, retry, hpc, rfl⟩
  · rcases hnext with rfl | rfl
    · refine h.of_move rfl rfl rfl rfl rfl (fun _ => Nat.le_refl _) ?_ ?_ ?_
      · exact fun _ => Nat.zero_le _
      · intro _ j
        simp only [hpc, SecPc.attempted]
        split_ifs <;> omega
      · intro j
        simp [hpc, SecPc.unsettled, State.setSec]
    · refine h.of_move rfl rfl rfl rfl rfl (fun _ => Nat.le_refl _) ?_ ?_ ?_
      · exact fun _ => trivial
      · intro hlimit j
        exact hlimit.attempted_le j
      · intro j
        exact Nat.add_le_add_left (SecPc.unsettled_le _ j) _
  · refine h.of_move rfl rfl rfl rfl rfl (fun _ => Nat.le_refl _) ?_ ?_ ?_
    · exact fun _ => trivial
    · intro hlimit j
      rw [hpc] at hlimit
      have hle : retry ≤ cfg.maxRetries := hlimit
      simp only [hpc, SecPc.attempted]
      split_ifs <;> omega
    · intro j
      refine Nat.add_le_add_left ?_ _
      simp only [hpc, SecPc.unsettled]
      split_ifs <;> omega

theorem timeout_inv {k : κ} (h : Inv cfg s) (hstep : timeout s k = some t) :
    Inv cfg t := by
  obtain ⟨i, retry, hpc, rfl⟩ := timeout_cases hstep
  refine h.of_move rfl rfl rfl rfl rfl ?_ ?_ ?_ ?_
  · intro x
    rw [List.count_append]
    exact Nat.le_add_right _ _
  · intro hlimit
    rw [hpc] at hlimit
    exact Nat.succ_le_of_lt hlimit
  · intro _ j
    simp only [hpc, SecPc.attempted]
    split_ifs <;> omega
  · intro j
    simp only [hpc, SecPc.unsettled, List.count_append]
    by_cases hj : j = i
    · subst hj
      simp
    · have hne : (⟨k, i⟩ : Request κ) ≠ ⟨k, j⟩ := by simp [Ne.symm hj]
      rw [List.count_singleton]
      simp only [beq_eq_false_iff_ne.mpr hne]
      split_ifs <;> omega

theorem receiveReply_inv {reply : Reply κ} (h : Inv cfg s)
    (hstep : receiveReply s reply = some t) : Inv cfg t := by
  obtain ⟨-, ⟨i, retry, hpc, rfl⟩ | rfl⟩ := receiveReply_cases hstep
  · refine h.of_move rfl rfl rfl rfl rfl (fun _ => Nat.le_refl _) ?_ ?_ ?_
    · exact fun _ => trivial
    · intro hlimit j
      rw [hpc] at hlimit
      have hlt : retry < cfg.maxRetries := hlimit
      simp only [hpc, SecPc.attempted]
      split_ifs <;> omega
    · intro j
      refine Nat.add_le_add_left ?_ _
      simp only [hpc, SecPc.unsettled]
      split_ifs <;> omega
  · exact ⟨h.count, h.inLimit, h.sent_le, h.attempts_le, h.sent_settled⟩

/-! ## Sending and counting -/

/-- An attempt uses up one of those that the iteration can make. -/
theorem SendOutcome.attempted_next {i retry : ℕ} (o : SendOutcome)
    (hretry : retry < cfg.maxRetries) (j : ℕ) :
    (SecPc.retryHead i retry).attempted cfg j + (if j = i then 1 else 0) ≤
      (o.next i retry).attempted cfg j := by
  cases o <;> simp only [SendOutcome.next, SecPc.attempted] <;>
    split_ifs <;> omega

/-- A message that is sent is unsettled until it times out. -/
theorem SendOutcome.unsettled_next (i retry : ℕ) (o : SendOutcome) (j : ℕ) :
    (SecPc.retryHead i retry).unsettled j +
        (if o = .sent ∧ j = i then 1 else 0) ≤
      (o.next i retry).unsettled j := by
  cases o <;> simp only [SendOutcome.next, SecPc.unsettled] <;>
    split_ifs <;> simp_all <;> omega

theorem count_concat (l : List (Request κ)) (a x : Request κ) :
    (l ++ [a]).count x = l.count x + if x = a then 1 else 0 := by
  rw [List.count_append]
  by_cases hx : x = a
  · simp [hx]
  · have hnot : x ∉ [a] := by simpa using hx
    rw [if_neg hx, List.count_eq_zero_of_not_mem hnot]

theorem requestSync_inv {k : κ} {o : SendOutcome} (h : Inv cfg s)
    (hstep : requestSync cfg s k o = some t) : Inv cfg t := by
  obtain ⟨i, retry, hpc, hretry, ht⟩ := requestSync_cases hstep
  have hsecs : t.secs = Function.update s.secs k (o.next i retry) := by
    rw [ht]
    rfl
  have htimeouts : t.timeouts = s.timeouts := by rw [ht]; rfl
  have hattempts : ∀ x, t.attempts.count x =
      s.attempts.count x + if x = ⟨k, i⟩ then 1 else 0 := by
    intro x
    rw [ht]
    exact count_concat s.attempts ⟨k, i⟩ x
  have hsent : ∀ x, sentCount t x =
      sentCount s x + if o = .sent ∧ x = ⟨k, i⟩ then 1 else 0 := by
    intro x
    rw [ht]
    by_cases ho : o = .sent
    · simp only [sentCount, State.setSec, ho, if_true, count_concat, true_and]
      omega
    · simp [sentCount, State.setSec, ho]
  refine ⟨?_, ?_, ?_, ?_, ?_⟩
  · rw [ht]
    exact h.count
  · intro q
    rw [hsecs]
    by_cases hq : q = k
    · subst hq
      rw [Function.update_self]
      cases o
      · exact hretry
      · exact Nat.succ_le_of_lt hretry
      · trivial
    · rw [Function.update_of_ne hq]
      exact h.inLimit q
  · intro x
    have hle := h.sent_le x
    rw [hsent, hattempts]
    by_cases hx : x = ⟨k, i⟩
    · rw [if_pos hx]
      split <;> omega
    · simpa [hx] using hle
  · rintro ⟨q, j⟩
    have hle := h.attempts_le ⟨q, j⟩
    rw [hattempts, hsecs]
    by_cases hq : q = k
    · subst hq
      have hnext := o.attempted_next (i := i) hretry j
      simp only [hpc, Function.update_self, Request.mk.injEq,
        true_and] at hle ⊢
      omega
    · simpa [hq] using hle
  · rintro ⟨q, j⟩
    have hle := h.sent_settled ⟨q, j⟩
    rw [hsent, hsecs, htimeouts]
    by_cases hq : q = k
    · subst hq
      have hnext := o.unsettled_next i retry j
      simp only [hpc, Function.update_self, Request.mk.injEq,
        true_and] at hle ⊢
      omega
    · simpa [hq] using hle

theorem mpCallback_inv {req : Request κ} (h : Inv cfg s)
    (hstep : mpCallback s req = some t) : Inv cfg t := by
  obtain ⟨hmem, -, rfl⟩ := mpCallback_cases hstep
  have hsent : ∀ x, sentCount { s with
      requests := s.requests.erase req
      requestCount := cInt (s.requestCount + 1)
      callback := some ⟨cInt (s.requestCount + 1), req⟩
      handled := s.handled ++ [req] } x = sentCount s x := by
    intro x
    have hpos := List.count_pos_iff.mpr hmem
    by_cases hx : req = x
    · subst hx
      simp only [sentCount, List.count_append, List.count_singleton_self,
        List.count_erase_self]
      omega
    · have hne : x ≠ req := fun heq => hx heq.symm
      simp [sentCount, List.count_erase_of_ne hne, hx]
  refine ⟨?_, h.inLimit, ?_, h.attempts_le, ?_⟩
  · rw [h.count, cInt_cInt_add, List.length_append, List.length_singleton,
      Int.natCast_succ]
  · intro x
    rw [hsent]
    exact h.sent_le x
  · intro x
    rw [hsent]
    exact h.sent_settled x

theorem step_inv {a : Label κ} (h : Inv cfg s)
    (hstep : step cfg s a = some t) : Inv cfg t := by
  cases a with
  | signal k =>
      obtain rfl := signalHandler_cases hstep
      exact ⟨h.count, h.inLimit, h.sent_le, h.attempts_le, h.sent_settled⟩
  | advance k => exact advance_inv h hstep
  | request k o => exact requestSync_inv h hstep
  | timeout k => exact timeout_inv h hstep
  | callback req => exact mpCallback_inv h hstep
  | reply sent =>
      obtain ⟨reply, -, rfl⟩ := mpReply_cases hstep
      exact ⟨h.count, h.inLimit, h.sent_le, h.attempts_le, h.sent_settled⟩
  | receive reply => exact receiveReply_inv h hstep

theorem reachable_inv (h : (session cfg κ).Reachable s) : Inv cfg s :=
  h.invariant (P := Inv cfg) (inv_launch cfg)
    fun _ _ _ _ hinv hstep => step_inv hinv hstep

/-! ## The bound on the counter -/

/-- A list in which no element occurs more than once beyond its occurrences
in `m` is no longer than its number of elements and `m` together. -/
theorem length_le_card_add {α : Type*} [DecidableEq α] {l m : List α}
    {F : Finset α} (hmem : ∀ x ∈ l, x ∈ F)
    (hcount : ∀ x, l.count x ≤ m.count x + 1) :
    l.length ≤ F.card + m.length := by
  have hsub : l.toFinset ⊆ F := by
    intro x hx
    exact hmem x (List.mem_toFinset.mp hx)
  have hm : ∑ x ∈ F, m.count x ≤ m.length := by
    calc ∑ x ∈ F, m.count x
        ≤ ∑ x ∈ F ∪ m.toFinset, m.count x :=
          Finset.sum_le_sum_of_subset Finset.subset_union_left
      _ = ∑ x ∈ m.toFinset, m.count x := by
          refine (Finset.sum_subset Finset.subset_union_right ?_).symm
          intro x _ hx
          exact List.count_eq_zero_of_not_mem fun h =>
            hx (List.mem_toFinset.mpr h)
      _ = m.length := List.sum_toFinset_count_eq_length m
  calc l.length
      = ∑ x ∈ l.toFinset, l.count x :=
        (List.sum_toFinset_count_eq_length l).symm
    _ ≤ ∑ x ∈ F, l.count x := Finset.sum_le_sum_of_subset hsub
    _ ≤ ∑ x ∈ F, (m.count x + 1) := Finset.sum_le_sum fun x _ => hcount x
    _ = ∑ x ∈ F, m.count x + F.card := by
        rw [Finset.sum_add_distrib, Finset.card_eq_sum_ones]
    _ ≤ F.card + m.length := by omega

theorem Inv.handled_count_le (h : Inv cfg s) (x : Request κ) :
    s.handled.count x ≤ cfg.maxRetries ∧
      s.handled.count x ≤ s.timeouts.count x + 1 ∧
      s.handled.count x ≤ s.attempts.count x := by
  have hsent := h.sent_le x
  have hattempts := h.attempts_le x
  have hlimit := (h.inLimit x.peer).attempted_le x.iteration
  have hsettled := h.sent_settled x
  have hunsettled := (s.secs x.peer).unsettled_le x.iteration
  simp only [sentCount] at hsent hsettled
  refine ⟨?_, ?_, ?_⟩ <;> omega

theorem Inv.handled_issued (h : Inv cfg s) {x : Request κ}
    (hx : x ∈ s.handled) : x ∈ s.attempts := by
  have hpos := List.count_pos_iff.mpr hx
  have hle := (h.handled_count_le x).2.2
  exact List.count_pos_iff.mp (by omega)

/-- For any secondaries and every interleaving: the counter is the number of
callback runs, a logical request has been counted at most `maxRetries` times
and at most once more than it has timed out, and the counter is at most the
number of distinct logical requests issued plus the number of timeouts. -/
theorem requestCount_le (h : (multipleSenderMp κ).Reachable s) :
    s.requestCount = cInt s.handled.length ∧
      (∀ x, s.handled.count x ≤ maxRetries ∧
        s.handled.count x ≤ s.timeouts.count x + 1) ∧
      s.requestCount ≤
        ((s.attempts.toFinset.card + s.timeouts.length : ℕ) : ℤ) := by
  have hinv := reachable_inv h
  refine ⟨hinv.count, ?_, ?_⟩
  · intro x
    have hle := hinv.handled_count_le x
    exact ⟨hle.1, hle.2.1⟩
  · have hlength : s.handled.length ≤
        s.attempts.toFinset.card + s.timeouts.length := by
      refine length_le_card_add ?_ fun x => (hinv.handled_count_le x).2.1
      intro x hx
      exact List.mem_toFinset.mpr (hinv.handled_issued hx)
    calc s.requestCount
        = cInt s.handled.length := hinv.count
      _ ≤ s.handled.length := cInt_natCast_le _
      _ ≤ _ := by exact_mod_cast hlength

/-- The first request of the only secondary times out after the callback has
run for it, and the callback runs for the retry as well. -/
def retriedRun : List (Label Unit) :=
  [.advance (), .request () .sent, .callback ⟨(), 1⟩, .timeout (),
    .request () .sent, .reply true, .callback ⟨(), 1⟩]

theorem retriedRun_counted_twice :
    ¬∀ s, (multipleSenderMp Unit).Reachable s →
      s.requestCount ≤ s.attempts.toFinset.card := by
  intro hbound
  have hend : ∃ s, (multipleSenderMp Unit).exec (launch Unit)
      retriedRun = some s ∧ s.requestCount = 2 ∧
        s.attempts = [⟨(), 1⟩, ⟨(), 1⟩] := ⟨_, rfl, rfl, rfl⟩
  obtain ⟨s, hexec, hcount, hattempts⟩ := hend
  have hle := hbound s ⟨retriedRun, hexec⟩
  rw [hcount, hattempts] at hle
  exact absurd hle (by decide)

theorem requestCount_le_retried :
    ∃ s, (multipleSenderMp Unit).exec (launch Unit) retriedRun =
      some s ∧ s.handled.count ⟨(), 1⟩ = 2 ∧
        s.handled.count ⟨(), 1⟩ ≤ s.timeouts.count ⟨(), 1⟩ + 1 := by
  refine ⟨_, rfl, rfl, ?_⟩
  exact ((requestCount_le ⟨retriedRun, rfl⟩).2.1 ⟨(), 1⟩).2

end GetStats
end DpdkFolder
