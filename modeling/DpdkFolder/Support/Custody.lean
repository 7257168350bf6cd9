import Mathlib.Data.List.Induction
import Mathlib.Data.List.Nodup
import DpdkFolder.Support.TransitionSystem

/-!
# Custody of resources

A trace records what a program does with its resources: it acquires one,
touches one, or gives one up.  A trace is disciplined when nothing is touched
or given up outside of the custody of the program, nothing is acquired twice
without being given up in between, and in the end everything acquired has
been given up.

Custody is defined by counting in the past of an event.  The custodian is the
automaton that carries the resources in custody along; it accepts exactly the
disciplined traces, and its rules are what proofs about programs use.
-/

/-- An account of `xs` that lacks only `missing` is complete exactly if
nothing is missing. -/
theorem List.Perm.perm_iff_eq_nil {ρ : Type*} {xs ys missing : List ρ}
    (h : xs.Perm (ys ++ missing)) : xs.Perm ys ↔ missing = [] := by
  constructor
  · intro hcomplete
    have hsame : (ys ++ missing).Perm (ys ++ []) := by
      rw [List.append_nil]
      exact h.symm.trans hcomplete
    exact ((List.perm_append_left_iff ys).mp hsame).eq_nil
  · intro hnone
    rwa [hnone, List.append_nil] at h

/-- What a program does with a resource of `ρ`. -/
inductive CustodyEvent (ρ : Type*)
  | acquire (x : ρ)
  | touch (x : ρ)
  | release (x : ρ)
deriving DecidableEq, Repr

namespace CustodyEvent

variable {ρ : Type*} [DecidableEq ρ]

/-- `x` has been acquired more often than released. -/
def InCustody (past : List (CustodyEvent ρ)) (x : ρ) : Prop :=
  past.count (.release x) < past.count (.acquire x)

/-- The event may follow the given past. -/
def Allowed (past : List (CustodyEvent ρ)) : CustodyEvent ρ → Prop
  | acquire x => ¬InCustody past x
  | touch x => InCustody past x
  | release x => InCustody past x

/-- A trace whose events are all allowed at their places and after which
everything acquired has been released. -/
structure Disciplined (trace : List (CustodyEvent ρ)) : Prop where
  allowed : ∀ past e future, trace = past ++ e :: future → Allowed past e
  settled : ∀ x, trace.count (.release x) = trace.count (.acquire x)

/-! ## The custodian -/

/-- The automaton over the list of resources in custody. -/
def custodian (ρ : Type*) [DecidableEq ρ] :
    TransitionSystem (List ρ) (CustodyEvent ρ) where
  start := []
  step held
    | acquire x => if x ∈ held then none else some (held ++ [x])
    | touch x => if x ∈ held then some held else none
    | release x => if x ∈ held then some (held.erase x) else none

theorem step_acquire {held : List ρ} {x : ρ} (h : x ∉ held) :
    (custodian ρ).step held (acquire x) = some (held ++ [x]) := if_neg h

theorem step_touch {held : List ρ} {x : ρ} (h : x ∈ held) :
    (custodian ρ).step held (touch x) = some held := if_pos h

theorem step_release {held : List ρ} {x : ρ} (h : x ∈ held) :
    (custodian ρ).step held (release x) = some (held.erase x) := if_pos h

/-- The list `held` is what the past has left in custody. -/
def Keeps (past : List (CustodyEvent ρ)) (held : List ρ) : Prop :=
  held.Nodup ∧
    ∀ x, past.count (.release x) + held.count x = past.count (.acquire x)

theorem Keeps.inCustody_iff {past : List (CustodyEvent ρ)} {held : List ρ}
    (h : Keeps past held) (x : ρ) : InCustody past x ↔ x ∈ held := by
  have hcount := h.2 x
  rw [InCustody, ← List.count_pos_iff]
  omega

theorem Keeps.eq_nil_iff {past : List (CustodyEvent ρ)} {held : List ρ}
    (h : Keeps past held) :
    held = [] ↔ ∀ x, past.count (.release x) = past.count (.acquire x) := by
  constructor
  · rintro rfl x
    simpa using h.2 x
  · intro hsettled
    rw [List.eq_nil_iff_forall_not_mem]
    intro x hx
    have hpos := List.count_pos_iff.mpr hx
    have hcount := h.2 x
    have hequal := hsettled x
    omega

/-- The custodian takes exactly the allowed events. -/
theorem Keeps.step_isSome_iff {past : List (CustodyEvent ρ)} {held : List ρ}
    (h : Keeps past held) (e : CustodyEvent ρ) :
    ((custodian ρ).step held e).isSome ↔ Allowed past e := by
  cases e with
  | acquire x =>
      rw [Allowed, h.inCustody_iff]
      by_cases hx : x ∈ held <;> simp [custodian, hx]
  | touch x =>
      rw [Allowed, h.inCustody_iff]
      by_cases hx : x ∈ held <;> simp [custodian, hx]
  | release x =>
      rw [Allowed, h.inCustody_iff]
      by_cases hx : x ∈ held <;> simp [custodian, hx]

theorem Keeps.step {past : List (CustodyEvent ρ)} {held held' : List ρ}
    {e : CustodyEvent ρ} (h : Keeps past held)
    (hstep : (custodian ρ).step held e = some held') :
    Keeps (past ++ [e]) held' := by
  obtain ⟨hnodup, hcount⟩ := h
  cases e with
  | acquire x =>
      by_cases hx : x ∈ held
      · simp [custodian, hx] at hstep
      · simp only [custodian, hx, if_false, Option.some.injEq] at hstep
        subst hstep
        constructor
        · rw [List.nodup_append]
          refine ⟨hnodup, List.nodup_singleton x, ?_⟩
          intro y hy z hz
          rw [List.mem_singleton.mp hz]
          exact fun hyx => hx (hyx ▸ hy)
        · intro y
          have hy := hcount y
          by_cases hxy : x = y <;> simp [hxy] <;> omega
  | touch x =>
      by_cases hx : x ∈ held
      · simp only [custodian, hx, if_true, Option.some.injEq] at hstep
        subst hstep
        exact ⟨hnodup, fun y => by simpa using hcount y⟩
      · simp [custodian, hx] at hstep
  | release x =>
      by_cases hx : x ∈ held
      · simp only [custodian, hx, if_true, Option.some.injEq] at hstep
        subst hstep
        refine ⟨hnodup.erase x, ?_⟩
        intro y
        have hy := hcount y
        have hpos := List.count_pos_iff.mpr hx
        by_cases hxy : x = y
        · subst hxy
          simp only [List.count_append, List.count_singleton_self,
            List.count_erase_self]
          simp
          omega
        · have hyx : y ≠ x := fun h => hxy h.symm
          rw [List.count_erase_of_ne hyx]
          simp [hxy]
          omega
      · simp [custodian, hx] at hstep

theorem keeps_of_exec {trace : List (CustodyEvent ρ)} {held : List ρ}
    (h : (custodian ρ).exec [] trace = some held) : Keeps trace held := by
  induction trace using List.reverseRecOn generalizing held with
  | nil =>
      simp only [TransitionSystem.exec_nil, Option.some.injEq] at h
      subst h
      exact ⟨List.nodup_nil, by simp⟩
  | append_singleton trace e ih =>
      rw [TransitionSystem.exec_append, Option.bind_eq_some_iff] at h
      obtain ⟨mid, hmid, hlast⟩ := h
      exact (ih hmid).step (by simpa using hlast)

/-- The custodian gets through a trace exactly if every event of it is
allowed at its place. -/
theorem exec_isSome_iff (trace : List (CustodyEvent ρ)) :
    ((custodian ρ).exec [] trace).isSome ↔
      ∀ past e future, trace = past ++ e :: future → Allowed past e := by
  induction trace using List.reverseRecOn with
  | nil => simp
  | append_singleton trace e ih =>
      rw [TransitionSystem.exec_append]
      cases hrun : (custodian ρ).exec [] trace with
      | none =>
          rw [hrun] at ih
          simp only [Option.bind_none, Option.isSome_none, Bool.false_eq_true,
            false_iff] at ih ⊢
          intro hall
          apply ih
          intro past f future heq
          apply hall past f (future ++ [e])
          rw [heq, List.append_assoc, List.cons_append]
      | some held =>
          rw [hrun] at ih
          have hkeeps := keeps_of_exec hrun
          have hleading := ih.mp rfl
          simp only [Option.bind_some]
          have hlast : ((custodian ρ).exec held [e]).isSome ↔
              Allowed trace e := by
            rw [← hkeeps.step_isSome_iff e]
            simp
          rw [hlast]
          constructor
          · intro he past f future heq
            rcases List.eq_nil_or_concat' future with rfl | ⟨init, last, rfl⟩
            · obtain ⟨rfl, hfe⟩ := List.append_inj' heq rfl
              obtain rfl : e = f := by simpa using hfe
              exact he
            · rw [← List.cons_append, ← List.append_assoc] at heq
              obtain ⟨htrace, -⟩ := List.append_inj' heq rfl
              exact hleading past f init htrace
          · intro hall
            exact hall trace e [] rfl

/-- The disciplined traces are the ones after which the custodian holds
nothing. -/
theorem disciplined_iff_exec (trace : List (CustodyEvent ρ)) :
    Disciplined trace ↔ (custodian ρ).exec [] trace = some [] := by
  constructor
  · rintro ⟨hallowed, hsettled⟩
    obtain ⟨held, hrun⟩ :=
      Option.isSome_iff_exists.mp ((exec_isSome_iff trace).mpr hallowed)
    rw [hrun, (keeps_of_exec hrun).eq_nil_iff.mpr hsettled]
  · intro hrun
    refine ⟨(exec_isSome_iff trace).mp (by rw [hrun]; rfl), ?_⟩
    exact (keeps_of_exec hrun).eq_nil_iff.mp rfl

instance (trace : List (CustodyEvent ρ)) : Decidable (Disciplined trace) :=
  decidable_of_iff _ (disciplined_iff_exec trace).symm

/-! ## Rules for programs -/

theorem exec_acquire_all {held xs : List ρ} (h : (held ++ xs).Nodup) :
    (custodian ρ).exec held (xs.map acquire) = some (held ++ xs) := by
  induction xs generalizing held with
  | nil => simp
  | cons x xs ih =>
      have hx : x ∉ held := by
        intro hmem
        exact (List.nodup_append.mp h).2.2 x hmem x (by simp) rfl
      rw [List.append_cons] at h
      rw [List.map_cons, TransitionSystem.exec_cons, step_acquire hx,
        Option.bind_some, ih h, ← List.append_cons]

theorem exec_touch_all {held xs : List ρ} (h : ∀ x ∈ xs, x ∈ held) :
    (custodian ρ).exec held (xs.map touch) = some held := by
  induction xs with
  | nil => rfl
  | cons x xs ih =>
      have hx : x ∈ held := h x List.mem_cons_self
      have hrest : ∀ y ∈ xs, y ∈ held := fun y hy =>
        h y (List.mem_cons_of_mem x hy)
      rw [List.map_cons, TransitionSystem.exec_cons, step_touch hx,
        Option.bind_some, ih hrest]

theorem exec_release_all (xs held : List ρ) :
    (custodian ρ).exec (xs ++ held) (xs.map release) = some held := by
  induction xs with
  | nil => rfl
  | cons x xs ih =>
      have hx : x ∈ x :: xs ++ held := List.mem_cons_self
      rw [List.map_cons, TransitionSystem.exec_cons, step_release hx,
        Option.bind_some, List.cons_append, List.erase_cons_head, ih]

theorem exec_touch_none {held : List ρ} {x : ρ}
    {rest : List (CustodyEvent ρ)} (h : x ∉ held) :
    (custodian ρ).exec held (touch x :: rest) = none := by
  have hstep : (custodian ρ).step held (touch x) = none := if_neg h
  rw [TransitionSystem.exec_cons, hstep, Option.bind_none]

end CustodyEvent
