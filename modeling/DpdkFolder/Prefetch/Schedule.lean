import DpdkFolder.Prefetch.Model

/-!
# The prefetch schedule against the plain loop

The prefetches, the processed and the freed packets each form an initial
segment of the burst.  The loops only move these fronts, and the front of the
prefetches stays ahead of that of the processing.
-/

namespace DpdkFolder
namespace Prefetch

/-- The index that an event prefetches. -/
def Event.prefetched? : Event → Option ℕ
  | .prefetch0 k => some k
  | _ => none

/-- The event is no prefetch. -/
def Event.isPlain : Event → Bool
  | .prefetch0 _ => false
  | _ => true

/-- For each packet: process it; then free all. -/
def plainLoop (n : ℕ) : List Event :=
  (List.range n).map .processPacket ++ (List.range n).map .free

/-- Without its prefetches the log is that of the plain loop, each packet is
prefetched once, and before it is processed. -/
structure EquivalentToPlain (n : ℕ) (log : List Event) : Prop where
  plain : log.filter Event.isPlain = plainLoop n
  prefetched : log.filterMap Event.prefetched? = List.range n
  before : ∀ k earlier later, log = earlier ++ .processPacket k :: later →
    .prefetch0 k ∈ earlier

/-! ## Fronts -/

/-- How far the prefetches, the processing and the freeing have come. -/
structure Fronts (log : List Event) (prefetches processed freed : ℕ) :
    Prop where
  plain : log.filter Event.isPlain =
    (List.range processed).map .processPacket ++ (List.range freed).map .free
  prefetched : log.filterMap Event.prefetched? = List.range prefetches
  before : ∀ k earlier later, log = earlier ++ .processPacket k :: later →
    .prefetch0 k ∈ earlier

theorem fronts_nil : Fronts [] 0 0 0 := by
  refine ⟨rfl, rfl, ?_⟩
  intro k earlier later h
  exact absurd h.symm (List.append_ne_nil_of_right_ne_nil _
    (List.cons_ne_nil _ _))

section Fronts

variable {log : List Event} {p q r : ℕ}

/-- A processed packet of a longer log is one of the log itself, or the last
event. -/
theorem eq_of_append_singleton {e : Event} {k : ℕ}
    {earlier later : List Event}
    (h : log ++ [e] = earlier ++ .processPacket k :: later) :
    (∃ rest, log = earlier ++ .processPacket k :: rest) ∨
      (log = earlier ∧ e = .processPacket k) := by
  induction later using List.reverseRecOn with
  | nil =>
      obtain ⟨hlog, hlast⟩ := List.append_inj' h rfl
      exact Or.inr ⟨hlog, List.head_eq_of_cons_eq hlast⟩
  | append_singleton later last _ =>
      rw [← List.cons_append, ← List.append_assoc] at h
      obtain ⟨hlog, -⟩ := List.append_inj' h rfl
      exact Or.inl ⟨later, hlog⟩

theorem Fronts.mem_of_lt (h : Fronts log p q r) {k : ℕ} (hk : k < p) :
    .prefetch0 k ∈ log := by
  have hmem : k ∈ log.filterMap Event.prefetched? := by
    rw [h.prefetched]
    exact List.mem_range.mpr hk
  obtain ⟨e, he, hindex⟩ := List.mem_filterMap.mp hmem
  cases e with
  | prefetch0 j =>
      rw [← Option.some.inj hindex]
      exact he
  | processPacket j => cases hindex
  | free j => cases hindex

/-- An event other than the processing of a packet. -/
theorem Fronts.before_append (h : Fronts log p q r) {e : Event}
    (he : ∀ k, e ≠ .processPacket k) (k : ℕ) (earlier later : List Event)
    (hsplit : log ++ [e] = earlier ++ .processPacket k :: later) :
    .prefetch0 k ∈ earlier := by
  obtain ⟨rest, hlog⟩ | ⟨-, hlast⟩ := eq_of_append_singleton hsplit
  · exact h.before k earlier rest hlog
  · exact absurd hlast (he k)

theorem Fronts.prefetch0 (h : Fronts log p q r) :
    Fronts (log ++ [.prefetch0 p]) (p + 1) q r := by
  constructor
  · rw [List.filter_append, h.plain]
    exact List.append_nil _
  · rw [List.filterMap_append, h.prefetched, List.range_succ]
    rfl
  · exact h.before_append fun _ => by simp

theorem Fronts.processPacket (h : Fronts log p q 0) (hahead : q < p) :
    Fronts (log ++ [.processPacket q]) p (q + 1) 0 := by
  constructor
  · rw [List.filter_append, h.plain, List.range_succ, List.map_append]
    simp [Event.isPlain]
  · rw [List.filterMap_append, h.prefetched]
    exact List.append_nil _
  · intro k earlier later hsplit
    obtain ⟨rest, hlog⟩ | ⟨hlog, hlast⟩ := eq_of_append_singleton hsplit
    · exact h.before k earlier rest hlog
    · rw [← hlog, ← Event.processPacket.inj hlast]
      exact h.mem_of_lt hahead

theorem Fronts.free (h : Fronts log p q r) :
    Fronts (log ++ [.free r]) p q (r + 1) := by
  constructor
  · rw [List.filter_append, h.plain, List.range_succ, List.map_append]
    simp [Event.isPlain]
  · rw [List.filterMap_append, h.prefetched]
    exact List.append_nil _
  · exact h.before_append fun _ => by simp

end Fronts

/-! ## The counter -/

theorem access_of_lt {nbRx : UInt16} {k : ℕ} (hk : k < nbRx.toNat)
    (event : ℕ → Event) (s : State) :
    access nbRx (k : ℤ) event s =
      some { s with log := s.log ++ [event k] } := by
  rw [access, if_pos ⟨Int.natCast_nonneg k, Int.ofNat_lt.mpr hk⟩,
    Int.toNat_natCast]

/-- The counter does not wrap around below the length of a burst. -/
theorem next_i {nbRx : UInt16} {s : State} (h : s.i.toNat < nbRx.toNat) :
    s.next.i.toNat = s.i.toNat + 1 := by
  have hlength := nbRx.toNat_lt
  rw [State.next, UInt16.toNat_add, UInt16.toNat_one, Nat.mod_eq_of_lt]
  omega

/-- The rule for a loop that counts up to `stop`, where `P` relates the
counter and the log. -/
theorem exists_counting {nbRx : UInt16} {cond : State → Bool}
    {body : State → Option State} {stop : ℕ} (hle : stop ≤ nbRx.toNat)
    (P : ℕ → List Event → Prop)
    (hcond : ∀ s, cond s = true ↔ s.i.toNat < stop)
    (hbody : ∀ s, s.i.toNat < stop → P s.i.toNat s.log →
      ∃ log, body s = some { s.next with log } ∧ P (s.i.toNat + 1) log)
    {fuel : ℕ} (hfuel : nbRx.toNat ≤ fuel) {s : State}
    (hstart : s.i.toNat ≤ stop) (hs : P s.i.toNat s.log) :
    ∃ t, Loop.runWhile cond body fuel s = some t ∧ t.i.toNat = stop ∧
      P stop t.log := by
  have hstep : ∀ s, s.i.toNat ≤ stop ∧ P s.i.toNat s.log → cond s = true →
      ∃ t, body s = some t ∧ (t.i.toNat ≤ stop ∧ P t.i.toNat t.log) ∧
        stop - t.i.toNat < stop - s.i.toNat := by
    rintro s ⟨-, hP⟩ hgo
    have hlt := (hcond s).mp hgo
    obtain ⟨log, hrun, hnext⟩ := hbody s hlt hP
    have hi : s.next.i.toNat = s.i.toNat + 1 :=
      next_i (Nat.lt_of_lt_of_le hlt hle)
    refine ⟨_, hrun, ⟨?_, ?_⟩, ?_⟩
    · exact hi.symm ▸ hlt
    · exact hi.symm ▸ hnext
    · have hless : stop - s.next.i.toNat < stop - s.i.toNat := by
        rw [hi]
        omega
      exact hless
  have hvariant : stop - s.i.toNat ≤ fuel := by omega
  obtain ⟨t, hrun, ⟨hstop, hP⟩, hend⟩ := Loop.exists_runWhile _
    (fun s : State => stop - s.i.toNat) hstep ⟨hstart, hs⟩ hvariant
  have ht : t.i.toNat = stop := by
    have hnot : ¬t.i.toNat < stop := by
      rw [← hcond, hend]
      exact Bool.false_ne_true
    omega
  exact ⟨t, hrun, ht, ht ▸ hP⟩

/-! ## The loops -/

section Loops

variable {nbRx : UInt16} {fuel : ℕ} (hfuel : nbRx.toNat ≤ fuel)

include hfuel

/-- The initial loop moves the front of the prefetches to the distance, or to
the end of a shorter burst. -/
theorem exists_initialPrefetch {distance : ℤ} (hnonneg : 0 ≤ distance) :
    ∃ t, initialPrefetch distance nbRx fuel ⟨0, []⟩ = some t ∧
      Fronts t.log (min distance.toNat nbRx.toNat) 0 0 := by
  have hcond : ∀ s : State,
      (decide (s.iInt < distance) && decide (s.i < nbRx)) = true ↔
        s.i.toNat < min distance.toNat nbRx.toNat := by
    intro s
    rw [Bool.and_eq_true, decide_eq_true_iff, decide_eq_true_iff, State.iInt,
      UInt16.lt_iff_toNat_lt]
    omega
  have hbody : ∀ s : State,
      s.i.toNat < min distance.toNat nbRx.toNat → Fronts s.log s.i.toNat 0 0 →
        ∃ log, (access nbRx s.iInt .prefetch0 s).map State.next =
            some { s.next with log } ∧
          Fronts log (s.i.toNat + 1) 0 0 := by
    intro s hlt h
    refine ⟨s.log ++ [.prefetch0 s.i.toNat], ?_, h.prefetch0⟩
    rw [State.iInt, access_of_lt (Nat.lt_of_lt_of_le hlt
      (Nat.min_le_right _ _))]
    rfl
  obtain ⟨t, hrun, -, hfronts⟩ := exists_counting (Nat.min_le_right _ _)
    (fun i log => Fronts log i 0 0) hcond hbody hfuel (s := ⟨0, []⟩)
    (Nat.zero_le _) fronts_nil
  exact ⟨t, hrun, hfronts⟩

/-- While the main loop runs, the front of the prefetches stays the distance
ahead.  In the end all packets are prefetched. -/
theorem exists_mainProcessing {distance : ℤ} (hnonneg : 0 ≤ distance)
    (hint : distance ≤ intMax) {s : State}
    (hs : Fronts s.log (min distance.toNat nbRx.toNat) 0 0) :
    ∃ t, mainProcessing distance nbRx fuel s = some t ∧
      t.i.toNat = nbRx.toNat - distance.toNat ∧
      Fronts t.log nbRx.toNat t.i.toNat 0 := by
  obtain ⟨d, rfl⟩ := Int.eq_ofNat_of_zero_le hnonneg
  rw [Int.toNat_natCast] at hs ⊢
  have hlength := nbRx.toNat_lt
  have hmax : (intMax : ℤ) = 2147483647 := rfl
  have hsub : cInt (nbRx.toNat - (d : ℤ)) = nbRx.toNat - (d : ℤ) := by
    apply cInt_of_mem_range <;> omega
  have hcond : ∀ s : State,
      decide (s.iInt < cInt (nbRx.toNat - (d : ℤ))) = true ↔
        s.i.toNat < nbRx.toNat - d := by
    intro s
    rw [decide_eq_true_iff, hsub, State.iInt]
    omega
  have hbody : ∀ s : State, s.i.toNat < nbRx.toNat - d →
      Fronts s.log (min d nbRx.toNat + s.i.toNat) s.i.toNat 0 →
        ∃ log, (do
            let s ← access nbRx (cInt (s.iInt + d)) .prefetch0 s
            let s ← access nbRx s.iInt .processPacket s
            return s.next) = some { s.next with log } ∧
          Fronts log (min d nbRx.toNat + (s.i.toNat + 1)) (s.i.toNat + 1)
            0 := by
    intro s hlt h
    have hahead : cInt (s.iInt + d) = ((s.i.toNat + d : ℕ) : ℤ) := by
      rw [State.iInt, cInt_of_mem_range] <;> omega
    have hfront : min d nbRx.toNat + s.i.toNat = s.i.toNat + d := by omega
    rw [hfront] at h
    have hnext : min d nbRx.toNat + (s.i.toNat + 1) = s.i.toNat + d + 1 := by
      omega
    refine ⟨s.log ++ [.prefetch0 (s.i.toNat + d)] ++
      [.processPacket s.i.toNat], ?_, ?_⟩
    · rw [hahead, access_of_lt (by omega)]
      simp only [State.iInt, Option.bind_eq_bind, Option.bind_some]
      rw [access_of_lt (by omega)]
      rfl
    · rw [hnext]
      exact h.prefetch0.processPacket (by omega)
  obtain ⟨t, hrun, ht, hfronts⟩ := exists_counting (Nat.sub_le _ _)
    (fun i log => Fronts log (min d nbRx.toNat + i) i 0) hcond hbody hfuel
    (s := s.restart) (Nat.zero_le _) hs
  have hall : min d nbRx.toNat + (nbRx.toNat - d) = nbRx.toNat := by omega
  rw [hall] at hfronts
  exact ⟨t, hrun, ht, ht ▸ hfronts⟩

/-- A loop over the rest of the burst that does one thing with each packet. -/
theorem exists_restOfBurst (event : ℕ → Event)
    (P : ℕ → List Event → Prop)
    (hevent : ∀ k log, k < nbRx.toNat → P k log →
      P (k + 1) (log ++ [event k]))
    {s : State} (hi : s.i.toNat ≤ nbRx.toNat) (hs : P s.i.toNat s.log) :
    ∃ t, Loop.runWhile (fun s => s.i < nbRx)
        (fun s => (access nbRx s.iInt event s).map State.next) fuel s =
          some t ∧
      P nbRx.toNat t.log := by
  have hcond : ∀ s : State, decide (s.i < nbRx) = true ↔
      s.i.toNat < nbRx.toNat := by
    intro s
    rw [decide_eq_true_iff, UInt16.lt_iff_toNat_lt]
  have hbody : ∀ s : State, s.i.toNat < nbRx.toNat → P s.i.toNat s.log →
      ∃ log, (access nbRx s.iInt event s).map State.next =
          some { s.next with log } ∧
        P (s.i.toNat + 1) log := by
    intro s hlt h
    refine ⟨s.log ++ [event s.i.toNat], ?_, hevent _ _ hlt h⟩
    rw [State.iInt, access_of_lt hlt]
    rfl
  obtain ⟨t, hrun, -, hP⟩ := exists_counting (Nat.le_refl _) P hcond hbody
    hfuel hi hs
  exact ⟨t, hrun, hP⟩

/-- The remaining packets have all been prefetched. -/
theorem exists_remainingPackets {s : State} (hi : s.i.toNat ≤ nbRx.toNat)
    (hs : Fronts s.log nbRx.toNat s.i.toNat 0) :
    ∃ t, remainingPackets nbRx fuel s = some t ∧
      Fronts t.log nbRx.toNat nbRx.toNat 0 :=
  exists_restOfBurst hfuel .processPacket
    (fun i log => Fronts log nbRx.toNat i 0)
    (fun _ _ hlt h => h.processPacket hlt) hi hs

theorem exists_freePackets {s : State}
    (hs : Fronts s.log nbRx.toNat nbRx.toNat 0) :
    ∃ t, freePackets nbRx fuel s = some t ∧
      Fronts t.log nbRx.toNat nbRx.toNat nbRx.toNat :=
  exists_restOfBurst hfuel .free
    (fun i log => Fronts log nbRx.toNat nbRx.toNat i)
    (fun _ _ _ h => h.free) (Nat.zero_le _) hs

end Loops

/-- For every length of a burst and every distance that is a non-negative
`int`: the loops end, they access the burst only, and what they do is
equivalent to the plain loop. -/
theorem handleBurst_equivalent (nbRx : UInt16) (distance : ℤ)
    (hnonneg : 0 ≤ distance) (hint : distance ≤ intMax) {fuel : ℕ}
    (hfuel : nbRx.toNat ≤ fuel) :
    ∃ log, handleBurst distance nbRx fuel = some log ∧
      EquivalentToPlain nbRx.toNat log := by
  obtain ⟨s1, hrun1, h1⟩ := exists_initialPrefetch hfuel hnonneg
  obtain ⟨s2, hrun2, hi, h2⟩ := exists_mainProcessing hfuel hnonneg hint h1
  have hle : s2.i.toNat ≤ nbRx.toNat := hi.symm ▸ Nat.sub_le _ _
  obtain ⟨s3, hrun3, h3⟩ := exists_remainingPackets hfuel hle h2
  obtain ⟨s4, hrun4, h4⟩ := exists_freePackets hfuel h3
  refine ⟨s4.log, ?_, h4.plain, h4.prefetched, h4.before⟩
  simp [handleBurst, hrun1, hrun2, hrun3, hrun4]

/-- A full burst with the distance of the program. -/
theorem handleBurst_thirtyTwo : ∃ log,
    handleBurst prefetchOffset 32 32 = some log ∧ EquivalentToPlain 32 log :=
  handleBurst_equivalent 32 prefetchOffset (by decide) (by decide)
    (by decide)

end Prefetch
end DpdkFolder
