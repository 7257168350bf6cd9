import Mathlib.Algebra.GroupWithZero.Nat
import DpdkFolder.Support.TransitionSystem

/-!
# The packet meter of prefetch

`lcore_main` counts the packets of each poll and prints how many came since
the last report, once more than `hz` cycles have passed.  An empty poll goes
back to the start of the loop and does not look at the timer, so a report that
has become due during an idle period waits for the next packet.
-/

namespace DpdkFolder
namespace Prefetch

/-- `BURST_SIZE`. -/
def burstSize : UInt16 := 32

/-- One turn of the loop: what `rte_eth_rx_burst` returns, and the reading of
the timer, which the program takes only if there are packets. -/
structure Poll where
  nbRx : UInt16
  now : UInt64
deriving DecidableEq, Repr

/-- The packets that some polls have received. -/
def packets (polls : List Poll) : ℕ := (polls.map fun p => p.nbRx.toNat).sum

/-- A printed value, when its window began, and the polls of the window. -/
structure Report where
  value : UInt64
  start : UInt64
  polls : List Poll
deriving DecidableEq, Repr

/-- The poll comes more than `hz` cycles after a reading of the timer. -/
def Poll.Late (hz start : UInt64) (p : Poll) : Prop :=
  start.toNat + hz.toNat < p.now.toNat

instance (hz start : UInt64) (p : Poll) : Decidable (p.Late hz start) :=
  inferInstanceAs (Decidable (_ < _))

/-- The value is the number of packets received in the window, and the window
ends with the first poll that comes more than `hz` cycles after its
beginning. -/
structure Report.Covers (hz : UInt64) (r : Report) : Prop where
  counted : r.value.toNat = packets r.polls
  ends : ∃ earlier last, r.polls = earlier ++ [last] ∧
    last.Late hz r.start ∧ ∀ p ∈ earlier, ¬p.Late hz r.start

/-- The variables of the meter, the last reading of the timer, the polls since
the window began, and what has been printed. -/
structure MeterState where
  total : UInt64
  last : UInt64
  start : UInt64
  clock : UInt64
  window : List Poll
  reports : List Report
deriving DecidableEq, Repr

/-- The state before the loop. -/
def enterLoop (start : UInt64) : MeterState where
  total := 0
  last := 0
  start := start
  clock := start
  window := []
  reports := []

/-- The timer is read and the poll belongs to the current window. -/
def MeterState.polled (s : MeterState) (p : Poll) : MeterState :=
  { s with clock := p.now, window := s.window ++ [p] }

/-- What is printed after a poll. -/
def MeterState.report (s : MeterState) (p : Poll) : Report where
  value := s.total + p.nbRx.toUInt64 - s.last
  start := s.start
  polls := s.window ++ [p]

/-- One turn of the loop of `lcore_main`. -/
def lcoreMain (hz : UInt64) (s : MeterState) (p : Poll) :
    Option MeterState :=
  if p.nbRx ≤ burstSize ∧ s.clock ≤ p.now then
    if p.nbRx = 0 then some (s.polled p)
    else
      let total := s.total + p.nbRx.toUInt64
      if p.now - s.start > hz then
        some
          { total
            last := total
            start := p.now
            clock := p.now
            window := []
            reports := s.reports ++ [s.report p] }
      else some { s.polled p with total }
  else none

/-- The meter, from the reading of the timer before the loop on. -/
def meter (hz start : UInt64) : TransitionSystem MeterState Poll where
  start := enterLoop start
  step := lcoreMain hz

/-- The condition on a poll: an empty one is not late, and a late one does not
bring the packets of the window to more than a `uint64_t` holds. -/
def Timely (hz : UInt64) (s : MeterState) (p : Poll) : Prop :=
  (p.nbRx = 0 → ¬p.Late hz s.start) ∧
    (p.nbRx ≠ 0 → p.Late hz s.start → packets (s.window ++ [p]) < 2 ^ 64)

instance (hz : UInt64) (s : MeterState) (p : Poll) :
    Decidable (Timely hz s p) := inferInstanceAs (Decidable (_ ∧ _))

/-- Some report does not cover its window, or the next one will not. -/
def Doomed (hz : UInt64) (s : MeterState) : Prop :=
  (∃ r ∈ s.reports, ¬r.Covers hz) ∨ ∃ p ∈ s.window, p.Late hz s.start

/-! ## The variables of the meter -/

/-- What holds in every state: no reading of the timer lies before the window,
none behind the last one, and the packets of the window are those not yet
reported. -/
structure MeterInv (s : MeterState) : Prop where
  start_le : s.start ≤ s.clock
  now_le : ∀ p ∈ s.window, p.now ≤ s.clock
  total_eq : s.total = UInt64.ofNat (packets s.window) + s.last

theorem packets_append (polls : List Poll) (p : Poll) :
    packets (polls ++ [p]) = packets polls + p.nbRx.toNat := by
  simp [packets]

variable {hz start : UInt64} {s t : MeterState} {p : Poll}

/-- The comparison of the program, which does not wrap around. -/
theorem hz_lt_sub_iff (h : s.start ≤ p.now) :
    p.now - s.start > hz ↔ p.Late hz s.start := by
  have hle := UInt64.le_iff_toNat_le.mp h
  rw [gt_iff_lt, UInt64.lt_iff_toNat_lt, UInt64.toNat_sub_of_le _ _ h,
    Poll.Late]
  omega

/-- The packets counted after a poll. -/
theorem MeterInv.total_add (h : MeterInv s) (p : Poll) :
    s.total + p.nbRx.toUInt64 =
      UInt64.ofNat (packets (s.window ++ [p])) + s.last := by
  rw [h.total_eq, packets_append, UInt64.ofNat_add, UInt64.ofNat_uInt16ToNat,
    UInt64.add_assoc, UInt64.add_assoc, UInt64.add_comm s.last]

/-- What one turn of the loop can do. -/
theorem lcoreMain_cases (hinv : MeterInv s)
    (h : lcoreMain hz s p = some t) :
    s.clock ≤ p.now ∧
      ((p.nbRx = 0 ∧ t = s.polled p) ∨
        (p.nbRx ≠ 0 ∧ p.Late hz s.start ∧
          t = ⟨s.total + p.nbRx.toUInt64, s.total + p.nbRx.toUInt64, p.now,
            p.now, [], s.reports ++ [s.report p]⟩) ∨
        (p.nbRx ≠ 0 ∧ ¬p.Late hz s.start ∧
          t = { s.polled p with total := s.total + p.nbRx.toUInt64 })) := by
  rw [lcoreMain] at h
  split at h
  · next henabled =>
      refine ⟨henabled.2, ?_⟩
      have hdue : p.now - s.start > hz ↔ p.Late hz s.start :=
        hz_lt_sub_iff (UInt64.le_trans hinv.start_le henabled.2)
      split at h
      · next hempty => exact Or.inl ⟨hempty, (Option.some.inj h).symm⟩
      · next hbusy =>
          refine Or.inr ?_
          split at h
          · next hlate =>
              exact Or.inl ⟨hbusy, hdue.mp hlate, (Option.some.inj h).symm⟩
          · next hearly =>
              exact Or.inr ⟨hbusy, mt hdue.mpr hearly,
                (Option.some.inj h).symm⟩
  · cases h

theorem lcoreMain_inv (hinv : MeterInv s)
    (h : lcoreMain hz s p = some t) : MeterInv t := by
  obtain ⟨hclock, hcases⟩ := lcoreMain_cases hinv h
  have hstart := UInt64.le_trans hinv.start_le hclock
  have hwindow : ∀ q ∈ s.window ++ [p], q.now ≤ p.now := by
    intro q hq
    obtain hq | hq := List.mem_append.mp hq
    · exact UInt64.le_trans (hinv.now_le q hq) hclock
    · rw [List.mem_singleton.mp hq]
      exact UInt64.le_refl _
  obtain ⟨hempty, rfl⟩ | ⟨-, -, rfl⟩ | ⟨-, -, rfl⟩ := hcases
  · refine ⟨hstart, hwindow, ?_⟩
    have htotal := hinv.total_add p
    rw [hempty] at htotal
    exact (UInt64.add_zero _).symm.trans htotal
  · refine ⟨UInt64.le_refl _, fun q hq => absurd hq List.not_mem_nil, ?_⟩
    exact (UInt64.zero_add _).symm
  · exact ⟨hstart, hwindow, hinv.total_add p⟩

theorem enterLoop_inv (start : UInt64) : MeterInv (enterLoop start) :=
  ⟨UInt64.le_refl _, fun _ hq => absurd hq List.not_mem_nil, rfl⟩

theorem reachable_meterInv (h : (meter hz start).Reachable s) :
    MeterInv s :=
  h.invariant (enterLoop_inv start) fun _ _ _ _ => lcoreMain_inv

/-! ## When a report covers its window -/

/-- The report after a poll that is late. -/
theorem report_covers_iff (hinv : MeterInv s) (hlate : p.Late hz s.start) :
    (s.report p).Covers hz ↔
      packets (s.window ++ [p]) < 2 ^ 64 ∧
        ∀ q ∈ s.window, ¬q.Late hz s.start := by
  have hvalue : (s.report p).value.toNat =
      packets (s.window ++ [p]) % 2 ^ 64 := by
    rw [MeterState.report, hinv.total_add, UInt64.add_sub_cancel,
      UInt64.toNat_ofNat']
  constructor
  · rintro ⟨hcounted, earlier, last, hpolls, -, hearlier⟩
    obtain ⟨hwindow, -⟩ := List.append_inj' hpolls rfl
    rw [hvalue] at hcounted
    have hlt : packets (s.window ++ [p]) % 2 ^ 64 < 2 ^ 64 :=
      Nat.mod_lt _ (Nat.two_pow_pos 64)
    refine ⟨hcounted ▸ hlt, ?_⟩
    rw [hwindow]
    exact hearlier
  · rintro ⟨hlt, hwindow⟩
    refine ⟨?_, s.window, p, rfl, hlate, hwindow⟩
    rw [hvalue, Nat.mod_eq_of_lt hlt]
    rfl

theorem not_doomed_iff (hz : UInt64) (s : MeterState) :
    ¬Doomed hz s ↔
      (∀ r ∈ s.reports, r.Covers hz) ∧ ∀ q ∈ s.window, ¬q.Late hz s.start := by
  simp [Doomed]

/-- A step leads to a state that is not doomed exactly if it starts in one and
is timely. -/
theorem not_doomed_step_iff (hinv : MeterInv s)
    (h : lcoreMain hz s p = some t) :
    ¬Doomed hz t ↔ ¬Doomed hz s ∧ Timely hz s p := by
  obtain ⟨-, hcases⟩ := lcoreMain_cases hinv h
  rw [not_doomed_iff, not_doomed_iff, Timely]
  obtain ⟨hempty, rfl⟩ | ⟨hbusy, hlate, rfl⟩ | ⟨hbusy, hearly, rfl⟩ := hcases
  · have hwindow : (∀ q ∈ s.window ++ [p], ¬q.Late hz s.start) ↔
        (∀ q ∈ s.window, ¬q.Late hz s.start) ∧ ¬p.Late hz s.start := by
      rw [List.forall_mem_append, List.forall_mem_singleton]
    rw [MeterState.polled]
    dsimp only
    rw [hwindow]
    simp [hempty, and_assoc]
  · have hreports : (∀ r ∈ s.reports ++ [s.report p], r.Covers hz) ↔
        (∀ r ∈ s.reports, r.Covers hz) ∧
          packets (s.window ++ [p]) < 2 ^ 64 ∧
            ∀ q ∈ s.window, ¬q.Late hz s.start := by
      rw [List.forall_mem_append, List.forall_mem_singleton,
        report_covers_iff hinv hlate]
    dsimp only
    rw [hreports]
    simp only [List.not_mem_nil, hbusy, hlate]
    tauto
  · have hwindow : (∀ q ∈ s.window ++ [p], ¬q.Late hz s.start) ↔
        ∀ q ∈ s.window, ¬q.Late hz s.start := by
      rw [List.forall_mem_append, List.forall_mem_singleton]
      exact and_iff_left hearly
    rw [MeterState.polled]
    dsimp only
    rw [hwindow]
    simp [hbusy, hearly]

theorem meetsAlong_iff_not_doomed {polls : List Poll}
    (h : (meter hz start).exec (enterLoop start) polls = some s) :
    (meter hz start).MeetsAlong (Timely hz) (enterLoop start) polls ↔
      ¬Doomed hz s := by
  have hstart : ¬Doomed hz (enterLoop start) := by
    simp [Doomed, enterLoop]
  exact TransitionSystem.meetsAlong_iff_kept
    (fun _ _ _ hreach hstep =>
      not_doomed_step_iff (reachable_meterInv hreach) hstep)
    TransitionSystem.reachable_start hstart h

end Prefetch
end DpdkFolder
