import DpdkFolder.Dpdk.Ethdev
import DpdkFolder.AclDpdk2.Model

/-!
# Who owns an mbuf in ACL_DPDK_2

`firewall_loop` frees the packets it drops while it classifies the burst and
offers the others for transmission.  The number of packets that the driver
accepted is not looked at, so an iteration ends with what the driver refused
still in custody.
-/

namespace DpdkFolder
namespace AclDpdk2

/-- `MAX_PKT_BURST`. -/
def maxPktBurst : ℕ := 32

/-- What the environment answers during one iteration of `firewall_loop`: the
received burst, the result of the classifier for each packet, and the number
of packets the driver accepts for transmission. -/
structure Iteration (μ : Type*) where
  rxBufs : List μ
  result : μ → ℕ
  nbSent : ℕ
  length_le : rxBufs.length ≤ maxPktBurst
  nodup : rxBufs.Nodup
  nbSent_le : nbSent ≤ (firewallBurst result rxBufs).txBufs.length

variable {μ : Type*}

/-- `tx_bufs` after the per-packet loop. -/
def Iteration.txBufs (it : Iteration μ) : List μ :=
  (firewallBurst it.result it.rxBufs).txBufs

/-- The per-packet loop on one mbuf: the classifier reads the frame, and an
mbuf that is not allowed is freed at once. -/
def classifyAndDrop (result : μ → ℕ) (m : μ) : List (CustodyEvent μ) :=
  .touch m :: if result m = actionAllow then [] else rtePktmbufFree m

/-- One iteration of `firewall_loop`. -/
def firewallIteration (it : Iteration μ) : List (CustodyEvent μ) :=
  rteEthRxBurst it.rxBufs ++
    if it.rxBufs.length = 0 then []
    else
      it.rxBufs.flatMap (classifyAndDrop it.result) ++
        if 0 < it.txBufs.length then rteEthTxBurst it.txBufs it.nbSent
        else []

/-- `firewall_loop`, for the iterations it has completed. -/
def firewallLoop (its : List (Iteration μ)) : List (CustodyEvent μ) :=
  its.flatMap firewallIteration

variable [DecidableEq μ]

open CustodyEvent

theorem exec_classifyAndDrop (result : μ → ℕ) {kept ms : List μ} {m : μ}
    (h : m ∉ kept) :
    (custodian μ).exec (kept ++ m :: ms) (classifyAndDrop result m) =
      some (kept ++ ([m].filter fun m => result m = actionAllow) ++ ms) := by
  have hmem : m ∈ kept ++ m :: ms := by simp
  by_cases hm : result m = actionAllow
  · simp [classifyAndDrop, step_touch hmem, hm]
  · have herase : (kept ++ m :: ms).erase m = kept ++ ms := by
      rw [List.erase_append_right _ h, List.erase_cons_head]
    simp [classifyAndDrop, rtePktmbufFree, step_touch hmem,
      step_release hmem, hm, herase]

/-- The per-packet loop leaves the allowed packets in custody. -/
theorem exec_classifyAndDrop_all (result : μ → ℕ) {kept ms : List μ}
    (h : (kept ++ ms).Nodup) :
    (custodian μ).exec (kept ++ ms) (ms.flatMap (classifyAndDrop result)) =
      some (kept ++ ms.filter fun m => result m = actionAllow) := by
  induction ms generalizing kept with
  | nil => simp
  | cons m ms ih =>
      have hm : m ∉ kept := fun hmem =>
        (List.nodup_append.mp h).2.2 m hmem m (by simp) rfl
      have hrest : (kept ++ ([m].filter fun m => result m = actionAllow) ++
          ms).Nodup := by
        apply List.Nodup.sublist _ h
        rw [List.append_assoc]
        apply List.Sublist.append_left
        exact (List.filter_sublist (l := [m])).append_right ms
      rw [List.flatMap_cons,
        TransitionSystem.exec_trans (exec_classifyAndDrop result hm)
          (ih hrest),
        List.append_assoc, ← List.filter_append, List.singleton_append]

/-- An iteration ends with exactly the packets in custody that the driver
refused. -/
theorem exec_firewallIteration (it : Iteration μ) :
    (custodian μ).exec [] (firewallIteration it) =
      some (it.txBufs.drop it.nbSent) := by
  have hsplit : it.txBufs =
      it.rxBufs.filter fun m => it.result m = actionAllow := by
    rw [Iteration.txBufs, firewallBurst_eq]
  have hrx : (custodian μ).exec [] (rteEthRxBurst it.rxBufs) =
      some it.rxBufs := exec_acquire_all it.nodup
  have hloop : (custodian μ).exec it.rxBufs
      (it.rxBufs.flatMap (classifyAndDrop it.result)) = some it.txBufs := by
    have hnodup : ([] ++ it.rxBufs).Nodup := it.nodup
    rw [hsplit]
    exact exec_classifyAndDrop_all it.result hnodup
  have htx : (custodian μ).exec it.txBufs
      (rteEthTxBurst it.txBufs it.nbSent) =
        some (it.txBufs.drop it.nbSent) := by
    apply TransitionSystem.exec_trans (exec_touch_all fun _ hm => hm)
    have hrelease :=
      exec_release_all (it.txBufs.take it.nbSent) (it.txBufs.drop it.nbSent)
    rwa [List.take_append_drop] at hrelease
  rw [firewallIteration]
  apply TransitionSystem.exec_trans hrx
  by_cases hempty : it.rxBufs.length = 0
  · rw [List.length_eq_zero_iff] at hempty
    simp [hsplit, hempty]
  · rw [if_neg hempty]
    apply TransitionSystem.exec_trans hloop
    by_cases hnone : 0 < it.txBufs.length
    · rw [if_pos hnone, htx]
    · have hnil : it.txBufs = [] := by simpa using hnone
      simp [hnil]

/-- For every sequence of iterations, every burst, every vector of results
and every number of accepted packets: at the end of each iteration every
received mbuf has been given up exactly once if and only if the driver always
accepted all allowed packets. -/
theorem firewallLoop_disciplined_iff (its : List (Iteration μ)) :
    (∀ done, done <+: its → Disciplined (firewallLoop done)) ↔
      ∀ it ∈ its, it.nbSent = it.txBufs.length := by
  simp only [disciplined_iff_exec]
  induction its with
  | nil => simp [firewallLoop]
  | cons it its ih =>
      have hfirst := exec_firewallIteration it
      have hsettled : it.txBufs.drop it.nbSent = [] ↔
          it.nbSent = it.txBufs.length := by
        rw [List.drop_eq_nil_iff]
        exact ⟨fun h => Nat.le_antisymm it.nbSent_le h, fun h => h.ge⟩
      rw [List.forall_mem_cons, ← ih, ← hsettled]
      constructor
      · intro hall
        have hnil : it.txBufs.drop it.nbSent = [] := by
          have hone := hall [it] (by simp)
          simpa [firewallLoop, hfirst] using hone
        refine ⟨hnil, ?_⟩
        intro done hdone
        have hlonger := hall (it :: done) (List.cons_prefix_cons.mpr ⟨rfl, hdone⟩)
        simpa [firewallLoop, TransitionSystem.exec_append, hfirst, hnil]
          using hlonger
      · rintro ⟨hnil, hall⟩ done hdone
        cases done with
        | nil => rfl
        | cons it' done =>
            obtain ⟨rfl, hdone'⟩ := List.cons_prefix_cons.mp hdone
            have hrest := hall done hdone'
            rw [firewallLoop, List.flatMap_cons]
            apply TransitionSystem.exec_trans hfirst
            rw [hnil]
            exact hrest

/-- An allowed packet that the driver refuses is never given up. -/
theorem refusedPacket_not_disciplined :
    ¬∀ done, done <+: [(⟨[0], fun _ => actionAllow, 0, by decide,
        by decide, by decide⟩ : Iteration ℕ)] →
      Disciplined (firewallLoop done) := by
  intro h
  exact absurd (h _ List.prefix_rfl) (by decide)

end AclDpdk2
end DpdkFolder
