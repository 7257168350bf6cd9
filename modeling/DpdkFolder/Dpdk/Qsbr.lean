import Mathlib.Logic.Function.Basic
import Mathlib.Tactic.Common

/-!
# The quiescent-state variable of rte_rcu_qsbr

The variable holds a token and, for each registered thread, a counter.  A
thread that is not reading has counter 0; coming online and reporting a
quiescent state copy the token into the counter, which takes a load and a
store.  `rte_rcu_qsbr_synchronize` increments the token and then looks at
one thread after another until each has been seen unregistered, offline or
with a counter that has reached the new token.
-/

namespace DpdkFolder

/-- `RTE_QSBR_CNT_THR_OFFLINE`. -/
def cntThrOffline : ℕ := 0

/-- `RTE_QSBR_CNT_INIT`, the first token. -/
def cntInit : ℕ := 1

/-- A quiescent-state variable for reader threads `ι`. -/
structure Qsbr (ι : Type*) where
  token : ℕ
  registered : ι → Bool
  cnt : ι → ℕ

namespace Qsbr

variable {ι : Type*}

/-- The variable made by `rte_rcu_qsbr_init`. -/
def init : Qsbr ι where
  token := cntInit
  registered := fun _ => false
  cnt := fun _ => cntThrOffline

/-- The increment of the token with which a synchronization starts. -/
def start (v : Qsbr ι) : Qsbr ι := { v with token := v.token + 1 }

/-- A synchronization for the token `t` need not wait for thread `r`. -/
def Passes (v : Qsbr ι) (t : ℕ) (r : ι) : Prop :=
  v.registered r = false ∨ v.cnt r = cntThrOffline ∨ t ≤ v.cnt r

instance (v : Qsbr ι) (t : ℕ) (r : ι) : Decidable (v.Passes t r) :=
  inferInstanceAs (Decidable (_ ∨ _ ∨ _))

variable [DecidableEq ι]

/-- `rte_rcu_qsbr_thread_register`. -/
def register (v : Qsbr ι) (r : ι) : Qsbr ι :=
  { v with registered := Function.update v.registered r true }

/-- `rte_rcu_qsbr_thread_unregister`. -/
def unregister (v : Qsbr ι) (r : ι) : Qsbr ι :=
  { v with registered := Function.update v.registered r false }

/-- The store of a counter value by its thread. -/
def setCnt (v : Qsbr ι) (r : ι) (t : ℕ) : Qsbr ι :=
  { v with cnt := Function.update v.cnt r t }

/-! ## What a thread's operation leaves alone -/

variable (v : Qsbr ι) (r : ι) (t : ℕ)

@[simp] theorem token_register : (v.register r).token = v.token := rfl

@[simp] theorem token_unregister : (v.unregister r).token = v.token := rfl

@[simp] theorem token_setCnt : (v.setCnt r t).token = v.token := rfl

@[simp] theorem cnt_register : (v.register r).cnt = v.cnt := rfl

@[simp] theorem cnt_unregister : (v.unregister r).cnt = v.cnt := rfl

@[simp] theorem registered_setCnt :
    (v.setCnt r t).registered = v.registered := rfl

@[simp] theorem registered_register :
    (v.register r).registered r = true := by
  simp [register]

@[simp] theorem cnt_setCnt : (v.setCnt r t).cnt r = t := by
  simp [setCnt]

variable {r}

@[simp] theorem registered_register_of_ne {q : ι} (hne : q ≠ r) :
    (v.register r).registered q = v.registered q := by
  simp [register, hne]

@[simp] theorem registered_unregister_of_ne {q : ι} (hne : q ≠ r) :
    (v.unregister r).registered q = v.registered q := by
  simp [unregister, hne]

@[simp] theorem cnt_setCnt_of_ne {q : ι} (hne : q ≠ r) :
    (v.setCnt r t).cnt q = v.cnt q := by
  simp [setCnt, hne]

end Qsbr

end DpdkFolder
