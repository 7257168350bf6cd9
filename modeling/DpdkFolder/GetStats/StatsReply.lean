import DpdkFolder.GetStats.Counting
import DpdkFolder.Support.CString

/-!
# The text of a statistics reply

`mp_callback` scales the number of the request by two constants, formats the
three numbers into a local array and copies the text into the reply.  The
scaling is done in `int`, which ends long before the counter does.
-/

namespace DpdkFolder
namespace GetStats
namespace StatsReply

open CString

/-- `RTE_MP_MAX_NAME_LEN`. -/
def rteMpMaxNameLen : ℕ := 64

/-- `RTE_MP_MAX_PARAM_LEN`. -/
def rteMpMaxParamLen : ℕ := 256

/-- `struct rte_mp_msg`, without its file descriptors. -/
structure RteMpMsg where
  name : Vector Char rteMpMaxNameLen
  lenParam : ℤ
  param : Vector Char rteMpMaxParamLen

/-- A message after `memset`. -/
def RteMpMsg.zero : RteMpMsg where
  name := Vector.replicate _ nul
  lenParam := 0
  param := Vector.replicate _ nul

/-- `MSG_NAME`. -/
def msgName : List Char := "get_stats".toList

/-- What `mp_callback` may print. -/
inductive Line
  | requestReceived (reqNum : ℤ)
  | message (name : List Char)
  | payload (param : List Char)
  | sendingReply (stats : List Char)
  | failedToSend
deriving DecidableEq, Repr

/-- The reply passed to `rte_mp_reply`, what is printed, and the result. -/
structure Callback where
  reply : RteMpMsg
  lines : List Line
  ret : ℤ

/-! What stands before the numbers in the text. -/

def responseLabel : List Char := "Response#".toList

def packetsLabel : List Char := ": packets=".toList

def bytesLabel : List Char := ", bytes=".toList

/-- The text that is formatted into `stats`. -/
def statsText (reqNum packets bytes : ℤ) : List Char :=
  responseLabel ++ decimal reqNum ++ packetsLabel ++ decimal packets ++
    bytesLabel ++ decimal bytes

/-- `atomic_fetch_add(&request_count, 1)`: the value before it, and the one
after it, which wraps around. -/
def atomicFetchAdd (requestCount : ℤ) : ℤ × ℤ :=
  (requestCount, cInt (requestCount + 1))

/-- `mp_callback`, where `stats` is the local array as it is found and `sent`
the success of `rte_mp_reply`.  There is no result where an operation on
`int`s overflows or an access leaves its array. -/
def mpCallback (stats : Vector Char 256) (msg : RteMpMsg) (sent : Bool)
    (requestCount : ℤ) : Option Callback := do
  let reqNum ← intResult ((atomicFetchAdd requestCount).1 + 1)
  let reply := RteMpMsg.zero
  let name := snprintf reply.name msgName
  let packets ← intResult (reqNum * 1024)
  let bytes ← intResult (reqNum * 65536)
  let stats := snprintf stats (statsText reqNum packets bytes)
  let length ← strlen stats
  let param ← memcpy reply.param stats (length + 1)
  let lines := [.requestReceived reqNum, .message (text msg.name),
    .payload (text msg.param), .sendingReply (text stats)]
  return {
    reply := ⟨name, length + 1, param⟩
    lines := if sent then lines else lines ++ [.failedToSend]
    ret := if sent then 0 else -1 }

/-- The counter after `n` requests. -/
def countAfter : ℕ → ℤ
  | 0 => 0
  | n + 1 => (atomicFetchAdd (countAfter n)).2

/-- The run of `mp_callback` for the `n`-th request. -/
def callbackFor (n : ℕ) (stats : Vector Char 256) (msg : RteMpMsg)
    (sent : Bool) : Option Callback :=
  mpCallback stats msg sent (countAfter (n - 1))

/-- The reply reports `n` requests in a text of the length it states. -/
structure Reports (n : ℕ) (reply : RteMpMsg) : Prop where
  text : Holds reply.param (statsText n (1024 * n) (65536 * n))
  len_eq : reply.lenParam =
    (statsText n (1024 * n) (65536 * n)).length + 1
  len_le : reply.lenParam ≤ rteMpMaxParamLen

/-! ## The counter -/

theorem countAfter_eq (n : ℕ) : countAfter n = cInt n := by
  induction n with
  | zero => rfl
  | succ n ih =>
      rw [countAfter, atomicFetchAdd, ih, cInt_cInt_add, Int.natCast_succ]

/-- In any session of the primary, the counter of its callbacks. -/
theorem requestCount_eq_countAfter {κ : Type*} [DecidableEq κ]
    {cfg : Config} {s : State κ} (h : (session cfg κ).Reachable s) :
    s.requestCount = countAfter s.handled.length := by
  rw [(reachable_inv h).count, countAfter_eq]

theorem countAfter_pred {n : ℕ} (hpos : 1 ≤ n) (hle : (n : ℤ) ≤ intMax) :
    (atomicFetchAdd (countAfter (n - 1))).1 + 1 = n := by
  rw [atomicFetchAdd, countAfter_eq, cInt_of_mem_range] <;> omega

/-! ## The text -/

theorem nul_notMem_statsText (n p b : ℕ) : nul ∉ statsText n p b := by
  have hlabels : nul ∉ responseLabel ∧ nul ∉ packetsLabel ∧
      nul ∉ bytesLabel := by decide
  have hn := nul_notMem_toDigits n
  have hp := nul_notMem_toDigits p
  have hb := nul_notMem_toDigits b
  simp only [statsText, decimal_natCast, List.mem_append]
  tauto

/-- Three numbers of at most ten digits leave the text far from the end of
the array. -/
theorem length_statsText_lt {n p b : ℕ} (hn : n < 10 ^ 10)
    (hp : p < 10 ^ 10) (hb : b < 10 ^ 10) :
    (statsText n p b).length < 64 := by
  have hn' := length_decimal_le (k := 10) (by decide) hn
  have hp' := length_decimal_le (k := 10) (by decide) hp
  have hb' := length_decimal_le (k := 10) (by decide) hb
  have hlabels : responseLabel.length = 9 ∧ packetsLabel.length = 10 ∧
      bytesLabel.length = 8 := by decide
  simp only [statsText, List.length_append, hlabels]
  omega

/-- A text that fits is reported by the reply. -/
theorem exists_mpCallback {n p b : ℕ} {requestCount : ℤ}
    (stats : Vector Char 256) (msg : RteMpMsg) (sent : Bool)
    (hreq : intResult ((atomicFetchAdd requestCount).1 + 1) = some (n : ℤ))
    (hp : intResult (n * 1024) = some (p : ℤ))
    (hb : intResult (n * 65536) = some (b : ℤ))
    (hlength : (statsText n p b).length < 256) :
    ∃ c, mpCallback stats msg sent requestCount = some c ∧
      Holds c.reply.param (statsText n p b) ∧
      c.reply.lenParam = (statsText n p b).length + 1 := by
  have hstats : Holds (snprintf stats (statsText n p b)) (statsText n p b) :=
    holds_snprintf (nul_notMem_statsText n p b) hlength
  obtain ⟨param, hcopy, hparam⟩ :=
    hstats.memcpy RteMpMsg.zero.param hlength
  simp only [mpCallback, hreq, hp, hb, hstats.strlen_eq, hcopy,
    Option.bind_eq_bind, Option.bind_some]
  exact ⟨_, rfl, hparam, rfl⟩

/-! ## How many requests can be reported -/

theorem intResult_reqNum {n : ℕ} (hpos : 1 ≤ n) (hle : (n : ℤ) ≤ intMax) :
    intResult ((atomicFetchAdd (countAfter (n - 1))).1 + 1) = some (n : ℤ) := by
  rw [countAfter_pred hpos hle, intResult_natCast hle]

theorem exists_reports {n : ℕ} (hpos : 1 ≤ n) (hle : n ≤ 32767)
    (stats : Vector Char 256) (msg : RteMpMsg) (sent : Bool) :
    ∃ c, callbackFor n stats msg sent = some c ∧ Reports n c.reply := by
  have hbytes : ((65536 * n : ℕ) : ℤ) ≤ intMax := by
    rw [intMax]
    omega
  have hreq := intResult_reqNum hpos (show (n : ℤ) ≤ intMax by omega)
  have hp : intResult ((n : ℤ) * 1024) = some ((1024 * n : ℕ) : ℤ) :=
    intResult_natCast_mul (k := 1024) (by omega)
  have hb : intResult ((n : ℤ) * 65536) = some ((65536 * n : ℕ) : ℤ) :=
    intResult_natCast_mul hbytes
  have hlength : (statsText n (1024 * n : ℕ) (65536 * n : ℕ)).length < 64 :=
    length_statsText_lt (by omega) (by omega) (by omega)
  obtain ⟨c, hc, htext, hlen⟩ := exists_mpCallback stats msg sent hreq hp hb
    (Nat.lt_trans hlength (by decide))
  rw [Int.natCast_mul, Int.natCast_mul] at htext hlen hlength
  refine ⟨c, hc, htext, hlen, ?_⟩
  rw [hlen, rteMpMaxParamLen]
  omega

theorem mpCallback_eq_none {requestCount reqNum : ℤ}
    (stats : Vector Char 256) (msg : RteMpMsg) (sent : Bool)
    (hreq : intResult ((atomicFetchAdd requestCount).1 + 1) = some reqNum)
    (hb : intResult (reqNum * 65536) = none) :
    mpCallback stats msg sent requestCount = none := by
  simp only [mpCallback, hreq, hb, Option.bind_eq_bind, Option.bind_some,
    Option.bind_none, Option.bind_fun_none]

/-- Beyond that the number of bytes is not an `int`. -/
theorem callbackFor_eq_none {n : ℕ} (hgt : 32767 < n)
    (hle : (n : ℤ) ≤ intMax) (stats : Vector Char 256) (msg : RteMpMsg)
    (sent : Bool) : callbackFor n stats msg sent = none := by
  have hreq := intResult_reqNum (Nat.one_le_of_lt hgt) hle
  have hb : intResult ((n : ℤ) * 65536) = none := by
    apply intResult_of_gt
    rw [intMax]
    omega
  exact mpCallback_eq_none stats msg sent hreq hb

/-- For every request that the counter can number, whatever has been received
and whatever the local array held: the callback is free of overflow and its
reply reports the number, the packets and the bytes if and only if the number
is at most 32767. -/
theorem reports_iff (n : ℕ) (hpos : 1 ≤ n) (hle : n ≤ 2 ^ 31 - 1)
    (stats : Vector Char 256) (msg : RteMpMsg) (sent : Bool) :
    (∃ c, callbackFor n stats msg sent = some c ∧ Reports n c.reply) ↔
      n ≤ 32767 := by
  constructor
  · rintro ⟨c, hc, -⟩
    by_contra hgt
    have hmax : (n : ℤ) ≤ intMax := by
      rw [intMax]
      omega
    rw [callbackFor_eq_none (Nat.lt_of_not_le hgt) hmax] at hc
    cases hc
  · intro hsmall
    exact exists_reports hpos hsmall stats msg sent

/-- The last request that is reported. -/
theorem reports_iff_last :
    ∃ c, callbackFor 32767 (Vector.replicate 256 'x') .zero true = some c ∧
      Reports 32767 c.reply :=
  (reports_iff 32767 (by decide) (by decide) _ _ _).mpr (by decide)

/-- The next one has 2 ^ 31 bytes to report. -/
theorem request32768_not_reported :
    ¬∀ n : ℕ, 1 ≤ n → n ≤ 2 ^ 31 - 1 → ∀ stats msg sent,
      ∃ c, callbackFor n stats msg sent = some c ∧ Reports n c.reply := by
  intro hall
  obtain ⟨c, hc, -⟩ := hall 32768 (by decide) (by decide)
    (Vector.replicate 256 nul) .zero true
  rw [callbackFor_eq_none (by decide) (by decide)] at hc
  cases hc

end StatsReply
end GetStats
end DpdkFolder
