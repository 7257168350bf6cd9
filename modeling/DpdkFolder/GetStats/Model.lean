import DpdkFolder.Support.CInt
import DpdkFolder.Support.TransitionSystem
import Mathlib.Logic.Function.Basic

/-!
# The get_stats protocol of the multi-process examples

Any number of secondaries send synchronous requests to one primary, which
runs `mp_callback` for each message, counts the runs and replies.  Messages
may stay in flight for any time and overtake each other.  A reply completes
the request that its receiver has pending, whichever that is; without a
pending request it is dropped.  A pending request may time out at any moment.

Multiple_Sender_MP retries a failed request and can be asked to quit by a
signal.  Multiple_Msg_Passing makes one attempt and goes on.  The two
primaries differ in a pause only, and the pauses restrict nothing but the
interleavings, so both programs are instances of one system.
-/

namespace DpdkFolder
namespace GetStats

/-- What distinguishes the two secondaries: the number of iterations, the
attempts of each, and whether they handle signals. -/
structure Config where
  iterations : ℕ
  maxRetries : ℕ
  handlesSignals : Bool

/-- The logical request of a secondary in an iteration. -/
structure Request (κ : Type*) where
  peer : κ
  iteration : ℕ
deriving DecidableEq, Repr

/-- A reply of `mp_callback`.  Its text reports `req_num`.  The request that
the callback was run for is recorded here for the specification; the message
does not hold it. -/
structure Reply (κ : Type*) where
  reqNum : ℤ
  request : Request κ
deriving DecidableEq, Repr

/-- Where a secondary stands: `i` is its loop variable and `retry` the number
of failed attempts of this iteration. -/
inductive SecPc
  | loopHead (i : ℕ)
  | retryHead (i retry : ℕ)
  | pending (i retry : ℕ)
  | returned
deriving DecidableEq, Repr

/-- What becomes of the sending in `rte_mp_request_sync`: the message is in
flight, the call fails, or there is no peer and it returns without replies. -/
inductive SendOutcome
  | sent
  | failed
  | unreachable
deriving DecidableEq, Repr

/-- Where an attempt of iteration `i` leads. -/
def SendOutcome.next (i retry : ℕ) : SendOutcome → SecPc
  | sent => .pending i retry
  | failed => .retryHead i (retry + 1)
  | unreachable => .loopHead (i + 1)

/-- The secondaries, the messages in flight, the primary, which runs one
callback at a time, and four logs: the calls of `rte_mp_request_sync`, the
requests for which the callback was run, those that timed out, and for each
reply printed the iteration in which it was. -/
structure State (κ : Type*) where
  secs : κ → SecPc
  forceQuit : κ → Bool
  requests : List (Request κ)
  requestCount : ℤ
  callback : Option (Reply κ)
  replies : List (Reply κ)
  attempts : List (Request κ)
  handled : List (Request κ)
  timeouts : List (Request κ)
  printed : List (Request κ × Reply κ)

/-- Every secondary enters its loop; the primary has registered. -/
def launch (κ : Type*) : State κ where
  secs := fun _ => .loopHead 1
  forceQuit := fun _ => false
  requests := []
  requestCount := 0
  callback := none
  replies := []
  attempts := []
  handled := []
  timeouts := []
  printed := []

variable {κ : Type*} [DecidableEq κ]

def State.setSec (s : State κ) (k : κ) (pc : SecPc) : State κ :=
  { s with secs := Function.update s.secs k pc }

/-- `signal_handler`. -/
def signalHandler (cfg : Config) (s : State κ) (k : κ) : Option (State κ) :=
  if cfg.handlesSignals = true then
    some { s with forceQuit := Function.update s.forceQuit k true }
  else none

/-- The secondary enters an iteration, leaves its loop, or goes on to the
next iteration after its last attempt has failed. -/
def advance (cfg : Config) (s : State κ) (k : κ) : Option (State κ) :=
  match s.secs k with
  | .loopHead i =>
      some (s.setSec k
        (if i ≤ cfg.iterations ∧ s.forceQuit k = false then .retryHead i 0
        else .returned))
  | .retryHead i retry =>
      if retry < cfg.maxRetries ∧ s.forceQuit k = false then none
      else some (s.setSec k (.loopHead (i + 1)))
  | _ => none

/-- The secondary calls `rte_mp_request_sync`. -/
def requestSync (cfg : Config) (s : State κ) (k : κ) (o : SendOutcome) :
    Option (State κ) :=
  match s.secs k with
  | .retryHead i retry =>
      if retry < cfg.maxRetries ∧ s.forceQuit k = false then
        some { s.setSec k (o.next i retry) with
          requests :=
            if o = .sent then s.requests ++ [⟨k, i⟩] else s.requests
          attempts := s.attempts ++ [⟨k, i⟩] }
      else none
  | _ => none

/-- The pending request of the secondary times out. -/
def timeout (s : State κ) (k : κ) : Option (State κ) :=
  match s.secs k with
  | .pending i retry =>
      some { s.setSec k (.retryHead i (retry + 1)) with
        timeouts := s.timeouts ++ [⟨k, i⟩] }
  | _ => none

/-- `mp_callback` up to the reply. -/
def mpCallback (s : State κ) (req : Request κ) : Option (State κ) :=
  if req ∈ s.requests ∧ s.callback = none then
    some { s with
      requests := s.requests.erase req
      requestCount := cInt (s.requestCount + 1)
      callback := some ⟨cInt (s.requestCount + 1), req⟩
      handled := s.handled ++ [req] }
  else none

/-- The `rte_mp_reply` of the callback, which may fail. -/
def mpReply (s : State κ) (sent : Bool) : Option (State κ) :=
  match s.callback with
  | none => none
  | some reply =>
      some { s with
        callback := none
        replies := if sent = true then s.replies ++ [reply] else s.replies }

/-- A reply arrives at its receiver, which prints it if it has a request
pending. -/
def receiveReply (s : State κ) (reply : Reply κ) : Option (State κ) :=
  if reply ∈ s.replies then
    match s.secs reply.request.peer with
    | .pending i _ =>
        some { s.setSec reply.request.peer (.loopHead (i + 1)) with
          replies := s.replies.erase reply
          printed := s.printed ++ [(⟨reply.request.peer, i⟩, reply)] }
    | _ => some { s with replies := s.replies.erase reply }
  else none

inductive Label (κ : Type*)
  | signal (k : κ)
  | advance (k : κ)
  | request (k : κ) (o : SendOutcome)
  | timeout (k : κ)
  | callback (req : Request κ)
  | reply (sent : Bool)
  | receive (reply : Reply κ)
deriving DecidableEq, Repr

def step (cfg : Config) (s : State κ) : Label κ → Option (State κ)
  | .signal k => signalHandler cfg s k
  | .advance k => advance cfg s k
  | .request k o => requestSync cfg s k o
  | .timeout k => timeout s k
  | .callback req => mpCallback s req
  | .reply sent => mpReply s sent
  | .receive reply => receiveReply s reply

/-- The primary together with secondaries `κ`. -/
def session (cfg : Config) (κ : Type*) [DecidableEq κ] :
    TransitionSystem (State κ) (Label κ) where
  start := launch κ
  step := step cfg

/-- `MAX_RETRIES` of Multiple_Sender_MP. -/
def maxRetries : ℕ := 3

/-- Multiple_Sender_MP: three iterations of up to three attempts. -/
def multipleSenderMp (κ : Type*) [DecidableEq κ] :
    TransitionSystem (State κ) (Label κ) :=
  session ⟨3, maxRetries, true⟩ κ

/-- Multiple_Msg_Passing: three iterations of one attempt. -/
def multipleMsgPassing (κ : Type*) [DecidableEq κ] :
    TransitionSystem (State κ) (Label κ) :=
  session ⟨3, 1, false⟩ κ

/-! ## What a step can do -/

variable {cfg : Config} {s t : State κ} {k : κ}

theorem signalHandler_cases (h : signalHandler cfg s k = some t) :
    t = { s with forceQuit := Function.update s.forceQuit k true } := by
  rw [signalHandler] at h
  split at h
  · exact (Option.some.inj h).symm
  · cases h

theorem advance_cases (h : advance cfg s k = some t) :
    (∃ i, s.secs k = .loopHead i ∧
      (t = s.setSec k (.retryHead i 0) ∨ t = s.setSec k .returned)) ∨
    ∃ i retry, s.secs k = .retryHead i retry ∧
      t = s.setSec k (.loopHead (i + 1)) := by
  cases hpc : s.secs k with
  | loopHead i =>
      simp only [advance, hpc, Option.some.injEq] at h
      refine Or.inl ⟨i, rfl, ?_⟩
      by_cases henter : i ≤ cfg.iterations ∧ s.forceQuit k = false
      · rw [if_pos henter] at h
        exact Or.inl h.symm
      · rw [if_neg henter] at h
        exact Or.inr h.symm
  | retryHead i retry =>
      simp only [advance, hpc] at h
      split at h
      · cases h
      · exact Or.inr ⟨i, retry, rfl, (Option.some.inj h).symm⟩
  | pending i retry => simp [advance, hpc] at h
  | returned => simp [advance, hpc] at h

theorem requestSync_cases {o : SendOutcome}
    (h : requestSync cfg s k o = some t) :
    ∃ i retry, s.secs k = .retryHead i retry ∧ retry < cfg.maxRetries ∧
      t = { s.setSec k (o.next i retry) with
        requests :=
          if o = .sent then s.requests ++ [⟨k, i⟩] else s.requests
        attempts := s.attempts ++ [⟨k, i⟩] } := by
  cases hpc : s.secs k with
  | retryHead i retry =>
      simp only [requestSync, hpc] at h
      split at h
      case isTrue hretry =>
        exact ⟨i, retry, rfl, hretry.1, (Option.some.inj h).symm⟩
      case isFalse => cases h
  | loopHead i => simp [requestSync, hpc] at h
  | pending i retry => simp [requestSync, hpc] at h
  | returned => simp [requestSync, hpc] at h

theorem timeout_cases (h : timeout s k = some t) :
    ∃ i retry, s.secs k = .pending i retry ∧
      t = { s.setSec k (.retryHead i (retry + 1)) with
        timeouts := s.timeouts ++ [⟨k, i⟩] } := by
  cases hpc : s.secs k with
  | pending i retry =>
      simp only [timeout, hpc, Option.some.injEq] at h
      exact ⟨i, retry, rfl, h.symm⟩
  | loopHead i => simp [timeout, hpc] at h
  | retryHead i retry => simp [timeout, hpc] at h
  | returned => simp [timeout, hpc] at h

theorem mpCallback_cases {req : Request κ} (h : mpCallback s req = some t) :
    req ∈ s.requests ∧ s.callback = none ∧
      t = { s with
        requests := s.requests.erase req
        requestCount := cInt (s.requestCount + 1)
        callback := some ⟨cInt (s.requestCount + 1), req⟩
        handled := s.handled ++ [req] } := by
  rw [mpCallback] at h
  split at h
  case isTrue hready => exact ⟨hready.1, hready.2, (Option.some.inj h).symm⟩
  case isFalse => cases h

omit [DecidableEq κ] in
theorem mpReply_cases {sent : Bool} (h : mpReply s sent = some t) :
    ∃ reply, s.callback = some reply ∧
      t = { s with
        callback := none
        replies :=
          if sent = true then s.replies ++ [reply] else s.replies } := by
  cases hcallback : s.callback with
  | none => simp [mpReply, hcallback] at h
  | some reply =>
      simp only [mpReply, hcallback, Option.some.injEq] at h
      exact ⟨reply, rfl, h.symm⟩

/-- The receiver prints the reply in the iteration in which it has a request
pending, or drops it. -/
theorem receiveReply_cases {reply : Reply κ}
    (h : receiveReply s reply = some t) :
    reply ∈ s.replies ∧
      ((∃ i retry, s.secs reply.request.peer = .pending i retry ∧
          t = { s.setSec reply.request.peer (.loopHead (i + 1)) with
            replies := s.replies.erase reply
            printed :=
              s.printed ++ [(⟨reply.request.peer, i⟩, reply)] }) ∨
        t = { s with replies := s.replies.erase reply }) := by
  rw [receiveReply] at h
  split at h
  case isTrue hmem =>
    refine ⟨hmem, ?_⟩
    cases hpc : s.secs reply.request.peer with
    | pending i retry =>
        rw [hpc] at h
        exact Or.inl ⟨i, retry, rfl, (Option.some.inj h).symm⟩
    | loopHead i =>
        rw [hpc] at h
        exact Or.inr (Option.some.inj h).symm
    | retryHead i retry =>
        rw [hpc] at h
        exact Or.inr (Option.some.inj h).symm
    | returned =>
        rw [hpc] at h
        exact Or.inr (Option.some.inj h).symm
  case isFalse => cases h

end GetStats
end DpdkFolder
