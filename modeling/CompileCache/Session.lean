/-
  CompileCache.Session — one streaming compilation.

  A session reads its body chunk by chunk and feeds the compiler. On the way it holds
  the trial of the stored artifact and, while a record is on trial, hashes what it feeds.
  It suspends when the body has nothing ready, and ends once: with the body, when the
  body fails, when it is cancelled or when the requester withdraws. What comes after that
  does nothing.

  An operation is a `Turn`: the session and the store after it, the calls made on the
  way, and, if the session has ended, its `Ending`, to which the token goes. The compiler and
  the sink are told the ending after the turn, when the session can be looked at and driven
  again.
-/

import CompileCache.Compilation
import CompileCache.Trial

namespace CompileCache

/-- `σ` is the type of bodies, `κ` that of sinks. -/
structure Session (σ κ : Type) where
  url : String
  /-- The right to tell the compiler how the session ends; gone when it has ended. -/
  token : Option Token
  trial : Trial
  digest : RunningDigest
  body : Option σ
  sink : Option κ
  received : Nat
  outcome : Option Outcome
  token_held : token.isSome = outcome.isNone

/-- What is owed to the compiler, and then to the sink, of a session that has ended. -/
structure Ending (κ : Type) where
  token : Option Token
  sink : Option κ
  outcome : Outcome

/-- The token is spent on a success; a failure is noted by a guard, which is then taken down. -/
def Ending.compilerTold {κ : Type} (e : Ending κ) : Option Outcome :=
  e.token.map fun token =>
    match e.outcome with
    | .compiled trusted => token.succeed trusted
    | .failed failure => (({ token } : Guard).note failure).drop

structure Turn (σ κ τ : Type) where
  session : Session σ κ
  store : Option τ
  calls : List Call
  ending : Option (Ending κ)

/-- The turn with calls that came before its own. -/
def Turn.after {σ κ τ : Type} (calls : List Call) (t : Turn σ κ τ) : Turn σ κ τ :=
  { t with calls := calls ++ t.calls }

/-- What ends a session before its body has ended. -/
inductive Interruption where
  | bodyFailed (cause : ReadFailure)
  | cancelled
  /-- The requester gives up on the compilation. -/
  | withdrawn
  deriving DecidableEq, Repr

/-- A requester that withdraws is always told so. Of the rest nothing is told when the
    requesting context is gone. -/
def Interruption.failure (contextLive : Bool) : Interruption → Failure
  | withdrawn => .visible .withdrawn
  | bodyFailed cause => if contextLive then .visible (.unreadable cause) else .silent
  | cancelled => if contextLive then .visible .downloadStopped else .silent

/-- What a turn meets outside the session and its store. -/
structure Surroundings where
  accepts : Bytes → Bool
  /-- Whether the requesting context can still run script. -/
  contextLive : Bool

namespace Session

variable {σ κ τ : Type}

def new (url : String) (key : Key) (token : Token) : Session σ κ :=
  ⟨url, some token, { key }, RunningDigest.empty, none, none, 0, none, rfl⟩

def hasEnded (s : Session σ κ) : Bool := s.outcome.isSome

/-- Lets go of body and sink, and of the token. -/
def close (s : Session σ κ) (outcome : Outcome) : Session σ κ :=
  { s with token := none, body := none, sink := none, outcome := some outcome, token_held := rfl }

def finish (s : Session σ κ) (store : Option τ) (calls : List Call) (outcome : Outcome) :
    Turn σ κ τ :=
  ⟨s.close outcome, store, calls, some ⟨s.token, s.sink, outcome⟩⟩

def interrupt (env : Surroundings) (s : Session σ κ) (store : Option τ) (calls : List Call)
    (cause : Interruption) : Turn σ κ τ :=
  s.finish store calls (.failed (cause.failure env.contextLive))

section Reading

variable [Body σ] [Store τ]

def succeed (s : Session σ κ) (store : Option τ) : Turn σ κ τ :=
  let (trusted, digest, step) := s.trial.verdict s.digest store
  { s with trial := step.trial, digest }.finish step.store step.calls (.compiled trusted)

/-- Passes a chunk on. An empty one leaves no trace. -/
def pass (env : Surroundings) (s : Session σ κ) (store : Option τ) (chunk : Bytes) :
    Session σ κ × Option τ × List Call :=
  if chunk.isEmpty then (s, store, [])
  else
    let step := s.trial.start env.accepts store
    let digest := if step.trial.phase = .validating then s.digest.add chunk else s.digest
    ({ s with trial := step.trial, digest, received := s.received + chunk.length },
      step.store, step.calls ++ [.feed chunk])

/-- Reads `body`, the session's own, until it must wait or the session ends. -/
def read (env : Surroundings) (s : Session σ κ) (body : σ) (store : Option τ) : Turn σ κ τ :=
  let rest := (Body.offer body).2
  match _h : (Body.offer body).1 with
  | .wait => ⟨{ s with body := some rest }, store, [.offer .wait], none⟩
  | .finished => (s.succeed store).after [.offer .finished]
  | .failed cause => s.interrupt env store [.offer (.failed cause)] (.bodyFailed cause)
  | .chunk bytes =>
    let (s, store, calls) := s.pass env store bytes
    let taken := (Body.take rest bytes.length).1
    let calls := .offer (.chunk bytes) :: calls ++ [.take bytes.length taken]
    match taken with
    | .more => (read env s (Body.take rest bytes.length).2 store).after calls
    | .finished => (s.succeed store).after calls
    | .failed cause => s.interrupt env store calls (.bodyFailed cause)
termination_by Body.pending body
decreasing_by exact Body.pending_take_lt ‹_›

/-- Begins to read `body`. A session that has a body already, or has ended, takes neither
    body nor sink. -/
def start (env : Surroundings) (s : Session σ κ) (body : σ) (sink : κ) (store : Option τ) :
    Turn σ κ τ :=
  if s.body.isSome || s.hasEnded then ⟨s, store, [], none⟩
  else { s with sink := some sink }.read env body store

/-- Reads on, if there is a body to read and the token is there. -/
def resume (env : Surroundings) (s : Session σ κ) (store : Option τ) : Turn σ κ τ :=
  match s.body, s.token with
  | some body, some _ => s.read env body store
  | _, _ => ⟨s, store, [], none⟩

def stop (env : Surroundings) (s : Session σ κ) (store : Option τ) (cause : Interruption) :
    Turn σ κ τ :=
  if s.hasEnded then ⟨s, store, [], none⟩
  else s.interrupt env store (if s.body.isSome then [.cancelBody] else []) cause

def cancel (env : Surroundings) (s : Session σ κ) (store : Option τ) : Turn σ κ τ :=
  s.stop env store .cancelled

def withdraw (env : Surroundings) (s : Session σ κ) (store : Option τ) : Turn σ κ τ :=
  s.stop env store .withdrawn

end Reading

/-- What the compiler is told when the session is given up, and the token with it. -/
def drop (s : Session σ κ) : Option Outcome := s.token.map Token.drop

end Session

end CompileCache
