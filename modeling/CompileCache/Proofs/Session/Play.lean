/-
  CompileCache.Proofs.Session.Play — a session from its first operation on, whatever it meets.

  A `Move` is one operation: to start, to read on, to cancel or to withdraw. Before it,
  others may have done anything to the session's body (senders send, and are closed) and to
  the store (other sessions use it, records are filed); a move says what. The compiler and
  the context are whatever the move's surroundings are. A `Play` is the session and its
  store after some moves, with the trace of everything that was noticed of it: its calls,
  in order, and who was told how it ended, which is told after the turn's calls.

  The loop of a turn is cut into `Beat`s, each one read and what comes of it. A turn does
  nothing, is a chain of beats, or stops the session (`turn_turned`). So a property of every
  run is shown by what is kept by one beat, by beginning, by stopping and by others
  (`run_keeps`).
-/

import CompileCache.Session
import Mathlib.Logic.Relation

namespace CompileCache

variable {σ κ τ : Type}

/-- The body has no part in passing on a chunk. -/
theorem Session.pass_body [Store τ] (env : Surroundings) (s : Session σ κ) (store : Option τ)
    (chunk : Bytes) (body : Option σ) : ({ s with body } : Session σ κ).pass env store chunk =
      ({ (s.pass env store chunk).1 with body }, (s.pass env store chunk).2) := by
  unfold pass
  by_cases hb : chunk.isEmpty <;> simp [hb]

theorem Session.outcome_pass [Store τ] (env : Surroundings) (s : Session σ κ) (store : Option τ)
    (chunk : Bytes) : (s.pass env store chunk).1.outcome = s.outcome := by
  unfold pass
  split <;> rfl

/-- Through a guard or not, what is told is the outcome. -/
theorem Ending.compilerTold_eq (e : Ending κ) : e.compilerTold = e.token.map fun _ => e.outcome := by
  obtain ⟨token, sink, outcome⟩ := e
  cases token <;> cases outcome <;> rfl

theorem Ending.compilerTold_of_token {e : Ending κ} (h : e.token.isSome) :
    e.compilerTold = some e.outcome := by
  obtain ⟨token, htoken⟩ := Option.isSome_iff_exists.1 h
  rw [compilerTold_eq, htoken]
  rfl

namespace Session

section Token

variable {s : Session σ κ}

theorem token_of_open (h : s.outcome = none) : ∃ token, s.token = some token :=
  Option.isSome_iff_exists.1 (by rw [s.token_held, h]; rfl)

theorem open_of_token {token : Token} (h : s.token = some token) : s.outcome = none := by
  have hheld := s.token_held
  rw [h] at hheld
  simpa using hheld.symm

theorem token_of_ended (h : s.outcome.isSome) : s.token = none := by
  cases htoken : s.token with
  | none => rfl
  | some token =>
    rw [open_of_token htoken] at h
    cases h

theorem drop_of_open (h : s.outcome = none) : s.drop = some (.failed .silent) := by
  obtain ⟨token, htoken⟩ := token_of_open h
  rw [drop, htoken]
  rfl

theorem drop_of_ended (h : s.outcome.isSome) : s.drop = none := by
  rw [drop, token_of_ended h]
  rfl

end Token

section Closing

variable (s : Session σ κ) (outcome : Outcome)

@[simp] theorem trial_close : (s.close outcome).trial = s.trial := rfl
@[simp] theorem digest_close : (s.close outcome).digest = s.digest := rfl
@[simp] theorem body_close : (s.close outcome).body = none := rfl
@[simp] theorem outcome_close : (s.close outcome).outcome = some outcome := rfl

end Closing

section Beginning

variable [Body σ] [Store τ] (env : Surroundings) {s : Session σ κ} (store : Option τ)

theorem start_of_busy (h : s.body.isSome || s.hasEnded) (body : σ) (sink : κ) :
    s.start env body sink store = ⟨s, store, [], none⟩ := if_pos h

theorem start_of_free (hb : s.body = none) (ho : s.outcome = none) (body : σ) (sink : κ) :
    s.start env body sink store = { s with sink := some sink }.read env body store := by
  simp [start, hasEnded, hb, ho]

theorem resume_of_body {body : σ} (hb : s.body = some body) (ho : s.outcome = none) :
    s.resume env store = s.read env body store := by
  obtain ⟨token, htoken⟩ := token_of_open ho
  simp [resume, hb, htoken]

theorem resume_of_bodiless (hb : s.body = none) : s.resume env store = ⟨s, store, [], none⟩ := by
  simp [resume, hb]

theorem resume_of_ended (ho : s.outcome.isSome) : s.resume env store = ⟨s, store, [], none⟩ := by
  simp [resume, token_of_ended ho]

end Beginning

end Session

/-- What is asked of a session. -/
inductive Session.Operation (σ κ : Type) where
  | start (body : σ) (sink : κ)
  | resume
  | cancel
  | withdraw

/-- What can be noticed of a session. -/
inductive Notice (κ : Type) where
  | call (c : Call)
  | compilerTold (outcome : Outcome)
  | sinkTold (sink : κ) (outcome : Outcome)

/-- The compiler is told first. -/
def Ending.notices (e : Ending κ) : List (Notice κ) :=
  e.compilerTold.toList.map .compilerTold ++ e.sink.toList.map (.sinkTold · e.outcome)

theorem Ending.notices_eq (e : Ending κ) : e.notices =
    e.token.toList.map (fun _ => .compilerTold e.outcome) ++
      e.sink.toList.map (.sinkTold · e.outcome) := by
  rw [notices, compilerTold_eq]
  cases e.token <;> rfl

def Turn.notices (t : Turn σ κ τ) : List (Notice κ) :=
  t.calls.map .call ++ (t.ending.map Ending.notices).getD []

namespace Notice

def call? : Notice κ → Option Call
  | call c => some c
  | _ => none

end Notice

/-- What the call gives the compiler to compile. -/
def Call.fedBytes : Call → Bytes
  | feed chunk => chunk
  | _ => []

structure Move (σ κ τ : Type) where
  operation : Session.Operation σ κ
  env : Surroundings
  /-- What others have done to the body since the last operation. -/
  onBody : σ → σ := id
  /-- What others have done to the store. -/
  onStore : τ → τ := id

structure Play (σ κ τ : Type) where
  session : Session σ κ
  store : Option τ
  /-- Oldest first. -/
  trace : List (Notice κ)

/-- The turn that an operation takes. -/
def Session.Operation.turn [Body σ] [Store τ] (env : Surroundings) (s : Session σ κ)
    (store : Option τ) : Session.Operation σ κ → Turn σ κ τ
  | start body sink => s.start env body sink store
  | resume => s.resume env store
  | cancel => s.cancel env store
  | withdraw => s.withdraw env store

namespace Play

/-- The calls that were made, oldest first. -/
def calls (p : Play σ κ τ) : List Call := p.trace.filterMap Notice.call?

/-- All bytes that the compiler was fed. -/
def fed (p : Play σ κ τ) : Bytes := p.calls.flatMap Call.fedBytes

/-- A new session. -/
def opening (url : String) (key : Key) (token : Token) (store : Option τ) : Play σ κ τ :=
  ⟨Session.new url key token, store, []⟩

/-- What others have done between two operations. -/
def meet (p : Play σ κ τ) (onBody : σ → σ) (onStore : τ → τ) : Play σ κ τ :=
  { p with session := { p.session with body := p.session.body.map onBody },
           store := p.store.map onStore }

def after (p : Play σ κ τ) (t : Turn σ κ τ) : Play σ κ τ :=
  ⟨t.session, t.store, p.trace ++ t.notices⟩

section Moves

variable [Body σ] [Store τ]

/-- The turn that a move takes. -/
def turn (p : Play σ κ τ) (m : Move σ κ τ) : Turn σ κ τ :=
  let met := p.meet m.onBody m.onStore
  m.operation.turn m.env met.session met.store

def move (p : Play σ κ τ) (m : Move σ κ τ) : Play σ κ τ :=
  (p.meet m.onBody m.onStore).after (p.turn m)

def run (p : Play σ κ τ) (moves : List (Move σ κ τ)) : Play σ κ τ := moves.foldl move p

end Moves

/-! ## Beats -/

/-- The play with further calls made. -/
def log (p : Play σ κ τ) (calls : List Call) : Play σ κ τ :=
  { p with trace := p.trace ++ calls.map .call }

/-- The session has taken a body to read, and the sink that goes with it. -/
def begun (p : Play σ κ τ) (body : σ) (sink : κ) : Play σ κ τ :=
  { p with session := { p.session with body := some body, sink := some sink } }

/-- The session has ended, and compiler and sink were told. -/
def ended (p : Play σ κ τ) (outcome : Outcome) : Play σ κ τ :=
  ⟨p.session.close outcome, p.store,
    p.trace ++ Ending.notices ⟨p.session.token, p.session.sink, outcome⟩⟩

/-- The session was ended from outside. -/
def stopped (env : Surroundings) (p : Play σ κ τ) (cause : Interruption) : Play σ κ τ :=
  (p.log (if p.session.body.isSome then [.cancelBody] else [])).ended
    (.failed (cause.failure env.contextLive))

/-- The body has failed. -/
def broken (env : Surroundings) (p : Play σ κ τ) (cause : ReadFailure) : Play σ κ τ :=
  p.ended (.failed ((Interruption.bodyFailed cause).failure env.contextLive))

@[simp] theorem calls_log (p : Play σ κ τ) (calls : List Call) :
    (p.log calls).calls = p.calls ++ calls := by
  simp [Play.calls, log, List.filterMap_map, Function.comp_def, Notice.call?]

@[simp] theorem calls_ended (p : Play σ κ τ) (outcome : Outcome) :
    (p.ended outcome).calls = p.calls := by
  cases ht : p.session.token <;> cases hs : p.session.sink <;>
    simp [Play.calls, ended, Ending.notices_eq, Notice.call?, ht, hs]

/-- A session that lets go of its body when it ends has not ended while it has one. -/
theorem ongoing_of_body {p : Play σ κ τ} (hletGo : p.session.outcome.isSome → p.session.body = none)
    (hb : p.session.body.isSome) : p.session.outcome = none := by
  cases ho : p.session.outcome with
  | none => rfl
  | some outcome =>
    rw [hletGo (by simp [ho])] at hb
    cases hb

variable [Store τ]

/-- A chunk was offered, passed on and taken whole, which leaves `rest` of the body. -/
def passed (env : Surroundings) (p : Play σ κ τ) (bytes : Bytes) (taken : Taken) (rest : σ) :
    Play σ κ τ :=
  let (s, store, calls) := p.session.pass env p.store bytes
  log ⟨{ s with body := some rest }, store, p.trace⟩
    (.offer (.chunk bytes) :: calls ++ [.take bytes.length taken])

/-- The verdict was asked for. -/
def judged (p : Play σ κ τ) : Play σ κ τ :=
  let (_, digest, step) := p.session.trial.verdict p.session.digest p.store
  log ⟨{ p.session with trial := step.trial, digest }, step.store, p.trace⟩ step.calls

/-- The body has ended, and the session with it. -/
def succeeded (p : Play σ κ τ) : Play σ κ τ :=
  p.judged.ended (.compiled (p.session.trial.verdict p.session.digest p.store).1)

variable [Body σ]

/-- One read, and what comes of it. -/
inductive Beat : Play σ κ τ → Play σ κ τ → Prop
  | wait (p : Play σ κ τ) (body : σ) : p.session.body = some body →
      (Body.offer body).1 = .wait →
      Beat p ({ p with session := { p.session with body := some (Body.offer body).2 } }.log
        [.offer .wait])
  | chunk (p : Play σ κ τ) (env : Surroundings) (body : σ) (bytes : Bytes) :
      p.session.body = some body → (Body.offer body).1 = .chunk bytes →
      (Body.take (Body.offer body).2 bytes.length).1 = .more →
      Beat p (p.passed env bytes .more (Body.take (Body.offer body).2 bytes.length).2)
  | finished (p : Play σ κ τ) (body : σ) : p.session.body = some body →
      (Body.offer body).1 = .finished → Beat p (p.log [.offer .finished]).succeeded
  /-- The body ends with the chunk. -/
  | lastChunk (p : Play σ κ τ) (env : Surroundings) (body : σ) (bytes : Bytes) :
      p.session.body = some body → (Body.offer body).1 = .chunk bytes →
      (Body.take (Body.offer body).2 bytes.length).1 = .finished →
      Beat p (p.passed env bytes .finished body).succeeded
  | failed (p : Play σ κ τ) (env : Surroundings) (body : σ) (cause : ReadFailure) :
      p.session.body = some body → (Body.offer body).1 = .failed cause →
      Beat p ((p.log [.offer (.failed cause)]).broken env cause)
  /-- The body fails with the chunk. -/
  | brokenChunk (p : Play σ κ τ) (env : Surroundings) (body : σ) (bytes : Bytes)
      (cause : ReadFailure) :
      p.session.body = some body → (Body.offer body).1 = .chunk bytes →
      (Body.take (Body.offer body).2 bytes.length).1 = .failed cause →
      Beat p ((p.passed env bytes (.failed cause) body).broken env cause)

abbrev Beats : Play σ κ τ → Play σ κ τ → Prop := Relation.ReflTransGen Beat

/-- What an operation can make of a play. -/
inductive Turned (env : Surroundings) (p : Play σ κ τ) :
    Session.Operation σ κ → Play σ κ τ → Prop
  | ignored (body : σ) (sink : κ) : p.session.body.isSome ∨ p.session.outcome.isSome →
      Turned env p (.start body sink) p
  | started (body : σ) (sink : κ) (q : Play σ κ τ) : p.session.body = none →
      p.session.outcome = none → Beats (p.begun body sink) q → Turned env p (.start body sink) q
  | bodiless : p.session.body = none → Turned env p .resume p
  | resumed (q : Play σ κ τ) : p.session.body.isSome → Beats p q → Turned env p .resume q
  | late (o : Session.Operation σ κ) : p.session.outcome.isSome → Turned env p o p
  | cancelled : p.session.outcome = none → Turned env p .cancel (p.stopped env .cancelled)
  | withdrawn : p.session.outcome = none → Turned env p .withdraw (p.stopped env .withdrawn)

/-! ## What a turn is

While a body is read, the session's own place for it is not looked at; so the lemmas leave
open what stands there. -/

omit [Store τ] [Body σ] in
theorem after_after (p : Play σ κ τ) (calls : List Call) (t : Turn σ κ τ) :
    p.after (t.after calls) = (p.log calls).after t := by
  simp [after, Turn.after, Turn.notices, log]

omit [Store τ] [Body σ] in
theorem after_finish (p : Play σ κ τ) (s : Session σ κ) (store : Option τ) (calls : List Call)
    (outcome : Outcome) (body : Option σ) :
    p.after (s.finish store calls outcome) =
      (log ⟨{ s with body }, store, p.trace⟩ calls).ended outcome := by
  simp [after, Session.finish, Session.close, Turn.notices, ended, log]

omit [Body σ] in
theorem after_succeed (p : Play σ κ τ) (s : Session σ κ) (store : Option τ) (body : Option σ) :
    p.after (s.succeed store) = succeeded ⟨{ s with body }, store, p.trace⟩ := by
  simp only [Session.succeed, after_finish p _ _ _ _ body]
  rfl

omit [Body σ] in
theorem passed_eq {env : Surroundings} {s s' : Session σ κ} {store store' : Option τ}
    {bytes : Bytes} {calls : List Call} (h : s.pass env store bytes = (s', store', calls))
    (trace : List (Notice κ)) (body : Option σ) (taken : Taken) (rest : σ) :
    passed env ⟨{ s with body }, store, trace⟩ bytes taken rest =
      log ⟨{ s' with body := some rest }, store', trace⟩
        (.offer (.chunk bytes) :: calls ++ [.take bytes.length taken]) := by
  have hpass : ({ s with body } : Session σ κ).pass env store bytes =
      ({ s' with body }, store', calls) := by rw [Session.pass_body, h]
  simp only [passed, hpass]

/-- A session that reads `body` as its own. -/
theorem read_beats (env : Surroundings) (s : Session σ κ) (body : σ) (store : Option τ)
    (trace : List (Notice κ)) :
    Beats ⟨{ s with body := some body }, store, trace⟩
      (after ⟨s, store, trace⟩ (s.read env body store)) := by
  fun_induction Session.read env s body store generalizing trace with
  | case1 s body store rest hoffer =>
    exact .single (.wait _ body rfl hoffer)
  | case2 s body store hoffer =>
    rw [after_after, after_succeed _ _ _ (some body)]
    exact .single (.finished _ body rfl hoffer)
  | case3 s body store cause hoffer =>
    rw [Session.interrupt, after_finish _ _ _ _ _ (some body)]
    exact .single (.failed _ env body cause rfl hoffer)
  | case4 s body store rest bytes hoffer s' store' calls hpass taken all htaken ih =>
    have hbeat := Beat.chunk ⟨{ s with body := some body }, store, trace⟩ env body bytes rfl hoffer
      htaken
    rw [passed_eq hpass, ← htaken] at hbeat
    rw [after_after]
    exact .head hbeat (ih _)
  | case5 s body store rest bytes hoffer s' store' calls hpass taken all htaken =>
    have hbeat := Beat.lastChunk ⟨{ s with body := some body }, store, trace⟩ env body bytes rfl
      hoffer htaken
    rw [passed_eq hpass, ← htaken] at hbeat
    rw [after_after, after_succeed _ _ _ (some body)]
    exact .single hbeat
  | case6 s body store rest bytes hoffer s' store' calls hpass taken all cause htaken =>
    have hbeat := Beat.brokenChunk ⟨{ s with body := some body }, store, trace⟩ env body bytes cause
      rfl hoffer htaken
    rw [passed_eq hpass, ← htaken] at hbeat
    rw [Session.interrupt, after_finish _ _ _ _ _ (some body)]
    exact .single hbeat

theorem turn_turned (env : Surroundings) (p : Play σ κ τ) (o : Session.Operation σ κ) :
    Turned env p o (p.after (o.turn env p.session p.store)) := by
  have hidle : p.after ⟨p.session, p.store, [], none⟩ = p := by
    simp [after, Turn.notices]
  have hstop : ∀ cause, p.session.outcome = none →
      p.after (p.session.stop env p.store cause) = p.stopped env cause := by
    intro cause ho
    simp only [Session.stop, Session.hasEnded, ho, Option.isSome_none, Bool.false_eq_true, if_false,
      Session.interrupt]
    rw [after_finish _ _ _ _ _ p.session.body, stopped]
  have hlate : ∀ cause, p.session.outcome.isSome →
      p.after (p.session.stop env p.store cause) = p := by
    intro cause ho
    simp only [Session.stop, Session.hasEnded, ho, if_true, hidle]
  cases o with
  | start body sink =>
    by_cases hbusy : p.session.body.isSome || p.session.hasEnded
    · simp only [Session.Operation.turn, Session.start, hbusy, if_true, hidle]
      exact .ignored body sink (by simpa [Session.hasEnded] using hbusy)
    · simp only [Session.Operation.turn, Session.start, hbusy]
      simp only [Bool.or_eq_true, not_or, Session.hasEnded, Option.not_isSome_iff_eq_none] at hbusy
      exact .started body sink _ hbusy.1 hbusy.2
        (read_beats env { p.session with sink := some sink } body p.store p.trace)
  | resume =>
    by_cases ho : p.session.outcome.isSome
    · simpa only [Session.Operation.turn, Session.resume_of_ended env p.store ho, hidle]
        using .late _ ho
    rw [Option.not_isSome_iff_eq_none] at ho
    cases hb : p.session.body with
    | none =>
      simp only [Session.Operation.turn, Session.resume_of_bodiless env p.store hb, hidle]
      exact .bodiless hb
    | some body =>
      have hread := read_beats env p.session body p.store p.trace
      rw [← hb] at hread
      simp only [Session.Operation.turn, Session.resume_of_body env p.store hb ho]
      exact .resumed _ (by simp [hb]) hread
  | cancel =>
    by_cases ho : p.session.outcome.isSome
    · simpa only [Session.Operation.turn, Session.cancel, hlate _ ho] using .late _ ho
    · rw [Option.not_isSome_iff_eq_none] at ho
      simpa only [Session.Operation.turn, Session.cancel, hstop _ ho] using .cancelled ho
  | withdraw =>
    by_cases ho : p.session.outcome.isSome
    · simpa only [Session.Operation.turn, Session.withdraw, hlate _ ho] using .late _ ho
    · rw [Option.not_isSome_iff_eq_none] at ho
      simpa only [Session.Operation.turn, Session.withdraw, hstop _ ho] using .withdrawn ho

theorem beats_keep {I : Play σ κ τ → Prop} (hbeat : ∀ p q, Beat p q → I p → I q)
    {p q : Play σ κ τ} (h : Beats p q) (hp : I p) : I q := by
  induction h with
  | refl => exact hp
  | tail _ hb ih => exact hbeat _ _ hb ih

theorem turned_keeps {I : Play σ κ τ → Prop}
    (hbegin : ∀ p body sink, p.session.body = none → p.session.outcome = none → I p →
      I (p.begun body sink))
    (hbeat : ∀ p q, Beat p q → I p → I q)
    (hstop : ∀ p env cause, p.session.outcome = none → I p → I (p.stopped env cause))
    {env : Surroundings} {o : Session.Operation σ κ} {p q : Play σ κ τ} (h : Turned env p o q)
    (hp : I p) : I q := by
  cases h with
  | ignored _ _ _ => exact hp
  | started body sink _ hb ho hbeats => exact beats_keep hbeat hbeats (hbegin _ _ _ hb ho hp)
  | bodiless _ => exact hp
  | resumed _ _ hbeats => exact beats_keep hbeat hbeats hp
  | late _ _ => exact hp
  | cancelled ho => exact hstop _ _ _ ho hp
  | withdrawn ho => exact hstop _ _ _ ho hp

/-- What is kept by others, by beginning, by every beat and by stopping holds all through a
    run. -/
theorem run_keeps {I : Play σ κ τ → Prop} (hmeet : ∀ p f g, I p → I (p.meet f g))
    (hbegin : ∀ p body sink, p.session.body = none → p.session.outcome = none → I p →
      I (p.begun body sink))
    (hbeat : ∀ p q, Beat p q → I p → I q)
    (hstop : ∀ p env cause, p.session.outcome = none → I p → I (p.stopped env cause))
    {p : Play σ κ τ} (hp : I p) (moves : List (Move σ κ τ)) : I (p.run moves) := by
  induction moves generalizing p with
  | nil => exact hp
  | cons m ms ih =>
    have hmet : I (p.meet m.onBody m.onStore) := hmeet _ _ _ hp
    exact ih (turned_keeps hbegin hbeat hstop (turn_turned m.env _ m.operation) hmet)

end Play

end CompileCache
