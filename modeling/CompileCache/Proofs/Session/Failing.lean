/-
  CompileCache.Proofs.Session.Failing — which failure a session ends with.

  A session fails for one of three reasons (`Interruption`), and what is told of the first two
  depends on whether the handle to the requesting context still finds it. The context may be
  lost at any time, between two operations or in the middle of one, by whatever the session
  calls (`Incident`): it is detached or released, and is never found again.

  A turn that reads fails exactly if the last answer of the body is a failure, and that is the
  failure it ends with (`Session.read_failed_iff`). Nothing else of a turn depends on the
  context: seen by somebody who is shown no error that the context may keep back (`veiled`),
  every play is the one in which there never was a context (`veiled_run`).

  Proved: the failure that is told is that of the first cause and of the context by then, to
  the compiler, the sink and all who ask later; and no context that is lost ends a session
  (`failure_of_first_cause`).
-/

import CompileCache.Embedder
import CompileCache.Proofs.Session.Reception

namespace CompileCache

variable {σ κ τ : Type}

/-! ## Losing the context -/

/-- How a context comes to be lost. -/
inductive Context.Loss where
  | detached
  | released
  deriving DecidableEq, Repr

namespace Context

/-- What is left of a context. -/
def lose (context : Option Context) : Loss → Option Context
  | .detached => context.map detach
  | .released => none

/-- Whether a handle finds it. -/
def found (context : Option Context) : Bool := context.any (·.live)

theorem not_found_lose (context : Option Context) (loss : Loss) :
    found (lose context loss) = false := by
  cases loss <;> cases context <;> rfl

theorem not_found_losses {context : Option Context} (h : found context = false)
    (losses : List Loss) : found (losses.foldl lose context) = false := by
  induction losses generalizing context with
  | nil => exact h
  | cons loss losses ih => exact ih (not_found_lose context loss)

end Context

/-- What the handle that sessions and tasks have refers to. -/
def Embedder.held (m : Embedder) : Option Context := if m.attached then m.context else none

theorem Embedder.isSome_liveContext (m : Embedder) :
    m.liveContext.isSome = Context.found m.held := by
  unfold liveContext held
  split
  · cases hc : m.context with
    | none => rfl
    | some c => cases hlive : c.live <;> simp [Context.found, hlive]
  · rfl

theorem Embedder.held_detachContext (m : Embedder) :
    m.detachContext.held = Context.lose m.held .detached := by
  unfold held
  split <;> simp_all [detachContext, Context.lose]

theorem Embedder.held_releaseContext (m : Embedder) :
    m.releaseContext.held = Context.lose m.held .released := by
  unfold held
  split <;> simp_all [releaseContext, Context.lose]

/-- What happens to a session and to the context that it was requested in. -/
inductive Incident (σ κ τ : Type) where
  | lost (loss : Context.Loss)
  /-- A move, with the losses that there are before it is over. -/
  | move (m : Move σ κ τ) (losses : List Context.Loss)

namespace Incident

def losses : Incident σ κ τ → List Context.Loss
  | lost loss => [loss]
  | move _ losses => losses

def move? : Incident σ κ τ → Option (Move σ κ τ)
  | lost _ => none
  | move m _ => some m

/-- The context after all of this. -/
def contextAfter (context : Option Context) (hs : List (Incident σ κ τ)) : Option Context :=
  (hs.flatMap losses).foldl Context.lose context

end Incident

/-- The move in surroundings that have this context. -/
def Move.under (m : Move σ κ τ) (context : Option Context) : Move σ κ τ :=
  { m with env := { m.env with contextLive := Context.found context } }

/-- The moves, each under the context that there is when it is over. -/
def Incident.moves (context : Option Context) : List (Incident σ κ τ) → List (Move σ κ τ)
  | [] => []
  | lost loss :: hs => moves (Context.lose context loss) hs
  | move m losses :: hs =>
    m.under (losses.foldl Context.lose context) :: moves (losses.foldl Context.lose context) hs

/-! ## Failing turns -/

/-- The failure that a body answers. -/
def Call.readFailure? : Call → Option ReadFailure
  | offer (.failed cause) => some cause
  | take _ (.failed cause) => some cause
  | _ => none

/-- The failure of the body that a turn ends with. -/
def Turn.readFailure? (t : Turn σ κ τ) : Option ReadFailure :=
  t.calls.getLast?.bind Call.readFailure?

theorem Turn.readFailure?_of_forall_not {t : Turn σ κ τ}
    (h : ∀ c ∈ t.calls, c.readFailure? = none) : t.readFailure? = none := by
  unfold readFailure?
  cases hlast : t.calls.getLast? with
  | none => rfl
  | some c => exact h c (List.mem_of_getLast? hlast)

theorem Turn.readFailure?_after (t : Turn σ κ τ) {calls : List Call}
    (h : ∀ c ∈ calls, c.readFailure? = none) : (t.after calls).readFailure? = t.readFailure? := by
  simp only [readFailure?, Turn.after, List.getLast?_append]
  cases t.calls.getLast? with
  | some c => rfl
  | none =>
    cases hlast : calls.getLast? with
    | none => rfl
    | some c => exact h c (List.mem_of_getLast? hlast)

theorem Call.readFailure?_of_aboutRecord {c : Call} (h : c.aboutRecord) :
    c.readFailure? = none := by
  cases c <;> simp_all [aboutRecord, readFailure?]

namespace Session

variable [Store τ]

theorem succeed_readFailure? (s : Session σ κ) (store : Option τ) :
    (s.succeed store).readFailure? = none :=
  Turn.readFailure?_of_forall_not fun c hc =>
    Call.readFailure?_of_aboutRecord ((Trial.verdict_judged ..).aboutRecord c hc)

theorem pass_readFailure? (env : Surroundings) (s : Session σ κ) (store : Option τ)
    (chunk : Bytes) : ∀ c ∈ (s.pass env store chunk).2.2, c.readFailure? = none := by
  unfold pass
  split
  · exact List.forall_mem_nil _
  · intro c hc
    rcases List.mem_append.1 hc with hc | hc
    · exact Call.readFailure?_of_aboutRecord ((Trial.start_begun ..).aboutRecord c hc)
    · rw [List.mem_singleton.1 hc]
      rfl

variable [Body σ]

/-- A session that reads fails with its body. -/
theorem read_failed_iff (env : Surroundings) (s : Session σ κ) (body : σ) (store : Option τ)
    (ho : s.outcome = none) (failure : Failure) :
    (s.read env body store).session.outcome = some (.failed failure) ↔
      ∃ cause, (s.read env body store).readFailure? = some cause ∧
        failure = (Interruption.bodyFailed cause).failure env.contextLive := by
  have hsucceeded : ∀ (s : Session σ κ) store calls, (∀ c ∈ calls, c.readFailure? = none) →
      (((s.succeed store).after calls).session.outcome = some (.failed failure) ↔
        ∃ cause, ((s.succeed (τ := τ) store).after calls).readFailure? = some cause ∧
          failure = (Interruption.bodyFailed cause).failure env.contextLive) := by
    intro s store calls hcalls
    rw [Turn.readFailure?_after _ hcalls, succeed_readFailure?]
    simp [Turn.after, succeed, finish]
  have hpassed : ∀ {s s' : Session σ κ} {store store' : Option τ} {bytes : Bytes}
      {calls : List Call} (taken : Taken), s.pass env store bytes = (s', store', calls) →
      s'.outcome = s.outcome ∧
        ((∀ cause, taken ≠ .failed cause) →
          ∀ c ∈ Call.offer (.chunk bytes) :: calls ++ [.take bytes.length taken],
            c.readFailure? = none) := by
    intro s s' store store' bytes calls taken hpass
    have houtcome := outcome_pass env s store bytes
    have hcalls := pass_readFailure? env s store bytes
    rw [hpass] at houtcome hcalls
    refine ⟨houtcome, fun htaken c hc => ?_⟩
    rcases List.mem_append.1 hc with hc | hc
    · rcases List.mem_cons.1 hc with rfl | hc
      · rfl
      · exact hcalls c hc
    · rw [List.mem_singleton.1 hc]
      cases taken with
      | failed cause => exact absurd rfl (htaken cause)
      | _ => rfl
  fun_induction read env s body store with
  | case1 s body store rest hoffer => simp [Turn.readFailure?, Call.readFailure?, ho]
  | case2 s body store hoffer => exact hsucceeded s store _ (by simp [Call.readFailure?])
  | case3 s body store cause hoffer =>
    simp [interrupt, finish, Turn.readFailure?, Call.readFailure?, eq_comm]
  | case4 s body store rest bytes hoffer s' store' calls hpass taken all htaken ih =>
    obtain ⟨houtcome, hcalls⟩ := hpassed taken hpass
    rw [Turn.readFailure?_after _ (hcalls (by simp [htaken]))]
    exact ih (houtcome.trans ho)
  | case5 s body store rest bytes hoffer s' store' calls hpass taken all htaken =>
    exact hsucceeded s' store' _ ((hpassed taken hpass).2 (by simp [htaken]))
  | case6 s body store rest bytes hoffer s' store' calls hpass taken all cause htaken =>
    have hlast : all.getLast? = some (.take bytes.length (.failed cause)) := by
      rw [← htaken]
      exact List.getLast?_concat
    simp [interrupt, finish, Turn.readFailure?, hlast, Call.readFailure?, eq_comm]

omit [Store τ] [Body σ] in
theorem stop_of_ongoing (env : Surroundings) {s : Session σ κ} (store : Option τ)
    (cause : Interruption) (ho : s.outcome = none) :
    (s.stop env store cause).session.outcome = some (.failed (cause.failure env.contextLive)) ∧
      (s.stop env store cause).readFailure? = none := by
  refine ⟨by simp [stop, hasEnded, ho, interrupt, finish],
    Turn.readFailure?_of_forall_not fun c hc => ?_⟩
  rw [Play.stop_calls env s store cause c hc]
  rfl

/-- The failures that an operation can end a session with by the turn `t`; `found` says whether
    the context is found when it does. -/
inductive Operation.Fails (o : Operation σ κ) (t : Turn σ κ τ) (found : Bool) : Failure → Prop
  | withdrawn : o = .withdraw → Fails o t found (.visible .withdrawn)
  | cancelled : o = .cancel → Fails o t found (if found then .visible .downloadStopped else .silent)
  | bodyFailed (cause : ReadFailure) : t.readFailure? = some cause →
      Fails o t found (if found then .visible (.unreadable cause) else .silent)

omit [Store τ] [Body σ] in
/-- An operation that does not stop the session can only fail with the body. -/
theorem Operation.fails_iff {o : Operation σ κ} (hcancel : o ≠ .cancel) (hwithdraw : o ≠ .withdraw)
    (t : Turn σ κ τ) (found : Bool) (failure : Failure) : o.Fails t found failure ↔
      ∃ cause, t.readFailure? = some cause ∧
        failure = (Interruption.bodyFailed cause).failure found := by
  constructor
  · intro hfails
    cases hfails with
    | withdrawn h => exact absurd h hwithdraw
    | cancelled h => exact absurd h hcancel
    | bodyFailed cause h => exact ⟨cause, h, rfl⟩
  · rintro ⟨cause, h, rfl⟩
    exact .bodyFailed cause h

theorem Operation.turn_failed_iff (env : Surroundings) {s : Session σ κ} (store : Option τ)
    (ho : s.outcome = none) (o : Operation σ κ) (failure : Failure) :
    (o.turn env s store).session.outcome = some (.failed failure) ↔
      o.Fails (o.turn env s store) env.contextLive failure := by
  have hidle : (⟨s, store, [], none⟩ : Turn σ κ τ).session.outcome = some (.failed failure) ↔
      ∃ cause, (⟨s, store, [], none⟩ : Turn σ κ τ).readFailure? = some cause ∧
        failure = (Interruption.bodyFailed cause).failure env.contextLive := by
    simp [Turn.readFailure?, ho]
  cases o with
  | start body sink =>
    refine Iff.trans ?_ (Operation.fails_iff (by simp) (by simp) _ _ _).symm
    simp only [Operation.turn, Session.start]
    split
    · exact hidle
    · exact read_failed_iff env { s with sink := some sink } body store ho failure
  | resume =>
    refine Iff.trans ?_ (Operation.fails_iff (by simp) (by simp) _ _ _).symm
    simp only [Operation.turn, Session.resume]
    split
    · exact read_failed_iff env s _ store ho failure
    · exact hidle
  | cancel =>
    obtain ⟨hended, hread⟩ := stop_of_ongoing env store .cancelled ho
    simp only [Operation.turn, Session.cancel, hended, Option.some.injEq, Outcome.failed.injEq]
    constructor
    · rintro rfl
      exact .cancelled rfl
    · intro hfails
      cases hfails with
      | withdrawn h => cases h
      | cancelled _ => rfl
      | bodyFailed cause h =>
        rw [hread] at h
        cases h
  | withdraw =>
    obtain ⟨hended, hread⟩ := stop_of_ongoing env store .withdrawn ho
    simp only [Operation.turn, Session.withdraw, hended, Option.some.injEq, Outcome.failed.injEq]
    constructor
    · rintro rfl
      exact .withdrawn rfl
    · intro hfails
      cases hfails with
      | withdrawn _ => rfl
      | cancelled h => cases h
      | bodyFailed cause h =>
        rw [hread] at h
        cases h

end Session

namespace Play

variable [Body σ] [Store τ]

/-- A session has failed exactly if one of its moves has failed it, which was the first to end
    it. -/
theorem run_failed_iff {sink : Option κ} {p : Play σ κ τ} (howes : Owes sink p)
    (ho : p.session.outcome = none) (ms : List (Move σ κ τ)) (failure : Failure) :
    (p.run ms).session.outcome = some (.failed failure) ↔
      ∃ before m after, ms = before ++ m :: after ∧ (p.run before).session.outcome = none ∧
        m.operation.Fails ((p.run before).turn m) m.env.contextLive failure := by
  induction ms generalizing p sink with
  | nil => simp [run, ho]
  | cons m ms ih =>
    have hmoved := move_owes howes m
    have hfirst : (p.move m).session.outcome = some (.failed failure) ↔
        m.operation.Fails (p.turn m) m.env.contextLive failure :=
      Session.Operation.turn_failed_iff m.env (s := (p.meet m.onBody m.onStore).session) _ ho
        m.operation failure
    cases ho' : (p.move m).session.outcome with
    | none =>
      refine (ih hmoved ho').trans ⟨?_, ?_⟩
      · rintro ⟨before, m', after, rfl, hopen, hfails⟩
        exact ⟨m :: before, m', after, rfl, hopen, hfails⟩
      · rintro ⟨before, m', after, heq, hopen, hfails⟩
        cases before with
        | nil =>
          cases heq
          rw [hfirst.2 hfails] at ho'
          cases ho'
        | cons b before =>
          cases heq
          exact ⟨before, m', after, rfl, hopen, hfails⟩
    | some outcome =>
      have hlast : ∀ more, ((p.move m).run more).session.outcome = some outcome := by
        intro more
        rw [(run_of_ended ho' (hmoved.letGo (Option.isSome_of_eq_some ho')).1 more).1, ho']
      rw [show p.run (m :: ms) = (p.move m).run ms from rfl, hlast, ← ho', hfirst]
      constructor
      · exact fun hfails => ⟨[], m, ms, rfl, ho, hfails⟩
      · rintro ⟨before, m', after, heq, hopen, hfails⟩
        cases before with
        | nil =>
          cases heq
          exact hfails
        | cons b before =>
          cases heq
          rw [show p.run (m :: before) = (p.move m).run before from rfl, hlast] at hopen
          cases hopen

end Play

/-! ## Incidents -/

namespace Incident

theorem contextAfter_move (context : Option Context) (m : Move σ κ τ) (losses : List Context.Loss)
    (hs : List (Incident σ κ τ)) : contextAfter context (.move m losses :: hs) =
      contextAfter (losses.foldl Context.lose context) hs := by
  simp [contextAfter, Incident.losses]

theorem moves_append (context : Option Context) (hs more : List (Incident σ κ τ)) :
    moves context (hs ++ more) = moves context hs ++ moves (contextAfter context hs) more := by
  induction hs generalizing context with
  | nil => rfl
  | cons h hs ih =>
    cases h with
    | lost loss => exact ih _
    | move m losses =>
      rw [contextAfter_move]
      exact congrArg _ (ih _)

theorem moves_append_move (context : Option Context) (before : List (Incident σ κ τ))
    (m : Move σ κ τ) (losses : List Context.Loss) (after : List (Incident σ κ τ)) :
    let last := contextAfter context (before ++ [.move m losses])
    moves context (before ++ .move m losses :: after) =
      moves context before ++ m.under last :: moves last after := by
  intro last
  have hlast : last = losses.foldl Context.lose (contextAfter context before) := by
    simp [last, contextAfter, Incident.losses]
  rw [moves_append, hlast]
  rfl

/-- Where a move comes from. -/
theorem exists_of_moves_eq {context : Option Context} {hs : List (Incident σ κ τ)}
    {before after : List (Move σ κ τ)} {m : Move σ κ τ}
    (h : moves context hs = before ++ m :: after) :
    ∃ hs₀ m₀ losses rest, hs = hs₀ ++ .move m₀ losses :: rest ∧ moves context hs₀ = before ∧
      m = m₀.under (contextAfter context (hs₀ ++ [.move m₀ losses])) := by
  induction hs generalizing context before with
  | nil => simp [moves] at h
  | cons i hs ih =>
    cases i with
    | lost loss =>
      obtain ⟨hs₀, m₀, losses, rest, rfl, hbefore, hm⟩ := ih h
      exact ⟨.lost loss :: hs₀, m₀, losses, rest, rfl, hbefore, hm⟩
    | move m' losses =>
      cases before with
      | nil =>
        cases h
        exact ⟨[], m', losses, hs, rfl, rfl, by rw [List.nil_append, contextAfter_move]; rfl⟩
      | cons b before =>
        obtain ⟨rfl, hrest⟩ := List.cons.inj h
        obtain ⟨hs₀, m₀, losses', rest, rfl, hbefore, hm⟩ := ih hrest
        refine ⟨.move m' losses :: hs₀, m₀, losses', rest, rfl, congrArg _ hbefore, ?_⟩
        rw [List.cons_append, contextAfter_move]
        exact hm

/-- Losses alone are no moves. -/
theorem moves_lost (context : Option Context) (losses : List Context.Loss) :
    moves (σ := σ) (κ := κ) (τ := τ) context (losses.map .lost) = [] := by
  induction losses generalizing context with
  | nil => rfl
  | cons loss losses ih => exact ih _

end Incident

/-! ## Without a context -/

/-- The failure as it is told when no context is found. -/
def Failure.veiled : Failure → Failure
  | visible .withdrawn => .visible .withdrawn
  | _ => .silent

def Outcome.veiled : Outcome → Outcome
  | compiled trusted => .compiled trusted
  | failed failure => .failed failure.veiled

def Ending.veiled (e : Ending κ) : Ending κ := { e with outcome := e.outcome.veiled }

def Session.veiled (s : Session σ κ) : Session σ κ :=
  { s with outcome := s.outcome.map Outcome.veiled, token_held := by simp [s.token_held] }

def Turn.veiled (t : Turn σ κ τ) : Turn σ κ τ :=
  { t with session := t.session.veiled, ending := t.ending.map Ending.veiled }

def Notice.veiled : Notice κ → Notice κ
  | call c => .call c
  | compilerTold outcome => .compilerTold outcome.veiled
  | sinkTold sink outcome => .sinkTold sink outcome.veiled

def Play.veiled (p : Play σ κ τ) : Play σ κ τ :=
  ⟨p.session.veiled, p.store, p.trace.map Notice.veiled⟩

theorem Interruption.veiled_failure (found : Bool) (cause : Interruption) :
    (cause.failure found).veiled = cause.failure false := by
  cases cause <;> cases found <;> rfl

namespace Session

theorem veiled_finish (s : Session σ κ) (store : Option τ) (calls : List Call) (outcome : Outcome) :
    (s.finish store calls outcome).veiled = s.veiled.finish store calls outcome.veiled := rfl

theorem veiled_interrupt (env : Surroundings) (s : Session σ κ) (store : Option τ)
    (calls : List Call) (cause : Interruption) :
    (s.interrupt env store calls cause).veiled =
      s.veiled.interrupt { env with contextLive := false } store calls cause := by
  rw [interrupt, veiled_finish, Outcome.veiled, Interruption.veiled_failure]
  rfl

theorem veiled_stop (env : Surroundings) (s : Session σ κ) (store : Option τ)
    (cause : Interruption) : (s.stop env store cause).veiled =
      s.veiled.stop { env with contextLive := false } store cause := by
  have hended : s.veiled.hasEnded = s.hasEnded := by simp [hasEnded, veiled]
  unfold stop
  rw [hended]
  split
  · rfl
  · exact veiled_interrupt env s store _ cause

variable [Store τ]

theorem veiled_pass (env : Surroundings) (s : Session σ κ) (store : Option τ) (chunk : Bytes) :
    s.veiled.pass { env with contextLive := false } store chunk =
      ((s.pass env store chunk).1.veiled, (s.pass env store chunk).2) := by
  unfold pass
  split <;> rfl

variable [Body σ]

theorem veiled_read (env : Surroundings) (s : Session σ κ) (body : σ) (store : Option τ) :
    (s.read env body store).veiled =
      s.veiled.read { env with contextLive := false } body store := by
  fun_induction read env s body store with
  | case1 s body store rest hoffer =>
    rw [read_eq, hoffer]
    rfl
  | case2 s body store hoffer =>
    rw [read_eq, hoffer]
    rfl
  | case3 s body store cause hoffer =>
    rw [read_eq, hoffer]
    exact veiled_interrupt env s store _ _
  | case4 s body store rest bytes hoffer s' store' calls hpass taken all htaken ih =>
    have htaken' : (Body.take (Body.offer body).2 bytes.length).1 = .more := htaken
    rw [read_eq { env with contextLive := false } s.veiled, hoffer]
    simp only [veiled_pass, hpass, htaken']
    rw [← htaken', ← ih]
    rfl
  | case5 s body store rest bytes hoffer s' store' calls hpass taken all htaken =>
    have htaken' : (Body.take (Body.offer body).2 bytes.length).1 = .finished := htaken
    rw [read_eq, hoffer]
    simp only [veiled_pass, hpass, htaken']
    rw [← htaken']
    rfl
  | case6 s body store rest bytes hoffer s' store' calls hpass taken all cause htaken =>
    have htaken' : (Body.take (Body.offer body).2 bytes.length).1 = .failed cause := htaken
    rw [read_eq, hoffer]
    simp only [veiled_pass, hpass, htaken']
    rw [← htaken']
    exact veiled_interrupt env s' store' _ _

theorem Operation.veiled_turn (env : Surroundings) (s : Session σ κ) (store : Option τ)
    (o : Operation σ κ) : (o.turn env s store).veiled =
      o.turn { env with contextLive := false } s.veiled store := by
  cases o with
  | start body sink =>
    have hended : s.veiled.hasEnded = s.hasEnded := by simp [hasEnded, veiled]
    simp only [Operation.turn, Session.start]
    rw [hended, show s.veiled.body = s.body from rfl]
    split
    · rfl
    · exact veiled_read env { s with sink := some sink } body store
  | resume =>
    simp only [Operation.turn, Session.resume]
    rw [show s.veiled.body = s.body from rfl, show s.veiled.token = s.token from rfl]
    split
    · exact veiled_read env s _ store
    · rfl
  | cancel => exact veiled_stop env s store .cancelled
  | withdraw => exact veiled_stop env s store .withdrawn

end Session

/-- The move under no context. -/
def Move.dark (m : Move σ κ τ) : Move σ κ τ := m.under none

theorem Ending.notices_veiled (e : Ending κ) : e.veiled.notices = e.notices.map Notice.veiled := by
  obtain ⟨token, sink, outcome⟩ := e
  rw [notices_eq, notices_eq]
  cases token <;> cases sink <;> rfl

theorem Turn.notices_veiled (t : Turn σ κ τ) : t.veiled.notices = t.notices.map Notice.veiled := by
  obtain ⟨session, store, calls, ending⟩ := t
  have hcalls : calls.map (Notice.veiled ∘ Notice.call) = calls.map (Notice.call (κ := κ)) := rfl
  cases ending with
  | none => simp [Turn.notices, Turn.veiled, hcalls]
  | some e => simp [Turn.notices, Turn.veiled, Ending.notices_veiled, hcalls]

theorem Outcome.map_veiled_eq_compiled_iff {outcome : Option Outcome} {trusted : Bool} :
    outcome.map Outcome.veiled = some (.compiled trusted) ↔ outcome = some (.compiled trusted) := by
  cases outcome with
  | none => simp
  | some outcome => cases outcome <;> simp [Outcome.veiled]

namespace Play

theorem calls_veiled (p : Play σ κ τ) : p.veiled.calls = p.calls := by
  have hcall : Notice.call? ∘ Notice.veiled = (Notice.call? : Notice κ → Option Call) := by
    funext n
    cases n <;> rfl
  rw [Play.calls, veiled, List.filterMap_map, hcall]
  rfl

theorem veiled_after (p : Play σ κ τ) (t : Turn σ κ τ) :
    (p.after t).veiled = p.veiled.after t.veiled := by
  simp only [veiled, after, Turn.notices_veiled, List.map_append]
  rfl

theorem veiled_meet (p : Play σ κ τ) (f : σ → σ) (g : τ → τ) :
    (p.meet f g).veiled = p.veiled.meet f g := rfl

variable [Body σ] [Store τ]

theorem veiled_move (p : Play σ κ τ) (m : Move σ κ τ) :
    (p.move m).veiled = p.veiled.move m.dark := by
  rw [move, veiled_after, veiled_meet]
  exact congrArg _ (Session.Operation.veiled_turn m.env _ _ m.operation)

/-- A veiled run is one that there never was a context for. -/
theorem veiled_run (p : Play σ κ τ) (ms : List (Move σ κ τ)) :
    (p.run ms).veiled = p.veiled.run (ms.map Move.dark) := by
  induction ms generalizing p with
  | nil => rfl
  | cons m ms ih =>
    show ((p.move m).run ms).veiled = (p.veiled.move m.dark).run (ms.map Move.dark)
    rw [ih, veiled_move]

end Play

namespace Incident

theorem dark_moves (context : Option Context) (hs : List (Incident σ κ τ)) :
    (moves context hs).map Move.dark = (hs.filterMap move?).map Move.dark := by
  induction hs generalizing context with
  | nil => rfl
  | cons i hs ih =>
    cases i with
    | lost loss => exact ih _
    | move m losses => exact congrArg (List.cons m.dark) (ih _)

end Incident

open Incident in
/-- Whatever is asked of a session, however its body behaves, and whenever its context is lost. -/
theorem failure_of_first_cause [Body σ] [Store τ] (url : String) (key : Key) (token : Token)
    (store : Option τ) (context : Option Context) (hs : List (Incident σ κ τ)) :
    let opened : Play σ κ τ := .opening url key token store
    let p := opened.run (moves context hs)
    let sink := opened.acceptedSink (moves context hs)
    -- It fails with the first move to end it, by the context that there is when that is over.
    (∀ failure, p.session.outcome = some (.failed failure) ↔
      ∃ before m losses after, hs = before ++ .move m losses :: after ∧
        let q := opened.run (moves context before)
        let last := contextAfter context (before ++ [.move m losses])
        q.session.outcome = none ∧
          m.operation.Fails (q.turn (m.under last)) (Context.found last) failure) ∧
    -- Compiler and sink are told just what can be asked for later.
    (∀ outcome, p.session.outcome = some outcome → p.trace = p.calls.map .call ++
      .compilerTold outcome :: sink.toList.map (.sinkTold · outcome)) ∧
    (p.session.outcome = none → p.trace = p.calls.map .call) ∧
    -- Nothing that happens after that changes it.
    (p.session.outcome.isSome → ∀ more,
      (opened.run (moves context (hs ++ more))).session = p.session ∧
        (opened.run (moves context (hs ++ more))).trace = p.trace) ∧
    -- An embedder's context is found, detached and released like this one.
    (∀ m : Embedder, m.liveContext.isSome = Context.found m.held ∧
      m.detachContext.held = Context.lose m.held .detached ∧
      m.releaseContext.held = Context.lose m.held .released) ∧
    -- A context that was lost is never found again.
    (hs.flatMap losses ≠ [] → ∀ more, Context.found (contextAfter context (hs ++ more)) = false) ∧
    -- To lose it does nothing to the session.
    (∀ more : List Context.Loss, opened.run (moves context (hs ++ more.map .lost)) = p) ∧
    -- With other losses, or another context, the same moves end it at the same time, and with
    -- its body if they did.
    ∀ context' hs', hs'.filterMap move? = hs.filterMap move? →
      let q := opened.run (moves context' hs')
      q.calls = p.calls ∧ q.session.outcome.isSome = p.session.outcome.isSome ∧
        ∀ trusted, q.session.outcome = some (.compiled trusted) ↔
          p.session.outcome = some (.compiled trusted) := by
  intro opened p sink
  obtain ⟨hopen, hended, -, -, -, -, hlast⟩ := Play.told_once url key token store (moves context hs)
  have hrun : ∀ more, opened.run (moves context (hs ++ more)) =
      p.run (moves (contextAfter context hs) more) := by
    intro more
    rw [moves_append, Play.run, List.foldl_append]
    rfl
  refine ⟨fun failure => ?_, fun outcome ho => (hended outcome ho).1, fun ho => (hopen ho).1,
    fun ho more => ?_,
    fun m => ⟨m.isSome_liveContext, m.held_detachContext, m.held_releaseContext⟩,
    fun hlost more => ?_, fun more => ?_, fun context' hs' hsame => ?_⟩
  · refine (Play.run_failed_iff (Play.owes_opening url key token store) rfl _ failure).trans ⟨?_, ?_⟩
    · rintro ⟨before, m, after, heq, hfirst, hfails⟩
      obtain ⟨hs₀, m₀, losses, rest, rfl, rfl, rfl⟩ := exists_of_moves_eq heq
      exact ⟨hs₀, m₀, losses, rest, rfl, hfirst, hfails⟩
    · rintro ⟨before, m, losses, after, rfl, hfirst, hfails⟩
      exact ⟨_, _, _, moves_append_move context before m losses after, hfirst, hfails⟩
  · rw [hrun]
    obtain ⟨-, -, hsame⟩ := hlast ho
    exact ⟨(hsame _).1, (hsame _).2.1⟩
  · obtain ⟨loss, rest, hlosses⟩ := List.exists_cons_of_ne_nil hlost
    rw [contextAfter, List.flatMap_append, hlosses]
    exact Context.not_found_losses (Context.not_found_lose context loss) _
  · rw [hrun, moves_lost]
    rfl
  · intro q
    have hveiled : q.veiled = p.veiled := by
      rw [Play.veiled_run, Play.veiled_run, dark_moves, dark_moves, hsame]
    have houtcome : q.session.outcome.map Outcome.veiled = p.session.outcome.map Outcome.veiled :=
      congrArg (·.session.outcome) hveiled
    refine ⟨?_, ?_, fun trusted => ?_⟩
    · rw [← Play.calls_veiled q, hveiled, Play.calls_veiled]
    · simpa using congrArg Option.isSome houtcome
    · rw [← Outcome.map_veiled_eq_compiled_iff, houtcome, Outcome.map_veiled_eq_compiled_iff]

end CompileCache
