/-
  CompileCache.Proofs.Session.Ending — a session ends once, and tells so once.

  As long as a session has not ended, its trace is calls only and it holds the sink of the
  start it took. When it ends, the compiler is told and then that sink; body and sink are
  let go of, so whatever is asked of it later does nothing. This is the invariant (`Owes`,
  by the sink that is owed). It is kept by every move, except that the start that is taken
  brings the sink (`move_owes`, `run_owes`).

  Proved: what the trace of any run is (`Owes.told`); that compiler and sink of a session,
  given up at any time, are told once, together and last (`told_once`); that nothing comes
  of what is asked of a session that has ended (`turn_of_ended`).
-/

import CompileCache.Proofs.Session.Play

namespace CompileCache

variable {σ κ τ : Type}

/-- Whether the compiler is told an outcome. -/
def Notice.tellsCompiler : Notice κ → Bool
  | compilerTold _ => true
  | _ => false

/-- Whether a sink is told an outcome. -/
def Notice.tellsSink : Notice κ → Bool
  | sinkTold .. => true
  | _ => false

namespace Play

/-- Everything that is noticed of a session that is then given up. -/
def dropped (p : Play σ κ τ) : List (Notice κ) :=
  p.trace ++ p.session.drop.toList.map .compilerTold

/-- The sink that comes with an operation, if the session takes it: only a start brings one,
    and it is not taken when there is a body already or the session has ended. -/
def sinkTaken (p : Play σ κ τ) : Session.Operation σ κ → Option κ
  | .start _ sink =>
    if p.session.body.isNone && p.session.outcome.isNone then some sink else none
  | _ => none

/-- What is told at the end, if the session has ended. -/
def endingNotices (p : Play σ κ τ) (sink : Option κ) : List (Notice κ) :=
  match p.session.outcome with
  | some outcome => .compilerTold outcome :: sink.toList.map (.sinkTold · outcome)
  | none => []

/-- A session that owes `sink` the outcome, or has told it. -/
structure Owes (sink : Option κ) (p : Play σ κ τ) : Prop where
  trace : p.trace = p.calls.map .call ++ p.endingNotices sink
  held : p.session.outcome = none → p.session.sink = sink ∧ p.session.body.isSome = sink.isSome
  letGo : p.session.outcome.isSome → p.session.body = none ∧ p.session.sink = none

/-! ## Calls alone -/

theorem calls_of_trace {p : Play σ κ τ} {calls : List Call} (h : p.trace = calls.map .call) :
    p.calls = calls := by
  simp [Play.calls, h, List.filterMap_map, Function.comp_def, Notice.call?]

/-- The session has gone on reading; there are only calls to notice. -/
structure WentOn (p q : Play σ κ τ) : Prop where
  trace : ∃ calls : List Call, q.trace = p.trace ++ calls.map .call
  sink : q.session.sink = p.session.sink
  outcome : q.session.outcome = p.session.outcome
  body : q.session.body.isSome = p.session.body.isSome

namespace WentOn

theorem log (p : Play σ κ τ) (calls : List Call) : WentOn p (p.log calls) :=
  ⟨⟨calls, rfl⟩, rfl, rfl, rfl⟩

end WentOn

variable [Store τ]

theorem wentOn_passed (env : Surroundings) (p : Play σ κ τ) (bytes : Bytes) (taken : Taken)
    (rest : σ) (h : p.session.body.isSome) : WentOn p (p.passed env bytes taken rest) := by
  refine ⟨⟨_, rfl⟩, ?_, ?_, ?_⟩ <;> by_cases hb : bytes.isEmpty <;>
    simp [passed, Session.pass, Play.log, hb, h]

theorem wentOn_judged (p : Play σ κ τ) : WentOn p p.judged := ⟨⟨_, rfl⟩, rfl, rfl, rfl⟩

/-! ## What is owed -/

omit [Store τ] in
theorem owes_wentOn {sink : Option κ} {p q : Play σ κ τ} (h : Owes sink p)
    (ho : p.session.outcome = none) (hpq : WentOn p q) : Owes sink q := by
  obtain ⟨calls, hcalls⟩ := hpq.trace
  have hopen := hpq.outcome.trans ho
  have htrace : q.trace = (p.calls ++ calls).map .call := by
    rw [hcalls, h.trace, endingNotices, ho, List.append_nil, List.map_append]
  refine ⟨?_, fun _ => ?_, fun hended => ?_⟩
  · rw [calls_of_trace htrace, endingNotices, hopen, List.append_nil, htrace]
  · rw [hpq.sink, hpq.body]
    exact h.held ho
  · rw [hopen] at hended
    cases hended

omit [Store τ] in
theorem owes_ended {sink : Option κ} {p : Play σ κ τ} (h : Owes sink p)
    (ho : p.session.outcome = none) (outcome : Outcome) : Owes sink (p.ended outcome) := by
  obtain ⟨token, htoken⟩ := Session.token_of_open ho
  refine ⟨?_, fun hopen => ?_, fun _ => ⟨rfl, rfl⟩⟩
  · rw [calls_ended]
    show p.trace ++ Ending.notices ⟨p.session.token, p.session.sink, outcome⟩ = _
    rw [h.trace, (h.held ho).1, endingNotices, ho, List.append_nil, Ending.notices_eq, htoken]
    rfl
  · cases hopen

omit [Store τ] in
theorem owes_begun {p : Play σ κ τ} (h : Owes none p) (ho : p.session.outcome = none) (body : σ)
    (sink : κ) : Owes (some sink) (p.begun body sink) := by
  refine ⟨?_, fun _ => ⟨rfl, rfl⟩, fun hended => ?_⟩
  · show p.trace = p.calls.map .call ++ _
    rw [h.trace, endingNotices, endingNotices, ho]
    show _ = _ ++ match p.session.outcome with | some _ => _ | none => _
    rw [ho]
  · rw [show (p.begun body sink).session.outcome = p.session.outcome from rfl, ho] at hended
    cases hended

omit [Store τ] in
theorem owes_stopped {sink : Option κ} {p : Play σ κ τ} (h : Owes sink p)
    (ho : p.session.outcome = none) (env : Surroundings) (cause : Interruption) :
    Owes sink (p.stopped env cause) :=
  owes_ended (owes_wentOn h ho (.log p _)) ho _

omit [Store τ] in
theorem owes_meet {sink : Option κ} {p : Play σ κ τ} (h : Owes sink p) (f : σ → σ) (g : τ → τ) :
    Owes sink (p.meet f g) := by
  refine ⟨h.trace, fun ho => ?_, fun hended => ?_⟩
  · have hheld := h.held ho
    simpa [meet] using hheld
  · have hlet := h.letGo hended
    simpa [meet] using hlet

theorem owes_succeeded {sink : Option κ} {p : Play σ κ τ} (h : Owes sink p)
    (ho : p.session.outcome = none) : Owes sink p.succeeded :=
  owes_ended (owes_wentOn h ho (wentOn_judged p)) ho _

variable [Body σ]

omit [Store τ] [Body σ] in
theorem Owes.open_of_body {sink : Option κ} {p : Play σ κ τ} (h : Owes sink p)
    (hb : p.session.body.isSome) : p.session.outcome = none :=
  ongoing_of_body (fun ho => (h.letGo ho).1) hb

theorem beat_owes {sink : Option κ} {p q : Play σ κ τ} (hbeat : Beat p q) (h : Owes sink p) :
    Owes sink q := by
  cases hbeat with
  | wait body hb _ =>
    have ho := h.open_of_body (by simp [hb])
    exact owes_wentOn h ho ⟨⟨_, rfl⟩, rfl, rfl, by simp [log, hb]⟩
  | chunk env body bytes hb _ _ =>
    have hsome : p.session.body.isSome := by simp [hb]
    exact owes_wentOn h (h.open_of_body hsome) (wentOn_passed env p bytes _ _ hsome)
  | finished body hb _ =>
    have ho := h.open_of_body (by simp [hb])
    exact owes_succeeded (owes_wentOn h ho (.log p _)) ho
  | lastChunk env body bytes hb _ _ =>
    have hsome : p.session.body.isSome := by simp [hb]
    have ho := h.open_of_body hsome
    have hpassed := wentOn_passed env p bytes .finished body hsome
    exact owes_succeeded (owes_wentOn h ho hpassed) (hpassed.outcome.trans ho)
  | failed env body cause hb _ =>
    have ho := h.open_of_body (by simp [hb])
    exact owes_ended (owes_wentOn h ho (.log p _)) ho _
  | brokenChunk env body bytes cause hb _ _ =>
    have hsome : p.session.body.isSome := by simp [hb]
    have ho := h.open_of_body hsome
    have hpassed := wentOn_passed env p bytes (.failed cause) body hsome
    exact owes_ended (owes_wentOn h ho hpassed) (hpassed.outcome.trans ho) _

omit [Store τ] [Body σ] in
theorem sinkTaken_of_busy {p : Play σ κ τ} (o : Session.Operation σ κ)
    (h : p.session.body.isSome ∨ p.session.outcome.isSome) : p.sinkTaken o = none := by
  unfold sinkTaken
  split
  · rcases h with hb | ho
    · obtain ⟨body, hbody⟩ := Option.isSome_iff_exists.1 hb
      simp [hbody]
    · obtain ⟨outcome, houtcome⟩ := Option.isSome_iff_exists.1 ho
      simp [houtcome]
  · rfl

theorem turned_owes {sink : Option κ} {env : Surroundings} {p q : Play σ κ τ}
    {o : Session.Operation σ κ} (hturned : Turned env p o q) (h : Owes sink p) :
    Owes (sink.or (p.sinkTaken o)) q := by
  have hno : ∀ r : Play σ κ τ, Owes sink r → p.sinkTaken o = none →
      Owes (sink.or (p.sinkTaken o)) r := by
    intro r hr hnone
    rw [hnone, Option.or_none]
    exact hr
  cases hturned with
  | ignored _ _ hbusy => exact hno _ h (sinkTaken_of_busy _ hbusy)
  | started body taken _ hb ho hbeats =>
    have hsink : sink = none := by
      have hheld := (h.held ho).2
      rw [hb] at hheld
      cases sink with
      | none => rfl
      | some held => cases hheld
    subst hsink
    have htaken : p.sinkTaken (.start body taken) = some taken := by simp [sinkTaken, hb, ho]
    rw [htaken, Option.none_or]
    exact beats_keep (fun _ _ => beat_owes) hbeats (owes_begun h ho body taken)
  | bodiless _ => exact hno _ h rfl
  | resumed _ _ hbeats => exact hno _ (beats_keep (fun _ _ => beat_owes) hbeats h) rfl
  | late _ ho => exact hno _ h (sinkTaken_of_busy _ (.inr ho))
  | cancelled ho => exact hno _ (owes_stopped h ho env .cancelled) rfl
  | withdrawn ho => exact hno _ (owes_stopped h ho env .withdrawn) rfl

theorem move_owes {sink : Option κ} {p : Play σ κ τ} (h : Owes sink p) (m : Move σ κ τ) :
    Owes (sink.or (p.sinkTaken m.operation)) (p.move m) := by
  have hturned := turned_owes (turn_turned m.env _ m.operation) (owes_meet h m.onBody m.onStore)
  have htaken : (p.meet m.onBody m.onStore).sinkTaken m.operation = p.sinkTaken m.operation := by
    simp [sinkTaken, meet]
  rw [htaken] at hturned
  exact hturned

/-- The sink of the first start that the session takes. -/
def acceptedSink : Play σ κ τ → List (Move σ κ τ) → Option κ
  | _, [] => none
  | p, m :: ms => (p.sinkTaken m.operation).or ((p.move m).acceptedSink ms)

theorem run_owes {sink : Option κ} {p : Play σ κ τ} (h : Owes sink p) (moves : List (Move σ κ τ)) :
    Owes (sink.or (p.acceptedSink moves)) (p.run moves) := by
  induction moves generalizing p sink with
  | nil =>
    rw [acceptedSink, Option.or_none]
    exact h
  | cons m ms ih =>
    rw [acceptedSink, ← Option.or_assoc]
    exact ih (move_owes h m)

omit [Store τ] [Body σ] in
theorem owes_opening (url : String) (key : Key) (token : Token) (store : Option τ) :
    Owes (none : Option κ) (opening (σ := σ) url key token store) :=
  ⟨rfl, fun _ => ⟨rfl, rfl⟩, fun h => by cases h⟩

theorem opening_owes (url : String) (key : Key) (token : Token) (store : Option τ)
    (moves : List (Move σ κ τ)) : Owes ((opening url key token store).acceptedSink moves)
      ((opening url key token store).run moves) := by
  have hrun := run_owes (owes_opening url key token store) moves
  rwa [Option.none_or] at hrun

/-! ## What is told -/

omit [Store τ] [Body σ] in
/-- The end of a trace that tells something is all that was told. -/
theorem Owes.told {sink : Option κ} {p : Play σ κ τ} (h : Owes sink p) {outcome : Outcome}
    (ho : p.session.outcome = some outcome) :
    p.trace = p.calls.map .call ++ .compilerTold outcome :: sink.toList.map (.sinkTold · outcome) := by
  rw [h.trace, endingNotices, ho]

omit [Store τ] [Body σ] in
theorem Owes.compilerTold_iff {sink : Option κ} {p : Play σ κ τ} (h : Owes sink p)
    (outcome : Outcome) : .compilerTold outcome ∈ p.trace ↔ p.session.outcome = some outcome := by
  cases ho : p.session.outcome with
  | none =>
    rw [h.trace, endingNotices, ho]
    simp
  | some told =>
    rw [h.told ho]
    simp [eq_comm]

omit [Store τ] [Body σ] in
/-- Others can only get at the body. -/
theorem session_meet_of_bodiless {p : Play σ κ τ} (hb : p.session.body = none) (f : σ → σ)
    (g : τ → τ) : (p.meet f g).session = p.session := by
  obtain ⟨⟨url, token, trial, digest, body, sink, received, outcome, hheld⟩, store, trace⟩ := p
  cases hb
  rfl

/-- Nothing comes of what is asked of a session that has ended. -/
theorem turn_of_ended {p : Play σ κ τ} {outcome : Outcome} (ho : p.session.outcome = some outcome)
    (hb : p.session.body = none) (m : Move σ κ τ) :
    p.turn m = ⟨p.session, p.store.map m.onStore, [], none⟩ := by
  simp only [turn, session_meet_of_bodiless hb]
  cases m.operation with
  | start body sink => simp [Session.Operation.turn, Session.start, Session.hasEnded, ho, meet]
  | resume => simp [Session.Operation.turn, Session.resume_of_bodiless _ _ hb, meet]
  | cancel => simp [Session.Operation.turn, Session.cancel, Session.stop, Session.hasEnded, ho, meet]
  | withdraw =>
    simp [Session.Operation.turn, Session.withdraw, Session.stop, Session.hasEnded, ho, meet]

theorem run_of_ended {p : Play σ κ τ} {outcome : Outcome} (ho : p.session.outcome = some outcome)
    (hb : p.session.body = none) (moves : List (Move σ κ τ)) :
    (p.run moves).session = p.session ∧ (p.run moves).trace = p.trace := by
  induction moves generalizing p with
  | nil => exact ⟨rfl, rfl⟩
  | cons m ms ih =>
    have hmove : p.move m = ⟨p.session, p.store.map m.onStore, p.trace⟩ := by
      rw [move, turn_of_ended ho hb m]
      simp [after, meet, Turn.notices]
    have hmoved : (p.move m).session = p.session ∧ (p.move m).trace = p.trace := by simp [hmove]
    obtain ⟨hs, ht⟩ := ih (p := p.move m) (by rw [hmoved.1, ho]) (by rw [hmoved.1, hb])
    exact ⟨hs.trans hmoved.1, ht.trans hmoved.2⟩

omit [Store τ] [Body σ] in
theorem dropped_of_open {p : Play σ κ τ} (ho : p.session.outcome = none) :
    p.dropped = p.trace ++ [.compilerTold (.failed .silent)] := by
  simp [dropped, Session.drop_of_open ho]

omit [Store τ] [Body σ] in
theorem dropped_of_ended {p : Play σ κ τ} {outcome : Outcome}
    (ho : p.session.outcome = some outcome) : p.dropped = p.trace := by
  simp [dropped, Session.drop_of_ended (s := p.session) (by simp [ho])]

theorem countP_calls (tells : Notice κ → Bool) (htells : ∀ c, tells (.call c) = false)
    (calls : List Call) : (calls.map Notice.call).countP tells = 0 := by
  rw [List.countP_eq_zero]
  intro n hn
  obtain ⟨c, _, rfl⟩ := List.mem_map.1 hn
  simp [htells]

omit [Store τ] [Body σ] in
theorem Owes.countP_compiler {sink : Option κ} {p : Play σ κ τ} (h : Owes sink p) :
    p.trace.countP Notice.tellsCompiler ≤ 1 ∧ p.dropped.countP Notice.tellsCompiler = 1 := by
  have hcalls := countP_calls (κ := κ) Notice.tellsCompiler (fun _ => rfl) p.calls
  cases ho : p.session.outcome with
  | none =>
    rw [dropped_of_open ho, h.trace, endingNotices, ho, List.append_nil, List.countP_append, hcalls]
    exact ⟨Nat.zero_le 1, rfl⟩
  | some outcome =>
    have hone : p.trace.countP Notice.tellsCompiler = 1 := by
      rw [h.told ho, List.countP_append, hcalls]
      cases sink <;> rfl
    rw [dropped_of_ended ho, hone]
    exact ⟨Nat.le_refl 1, rfl⟩

omit [Store τ] [Body σ] in
theorem Owes.sinkTold_iff {sink : Option κ} {p : Play σ κ τ} (h : Owes sink p) (s : κ)
    (outcome : Outcome) :
    .sinkTold s outcome ∈ p.dropped ↔ p.session.outcome = some outcome ∧ sink = some s := by
  cases ho : p.session.outcome with
  | none =>
    rw [dropped_of_open ho, h.trace, endingNotices, ho]
    simp
  | some told =>
    rw [dropped_of_ended ho, h.told ho]
    cases sink <;> simp [eq_comm, and_comm]

omit [Store τ] [Body σ] in
theorem Owes.countP_sink {sink : Option κ} {p : Play σ κ τ} (h : Owes sink p) :
    p.dropped.countP Notice.tellsSink ≤ 1 := by
  have hcalls := countP_calls (κ := κ) Notice.tellsSink (fun _ => rfl) p.calls
  cases ho : p.session.outcome with
  | none =>
    rw [dropped_of_open ho, h.trace, endingNotices, ho, List.append_nil, List.countP_append, hcalls]
    exact Nat.zero_le 1
  | some outcome =>
    rw [dropped_of_ended ho, h.told ho, List.countP_append, hcalls]
    cases sink with
    | none => exact Nat.zero_le 1
    | some s => exact Nat.le_refl 1

/-- Whatever is asked of a session, in whatever order, and whenever it is given up. -/
theorem told_once (url : String) (key : Key) (token : Token) (store : Option τ)
    (moves : List (Move σ κ τ)) :
    let p := (opening url key token store).run moves
    let sink := (opening url key token store).acceptedSink moves
    -- Before it ends, nobody is told anything; given up, it tells its compiler a silent failure.
    (p.session.outcome = none → p.trace = p.calls.map .call ∧
      p.dropped = p.trace ++ [.compilerTold (.failed .silent)]) ∧
    -- Once it has ended, its calls come first, and then the compiler and the sink are told.
    (∀ outcome, p.session.outcome = some outcome →
      p.trace = p.calls.map .call ++
        .compilerTold outcome :: sink.toList.map (.sinkTold · outcome) ∧
      p.dropped = p.trace) ∧
    p.trace.countP Notice.tellsCompiler ≤ 1 ∧ p.dropped.countP Notice.tellsCompiler = 1 ∧
    (∀ s outcome, .sinkTold s outcome ∈ p.dropped ↔
      p.session.outcome = some outcome ∧ sink = some s) ∧
    p.dropped.countP Notice.tellsSink ≤ 1 ∧
    -- What is asked of it then changes nothing of it and makes no call.
    (p.session.outcome.isSome → p.session.body = none ∧ p.session.sink = none ∧
      ∀ more, (p.run more).session = p.session ∧ (p.run more).trace = p.trace ∧
        ∀ m, (p.run more).turn m = ⟨p.session, (p.run more).store.map m.onStore, [], none⟩) := by
  intro p sink
  have howes : Owes sink p := opening_owes url key token store moves
  refine ⟨fun ho => ⟨?_, dropped_of_open ho⟩, fun outcome ho => ⟨howes.told ho, dropped_of_ended ho⟩,
    howes.countP_compiler.1, howes.countP_compiler.2, howes.sinkTold_iff, howes.countP_sink,
    fun hended => ?_⟩
  · rw [howes.trace, endingNotices, ho, List.append_nil]
  · obtain ⟨hb, hs⟩ := howes.letGo hended
    obtain ⟨outcome, ho⟩ := Option.isSome_iff_exists.1 hended
    refine ⟨hb, hs, fun more => ?_⟩
    obtain ⟨hsession, htrace⟩ := run_of_ended ho hb more
    refine ⟨hsession, htrace, fun m => ?_⟩
    rw [turn_of_ended (by rw [hsession, ho]) (by rw [hsession, hb]) m, hsession]

end Play

end CompileCache
