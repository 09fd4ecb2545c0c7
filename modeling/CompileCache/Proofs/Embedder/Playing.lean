/-
  CompileCache.Proofs.Embedder.Playing — a session in its embedder.

  `compile` begins a session for a response and then tells it to read on, any number of times;
  before that the bodies may move on (chunks arrive, senders close). The session in the
  embedder goes the way of a play (`Follows`): store, compiler, recorder and trace are what the
  play says, and if its end leaves a module worth filing, a task waits to file it (`Plays`).

  Proved: one request is one turn of the play (`plays_request`), so a compilation is the play
  of its moves, by a session that has its store to itself (`compile_plays`). It comes to its
  end if its body is all at hand (`fedToEnd_of_fixed`).
-/

import CompileCache.Embedder.Streaming
import CompileCache.Proofs.Embedder.Telling
import CompileCache.Proofs.Session.Steady

namespace CompileCache

/-! ## Turns that end a session -/

section Closes

variable {σ κ τ : Type}

/-- A turn tells of an ending exactly if it ends the session. -/
structure Turn.Closes (before : Option Outcome) (t : Turn σ κ τ) : Prop where
  ongoing : t.ending = none → t.session.outcome = before
  ended : ∀ e, t.ending = some e → before = none ∧ e.token.isSome ∧
    t.session.outcome = some e.outcome ∧ t.session.body = none

theorem Session.finish_closes {before : Option Outcome} (hbefore : before = none) {s : Session σ κ}
    (ho : s.outcome = none) (store : Option τ) (calls : List Call) (outcome : Outcome) :
    (s.finish store calls outcome).Closes before := by
  refine ⟨fun hnone => (by cases hnone), fun e he => ?_⟩
  cases he
  exact ⟨hbefore, by simp [s.token_held, ho], rfl, rfl⟩

theorem Turn.Closes.after {before : Option Outcome} {t : Turn σ κ τ} (h : t.Closes before)
    (calls : List Call) : (t.after calls).Closes before :=
  ⟨h.ongoing, h.ended⟩

variable [Store τ]

theorem Session.succeed_closes {before : Option Outcome} (hbefore : before = none)
    {s : Session σ κ} (ho : s.outcome = none) (store : Option τ) :
    (s.succeed store).Closes before := by
  let judged : Session σ κ :=
    { s with trial := (s.trial.verdict s.digest store).2.2.trial,
             digest := (s.trial.verdict s.digest store).2.1 }
  exact finish_closes hbefore (s := judged) ho _ _ _

variable [Body σ]

theorem Session.read_closes (env : Surroundings) (s : Session σ κ) (body : σ) (store : Option τ)
    (ho : s.outcome = none) : (s.read env body store).Closes s.outcome := by
  have hpassed : ∀ {s s' : Session σ κ} {store store' : Option τ} {bytes : Bytes}
      {calls : List Call}, s.pass env store bytes = (s', store', calls) →
      s'.outcome = s.outcome := by
    intro s s' store store' bytes calls hpass
    have hsame := outcome_pass env s store bytes
    rwa [hpass] at hsame
  fun_induction Session.read env s body store with
  | case1 s body store rest _ => exact ⟨fun _ => rfl, fun e he => by cases he⟩
  | case2 s body store _ => exact (succeed_closes ho ho store).after _
  | case3 s body store cause _ => exact finish_closes ho ho _ _ _
  | case4 s body store rest bytes _ s' store' calls hpass taken all htaken ih =>
    have hsame := hpassed hpass
    have hrest := ih (hsame.trans ho)
    rw [hsame] at hrest
    exact hrest.after _
  | case5 s body store rest bytes _ s' store' calls hpass taken all htaken =>
    exact (succeed_closes ho ((hpassed hpass).trans ho) store').after _
  | case6 s body store rest bytes _ s' store' calls hpass taken all cause htaken =>
    exact finish_closes ho ((hpassed hpass).trans ho) _ _ _

omit [Store τ] [Body σ] in
theorem Session.stop_closes (env : Surroundings) (s : Session σ κ) (store : Option τ)
    (cause : Interruption) : (s.stop env store cause).Closes s.outcome := by
  unfold stop
  split
  · exact ⟨fun _ => rfl, fun e he => by cases he⟩
  · next hended =>
    have ho : s.outcome = none := by simpa [hasEnded] using hended
    exact finish_closes ho ho _ _ _

/-- A session that has ended has no token to end with once more. -/
theorem Session.Operation.turn_closes (env : Surroundings) (s : Session σ κ) (store : Option τ)
    (o : Session.Operation σ κ) : (o.turn env s store).Closes s.outcome := by
  have hidle : (⟨s, store, [], none⟩ : Turn σ κ τ).Closes s.outcome :=
    ⟨fun _ => rfl, fun e he => by cases he⟩
  cases o with
  | start body sink =>
    simp only [turn, Session.start]
    split
    · exact hidle
    · next hfree =>
      simp only [Bool.or_eq_true, not_or, hasEnded, Option.not_isSome_iff_eq_none] at hfree
      exact Session.read_closes env { s with sink := some sink } body store hfree.2
  | resume =>
    simp only [turn, Session.resume]
    split
    · next htoken => exact Session.read_closes env s _ store (Session.open_of_token htoken)
    · exact hidle
  | cancel => exact Session.stop_closes ..
  | withdraw => exact Session.stop_closes ..

end Closes

namespace Play

variable {σ κ τ : Type}

/-- A turn whose calls were made, and nobody told of an ending yet. -/
def made (p : Play σ κ τ) (t : Turn σ κ τ) : Play σ κ τ :=
  ⟨t.session, t.store, p.trace ++ t.calls.map .call⟩

/-- Compiler and sink were told. -/
def told (p : Play σ κ τ) (e : Ending κ) : Play σ κ τ := { p with trace := p.trace ++ e.notices }

theorem after_of_ongoing (p : Play σ κ τ) {t : Turn σ κ τ} (h : t.ending = none) :
    p.after t = p.made t := by
  simp [after, made, Turn.notices, h]

theorem after_of_ended (p : Play σ κ τ) {t : Turn σ κ τ} {e : Ending κ} (h : t.ending = some e) :
    p.after t = (p.made t).told e := by
  simp [after, made, told, Turn.notices, h]

theorem fed_made (p : Play σ κ τ) (t : Turn σ κ τ) :
    (p.made t).fed = p.fed ++ t.calls.flatMap Call.fedBytes := by
  simp [fed, Play.calls, made, List.filterMap_map, Function.comp_def, Notice.call?]

theorem fed_told (p : Play σ κ τ) (e : Ending κ) : (p.told e).fed = p.fed := by
  cases ht : e.token <;> cases hs : e.sink <;>
    simp [fed, Play.calls, told, Ending.notices_eq, Notice.call?, ht, hs]

end Play

/-! ## Bodies at hand -/

theorem Session.fedBytes_pass {σ κ τ : Type} [Store τ] (env : Surroundings) (s : Session σ κ)
    (store : Option τ) (chunk : Bytes) :
    (s.pass env store chunk).2.2.flatMap Call.fedBytes = chunk := by
  have habout := (Trial.start_begun env.accepts s.trial store).aboutRecord
  unfold pass
  split
  · next hempty => simpa using (List.isEmpty_iff.1 hempty).symm
  · rw [List.flatMap_append, Play.flatMap_fedBytes_of_aboutRecord habout]
    simp [Call.fedBytes]

namespace AnyBody

theorem offer_fixed (chunk : Bytes) (chunks : List Bytes) :
    Body.offer (fixed ⟨chunk :: chunks, false⟩) = (.chunk chunk, fixed ⟨chunk :: chunks, false⟩) :=
  rfl

theorem take_fixed (chunk : Bytes) (chunks : List Bytes) :
    Body.take (fixed ⟨chunk :: chunks, false⟩) chunk.length = (.more, fixed ⟨chunks, false⟩) := by
  simp [Body.take, take, Body.Fixed.take]

end AnyBody

/-- A body whose chunks are all at hand is read to its end in one turn. -/
theorem Session.read_fixed {κ τ : Type} [Store τ] (env : Surroundings) (s : Session AnyBody κ)
    (chunks : List Bytes) (store : Option τ) :
    (∃ e trusted, (s.read env (.fixed ⟨chunks, false⟩) store).ending = some e ∧
        e.outcome = .compiled trusted) ∧
      (s.read env (.fixed ⟨chunks, false⟩) store).calls.flatMap Call.fedBytes = chunks.flatten := by
  induction chunks generalizing s store with
  | nil =>
    have habout := (Trial.verdict_judged s.trial s.digest store).aboutRecord
    have hread : s.read env (.fixed ⟨[], false⟩) store =
        (s.succeed store).after [.offer .finished] := by
      rw [read]
      rfl
    rw [hread]
    refine ⟨⟨_, _, rfl, rfl⟩, ?_⟩
    rw [Turn.after, List.flatMap_append]
    exact Play.flatMap_fedBytes_of_aboutRecord habout
  | cons chunk chunks ih =>
    have hread : s.read env (.fixed ⟨chunk :: chunks, false⟩) store =
        ((s.pass env store chunk).1.read env (.fixed ⟨chunks, false⟩)
          (s.pass env store chunk).2.1).after
            (.offer (.chunk chunk) :: (s.pass env store chunk).2.2 ++ [.take chunk.length .more]) := by
      rw [read]
      simp only [AnyBody.offer_fixed, AnyBody.take_fixed]
    obtain ⟨hending, hfed⟩ := ih (s.pass env store chunk).1 (s.pass env store chunk).2.1
    rw [hread]
    refine ⟨hending, ?_⟩
    simp only [Turn.after, List.flatMap_append, hfed, List.flatMap_cons, fedBytes_pass]
    simp [Call.fedBytes]

theorem Play.start_fixed {κ τ : Type} [Store τ] (env : Surroundings) {p : Play AnyBody κ τ}
    (hb : p.session.body = none) (ho : p.session.outcome = none) (chunks : List Bytes) (sink : κ) :
    let q := p.move ⟨.start (.fixed ⟨chunks, false⟩) sink, env, id, id⟩
    (∃ trusted, q.session.outcome = some (.compiled trusted)) ∧ q.fed = p.fed ++ chunks.flatten := by
  intro q
  have hturn : p.turn ⟨.start (.fixed ⟨chunks, false⟩) sink, env, id, id⟩ =
      ({ p.session with sink := some sink }).read env (.fixed ⟨chunks, false⟩) p.store := by
    simp [Play.turn, Play.meet_id, Session.Operation.turn, Session.start, Session.hasEnded, hb, ho]
  have hcloses := Session.read_closes env { p.session with sink := some sink }
    (.fixed ⟨chunks, false⟩) p.store ho
  obtain ⟨⟨e, trusted, hending, houtcome⟩, hfed⟩ := Session.read_fixed env
    { p.session with sink := some sink } chunks p.store
  rw [← hturn] at hcloses hending hfed
  refine ⟨⟨trusted, houtcome ▸ (hcloses.ended e hending).2.2.1⟩, ?_⟩
  rw [Play.fed, Play.move_calls, List.flatMap_append, hfed, Play.fed]

/-- Which responses are usable. -/
theorem Response.check_eq_ok_iff {σ : Type} {response : Response σ} {body : σ} :
    Response.check (some response) = .ok (response, body) ↔
      response.ok ∧ response.plainMediaType = moduleMediaType ∧ response.consumed = false ∧
        response.locked = false ∧ response.body = some body := by
  cases hbody : response.body <;> by_cases hok : response.ok <;>
    by_cases hmedia : response.plainMediaType = moduleMediaType <;>
    cases hconsumed : response.consumed <;> cases hlocked : response.locked <;>
    simp [Response.check, hbody, hok, hmedia, hconsumed, hlocked]

/-! ## One session -/

namespace Embedder

/-- What a session meets in its turns: a compiler with its mind made up, and a live context. -/
def surroundings (c : Compiler) : Surroundings := ⟨fun _ => !c.rejects, true⟩

/-- How an embedder is once its session `n` has gone through a play that began in `m₀`. The
    session is wired to the compiler `c` and the recorder `r`. -/
structure Follows (m₀ : Embedder) (n : SessionId) (w : Wiring) (c : Compiler) (r : Recorder)
    (p : Play AnyBody Sink Store.Faulty) (m : Embedder) : Prop where
  slot : m.sessions[n]? = some ⟨some p.session, w, false⟩
  store : m.wiredStore? w.store = p.store
  context : m.liveContext = m₀.liveContext
  compiler : ∃ fed, m.compilers[w.compiler]? = some { c with fed } ∧ fed.reverse.flatten = p.fed
  recorder : ∃ kept, c.recorder.bind (m.recorders[·]?) = some { r with kept }
  notable : m.notable = m₀.notable ++ p.trace.filterMap (Notice.event? w)
  /-- Callbacks reach this session or one that is over. -/
  others : ∀ other s, m.latest = some other → other ≠ n → m.session? other = some s → s.Over

/-- Besides, a task waits for each module that the session leaves to file. -/
structure Plays (m₀ : Embedder) (n : SessionId) (w : Wiring) (c : Compiler) (r : Recorder)
    (p : Play AnyBody Sink Store.Faulty) (m : Embedder) : Prop extends Follows m₀ n w c r p m where
  queue : (m₀.queue r.thread).mode ≠ .gone → m.queue r.thread =
    { m₀.queue r.thread with
      tasks := (m₀.queue r.thread).tasks ++ r.filings c.artifact p.fed p.session.outcome }

section Plays

variable {m₀ m m' : Embedder} {n : SessionId} {w : Wiring} {c : Compiler} {r : Recorder}
  {p : Play AnyBody Sink Store.Faulty}

theorem Follows.env_eq (h : Follows m₀ n w c r p m) (hlive : m₀.liveContext.isSome) :
    (⟨m.accepts w.compiler, m.liveContext.isSome⟩ : Surroundings) = surroundings c := by
  obtain ⟨fed, hfed, -⟩ := h.compiler
  have haccepts : m.accepts w.compiler = fun _ => !c.rejects := by
    funext artifact
    simp [accepts, hfed]
  rw [haccepts, h.context, hlive, surroundings]

theorem plays_meet (h : Plays m₀ n w c r p m) (arrival : AnyBody → AnyBody) :
    Plays m₀ n w c r (p.meet arrival id) (BodyHolder.mapBodies arrival m) := by
  have hget : ∀ other : SessionId, (BodyHolder.mapBodies arrival m).sessions[other]? =
      (m.sessions[other]?).map fun slot =>
        { slot with session := slot.session.map fun s => { s with body := s.body.map arrival } } :=
    fun _ => List.getElem?_map
  refine ⟨⟨?_, ?_, h.context, h.compiler, h.recorder, h.notable, ?_⟩, h.queue⟩
  · rw [hget, h.slot]
    rfl
  · show m.wiredStore? w.store = p.store.map _
    rw [Option.map_id]
    exact h.store
  · intro other s hlatest hne hs
    rw [session?, hget] at hs
    cases hslot : m.sessions[other]? with
    | none =>
      rw [hslot] at hs
      cases hs
    | some slot =>
      rw [hslot] at hs
      obtain ⟨s', hs', rfl⟩ := Option.map_eq_some_iff.1 hs
      have hover := h.others other s' hlatest hne (by simp [session?, hslot, hs'])
      exact ⟨hover.ended, by simp [hover.letGo]⟩

/-! ### Turns -/

theorem wiredStore?_putWiredStore (m : Embedder) (name : Option StoreName) {s : Option Store.Faulty}
    (hsome : s.isSome = (m.wiredStore? name).isSome) :
    (m.putWiredStore name s).wiredStore? name = s := by
  cases name with
  | none =>
    cases s with
    | none => rfl
    | some s => cases hsome
  | some name =>
    cases s with
    | none =>
      have hnone : m.wiredStore? (some name) = none := by
        rw [← Option.not_isSome_iff_eq_none, ← hsome]
        simp
      exact hnone
    | some s =>
      obtain ⟨old, hold⟩ := Option.isSome_iff_exists.1 hsome.symm
      exact store?_putStore hold s

/-- The calls of a turn, before anybody is told of an ending. -/
theorem follows_turn (h : Follows m₀ n w c r p m) (hlive : m₀.liveContext.isSome) {req : Request}
    {t : Turn AnyBody Sink Store.Faulty} (ht : req.turn (surroundings c) p.session p.store = t)
    (hstored : t.store.isSome = p.store.isSome) :
    (m.turn n req).1 = t.ending.map (fun e => (w.compiler, e)) ∧
      Follows m₀ n w c r (p.made t) (m.turn n req).2 ∧
      ∀ thread, (m.turn n req).2.queue thread = m.queue thread := by
  obtain ⟨fed, hfed, hwire⟩ := h.compiler
  obtain ⟨kept, hkept⟩ := h.recorder
  obtain ⟨recorder, hrecorder, hget⟩ := Option.bind_eq_some_iff.1 hkept
  have hstore := wiredStore?_putWiredStore (m.putSession n (some t.session)) w.store
    (hstored.trans (congrArg Option.isSome h.store.symm))
  obtain ⟨stores, hput⟩ := putWiredStore_rest (m.putSession n (some t.session)) w.store t.store
  have hcarried := carryAll_carried w { m.putSession n (some t.session) with stores }
    (req.script? p.session) t.calls
  have hturn : m.turn n req = (t.ending.map fun e => (w.compiler, e),
      Embedder.carryAll w { m.putSession n (some t.session) with stores } (req.script? p.session)
        t.calls) := by
    simp only [turn, h.slot, h.env_eq hlive, h.store, ht, hput]
  rw [hturn]
  rw [hput] at hstore
  obtain ⟨compilers, recorders, trace, hrest⟩ := hcarried.rest
  refine ⟨rfl, ⟨?_, ?_, ?_, ?_, ?_, ?_, ?_⟩, ?_⟩
  · rw [hrest]
    simp [putSession, h.slot, Play.made]
  · rw [hrest]
    exact hstore
  · rw [hrest]
    exact h.context
  · obtain ⟨fed', hfed', hwire'⟩ := hcarried.compiler _ hfed
    refine ⟨fed', hfed', ?_⟩
    rw [hwire', Compiler.wire, hwire, Play.fed_made]
  · obtain ⟨kept', hkept'⟩ := hcarried.recorder _ _ hget
    exact ⟨kept', by rw [hrecorder]; exact hkept'⟩
  · rw [hcarried.notable, Play.made, List.filterMap_append, List.filterMap_map, ← List.append_assoc,
      ← h.notable]
    rfl
  · rw [hrest]
    intro other s hlatest hne hs
    refine h.others other s hlatest hne ?_
    simpa [session?, putSession, List.getElem?_modify, Ne.symm hne] using hs
  · rw [hrest]
    intro thread
    cases thread <;> rfl

/-- What is left behind when compiler and sink are told. -/
theorem follows_told (h : Follows m₀ n w c r p m) {e : Ending Sink} (htoken : e.token.isSome)
    {thread : Thread} {tasks : List Task}
    (hleft : Aftermath thread tasks [.compilerTold w.compiler e.outcome] m m') :
    Follows m₀ n w c r (p.told e) m' := by
  have htold : e.notices.filterMap (Notice.event? w) = [.compilerTold w.compiler e.outcome] := by
    rw [Ending.notices, Ending.compilerTold_of_token htoken]
    cases hs : e.sink <;> simp [Notice.event?]
  have hstore := hleft.store
  have hnotable := hleft.notable
  obtain ⟨stores, main, worker, trace, rfl⟩ := hleft.rest
  refine ⟨h.slot, ?_, h.context, ?_, h.recorder, ?_, h.others⟩
  · show _ = p.store
    rw [← h.store, wiredStore?, wiredStore?]
    cases w.store with
    | none => rfl
    | some name => exact hstore name
  · rw [Play.fed_told]
    exact h.compiler
  · rw [hnotable, h.notable, Play.told, List.filterMap_append, htold, List.append_assoc]

/-- Once the session of the play is over, all are. -/
theorem Follows.quiet (h : Follows m₀ n w c r p m) (hended : p.session.outcome.isSome)
    (hletGo : p.session.body = none) : m.Quiet := by
  intro other s hlatest hs
  by_cases hother : other = n
  · rw [hother, session?, h.slot] at hs
    cases hs
    exact ⟨hended, hletGo⟩
  · exact h.others other s hlatest hother hs

/-- Nobody is told of a turn that ends nothing. -/
theorem request_of_ongoing {req : Request} (h : (m.turn n req).1 = none) :
    m.request n req = (m.turn n req).2 := by
  simp only [request]
  split
  · next heq => rw [heq]
  · next heq =>
    rw [heq] at h
    cases h

theorem request_of_ended {req : Request} {id : CompilerId} {e : Ending Sink}
    (h : (m.turn n req).1 = some (id, e)) :
    m.request n req = tellEnding ((m.turn n req).2.running + 1) id e (m.turn n req).2 := by
  simp only [request]
  split
  · next heq =>
    rw [heq] at h
    cases h
  · next heq =>
    rw [heq] at h ⊢
    cases h
    rfl

/-- A request is a turn of the play. -/
theorem plays_request (h : Plays m₀ n w c r p m) (hlive : m₀.liveContext.isSome)
    (hletGo : p.session.outcome.isSome → p.session.body = none)
    (o : Session.Operation AnyBody Sink) (req : Request)
    (hreq : ∀ env s (store : Option Store.Faulty), req.turn env s store = o.turn env s store) :
    Plays m₀ n w c r (p.after (o.turn (surroundings c) p.session p.store)) (m.request n req) := by
  have hmet : p.meet id id = p := Play.meet_id p
  have hserved := (Play.turn_served p ⟨o, surroundings c, id, id⟩).isSome_eq
  have hover : ∀ outcome, p.session.outcome = some outcome → p.session.body = none →
      (p.turn ⟨o, surroundings c, id, id⟩).calls = [] := fun outcome ho hb => by
    rw [Play.turn_of_ended ho hb]
  have hcloses := Session.Operation.turn_closes (surroundings c) p.session p.store o
  simp only [Play.turn, hmet] at hserved hover
  generalize ht : o.turn (surroundings c) p.session p.store = t at hserved hover hcloses ⊢
  obtain ⟨hending, hfollows, hqueue⟩ := follows_turn h.toFollows hlive ((hreq _ _ _).trans ht) hserved
  cases he : t.ending with
  | none =>
    rw [he] at hending
    rw [request_of_ongoing hending, Play.after_of_ongoing p he]
    refine ⟨hfollows, fun hmode => ?_⟩
    rw [hqueue, h.queue hmode, show (p.made t).session.outcome = _ from hcloses.ongoing he]
    cases ho : p.session.outcome with
    | none => rfl
    | some outcome =>
      -- Nothing was fed to a session that had ended.
      have hcalls := hover outcome ho (hletGo (by rw [ho]; rfl))
      rw [Play.fed_made, hcalls, List.flatMap_nil, List.append_nil]
  | some e =>
    rw [he] at hending
    obtain ⟨hbefore, htoken, houtcome, hbody⟩ := hcloses.ended e he
    have hquiet := hfollows.quiet (Option.isSome_of_eq_some houtcome) hbody
    obtain ⟨fed, hfed, hwire⟩ := hfollows.compiler
    obtain ⟨kept, hkept⟩ := hfollows.recorder
    have hleft := tellEnding_aftermath (m.turn n req).2.running hquiet hfed hkept htoken
    rw [request_of_ended hending, Play.after_of_ended p he]
    refine ⟨follows_told hfollows htoken hleft, fun hmode => ?_⟩
    have hopen : m.queue r.thread = m₀.queue r.thread := by
      rw [h.queue hmode, hbefore]
      simp [Recorder.filings]
    have hsame := (hqueue r.thread).trans hopen
    have hposted := hleft.queue (by rw [hsame]; exact hmode)
    rw [hposted, hsame, Play.fed_told, ← hwire,
      show ((p.made t).told e).session.outcome = _ from houtcome]
    rfl

end Plays

/-! ## A compilation -/

/-- The bodies move on and the session is told to read on, again and again. -/
def deliver (m : Embedder) (n : SessionId) (arrivals : List (AnyBody → AnyBody)) : Embedder :=
  arrivals.foldl (fun m arrival => (BodyHolder.mapBodies arrival m).request n .resume) m

/-- Begins to compile the response, and delivers its body. -/
def compile (m : Embedder) (response : Response AnyBody) (settings : StreamSettings) (sink : Sink)
    (arrivals : List (AnyBody → AnyBody)) : Embedder :=
  match m.stream (some response) settings sink with
  | (some n, m) => m.deliver n arrivals
  | (none, m) => m

/-- The next session will be one for this response, with the store `name` to ask and with the
    compiler `c`, which is new. -/
structure Ready (settings : StreamSettings) (context : Context) (name : StoreName)
    (response : Response AnyBody) (c : Compiler) (m : Embedder) : Prop where
  context : m.liveContext = some context
  usable : ∃ body, Response.check (some response) = .ok (response, body)
  store : response.store = some name
  useCache : settings.useCache
  compiler : m.compilers[m.current]? = some c
  unfed : c.fed = []
  quiet : m.Quiet

/-- The session came to the end of its body, and its compiler was fed `wire`. -/
structure FedToEnd (n : SessionId) (id : CompilerId) (wire : Bytes) (m : Embedder) : Prop where
  ended : ∃ trusted, (m.session? n).bind (·.outcome) = some (.compiled trusted)
  wire : (m.compilers[id]?).map Compiler.wire = some wire

/-- The recorder that the compiler is given for a response. -/
def recorderFor (settings : StreamSettings) (context : Context) (response : Response AnyBody) :
    Recorder :=
  { url := response.url, threshold := settings.threshold, thread := context.kind.thread,
    key := .ofResource settings.tag response.url context.origin response.cacheName }

section Compile

variable {settings : StreamSettings} {context : Context} {name : StoreName}
  {response : Response AnyBody} {c : Compiler} {m m₀ : Embedder} {n : SessionId} {w : Wiring}
  {r : Recorder}

/-- A session that goes the way of a play in which it has its store to itself. -/
def Steady (m₀ : Embedder) (n : SessionId) (w : Wiring) (c : Compiler) (r : Recorder)
    (p : Play AnyBody Sink Store.Faulty) (m : Embedder) : Prop :=
  ∃ moves, Play.Alone (surroundings c) moves ∧ Plays m₀ n w c r (p.run moves) m

theorem deliver_steady {url : String} {key : Key} {token : Token} {store : Option Store.Faulty}
    (hlive : m₀.liveContext.isSome) (arrivals : List (AnyBody → AnyBody))
    (h : Steady m₀ n w c r (.opening url key token store) m) :
    Steady m₀ n w c r (.opening url key token store) (m.deliver n arrivals) := by
  induction arrivals generalizing m with
  | nil => exact h
  | cons arrival arrivals ih =>
    obtain ⟨moves, halone, hplays⟩ := h
    have hletGo := (Play.run_kept url key token store moves).letGo
    have hmet := plays_meet hplays arrival
    have hmoved := plays_request hmet hlive (fun ho => by simp [Play.meet, hletGo ho]) .resume
      .resume fun _ _ _ => rfl
    refine ih ⟨moves ++ [⟨.resume, surroundings c, arrival, id⟩], ?_, ?_⟩
    · intro m hm
      rcases List.mem_append.1 hm with hold | hnew
      · exact halone m hold
      · rw [List.mem_singleton.1 hnew]
        exact ⟨rfl, rfl⟩
    · rw [Play.run, List.foldl_append]
      exact hmoved

/-- A new session for the response, in an embedder that is ready for one. -/
theorem exists_prepared (h : Ready settings context name response c m) (sink : Sink) :
    ∃ body m₁, response.body = some body ∧
      m.stream (some response) settings sink = (some m.sessions.length,
        { m₁.request m.sessions.length (.start body sink) with latest := some m.sessions.length }) ∧
      Plays m m.sessions.length ⟨m.current, some name, some m.recorders.length⟩
        { c with recorder := some m.recorders.length } (recorderFor settings context response)
        (.opening response.url (recorderFor settings context response).key ⟨m.current⟩ (m.store? name)) m₁ := by
  obtain ⟨body, hcheck⟩ := h.usable
  have hprepare : Response.prepare m.liveContext (some response) settings = .ok
      { url := response.url, body, key := (recorderFor settings context response).key,
        store := some name, recorder := some (recorderFor settings context response) } := by
    simp only [Response.prepare, h.context, hcheck, h.useCache, if_true, h.store]
    rfl
  refine ⟨body, _, (Response.check_eq_ok_iff.1 hcheck).2.2.2.2, by simp only [stream, hprepare]; rfl, ?_⟩
  refine ⟨⟨?_, rfl, rfl, ⟨[], ?_, rfl⟩, ⟨none, ?_⟩, ?_, ?_⟩, fun _ => ?_⟩
  · simp [addSession, setPreparedRecorder, setRecorder, addRecorder, log, onCompiler, Play.opening]
  · simp [addSession, setPreparedRecorder, setRecorder, addRecorder, log, onCompiler, h.compiler,
      h.unfed]
  · simp [addSession, setPreparedRecorder, setRecorder, addRecorder, log, onCompiler, recorderFor]
  · simp [addSession, setPreparedRecorder, setRecorder, addRecorder, log, onCompiler, Play.opening,
      notable, Event.isNotable]
  · intro other s hlatest hne hs
    refine h.quiet other s hlatest ?_
    change ((m.sessions ++ [_])[other]?).bind _ = _ at hs
    rcases Nat.lt_or_gt_of_ne hne with hlt | hgt
    · rwa [List.getElem?_append_left hlt] at hs
    · rw [List.getElem?_eq_none (by simpa using Nat.succ_le_of_lt hgt)] at hs
      cases hs
  · cases hthread : (recorderFor settings context response).thread <;>
      simp [addSession, setPreparedRecorder, setRecorder, addRecorder, log, onCompiler, queue,
        Play.opening, Session.new, Recorder.filings]

/-- The session begins to read its body before anybody knows it. -/
theorem stream_plays (h : Ready settings context name response c m) (sink : Sink) :
    ∃ body m₁, response.body = some body ∧
      m.stream (some response) settings sink = (some m.sessions.length, m₁) ∧
      Plays m m.sessions.length ⟨m.current, some name, some m.recorders.length⟩
        { c with recorder := some m.recorders.length } (recorderFor settings context response)
        ((Play.opening response.url (recorderFor settings context response).key ⟨m.current⟩
          (m.store? name)).move ⟨.start body sink, surroundings c, id, id⟩) m₁ := by
  obtain ⟨body, m₁, hbody, hstream, hplays⟩ := exists_prepared h sink
  have hlive : m.liveContext.isSome := by rw [h.context]; rfl
  have hbegun := plays_request hplays hlive (fun ho => (by cases ho)) (.start body sink)
    (.start body sink) fun _ _ _ => rfl
  refine ⟨body, _, hbody, hstream, ?_⟩
  simp only [Play.move, Play.turn, Play.meet_id]
  refine ⟨{ hbegun.toFollows with others := fun other s hlatest hne hs => ?_ }, hbegun.queue⟩
  cases hlatest
  exact absurd rfl hne

/-- A compilation is the play of its moves. -/
theorem compile_plays (h : Ready settings context name response c m) (sink : Sink)
    (arrivals : List (AnyBody → AnyBody)) :
    Steady m m.sessions.length ⟨m.current, some name, some m.recorders.length⟩
      { c with recorder := some m.recorders.length } (recorderFor settings context response)
      (.opening response.url (recorderFor settings context response).key ⟨m.current⟩ (m.store? name))
      (m.compile response settings sink arrivals) := by
  obtain ⟨body, m₁, -, hstream, hplays⟩ := stream_plays h sink
  have hlive : m.liveContext.isSome := by rw [h.context]; rfl
  simp only [compile, hstream]
  refine deliver_steady hlive arrivals ⟨[⟨.start body sink, surroundings c, id, id⟩], ?_, hplays⟩
  intro move hmove
  rw [List.mem_singleton.1 hmove]
  exact ⟨rfl, rfl⟩

/-- The session has come to its end exactly if it has in the play. -/
theorem Plays.fedToEnd_iff {p : Play AnyBody Sink Store.Faulty} (h : Plays m₀ n w c r p m)
    {wire : Bytes} : m.FedToEnd n w.compiler wire ↔
      (∃ trusted, p.session.outcome = some (.compiled trusted)) ∧ p.fed = wire := by
  obtain ⟨fed, hfed, hwire⟩ := h.compiler
  have hended : (m.session? n).bind (·.outcome) = p.session.outcome := by simp [session?, h.slot]
  have hwhole : (m.compilers[w.compiler]?).map Compiler.wire = some p.fed := by
    rw [hfed, ← hwire]
    rfl
  constructor
  · rintro ⟨hcompiled, hall⟩
    rw [hended] at hcompiled
    exact ⟨hcompiled, Option.some.inj (hwhole.symm.trans hall)⟩
  · rintro ⟨hcompiled, rfl⟩
    exact ⟨by rw [hended]; exact hcompiled, hwhole⟩

/-- A compilation whose body is all at hand comes to its end. -/
theorem fedToEnd_of_fixed (h : Ready settings context name response c m) {chunks : List Bytes}
    (hbody : response.body = some (.fixed ⟨chunks, false⟩)) (sink : Sink) :
    (m.compile response settings sink []).FedToEnd m.sessions.length m.current chunks.flatten := by
  obtain ⟨body, m₁, hsome, hstream, hplays⟩ := stream_plays h sink
  obtain rfl : AnyBody.fixed ⟨chunks, false⟩ = body := Option.some.inj (hbody.symm.trans hsome)
  have hcompile : m.compile response settings sink [] = m₁ := by
    simp only [compile, hstream]
    rfl
  rw [hcompile]
  exact hplays.fedToEnd_iff.2 (Play.start_fixed (surroundings c) rfl rfl chunks sink)

end Compile

end Embedder

end CompileCache
