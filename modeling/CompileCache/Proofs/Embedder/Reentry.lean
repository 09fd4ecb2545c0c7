/-
  CompileCache.Proofs.Embedder.Reentry — callbacks that drive the session that calls them.

  When a session has ended, its compiler and its sink are told, and each may make requests of
  the session before it returns. An embedder is hushed by taking all those requests away
  (`hushed`), those of sinks that a request hands over too, and with them what shows of them in
  the trace, their echoes.

  By the time anybody is told, the session is over and has put its store back (`Spent`). So a
  request of a callback leaves nothing but its echo (`makeRequests_spent`), and to hush an
  embedder commutes with telling an ending, with a turn and with a request
  (`tellEnding_hushed`, `turn_hushed`, `request_hushed`).

  Proved, for a session that callbacks reach, for whatever is requested of it and whatever
  bodies, stores and the context do meanwhile: hushed, the embedder is what it is if nobody
  makes requests from a callback, and every such request has found the session ended, with the
  outcome that it keeps (`reentry_harmless`).
-/

import CompileCache.Embedder.Streaming
import CompileCache.Proofs.Embedder.Filing
import CompileCache.Proofs.Embedder.Playing
import CompileCache.Proofs.Session.Reception

namespace CompileCache

/-! ## Sinks are only held -/

section Sinks

variable {σ κ τ : Type}

def Session.mapSink (f : κ → κ) (s : Session σ κ) : Session σ κ := { s with sink := s.sink.map f }

def Ending.mapSink (f : κ → κ) (e : Ending κ) : Ending κ := { e with sink := e.sink.map f }

def Turn.mapSink (f : κ → κ) (t : Turn σ κ τ) : Turn σ κ τ :=
  { t with session := t.session.mapSink f, ending := t.ending.map (Ending.mapSink f) }

namespace Session

variable [Store τ]

theorem pass_mapSink (f : κ → κ) (env : Surroundings) (s : Session σ κ) (store : Option τ)
    (chunk : Bytes) : (s.mapSink f).pass env store chunk =
      ((s.pass env store chunk).1.mapSink f, (s.pass env store chunk).2) := by
  unfold pass
  by_cases hb : chunk.isEmpty
  · rw [if_pos hb, if_pos hb]
  · rw [if_neg hb, if_neg hb]
    rfl

theorem succeed_mapSink (f : κ → κ) (s : Session σ κ) (store : Option τ) :
    (s.mapSink f).succeed store = (s.succeed store).mapSink f := rfl

omit [Store τ] in
theorem interrupt_mapSink (f : κ → κ) (env : Surroundings) (s : Session σ κ) (store : Option τ)
    (calls : List Call) (cause : Interruption) :
    (s.mapSink f).interrupt env store calls cause = (s.interrupt env store calls cause).mapSink f :=
  rfl

omit [Store τ] in
theorem stop_mapSink (f : κ → κ) (env : Surroundings) (s : Session σ κ) (store : Option τ)
    (cause : Interruption) :
    (s.mapSink f).stop env store cause = (s.stop env store cause).mapSink f := by
  unfold stop
  by_cases h : s.hasEnded
  · rw [if_pos h, if_pos (show (s.mapSink f).hasEnded from h)]
    rfl
  · rw [if_neg h, if_neg (show ¬ (s.mapSink f).hasEnded from h)]
    rfl

variable [Body σ]

theorem read_mapSink (f : κ → κ) (env : Surroundings) (s : Session σ κ) (body : σ)
    (store : Option τ) :
    (s.mapSink f).read env body store = (s.read env body store).mapSink f := by
  fun_induction Session.read env s body store with
  | case1 s body store rest hoffer =>
    rw [read_eq, hoffer]
    rfl
  | case2 s body store hoffer =>
    rw [read_eq, hoffer]
    rfl
  | case3 s body store cause hoffer =>
    rw [read_eq, hoffer]
    rfl
  | case4 s body store rest bytes hoffer s' store' calls hpass taken all htaken ih =>
    have htaken' : (Body.take (Body.offer body).2 bytes.length).1 = .more := htaken
    rw [read_eq, hoffer]
    simp only [pass_mapSink, hpass, htaken']
    rw [← htaken']
    show (((s'.mapSink f).read env (Body.take rest bytes.length).2 store').after all) = _
    rw [ih]
    rfl
  | case5 s body store rest bytes hoffer s' store' calls hpass taken all htaken =>
    have htaken' : (Body.take (Body.offer body).2 bytes.length).1 = .finished := htaken
    rw [read_eq, hoffer]
    simp only [pass_mapSink, hpass, htaken', succeed_mapSink]
    rw [← htaken']
    rfl
  | case6 s body store rest bytes hoffer s' store' calls hpass taken all cause htaken =>
    have htaken' : (Body.take (Body.offer body).2 bytes.length).1 = .failed cause := htaken
    rw [read_eq, hoffer]
    simp only [pass_mapSink, hpass, htaken', interrupt_mapSink]
    rw [← htaken']

end Session

end Sinks

/-! ## Taking the requests of callbacks away -/

def Sink.hushed : Sink → Sink
  | ignore => ignore
  | notify _ => notify []

def Request.hushed : Request → Request
  | start body sink => start body sink.hushed
  | r => r

def Compiler.hushed (c : Compiler) : Compiler := { c with program := [] }

def SessionSlot.hushed (slot : SessionSlot) : SessionSlot :=
  { slot with session := slot.session.map (Session.mapSink Sink.hushed) }

/-- Whether the event is that a callback has made a request. -/
def Event.isEcho : Event → Bool
  | requested .. | noSession => true
  | _ => false

/-- Sinks have no part in what a request does. -/
theorem Request.turn_hushed (env : Surroundings) (s : Session AnyBody Sink)
    (store : Option Store.Faulty) (r : Request) :
    r.hushed.turn env (s.mapSink Sink.hushed) store = (r.turn env s store).mapSink Sink.hushed := by
  cases r with
  | look => rfl
  | resume =>
    show Session.resume env (s.mapSink Sink.hushed) store = (s.resume env store).mapSink _
    unfold Session.resume
    rw [show (s.mapSink Sink.hushed).body = s.body from rfl,
      show (s.mapSink Sink.hushed).token = s.token from rfl]
    split
    · exact Session.read_mapSink Sink.hushed env s _ store
    · rfl
  | cancel => exact Session.stop_mapSink Sink.hushed env s store .cancelled
  | withdraw => exact Session.stop_mapSink Sink.hushed env s store .withdrawn
  | start body sink =>
    show Session.start env (s.mapSink Sink.hushed) body sink.hushed store =
      (s.start env body sink store).mapSink _
    unfold Session.start
    by_cases hbusy : s.body.isSome || s.hasEnded
    · rw [if_pos hbusy, if_pos (show (s.mapSink Sink.hushed).body.isSome ||
        (s.mapSink Sink.hushed).hasEnded from hbusy)]
      rfl
    · rw [if_neg hbusy, if_neg (show ¬ ((s.mapSink Sink.hushed).body.isSome ||
        (s.mapSink Sink.hushed).hasEnded) from hbusy)]
      exact Session.read_mapSink Sink.hushed env { s with sink := some sink } body store

theorem Request.script?_hushed (s : Session AnyBody Sink) (r : Request) :
    r.hushed.script? (s.mapSink Sink.hushed) = r.script? s := by
  cases r <;> rfl

section Turns

variable (env : Surroundings) {s : Session AnyBody Sink} (store : Option Store.Faulty) (r : Request)

theorem Request.turn_closes : (r.turn env s store).Closes s.outcome := by
  cases r with
  | look => exact ⟨fun _ => rfl, nofun⟩
  | resume => exact Session.Operation.turn_closes env s store .resume
  | cancel => exact Session.Operation.turn_closes env s store .cancel
  | withdraw => exact Session.Operation.turn_closes env s store .withdraw
  | start body sink => exact Session.Operation.turn_closes env s store (.start body sink)

theorem Request.turn_stored : (r.turn env s store).store.isSome = store.isSome := by
  have hserved : ∀ o : Session.Operation AnyBody Sink,
      (o.turn env s store).store.isSome = store.isSome := by
    intro o
    have h := (Play.turn_served ⟨s, store, []⟩ ⟨o, env, id, id⟩).isSome_eq
    simpa only [Play.turn, Play.meet_id] using h
  cases r with
  | look => rfl
  | resume => exact hserved .resume
  | cancel => exact hserved .cancel
  | withdraw => exact hserved .withdraw
  | start body sink => exact hserved (.start body sink)

end Turns

namespace Embedder

variable {m : Embedder} {w : Wiring}

/-- The embedder in which no callback makes a request, nor ever has. -/
def hushed (m : Embedder) : Embedder :=
  { m with
    compilers := m.compilers.map Compiler.hushed
    sessions := m.sessions.map SessionSlot.hushed
    trace := m.trace.filter (!·.isEcho) }

/-- The requests that callbacks have made, newest first. -/
def echoes (m : Embedder) : List Event := m.trace.filter Event.isEcho

/-- What is no callback's doing: to hush before it or after makes no difference. -/
structure Plain (f : Embedder → Embedder) : Prop where
  hushed : ∀ m, (f m).hushed = f m.hushed
  echoes : ∀ m, (f m).echoes = m.echoes

theorem Plain.comp {f g : Embedder → Embedder} (hf : Plain f) (hg : Plain g) : Plain (g ∘ f) :=
  ⟨fun m => (hg.hushed (f m)).trans (congrArg g (hf.hushed m)),
    fun m => (hg.echoes (f m)).trans (hf.echoes m)⟩

theorem Plain.id : Plain id := ⟨fun _ => rfl, fun _ => rfl⟩

/-! ## Calls -/

theorem plain_log {e : Event} (he : e.isEcho = false) : Plain (·.log e) :=
  ⟨fun m => by simp [Embedder.hushed, log, he], fun m => by simp [Embedder.echoes, log, he]⟩

theorem map_modify {α β : Type} {f : α → β} {g : α → α} {g' : β → β} (h : ∀ a, f (g a) = g' (f a))
    (as : List α) (i : Nat) : (as.modify i g).map f = (as.map f).modify i g' := by
  refine List.ext_getElem? fun n => ?_
  by_cases hn : i = n
  · cases ha : as[n]? <;> simp [hn, ha, h]
  · simp [hn]

theorem plain_feed (id : CompilerId) (chunk : Bytes) : Plain (·.feed id chunk) := by
  have hfed : Plain (·.onCompiler id fun c => { c with fed := chunk :: c.fed }) := by
    refine ⟨fun m => ?_, fun _ => rfl⟩
    let fed := fun c : Compiler => { c with fed := chunk :: c.fed }
    have hmap : (m.compilers.modify id fed).map Compiler.hushed =
        (m.compilers.map Compiler.hushed).modify id fed :=
      map_modify (fun c => show (fed c).hushed = fed c.hushed from rfl) m.compilers id
    show { m.hushed with compilers := (m.compilers.modify id fed).map Compiler.hushed } = _
    rw [hmap]
    rfl
  exact hfed.comp (plain_log rfl)

theorem plain_onRecorder (id : Option RecorderId) (f : Recorder → Recorder) :
    Plain (·.onRecorder id f) := by
  cases id with
  | none => exact .id
  | some id => exact ⟨fun _ => rfl, fun _ => rfl⟩

theorem plain_logStore (operation : StoreOperation) (store : Option StoreName) (key : Key) :
    Plain (·.logStore operation store key) := by
  cases store with
  | none => exact .id
  | some name => exact plain_log rfl

theorem plain_carry (w : Wiring) (script : Option Body.Scripted) (c : Call) :
    Plain fun m => (m.carry w script c).1 := by
  cases c with
  | offer answer =>
    cases script with
    | none => exact .id
    | some s => exact plain_log rfl
  | take count answer =>
    cases script with
    | none => exact .id
    | some s => exact plain_log rfl
  | cancelBody =>
    cases script with
    | none => exact .id
    | some s => exact plain_log rfl
  | get key answer => exact plain_logStore .get w.store key
  | evict key answer => exact plain_logStore .evict w.store key
  | tryArtifact artifact taken => exact plain_log rfl
  | feed chunk => exact plain_feed w.compiler chunk
  | keep record => exact plain_onRecorder w.recorder (·.keep record)
  | letGo => exact plain_onRecorder w.recorder Recorder.letGo

theorem plain_carryAll (w : Wiring) (script : Option Body.Scripted) (calls : List Call) :
    Plain (·.carryAll w script calls) := by
  induction calls generalizing script with
  | nil => exact .id
  | cons c cs ih =>
    -- How far the script is followed does not depend on the embedder.
    obtain ⟨rest, hrest⟩ : ∃ rest, ∀ m : Embedder, (m.carry w script c).2 = rest := by
      cases c <;> cases script <;> exact ⟨_, fun _ => rfl⟩
    have hcons : (fun m : Embedder => m.carryAll w script (c :: cs)) =
        (fun m => m.carryAll w rest cs) ∘ fun m => (m.carry w script c).1 := by
      funext m
      show (m.carry w script c).1.carryAll w (m.carry w script c).2 cs = _
      rw [hrest]
      rfl
    rw [hcons]
    exact (plain_carry w script c).comp (ih rest)

/-! ## Reports -/

theorem hushed_post (m : Embedder) (t : Thread) (task : Task) :
    m.hushed.post t task = ((m.post t task).1, (m.post t task).2.hushed) := by
  have hqueue : m.hushed.queue t = m.queue t := by cases t <;> rfl
  unfold post
  rw [hqueue]
  by_cases hgone : (m.queue t).mode = .gone
  · rw [if_pos hgone, if_pos hgone]
  · rw [if_neg hgone, if_neg hgone]
    cases t <;> rfl

theorem echoes_post (m : Embedder) (t : Thread) (task : Task) :
    (m.post t task).2.echoes = m.echoes := by
  simp only [post]
  split
  · rfl
  · cases t <;> rfl

theorem hushed_record (m : Embedder) (r : Recorder) (module : CompiledModule) :
    m.hushed.record r module = ((m.record r module).1, (m.record r module).2.hushed) ∧
      (m.record r module).2.echoes = m.echoes := by
  have hserialize : Plain fun m => if r.wantsSerialized module then m.log .serialize else m := by
    by_cases hwants : r.wantsSerialized module
    · simp only [hwants, if_true]
      exact plain_log rfl
    · simp only [hwants]
      exact .id
  have hhushed := hserialize.hushed m
  have hechoes := hserialize.echoes m
  unfold record
  cases r.judge module with
  | error why => exact ⟨by rw [← hhushed], hechoes⟩
  | ok record =>
    refine ⟨?_, (echoes_post _ _ _).trans hechoes⟩
    simp only [← hhushed, hushed_post]

theorem plain_report (id : CompilerId) (c : Compiler) : Plain (·.report id c) := by
  have hcases : ∀ m : Embedder, (m.report id c).hushed = m.hushed.report id c ∧
      (m.report id c).echoes = m.echoes := by
    intro m
    have hrecorder : c.recorder.bind (m.hushed.recorders[·]?) = c.recorder.bind (m.recorders[·]?) :=
      rfl
    unfold report
    rw [hrecorder]
    split
    · next serialized r _ _ =>
      obtain ⟨hhushed, hechoes⟩ := hushed_record m r ⟨c.wire, serialized⟩
      have hlog : Plain (·.log (.reported id (m.record r ⟨c.wire, serialized⟩).1)) := plain_log rfl
      rw [hhushed]
      exact ⟨hlog.hushed _, (hlog.echoes _).trans hechoes⟩
    · exact ⟨rfl, rfl⟩
  exact ⟨fun m => (hcases m).1, fun m => (hcases m).2⟩

/-- Reports and outcomes leave sessions and stores alone. -/
def Aside (m m' : Embedder) : Prop :=
  ∃ mainQueue workerQueue trace, m' = { m with mainQueue, workerQueue, trace }

theorem Aside.refl (m : Embedder) : Aside m m := ⟨_, _, _, rfl⟩

theorem Aside.trans {m m' m'' : Embedder} (h : Aside m m') (h' : Aside m' m'') : Aside m m'' := by
  obtain ⟨main, worker, trace, rfl⟩ := h
  obtain ⟨main, worker, trace, rfl⟩ := h'
  exact ⟨main, worker, trace, rfl⟩

theorem aside_log (m : Embedder) (e : Event) : Aside m (m.log e) := ⟨_, _, _, rfl⟩

theorem aside_post (m : Embedder) (t : Thread) (task : Task) : Aside m (m.post t task).2 := by
  simp only [post]
  split
  · exact .refl m
  · obtain ⟨main, worker, hput⟩ :=
      putQueue_rest m t { m.queue t with tasks := (m.queue t).tasks ++ [task] }
    exact ⟨main, worker, m.trace, hput⟩

theorem aside_report (m : Embedder) (id : CompilerId) (c : Compiler) : Aside m (m.report id c) := by
  unfold report
  split
  · next serialized r _ _ =>
    refine Aside.trans ?_ (aside_log _ _)
    have hserialize : Aside m
        (if r.wantsSerialized ⟨c.wire, serialized⟩ then m.log .serialize else m) := by
      split
      · exact aside_log m .serialize
      · exact .refl m
    dsimp only
    cases r.judge ⟨c.wire, serialized⟩ with
    | error why => exact hserialize
    | ok record => exact hserialize.trans (aside_post _ _ _)
  · exact .refl m

/-! ## Callbacks -/

/-- Callbacks reach the session `s`, which is over, and its store is as its last turn has put
    it back. -/
structure Spent (s : Session AnyBody Sink) (m : Embedder) : Prop where
  slot : ∃ id w direct, m.latest = some id ∧ m.sessions[id]? = some ⟨some s, w, direct⟩ ∧
    (m.putWiredStore w.store (m.wiredStore? w.store)).stores = m.stores
  settled : s.Over

/-- What a store is put back as is known from the stores alone. -/
theorem stores_putWiredStore {m m' : Embedder} (h : m'.stores = m.stores) (name : Option StoreName) :
    (m'.putWiredStore name (m'.wiredStore? name)).stores =
      (m.putWiredStore name (m.wiredStore? name)).stores := by
  have hstore : m'.store? = m.store? := by
    funext other
    simp only [store?, h]
  rw [wiredStore?, wiredStore?, hstore]
  unfold putWiredStore
  split
  · simp only [putStore, h]
  · exact h

theorem Spent.aside {s : Session AnyBody Sink} {m' : Embedder} (h : m.Spent s) (haside : Aside m m') :
    m'.Spent s := by
  obtain ⟨id, w, direct, hlatest, hslot, hstores⟩ := h.slot
  obtain ⟨hstores', hsessions, hlatest'⟩ :
      m'.stores = m.stores ∧ m'.sessions = m.sessions ∧ m'.latest = m.latest := by
    obtain ⟨main, worker, trace, rfl⟩ := haside
    exact ⟨rfl, rfl, rfl⟩
  refine ⟨⟨id, w, direct, hlatest'.trans hlatest, by rw [hsessions, hslot], ?_⟩, h.settled⟩
  rw [stores_putWiredStore hstores', hstores, hstores']

/-- Of the requests of a callback nothing comes but that they are noticed. -/
theorem makeRequests_spent {s : Session AnyBody Sink} (h : m.Spent s)
    (again : CompilerId → Ending Sink → Embedder → Embedder) (program : List Request) :
    m.makeRequests again program =
      { m with trace := (program.map fun r => .requested r.kind s.view).reverse ++ m.trace } := by
  induction program generalizing m with
  | nil => rfl
  | cons r rs ih =>
    obtain ⟨id, w, direct, hlatest, hslot, hstores⟩ := h.slot
    have hput : m.putWiredStore w.store (m.wiredStore? w.store) = m := by
      obtain ⟨stores, hput⟩ := putWiredStore_rest m w.store (m.wiredStore? w.store)
      rw [hput] at hstores ⊢
      rw [show stores = m.stores from hstores]
    have hturn : m.turn id r = (none, m) := by
      simp only [turn, hslot, Request.turn_of_over h.settled, putSession_self hslot rfl, hput]
      rfl
    have hfirst : m.makeRequests again (r :: rs) =
        (m.log (.requested r.kind s.view)).makeRequests again rs := by
      simp only [makeRequests, List.foldl_cons, hlatest, hturn, session?, hslot, Option.bind_some]
    rw [hfirst, ih (h.aside (aside_log _ _))]
    simp [log]

/-- The embedder `m` has come to be `m'` while somebody was told an outcome, and hushed it has
    come to be `h'`: callbacks have only been noticed, and all have found the session with the
    same view. -/
structure Told (view : Session.View) (m m' h' : Embedder) : Prop where
  hushed : m'.hushed = h'
  echoes : ∃ new, m'.echoes = new ++ m.echoes ∧ ∀ e ∈ new, ∃ kind, e = .requested kind view
  aside : Aside m m'

theorem Told.refl (view : Session.View) (m : Embedder) : Told view m m m.hushed :=
  ⟨rfl, ⟨[], rfl, List.forall_mem_nil _⟩, .refl m⟩

theorem Told.trans {view : Session.View} {m m' m'' h' h'' : Embedder} (h : Told view m m' h')
    (h₂ : Told view m' m'' h'') : Told view m m'' h'' := by
  obtain ⟨new, hnew, hall⟩ := h.echoes
  obtain ⟨more, hmore, hall'⟩ := h₂.echoes
  refine ⟨h₂.hushed, ⟨more ++ new, ?_, fun e he => ?_⟩, h.aside.trans h₂.aside⟩
  · rw [hmore, hnew, List.append_assoc]
  · rcases List.mem_append.1 he with he | he
    · exact hall' e he
    · exact hall e he

theorem Plain.told {f : Embedder → Embedder} (hf : Plain f) (view : Session.View) {m : Embedder}
    (haside : Aside m (f m)) : Told view m (f m) (f m.hushed) :=
  ⟨hf.hushed m, ⟨[], hf.echoes m, List.forall_mem_nil _⟩, haside⟩

theorem told_makeRequests {s : Session AnyBody Sink} (h : m.Spent s)
    (again : CompilerId → Ending Sink → Embedder → Embedder) (program : List Request) :
    Told s.view m (m.makeRequests again program) m.hushed := by
  rw [makeRequests_spent h]
  have hechoes : ∀ e ∈ (program.map fun r => Event.requested r.kind s.view).reverse,
      ∃ kind, e = .requested kind s.view := by
    intro e he
    obtain ⟨r, -, rfl⟩ := List.mem_map.1 (List.mem_reverse.1 he)
    exact ⟨r.kind, rfl⟩
  have hall : ∀ e ∈ (program.map fun r => Event.requested r.kind s.view).reverse, e.isEcho := by
    intro e he
    obtain ⟨kind, rfl⟩ := hechoes e he
    rfl
  refine ⟨?_, ⟨_, ?_, hechoes⟩, ⟨_, _, _, rfl⟩⟩
  · have hnone : (program.map fun r => Event.requested r.kind s.view).reverse.filter (!·.isEcho) = [] :=
      List.filter_eq_nil_iff.2 fun e he => by simp [hall e he]
    simp only [hushed, List.filter_append, hnone, List.nil_append]
  · simp only [Embedder.echoes, List.filter_append]
    rw [List.filter_eq_self.2 hall]

theorem told_compiler {s : Session AnyBody Sink} (h : m.Spent s)
    (again again' : CompilerId → Ending Sink → Embedder → Embedder) (id : CompilerId)
    (outcome : Outcome) : Told s.view m (m.tellCompiler again id outcome)
      (m.hushed.tellCompiler again' id outcome) := by
  have hget : m.hushed.compilers[id]? = (m.compilers[id]?).map Compiler.hushed := List.getElem?_map
  cases hc : m.compilers[id]? with
  | none =>
    simp only [tellCompiler, hget, hc, Option.map_none]
    exact .refl _ m
  | some c =>
    have hlog : Told s.view m (m.log (.compilerTold id outcome))
        (m.hushed.log (.compilerTold id outcome)) := (plain_log rfl).told s.view (aside_log m _)
    simp only [tellCompiler, hget, hc, Option.map_some]
    cases outcome with
    | compiled trusted =>
      have hreport := hlog.trans ((plain_report id c).told s.view (aside_report _ id c))
      rw [hlog.hushed] at hreport
      have hall := hreport.trans (told_makeRequests (h.aside hreport.aside) again c.program)
      rwa [hreport.hushed] at hall
    | failed failure =>
      have hall := hlog.trans (told_makeRequests (h.aside hlog.aside) again c.program)
      rwa [hlog.hushed] at hall

theorem told_sink {s : Session AnyBody Sink} (h : m.Spent s)
    (again again' : CompilerId → Ending Sink → Embedder → Embedder) (sink : Sink)
    (outcome : Outcome) : Told s.view m (m.tellSink again sink outcome)
      (m.hushed.tellSink again' sink.hushed outcome) := by
  cases sink with
  | ignore => exact .refl _ m
  | notify program =>
    have hlog : Told s.view m (m.log (.sinkTold outcome)) (m.hushed.log (.sinkTold outcome)) :=
      (plain_log rfl).told s.view (aside_log m _)
    have hall := hlog.trans (told_makeRequests (h.aside hlog.aside) again program)
    rwa [hlog.hushed] at hall

theorem told_ending {s : Session AnyBody Sink} (h : m.Spent s) (depth depth' : Nat)
    (id : CompilerId) (e : Ending Sink) : Told s.view m (tellEnding (depth + 1) id e m)
      (tellEnding (depth' + 1) id (e.mapSink Sink.hushed) m.hushed) := by
  have hcompiler : Told s.view m (m.tellOwed (tellEnding depth) id e)
      (m.hushed.tellOwed (tellEnding depth') id (e.mapSink Sink.hushed)) := by
    rw [tellOwed, tellOwed, show (e.mapSink Sink.hushed).compilerTold = e.compilerTold from rfl]
    split
    · exact .refl _ m
    · exact told_compiler h (tellEnding depth) (tellEnding depth') id _
  simp only [tellEnding]
  cases hsink : e.sink with
  | none =>
    rw [show (e.mapSink Sink.hushed).sink = none by simp [Ending.mapSink, hsink]]
    exact hcompiler
  | some sink =>
    rw [show (e.mapSink Sink.hushed).sink = some sink.hushed by simp [Ending.mapSink, hsink]]
    have hall := hcompiler.trans
      (told_sink (h.aside hcompiler.aside) (tellEnding depth) (tellEnding depth') sink e.outcome)
    rwa [hcompiler.hushed] at hall

/-! ## Requests -/

theorem accepts_hushed (m : Embedder) (id : CompilerId) : m.hushed.accepts id = m.accepts id := by
  funext artifact
  show ((m.compilers.map Compiler.hushed)[id]?).any _ = (m.compilers[id]?).any _
  rw [List.getElem?_map, Option.any_map]
  rfl

theorem hushed_putSession (m : Embedder) (id : SessionId) (s : Session AnyBody Sink) :
    (m.putSession id (some s)).hushed = m.hushed.putSession id (some (s.mapSink Sink.hushed)) := by
  have hmap : (m.sessions.modify id fun slot => { slot with session := some s }).map
      SessionSlot.hushed = (m.sessions.map SessionSlot.hushed).modify id
        fun slot => { slot with session := some (s.mapSink Sink.hushed) } :=
    map_modify (f := SessionSlot.hushed) (fun slot : SessionSlot =>
      show ({ slot with session := some s } : SessionSlot).hushed =
        { slot.hushed with session := some (s.mapSink Sink.hushed) } from rfl) m.sessions id
  simp only [hushed, putSession, hmap]

theorem hushed_putWiredStore (m : Embedder) (name : Option StoreName) (s : Option Store.Faulty) :
    (m.putWiredStore name s).hushed = m.hushed.putWiredStore name s := by
  unfold putWiredStore
  split <;> rfl

theorem turn_hushed (m : Embedder) (id : SessionId) (r : Request) :
    m.hushed.turn id r.hushed =
      ((m.turn id r).1.map fun e => (e.1, e.2.mapSink Sink.hushed), (m.turn id r).2.hushed) ∧
    (m.turn id r).2.echoes = m.echoes := by
  have hget : m.hushed.sessions[id]? = (m.sessions[id]?).map SessionSlot.hushed :=
    List.getElem?_map
  unfold turn
  rw [hget]
  cases hslot : m.sessions[id]? with
  | none => exact ⟨rfl, rfl⟩
  | some slot =>
    obtain ⟨session, w, direct⟩ := slot
    cases session with
    | none => exact ⟨rfl, rfl⟩
    | some s =>
      let t := r.turn ⟨m.accepts w.compiler, m.liveContext.isSome⟩ s (m.wiredStore? w.store)
      let m' := (m.putSession id (some t.session)).putWiredStore w.store t.store
      have hplain := plain_carryAll w (r.script? s) t.calls
      have hturn : r.hushed.turn ⟨m.hushed.accepts w.compiler, m.hushed.liveContext.isSome⟩
          (s.mapSink Sink.hushed) (m.hushed.wiredStore? w.store) = t.mapSink Sink.hushed := by
        rw [accepts_hushed]
        exact Request.turn_hushed ..
      have hput : m'.hushed = (m.hushed.putSession id (some (t.session.mapSink Sink.hushed))).putWiredStore
          w.store t.store := by
        rw [hushed_putWiredStore, hushed_putSession]
      refine ⟨?_, ?_⟩
      · show (_, _) = (_, (m'.carryAll w (r.script? s) t.calls).hushed)
        rw [hplain.hushed, hput]
        simp only [SessionSlot.hushed, Option.map_some, hturn, Request.script?_hushed]
        rw [show (t.mapSink Sink.hushed).ending = t.ending.map (Ending.mapSink Sink.hushed) from rfl,
          Option.map_map, Option.map_map]
        rfl
      · show (m'.carryAll w (r.script? s) t.calls).echoes = m.echoes
        rw [hplain.echoes]
        obtain ⟨stores, hrest⟩ := putWiredStore_rest (m.putSession id (some t.session)) w.store t.store
        rw [show m' = _ from hrest]
        rfl

/-- Callbacks reach the session `s`, which is session `id`. -/
structure Reached (id : SessionId) (s : Session AnyBody Sink) (m : Embedder) : Prop where
  latest : m.latest = some id
  slot : ∃ w direct, m.sessions[id]? = some ⟨some s, w, direct⟩
  letGo : s.outcome.isSome → s.body = none

/-- A store that was put back is put back as it is. -/
theorem putWiredStore_again (m : Embedder) (name : Option StoreName) {s : Option Store.Faulty}
    (hsome : s.isSome = (m.wiredStore? name).isSome) :
    ((m.putWiredStore name s).putWiredStore name
      ((m.putWiredStore name s).wiredStore? name)).stores = (m.putWiredStore name s).stores := by
  rw [wiredStore?_putWiredStore m name hsome]
  cases name with
  | none => rfl
  | some name =>
    cases s with
    | none => rfl
    | some s =>
      simp only [putWiredStore, putStore, List.map_map]
      refine List.map_congr_left fun e _ => ?_
      by_cases he : e.1 = name <;> simp [he]

/-- After a turn that ends it, a session is spent. -/
theorem spent_of_turn {id : SessionId} {s : Session AnyBody Sink} (h : Reached id s m) (r : Request) :
    ∃ s', Reached id s' (m.turn id r).2 ∧ (s.outcome.isSome → s' = s ∧ (m.turn id r).1 = none) ∧
      ((m.turn id r).1.isSome → s'.outcome.isSome ∧ (m.turn id r).2.Spent s') := by
  obtain ⟨w, direct, hslot⟩ := h.slot
  let env : Surroundings := ⟨m.accepts w.compiler, m.liveContext.isSome⟩
  let t := r.turn env s (m.wiredStore? w.store)
  let m₁ := m.putSession id (some t.session)
  let m₂ := m₁.putWiredStore w.store t.store
  have hturn : m.turn id r = (t.ending.map fun e => (w.compiler, e),
      m₂.carryAll w (r.script? s) t.calls) := by
    simp only [turn, hslot]
    rfl
  obtain ⟨compilers, recorders, trace, hrest⟩ := (carryAll_carried w m₂ (r.script? s) t.calls).rest
  obtain ⟨stores, hput⟩ := putWiredStore_rest m₁ w.store t.store
  have hcloses : t.Closes s.outcome := Request.turn_closes env _ r
  have hstored : t.store.isSome = (m.wiredStore? w.store).isSome := Request.turn_stored ..
  rw [hturn, hrest]
  have hslot' : m₂.sessions[id]? = some ⟨some t.session, w, direct⟩ := by
    rw [show m₂ = _ from hput]
    simp [m₁, putSession, hslot]
  have hlatest : m₂.latest = some id := by
    rw [show m₂ = _ from hput]
    exact h.latest
  refine ⟨t.session, ⟨hlatest, ⟨w, direct, hslot'⟩, fun hended => ?_⟩, fun hended => ?_,
    fun htells => ?_⟩
  · cases he : t.ending with
    | some e => exact (hcloses.ended e he).2.2.2
    | none =>
      rw [hcloses.ongoing he] at hended
      have hidle : t = ⟨s, m.wiredStore? w.store, [], none⟩ :=
        Request.turn_of_over ⟨hended, h.letGo hended⟩ env _ r
      rw [hidle]
      exact h.letGo hended
  · have hidle : t = ⟨s, m.wiredStore? w.store, [], none⟩ :=
      Request.turn_of_over ⟨hended, h.letGo hended⟩ env _ r
    rw [hidle]
    exact ⟨rfl, rfl⟩
  · obtain ⟨e, he⟩ : ∃ e, t.ending = some e := by
      rw [Option.isSome_map] at htells
      exact Option.isSome_iff_exists.1 htells
    obtain ⟨-, -, houtcome, hbody⟩ := hcloses.ended e he
    have hover : t.session.Over := ⟨Option.isSome_of_eq_some houtcome, hbody⟩
    have hagain : (m₂.putWiredStore w.store (m₂.wiredStore? w.store)).stores = m₂.stores :=
      putWiredStore_again m₁ w.store hstored
    refine ⟨hover.ended, ⟨id, w, direct, hlatest, hslot', ?_⟩, hover⟩
    refine (stores_putWiredStore (m := m₂) ?_ w.store).trans hagain
    rfl

/-- Nobody notices what is asked of a session that has ended. -/
theorem turn_unnoticed {id : SessionId} {s : Session AnyBody Sink} (h : Reached id s m)
    (hended : s.outcome.isSome) (r : Request) :
    (m.turn id r).1 = none ∧ (m.turn id r).2.trace = m.trace := by
  obtain ⟨w, direct, hslot⟩ := h.slot
  obtain ⟨stores, hput⟩ := putWiredStore_rest m w.store (m.wiredStore? w.store)
  simp only [turn, hslot, Request.turn_of_over ⟨hended, h.letGo hended⟩, putSession_self hslot rfl,
    hput]
  exact ⟨rfl, rfl⟩

/-- To hush an embedder before or after a request makes no difference, and what callbacks have
    found is the session as it has ended. -/
theorem request_hushed {id : SessionId} {s : Session AnyBody Sink} (h : Reached id s m)
    (r : Request) : ∃ s' new, Reached id s' (m.request id r) ∧
      (m.request id r).hushed = m.hushed.request id r.hushed ∧
      (s.outcome.isSome → s' = s) ∧ (m.request id r).echoes = new ++ m.echoes ∧
      ∀ e ∈ new, s'.outcome.isSome ∧ ∃ kind, e = .requested kind s'.view := by
  obtain ⟨s', hreached, hover, hspent⟩ := spent_of_turn h r
  obtain ⟨hturn, hechoes⟩ := turn_hushed m id r
  cases htells : (m.turn id r).1 with
  | none =>
    have hnone : (m.hushed.turn id r.hushed).1 = none := by rw [hturn, htells]; rfl
    rw [request_of_ongoing htells, request_of_ongoing hnone, hturn]
    exact ⟨s', [], hreached, rfl, fun hended => (hover hended).1, hechoes, List.forall_mem_nil _⟩
  | some told =>
    obtain ⟨compiler, e⟩ := told
    obtain ⟨hended, hspent⟩ := hspent (by rw [htells]; rfl)
    have hsome : (m.hushed.turn id r.hushed).1 = some (compiler, e.mapSink Sink.hushed) := by
      rw [hturn, htells]
      rfl
    have htold := told_ending hspent (m.turn id r).2.running (m.turn id r).2.hushed.running compiler e
    obtain ⟨new, hnew, hall⟩ := htold.echoes
    rw [request_of_ended htells, request_of_ended hsome, hturn]
    refine ⟨s', new, ?_, htold.hushed, fun hover' => (hover hover').1, hnew.trans (by rw [hechoes]),
      fun e he => ⟨hended, hall e he⟩⟩
    obtain ⟨main, worker, trace, haside⟩ := htold.aside
    rw [haside]
    exact ⟨hreached.latest, hreached.slot, hreached.letGo⟩

/-! ## What happens to a session -/

/-- A request made of a session from outside, or what others do meanwhile. -/
inductive Happening where
  | request (r : Request)
  | bodies (f : AnyBody → AnyBody)
  | stores (f : StoreName → Store.Faulty → Store.Faulty)
  | context (c : Option Context)

def Happening.hushed : Happening → Happening
  | request r => request r.hushed
  | h => h

def happen (id : SessionId) (m : Embedder) : Happening → Embedder
  | .request r => m.request id r
  | .bodies f => BodyHolder.mapBodies f m
  | .stores f => { m with stores := m.stores.map fun e => (e.1, f e.1 e.2) }
  | .context c => { m with context := c }

def drive (id : SessionId) (m : Embedder) (happenings : List Happening) : Embedder :=
  happenings.foldl (happen id) m

theorem hushed_mapBodies (f : AnyBody → AnyBody) (m : Embedder) :
    (BodyHolder.mapBodies f m).hushed = BodyHolder.mapBodies f m.hushed := by
  simp only [BodyHolder.mapBodies, hushed, List.map_map]
  congr 1
  refine List.map_congr_left fun slot _ => ?_
  cases hs : slot.session <;> simp [SessionSlot.hushed, hs, Session.mapSink]

theorem happen_hushed {id : SessionId} {s : Session AnyBody Sink} (h : Reached id s m)
    (happening : Happening) : ∃ s' new, Reached id s' (m.happen id happening) ∧
      (m.happen id happening).hushed = m.hushed.happen id happening.hushed ∧
      (s.outcome.isSome → s'.view = s.view ∧ s'.outcome.isSome) ∧
      (m.happen id happening).echoes = new ++ m.echoes ∧
      ∀ e ∈ new, s'.outcome.isSome ∧ ∃ kind, e = .requested kind s'.view := by
  cases happening with
  | request r =>
    obtain ⟨s', new, hreached, hhushed, hsame, hechoes, hall⟩ := request_hushed h r
    refine ⟨s', new, hreached, hhushed, fun hended => ?_, hechoes, hall⟩
    rw [hsame hended]
    exact ⟨rfl, hended⟩
  | bodies f =>
    obtain ⟨w, direct, hslot⟩ := h.slot
    refine ⟨{ s with body := s.body.map f }, [], ⟨h.latest, ⟨w, direct, ?_⟩, fun hended => ?_⟩, ?_,
      fun hended => ⟨rfl, hended⟩, rfl, List.forall_mem_nil _⟩
    · show (m.sessions.map _)[id]? = _
      rw [List.getElem?_map, hslot]
      rfl
    · show s.body.map f = none
      rw [h.letGo hended]
      rfl
    · exact hushed_mapBodies f m
  | stores f =>
    exact ⟨s, [], ⟨h.latest, h.slot, h.letGo⟩, rfl, fun he => ⟨rfl, he⟩, rfl, List.forall_mem_nil _⟩
  | context c =>
    exact ⟨s, [], ⟨h.latest, h.slot, h.letGo⟩, rfl, fun he => ⟨rfl, he⟩, rfl, List.forall_mem_nil _⟩

theorem drive_hushed {id : SessionId} {s : Session AnyBody Sink} (h : Reached id s m)
    (happenings : List Happening) : ∃ s' new, Reached id s' (m.drive id happenings) ∧
      (m.drive id happenings).hushed = m.hushed.drive id (happenings.map Happening.hushed) ∧
      (s.outcome.isSome → s'.view = s.view ∧ s'.outcome.isSome) ∧
      (m.drive id happenings).echoes = new ++ m.echoes ∧
      ∀ e ∈ new, s'.outcome.isSome ∧ ∃ kind, e = .requested kind s'.view := by
  induction happenings generalizing m s with
  | nil => exact ⟨s, [], h, rfl, fun hended => ⟨rfl, hended⟩, rfl, List.forall_mem_nil _⟩
  | cons happening happenings ih =>
    obtain ⟨s₁, new, hreached, hhushed, hkept, hechoes, hall⟩ := happen_hushed h happening
    obtain ⟨s₂, more, hreached₂, hhushed₂, hkept₂, hechoes₂, hall₂⟩ := ih hreached
    refine ⟨s₂, more ++ new, hreached₂, hhushed₂.trans ?_, fun hended => ?_, ?_, fun e he => ?_⟩
    · rw [hhushed]
      rfl
    · obtain ⟨hview, hended₁⟩ := hkept hended
      obtain ⟨hview₂, hended₂⟩ := hkept₂ hended₁
      exact ⟨hview₂.trans hview, hended₂⟩
    · rw [List.append_assoc, ← hechoes]
      exact hechoes₂
    · rcases List.mem_append.1 he with he | he
      · exact hall₂ e he
      · obtain ⟨hended₁, kind, rfl⟩ := hall e he
        obtain ⟨hview, hended₂⟩ := hkept₂ hended₁
        exact ⟨hended₂, kind, by rw [hview]⟩

/-- A session that callbacks reach, whatever happens to it. -/
theorem reentry_harmless (m : Embedder) (url : String) (key : Key) (store : Option StoreName)
    (recorder : Option RecorderId) (happenings : List Happening) :
    let id := (m.openSession url key store recorder false).1
    let opened := (m.openSession url key store recorder false).2
    let p := opened.drive id happenings
    let q := opened.hushed.drive id (happenings.map Happening.hushed)
    -- Others are called as if no callback had made a request, and all is left the same.
    p.trace.filter (!·.isEcho) = q.trace ∧ p.hushed = q ∧
    ∃ s new, p.session? id = some s ∧
      -- Every request of a callback has found the session ended, as it is in the end.
      p.echoes = new ++ m.echoes ∧
      (∀ e ∈ new, ∃ kind outcome, e = .requested kind s.view ∧ s.outcome = some outcome) ∧
      -- Nothing is done by such a request, nor with what it hands over.
      (s.outcome.isSome → ∀ r : Request,
        (∀ env (store : Option Store.Faulty), r.turn env s store = ⟨s, store, [], none⟩) ∧
        (p.turn id r).1 = none ∧ (p.turn id r).2.trace = p.trace) := by
  intro id opened p q
  have hreached : Reached id (Session.new url key ⟨m.current⟩) opened := by
    refine ⟨rfl, ⟨⟨m.current, store, recorder⟩, false, ?_⟩, nofun⟩
    show (m.sessions ++ [_])[m.sessions.length]? = _
    simp
  obtain ⟨s, new, hs, hhushed, -, hechoes, hall⟩ := drive_hushed hreached happenings
  obtain ⟨w, direct, hslot⟩ := hs.slot
  refine ⟨congrArg Embedder.trace hhushed, hhushed, s, new, ?_, hechoes, fun e he => ?_,
    fun hended r => ?_⟩
  · show (p.sessions[id]?).bind _ = _
    rw [hslot]
    rfl
  · obtain ⟨hended, kind, rfl⟩ := hall e he
    obtain ⟨outcome, ho⟩ := Option.isSome_iff_exists.1 hended
    exact ⟨kind, outcome, rfl, ho⟩
  · have hover : s.Over := ⟨hended, hs.letGo hended⟩
    exact ⟨fun env store => Request.turn_of_over hover env store r, turn_unnoticed hs hended r⟩

/-- A compiler that cancels, and a sink that starts anew with a sink of its own. -/
example :
    let m : Embedder :=
      { stores := [], context := none, attached := false, clock := 0,
        compilers := [{ program := [.cancel] }] }
    let sink : Sink := .notify [.start (.fixed ⟨[[1]], false⟩) (.notify [.look])]
    let opened := (m.openSession "https://a.test/m" ⟨Record.moduleTag, [109]⟩ none none false).2
    let view : Session.View := ⟨.uncached, some (.compiled false)⟩
    (opened.drive 0 [.request (.start (.fixed ⟨[[2]], false⟩) sink)]).trace.reverse =
      [.feed 0 [2], .compilerTold 0 (.compiled false), .requested .cancel view,
        .sinkTold (.compiled false), .requested .start view] := by
  decide +kernel

end Embedder

end CompileCache
