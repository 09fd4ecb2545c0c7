/-
  CompileCache.Embedder.Callbacks — carrying out what sessions ask, and telling outcomes.

  The calls of a turn reach their receivers in order. When a turn has ended a session,
  its compiler is told the outcome and then its sink, and each may make requests of the
  latest session before it returns. A request can end another session, whose compiler
  and sink are told in their turn; since that happens once to each session, the nesting
  is bounded by the sessions that have not ended.
-/

import CompileCache.Embedder.Tasks

namespace CompileCache

/-- What a request does to a session. -/
def Request.turn {τ : Type} [Store τ] (env : Surroundings) (s : Session AnyBody Sink)
    (store : Option τ) : Request → Turn AnyBody Sink τ
  | look => ⟨s, store, [], none⟩
  | resume => s.resume env store
  | cancel => s.cancel env store
  | withdraw => s.withdraw env store
  | start body sink => s.start env body sink store

/-- The script that is followed during a request, if the body that is read has one. -/
def Request.script? (s : Session AnyBody Sink) : Request → Option Body.Scripted
  | start body _ => body.scripted?
  | _ => s.body.bind AnyBody.scripted?

namespace Embedder

/-! ## Calls -/

def logStore (m : Embedder) (operation : StoreOperation) (store : Option StoreName) (key : Key) :
    Embedder :=
  match store with
  | some name => m.log (.storeCall operation name key)
  | none => m

/-- Lets a call reach its receiver. Of bodies, only a scripted one is noticed to be read;
    the script is followed along. -/
def carry (w : Wiring) (m : Embedder) (script : Option Body.Scripted) :
    Call → Embedder × Option Body.Scripted
  | .offer _ =>
    match script with
    | some s => (m.log (.offer s.next), some s.offer.2)
    | none => (m, none)
  | .take count _ =>
    match script with
    | some s => (m.log (.take count), some (s.take count).2)
    | none => (m, none)
  | .cancelBody =>
    match script with
    | some s => (m.log .cancelBody, some s.cancel)
    | none => (m, none)
  | .get key _ => (m.logStore .get w.store key, script)
  | .evict key _ => (m.logStore .evict w.store key, script)
  | .tryArtifact artifact taken => (m.log (.tryArtifact w.compiler artifact taken), script)
  | .feed chunk => (m.feed w.compiler chunk, script)
  | .keep record => (m.onRecorder w.recorder (·.keep record), script)
  | .letGo => (m.onRecorder w.recorder Recorder.letGo, script)

def carryAll (w : Wiring) (m : Embedder) (script : Option Body.Scripted) (calls : List Call) :
    Embedder :=
  (calls.foldl (fun (m, script) call => m.carry w script call) (m, script)).1

/-! ## Reported modules -/

/-- A recorder's answer to a module; the record it makes of it waits to be filed. -/
def record (m : Embedder) (r : Recorder) (module : CompiledModule) : Recorder.Answer × Embedder :=
  let m := if r.wantsSerialized module then m.log .serialize else m
  match r.judge module with
  | .error why => (.declined why, m)
  | .ok record =>
    let (taken, m) := m.post r.thread (.file r.key record)
    (if taken then .posted else .closed, m)

/-- A compiler with a module to report reports it to its recorder, if it has one. -/
def report (m : Embedder) (id : CompilerId) (c : Compiler) : Embedder :=
  match c.artifact, c.recorder.bind (m.recorders[·]?) with
  | some serialized, some r =>
    let (answer, m) := m.record r ⟨c.wire, serialized⟩
    m.log (.reported id answer)
  | _, _ => m

/-! ## Turns -/

/-- One turn of a session: whose compiler and which sink are to be told, if it ended. -/
def turn (m : Embedder) (id : SessionId) (r : Request) :
    Option (CompilerId × Ending Sink) × Embedder :=
  match m.sessions[id]? with
  | none => (none, m)
  | some slot =>
    match slot.session with
    | none => (none, m)
    | some s =>
      let w := slot.wiring
      let env : Surroundings := ⟨m.accepts w.compiler, m.liveContext.isSome⟩
      let t := r.turn env s (m.wiredStore? w.store)
      let m := (m.putSession id (some t.session)).putWiredStore w.store t.store
      (t.ending.map fun e => (w.compiler, e), m.carryAll w (r.script? s) t.calls)

/-! ## Outcomes

`again` tells the ending of a session that a callback has ended by a request. -/

/-- The requests of a callback, each made of the session that is the latest by then. -/
def makeRequests (again : CompilerId → Ending Sink → Embedder → Embedder) (m : Embedder)
    (program : List Request) : Embedder :=
  program.foldl (fun m r =>
    match m.latest with
    | none => m.log .noSession
    | some id =>
      let (ended, m) := m.turn id r
      let m := match ended with
        | some (compiler, ending) => again compiler ending m
        | none => m
      match m.session? id with
      | some s => m.log (.requested r.kind s.view)
      | none => m) m

def tellCompiler (again : CompilerId → Ending Sink → Embedder → Embedder) (m : Embedder)
    (id : CompilerId) (outcome : Outcome) : Embedder :=
  match m.compilers[id]? with
  | none => m
  | some c =>
    let m := m.log (.compilerTold id outcome)
    let m := match outcome with
      | .compiled _ => m.report id c
      | .failed _ => m
    m.makeRequests again c.program

def tellSink (again : CompilerId → Ending Sink → Embedder → Embedder) (m : Embedder)
    (sink : Sink) (outcome : Outcome) : Embedder :=
  match sink with
  | .ignore => m
  | .notify program => (m.log (.sinkTold outcome)).makeRequests again program

/-- Tells a session's compiler what it is owed. -/
def tellOwed (again : CompilerId → Ending Sink → Embedder → Embedder) (m : Embedder)
    (id : CompilerId) (ending : Ending Sink) : Embedder :=
  match ending.compilerTold with
  | none => m
  | some outcome => m.tellCompiler again id outcome

/-- Tells a session's compiler and then its sink. `depth` bounds how many more sessions
    can be ended by callbacks, one inside the other. -/
def tellEnding : (depth : Nat) → CompilerId → Ending Sink → Embedder → Embedder
  | 0, _, _, m => m
  | depth + 1, id, ending, m =>
    let m := m.tellOwed (tellEnding depth) id ending
    match ending.sink with
    | some sink => m.tellSink (tellEnding depth) sink ending.outcome
    | none => m

/-- Tells a compiler an outcome that is not a session's. -/
def tell (m : Embedder) (id : CompilerId) (outcome : Outcome) : Embedder :=
  m.tellCompiler (tellEnding m.running) id outcome

/-- Tells a sink an outcome that is not a session's. -/
def notify (m : Embedder) (sink : Sink) (outcome : Outcome) : Embedder :=
  m.tellSink (tellEnding m.running) sink outcome

/-- Makes a request of a session, and tells the ending if that ends it. -/
def request (m : Embedder) (id : SessionId) (r : Request) : Embedder :=
  match m.turn id r with
  | (none, m) => m
  | (some (compiler, ending), m) => tellEnding (m.running + 1) compiler ending m

end Embedder

end CompileCache
