/-
  CompileCache.Embedder.Streaming — beginning sessions and giving them up.

  `stream` begins a session for a response: the compiler learns the URL first, then its
  recorder if there is a store, and then the body is read. A response that cannot be
  compiled costs the compiler one failure, the sink one notice, and nothing else. Callbacks
  reach a session only once `stream` has answered it.
-/

import CompileCache.Embedder.Callbacks

namespace CompileCache.Embedder

/-- Gives the compiler its recorder, if there is to be one. -/
def setPreparedRecorder (m : Embedder) (compiler : CompilerId) (r : Option Recorder) :
    Option RecorderId × Embedder :=
  match r with
  | none => (none, m)
  | some r =>
    let (id, m) := m.setRecorder compiler r
    (some id, m)

/-- Compiles a response with the current compiler. -/
def stream (m : Embedder) (response : Option (Response AnyBody)) (settings : StreamSettings)
    (sink : Sink) : Option SessionId × Embedder :=
  let compiler := m.current
  let guard : Guard := { token := ⟨compiler⟩ }
  match Response.prepare m.liveContext response settings with
  | .error failure =>
    let m := m.tell compiler (guard.note failure).drop
    (none, m.notify sink (.failed failure))
  | .ok p =>
    let m := m.log (.setUrl compiler p.url)
    let (recorder, m) := m.setPreparedRecorder compiler p.recorder
    let (id, m) := m.addSession p.url p.key ⟨compiler, p.store, recorder⟩ false
    let m := m.request id (.start p.body sink)
    (some id, { m with latest := some id })

/-- A session with the current compiler that reads nothing yet. -/
def openSession (m : Embedder) (url : String) (key : Key) (store : Option StoreName)
    (recorder : Option RecorderId) (direct : Bool) : SessionId × Embedder :=
  let (id, m) := m.addSession url key ⟨m.current, store, recorder⟩ direct
  (id, if direct then m else { m with latest := some id })

/-- Gives a session up. Callbacks then reach none; a compilation that has not ended fails. -/
def dropSession (m : Embedder) (id : SessionId) : Embedder :=
  match m.sessions[id]? with
  | none => m
  | some slot =>
    let m := { m.putSession id none with latest := none }
    match slot.session.bind Session.drop with
    | some outcome => m.tell slot.wiring.compiler outcome
    | none => m

end CompileCache.Embedder
