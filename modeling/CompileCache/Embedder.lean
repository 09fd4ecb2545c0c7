/-
  CompileCache.Embedder — the program that streaming compilation is embedded in.

  The embedder has stores, one execution context and its two task queues; compilers,
  numbered in the order in which they were made, the last one being current; and
  sessions, numbered likewise. Callbacks reach one session, the latest. A desk holds what
  has not been handed to a session: a token, a guard, a recorder, a trial and its digest.
  The trace lists what has happened, newest first.
-/

import CompileCache.Body.Senders
import CompileCache.Embedder.Event
import CompileCache.Response
import CompileCache.Store.Faulty

namespace CompileCache

abbrev SessionId := Nat

abbrev RecorderId := Nat

/-- A compiler, as far as sessions can tell. -/
structure Compiler where
  /-- Takes none of the artifacts it is offered. -/
  rejects : Bool := false
  /-- The serialized module that it reports when it has succeeded. -/
  artifact : Option Blob := none
  /-- What it requests when it is told an outcome. -/
  program : List Request := []
  /-- What it was fed, newest first. -/
  fed : List Bytes := []
  recorder : Option RecorderId := none

def Compiler.wire (c : Compiler) : Bytes := c.fed.reverse.flatten

/-- Whom the calls of a session or a trial go to. -/
structure Wiring where
  compiler : CompilerId
  store : Option StoreName
  recorder : Option RecorderId
  deriving DecidableEq

structure SessionSlot where
  /-- None once it was given up. -/
  session : Option (Session AnyBody Sink)
  wiring : Wiring
  /-- A direct session is never the one that callbacks reach. -/
  direct : Bool

structure HeldTrial where
  trial : Trial
  store : Option StoreName
  recorder : Option RecorderId

structure Desk where
  token : Option Token := none
  guard : Option Guard := none
  recorder : Option RecorderId := none
  trial : Option HeldTrial := none
  digest : RunningDigest := RunningDigest.empty

structure Embedder where
  stores : List (StoreName × Store.Faulty)
  /-- None once it was released. -/
  context : Option Context
  /-- Whether the handle that sessions and tasks have refers to the context. -/
  attached : Bool
  compilers : List Compiler
  recorders : List Recorder := []
  sessions : List SessionSlot := []
  /-- The session that callbacks reach. -/
  latest : Option SessionId := none
  senders : Senders := {}
  mainQueue : Queue := {}
  workerQueue : Queue := {}
  /-- The threads that the embedder itself can post to. -/
  mayPost : List Thread := [.main, .worker]
  desk : Desk := {}
  clock : UInt64
  /-- Newest first. -/
  trace : List Event := []

namespace Embedder

def log (m : Embedder) (e : Event) : Embedder := { m with trace := e :: m.trace }

/-! ## The context -/

/-- The context as its handle finds it: only while it is there and live. -/
def liveContext (m : Embedder) : Option Context :=
  if m.attached then m.context.filter (·.live) else none

def detachContext (m : Embedder) : Embedder := { m with context := m.context.map Context.detach }

def releaseContext (m : Embedder) : Embedder := { m with context := none }

/-! ## Stores

A session or a trial names its store, or none. -/

def store? (m : Embedder) (name : StoreName) : Option Store.Faulty := m.stores.lookup name

def putStore (m : Embedder) (name : StoreName) (s : Store.Faulty) : Embedder :=
  { m with stores := m.stores.map fun e => if e.1 = name then (name, s) else e }

def wiredStore? (m : Embedder) (name : Option StoreName) : Option Store.Faulty := name.bind m.store?

def putWiredStore (m : Embedder) (name : Option StoreName) (s : Option Store.Faulty) : Embedder :=
  match name, s with
  | some name, some s => m.putStore name s
  | _, _ => m

/-! ## Compilers and recorders -/

def current (m : Embedder) : CompilerId := m.compilers.length - 1

def addCompiler (m : Embedder) (c : Compiler) : Embedder :=
  { m with compilers := m.compilers ++ [c] }

def onCompiler (m : Embedder) (id : CompilerId) (f : Compiler → Compiler) : Embedder :=
  { m with compilers := m.compilers.modify id f }

def accepts (m : Embedder) (id : CompilerId) (_artifact : Bytes) : Bool :=
  (m.compilers[id]?).any fun c => !c.rejects

def feed (m : Embedder) (id : CompilerId) (chunk : Bytes) : Embedder :=
  (m.onCompiler id fun c => { c with fed := chunk :: c.fed }).log (.feed id chunk)

def addRecorder (m : Embedder) (r : Recorder) : RecorderId × Embedder :=
  (m.recorders.length, { m with recorders := m.recorders ++ [r] })

def onRecorder (m : Embedder) (id : Option RecorderId) (f : Recorder → Recorder) : Embedder :=
  match id with
  | some id => { m with recorders := m.recorders.modify id f }
  | none => m

/-- Gives the compiler the recorder that it is to report its module to. -/
def setRecorder (m : Embedder) (compiler : CompilerId) (r : Recorder) : RecorderId × Embedder :=
  let (id, m) := m.addRecorder r
  let m := m.onCompiler compiler fun c => { c with recorder := some id }
  (id, m.log (.setRecorder compiler r.url r.key))

/-! ## Sessions -/

def session? (m : Embedder) (id : SessionId) : Option (Session AnyBody Sink) :=
  (m.sessions[id]?).bind (·.session)

def putSession (m : Embedder) (id : SessionId) (s : Option (Session AnyBody Sink)) : Embedder :=
  { m with sessions := m.sessions.modify id fun slot => { slot with session := s } }

def addSession (m : Embedder) (url : String) (key : Key) (wiring : Wiring) (direct : Bool) :
    SessionId × Embedder :=
  (m.sessions.length,
    { m with
      sessions := m.sessions ++ [⟨some (Session.new url key ⟨wiring.compiler⟩), wiring, direct⟩] })

def running (m : Embedder) : Nat :=
  m.sessions.countP fun slot => slot.session.any fun s => !s.hasEnded

instance : BodyHolder Embedder where
  bodies m := m.sessions.filterMap fun slot => slot.session.bind (·.body)
  mapBodies f m :=
    { m with sessions := m.sessions.map fun slot =>
        { slot with session := slot.session.map fun s => { s with body := s.body.map f } } }

end Embedder

end CompileCache
