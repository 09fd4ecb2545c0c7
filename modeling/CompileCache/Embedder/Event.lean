/-
  CompileCache.Embedder.Event — what can be noticed from outside.

  Every call that reaches a compiler, a sink, a store, a scripted body or a task is an
  event, and so is every request that a callback makes.
-/

import CompileCache.Body.Scripted
import CompileCache.Embedder.Queue
import CompileCache.Embedder.Request
import CompileCache.Recorder
import CompileCache.Session

namespace CompileCache

structure Session.View where
  phase : Phase
  outcome : Option Outcome
  deriving DecidableEq, Repr

def Session.view {σ κ : Type} (s : Session σ κ) : Session.View := ⟨s.trial.phase, s.outcome⟩

inductive StoreOperation where
  | get
  | evict
  | put
  deriving DecidableEq, Repr

inductive Event where
  | storeCall (operation : StoreOperation) (store : StoreName) (key : Key)
  | setUrl (compiler : CompilerId) (url : String)
  | setRecorder (compiler : CompilerId) (url : String) (key : Key)
  | feed (compiler : CompilerId) (chunk : Bytes)
  | tryArtifact (compiler : CompilerId) (artifact : Bytes) (taken : Bool)
  | compilerTold (compiler : CompilerId) (outcome : Outcome)
  | serialize
  | reported (compiler : CompilerId) (answer : Recorder.Answer)
  | sinkTold (outcome : Outcome)
  /-- A callback has made a request; the view is the one after it. -/
  | requested (kind : Request.Kind) (view : Session.View)
  /-- A callback has found no session to make a request of. -/
  | noSession
  /-- A scripted body was read. -/
  | offer (entry : Body.ScriptEntry)
  | take (count : Nat)
  | cancelBody
  | task (label : Label)
  /-- A task has posted another: whether it was taken, if it could be posted at all. -/
  | posted (taken : Option Bool)
  deriving DecidableEq, Repr

end CompileCache
