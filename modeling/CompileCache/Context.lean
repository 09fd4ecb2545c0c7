/-
  CompileCache.Context — where a compilation was asked for.

  A context is a window, a worker or a worklet, and lives on one of two threads, each
  with a queue of tasks. It may name a store, its archive, in which compiled modules are
  filed. A context that was detached can no longer run script; what refers to it then
  finds nothing, as if it were gone.
-/

import CompileCache.Text.Fields
import CompileCache.Text.Quoted

namespace CompileCache

inductive Thread where
  | main
  | worker
  deriving DecidableEq, Repr

namespace Thread

def name : Thread → String
  | main => "main"
  | worker => "worker"

def describe (t : Thread) : String := Text.describe "TaskRunner" [("name", Text.quote t.name)]

end Thread

inductive Context.Kind where
  /-- A document on the main thread. -/
  | window
  | worker
  /-- On a thread of its own if it is threaded, on the main thread otherwise. -/
  | worklet (threaded : Bool)
  deriving DecidableEq, Repr

namespace Context.Kind

/-- The thread of its own that a context of this kind has. -/
def ownThread? : Context.Kind → Option Thread
  | window => none
  | worker => some .worker
  | worklet threaded => if threaded then some .worker else none

/-- The thread the context lives on. -/
def thread (k : Context.Kind) : Thread := k.ownThread?.getD .main

def describe : Context.Kind → String
  | window => "Window"
  | worker => Text.describe "Worker" [("thread", Thread.worker.describe)]
  | worklet threaded =>
    Text.describe "Worklet"
      [("thread", Text.describeOption (((worklet threaded).ownThread?).map Thread.describe))]

end Context.Kind

/-- Stores are known by name. -/
abbrev StoreName := String

structure Context where
  kind : Context.Kind
  origin : String
  /-- Where its compiled modules are filed. -/
  archive : Option StoreName
  live : Bool := true
  deriving DecidableEq

namespace Context

def detach (c : Context) : Context := { c with live := false }

/-- Whether the context keeps the thread's queue open. -/
def uses (c : Context) (t : Thread) : Bool := t == .main || c.kind.ownThread? == some t

def describe (c : Context) : String :=
  Text.describe "ExecutionContext"
    [("kind", c.kind.describe), ("origin", Text.quote c.origin),
     ("has_code_cache_host", toString c.archive.isSome), ("valid", toString c.live)]

end Context

end CompileCache
