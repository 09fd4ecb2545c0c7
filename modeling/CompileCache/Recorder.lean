/-
  CompileCache.Recorder — whether a compiled module is worth filing.

  The compiler reports a module to the recorder it was given, on a thread of its own. The
  recorder judges it and builds the record there and then (`judge`); the record is filed
  later, by a task on the context's thread, if the context still exists.
-/

import CompileCache.Context
import CompileCache.Key
import CompileCache.Record

namespace CompileCache

structure CompiledModule where
  /-- The bytes the module was compiled from. -/
  wire : Bytes
  /-- The compiled form; empty if the compiler will not serialize it. -/
  serialized : Blob
  deriving DecidableEq

structure Recorder where
  url : String
  key : Key
  /-- A module of fewer wire bytes is not worth filing. -/
  threshold : Nat
  thread : Thread
  /-- The stored record that the compiler may be reading. -/
  kept : Option Record := none
  deriving DecidableEq

namespace Recorder

inductive Decline where
  | tooSmall
  | unserialized
  | tooLarge
  deriving DecidableEq, Repr

inductive Answer where
  | posted
  | declined (why : Decline)
  /-- The thread takes no more tasks. -/
  | closed
  deriving DecidableEq, Repr

def keep (c : Recorder) (r : Record) : Recorder := { c with kept := some r }

def letGo (c : Recorder) : Recorder := { c with kept := none }

/-- Whether the module's serialized form is asked for at all. -/
def wantsSerialized (c : Recorder) (m : CompiledModule) : Bool := c.threshold ≤ m.wire.length

def judge (c : Recorder) (m : CompiledModule) : Except Decline Record :=
  if !c.wantsSerialized m then .error .tooSmall
  else if m.serialized.size = 0 then .error .unserialized
  else
    match Record.pack c.key.tag (Digest.compute m.wire) m.serialized with
    | .ok record => .ok record
    | .error _ => .error .tooLarge

end Recorder

end CompileCache
