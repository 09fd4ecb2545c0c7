/-
  CompileCache.Store.Layered — a store in memory over one in a directory.

  Memory is asked first, and what only the directory has is moved up into memory.
  Filing and evicting reach both layers; the directory's result is the one reported.
-/

import CompileCache.Store.Directory
import CompileCache.Store.Memory

namespace CompileCache.Store

structure Layered where
  memory : Memory
  directory : Directory

namespace Layered

def get (s : Layered) (key : Key) : Plan (Store.Found × Layered) :=
  match s.memory.get key with
  | some r => return (.ok (some r), s)
  | none => do
    let found ← s.directory.get key
    match found with
    | .ok (some r) => return (found, { s with memory := s.memory.put key r })
    | _ => return (found, s)

def evict (s : Layered) (key : Key) : Plan (Store.Done × Layered) := do
  let done ← s.directory.evict key
  return (done, { s with memory := s.memory.evict key })

def put (s : Layered) (key : Key) (r : Record) (now : UInt64) : Plan (Store.Done × Layered) := do
  let done ← s.directory.put key r now
  return (done, { s with memory := s.memory.put key r })

end Layered

end CompileCache.Store
