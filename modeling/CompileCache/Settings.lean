/-
  CompileCache.Settings — what can be configured.

  `StreamSettings` govern one streaming compilation; `CacheSettings` say which store
  to open.
-/

import CompileCache.Disk
import CompileCache.Record

namespace CompileCache

structure StreamSettings where
  tag : UInt32 := Record.moduleTag
  /-- A module of fewer wire bytes is not worth filing. -/
  threshold : Nat := 1024
  useCache : Bool := true
  deriving DecidableEq, Repr

namespace StreamSettings

inductive Change where
  | tag (tag : UInt32)
  | threshold (bytes : Nat)
  | useCache (use : Bool)
  deriving DecidableEq, Repr

def change (s : StreamSettings) : Change → StreamSettings
  | .tag tag => { s with tag }
  | .threshold threshold => { s with threshold }
  | .useCache useCache => { s with useCache }

/-- The defaults with `changes` made in order. -/
def ofChanges (changes : List Change) : StreamSettings := changes.foldl change {}

end StreamSettings

structure CacheSettings where
  enabled : Bool := true
  /-- Where records are kept between runs; memory only if absent. -/
  directory : Option Path := none
  /-- Room for records in memory, in bytes; 0 for none. -/
  memoryBytes : Nat := 64 * 1024 * 1024
  deriving DecidableEq, Repr

end CompileCache
