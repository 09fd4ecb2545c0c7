/-
  CompileCache.Key — what a record is filed and looked for under.

  A key has a scope, which names the resource, and a tag, which names the layout the
  record is read in. Stores file records by scope; a record found under a key's scope
  with another tag is a miss.

  The scope of a resource is its URL, the requesting origin and the name of the cache
  it came from, each preceded by its length, so no part runs into the next.
-/

import CompileCache.Sha256

namespace CompileCache

structure Key where
  tag : UInt32
  scope : Bytes
  deriving DecidableEq, Repr

namespace Key

/-- A text preceded by its length in bytes. -/
def counted (s : String) : Bytes :=
  Bytes.littleEndian 8 (Bytes.ofString s).length ++ Bytes.ofString s

/-- The key of a resource; an absent cache name counts as the empty one. -/
def ofResource (tag : UInt32) (url origin : String) (cacheName : Option String) : Key :=
  ⟨tag, counted url ++ counted origin ++ counted (cacheName.getD "")⟩

/-- The same resource in another layout. -/
def retag (key : Key) (tag : UInt32) : Key := { key with tag }

/-- The name records of this scope are filed under, whatever bytes the scope holds. -/
def fileName (key : Key) : String := (Sha256.hash key.scope).hex

end Key

end CompileCache
