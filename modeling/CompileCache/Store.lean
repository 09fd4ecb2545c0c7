/-
  CompileCache.Store — what every store of records offers.

  `get` answers the record filed under the key's scope if it carries the key's tag;
  `evict` removes whatever is filed under the scope; `put` files a record there.
  A store is a value: each operation answers its result and the store after it.
  `put` is told the time, in seconds, which a store may note beside the record.
-/

import CompileCache.Disk
import CompileCache.Key
import CompileCache.Record

namespace CompileCache

/-- Why a store could not do what it was asked. -/
inductive Store.Error where
  | io (path : Path) (cause : OsError)
  | record (cause : Record.Error)
  /-- The store is out of reach. -/
  | unavailable
  deriving DecidableEq, Repr

def Store.Error.message : Store.Error → String
  | io path cause => "cache I/O error at " ++ path.text ++ ": " ++ cause.message
  | record cause => "invalid cache record: " ++ cause.message
  | unavailable => "cache unavailable"

/-- A record, a miss, or an error. -/
abbrev Store.Found := Except Store.Error (Option Record)

abbrev Store.Done := Except Store.Error Unit

class Store (τ : Type) where
  get : τ → Key → Store.Found × τ
  evict : τ → Key → Store.Done × τ
  put : τ → Key → Record → (now : UInt64) → Store.Done × τ

end CompileCache
