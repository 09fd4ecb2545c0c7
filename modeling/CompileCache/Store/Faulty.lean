/-
  CompileCache.Store.Faulty — a store that may be out of order.

  Each operation can be marked as failing: it then answers an error and does nothing.
-/

import CompileCache.Store.Opened

namespace CompileCache.Store

/-- Which operations fail. -/
structure Faults where
  get : Bool := false
  evict : Bool := false
  put : Bool := false
  deriving DecidableEq, Repr

structure Faulty where
  mounted : Mounted
  faults : Faults := {}

namespace Faulty

/-- Carries out an operation on what is mounted, unless it is one that fails. -/
def attempt {α : Type} (s : Faulty) (fails : Bool)
    (operation : Mounted → Except Store.Error α × Mounted) : Except Store.Error α × Faulty :=
  if fails then (.error .unavailable, s)
  else
    let (result, mounted) := operation s.mounted
    (result, { s with mounted })

instance : Store Faulty where
  get s key := s.attempt s.faults.get (Store.get · key)
  evict s key := s.attempt s.faults.evict (Store.evict · key)
  put s key r now := s.attempt s.faults.put (Store.put · key r now)

end Faulty

end CompileCache.Store
