/-
  CompileCache.Body.Any — a body of any of the three kinds.

  A pipe is known by a number, by which its senders find it wherever it is held.
-/

import CompileCache.Body.Fixed
import CompileCache.Body.Piped
import CompileCache.Body.Scripted

namespace CompileCache

abbrev PipeId := Nat

inductive AnyBody where
  | fixed (s : Body.Fixed)
  | piped (id : PipeId) (s : Body.Piped)
  | scripted (s : Body.Scripted)

namespace AnyBody

def offer : AnyBody → Offer × AnyBody
  | fixed s => (s.offer.1, fixed s.offer.2)
  | piped id s => (s.offer.1, piped id s.offer.2)
  | scripted s => (s.offer.1, scripted s.offer.2)

def take : AnyBody → Nat → Taken × AnyBody
  | fixed s, n => ((s.take n).1, fixed (s.take n).2)
  | piped id s, n => ((s.take n).1, piped id (s.take n).2)
  | scripted s, n => ((s.take n).1, scripted (s.take n).2)

def cancel : AnyBody → AnyBody
  | fixed s => fixed s.cancel
  | piped id s => piped id s.cancel
  | scripted s => scripted s.cancel

def pending : AnyBody → Nat
  | fixed s => Body.pending s
  | piped _ s => Body.pending s
  | scripted s => Body.pending s

instance : Body AnyBody where
  offer := offer
  take := take
  cancel := cancel
  pending := pending
  pending_take_lt := by
    intro s bytes h
    cases s with
    | fixed s => exact Body.pending_take_lt (s := s) h
    | piped id s => exact Body.pending_take_lt (s := s) h
    | scripted s => exact Body.pending_take_lt (s := s) h

def scripted? : AnyBody → Option Body.Scripted
  | scripted s => some s
  | _ => none

/-- The pipe with this number, if that is what the body is. -/
def pipe? (id : PipeId) : AnyBody → Option Body.Piped
  | piped id' s => if id' = id then some s else none
  | _ => none

/-- Does something to the pipe with this number and to no other body. -/
def onPipe (id : PipeId) (f : Body.Piped → Body.Piped) : AnyBody → AnyBody
  | piped id' s => if id' = id then piped id' (f s) else piped id' s
  | s => s

end AnyBody

end CompileCache
