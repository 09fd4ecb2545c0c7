/-
  CompileCache.Body.Fixed — a body whose chunks are all at hand from the start.
-/

import CompileCache.Body

namespace CompileCache.Body

structure Fixed where
  chunks : List Bytes
  cancelled : Bool := false
  deriving DecidableEq, Repr

namespace Fixed

/-- Pieces of `size` bytes, the last one possibly shorter; a size of 0 counts as 1. -/
def pieces (size : Nat) : Bytes → List Bytes
  | [] => []
  | b :: bs => (b :: bs.take (size - 1)) :: pieces size (bs.drop (size - 1))
termination_by bs => bs.length

def cut (data : Bytes) (size : Nat) : Fixed := { chunks := pieces size data }

def offer (s : Fixed) : Offer × Fixed :=
  if s.cancelled then (.finished, s)
  else
    match s.chunks with
    | [] => (.finished, s)
    | bytes :: _ => (.chunk bytes, s)

/-- A chunk taken in part stays with what is left of it. -/
def take (s : Fixed) (count : Nat) : Taken × Fixed :=
  match s.chunks with
  | [] => (.more, s)
  | bytes :: chunks =>
    if bytes.length ≤ count then (.more, { s with chunks })
    else (.more, { s with chunks := bytes.drop count :: chunks })

def cancel (_ : Fixed) : Fixed := { chunks := [], cancelled := true }

instance : Body Fixed where
  offer := offer
  take := take
  cancel := cancel
  pending s := s.chunks.length
  pending_take_lt := by
    intro s bytes h
    unfold offer at h ⊢
    split at h
    · simp at h
    · split at h
      · simp at h
      · next c rest hc =>
        obtain rfl : c = bytes := by simpa using h
        simp [take, *]

end Fixed

end CompileCache.Body
