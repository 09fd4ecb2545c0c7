/-
  CompileCache.Body.Piped — a body that is sent while it is read.

  Senders put chunks and failures at the end of a queue. The chunk being read is moved
  out of the queue and kept (`current`) until it is taken. An empty queue means waiting
  as long as a sender is left, and the end of the body after that.
-/

import CompileCache.Body

namespace CompileCache.Body

structure Piped where
  /-- What was sent and not yet read, oldest first. -/
  queue : List (Except ReadFailure Bytes)
  /-- The offered chunk, or what is left of it. -/
  current : Option Bytes
  cancelled : Bool
  /-- Senders that may still send. -/
  senders : Nat

namespace Piped

/-- A pipe with its first sender. -/
def new : Piped := ⟨[], none, false, 1⟩

/-- What a sender sends; a cancelled body takes nothing. -/
def push (s : Piped) (item : Except ReadFailure Bytes) : Piped :=
  if s.cancelled then s else { s with queue := s.queue ++ [item] }

def addSender (s : Piped) : Piped := { s with senders := s.senders + 1 }

def dropSender (s : Piped) : Piped := { s with senders := s.senders - 1 }

def offer (s : Piped) : Offer × Piped :=
  if s.cancelled then (.finished, s)
  else
    match s.current, s.queue with
    | some bytes, _ => (.chunk bytes, s)
    | none, .ok bytes :: queue => (.chunk bytes, { s with queue, current := some bytes })
    | none, .error e :: queue => (.failed e, { s with queue })
    | none, [] => (if s.senders = 0 then .finished else .wait, s)

def take (s : Piped) (count : Nat) : Taken × Piped :=
  match s.current with
  | none => (.more, s)
  | some bytes =>
    if bytes.length ≤ count then (.more, { s with current := none })
    else (.more, { s with current := some (bytes.drop count) })

/-- What was sent and not read is lost. -/
def cancel (s : Piped) : Piped := { s with queue := [], current := none, cancelled := true }

instance : Body Piped where
  offer := offer
  take := take
  cancel := cancel
  pending s := s.queue.length + if s.current.isSome then 1 else 0
  pending_take_lt := by
    intro s bytes h
    unfold offer at h ⊢
    split at h
    · simp at h
    · split at h
      · next c hc =>
        obtain rfl : c = bytes := by simpa using h
        simp [take, *]
      · next c queue hc hq =>
        obtain rfl : c = bytes := by simpa using h
        simp [take, *]
      · simp at h
      · split at h <;> simp at h

end Piped

end CompileCache.Body
