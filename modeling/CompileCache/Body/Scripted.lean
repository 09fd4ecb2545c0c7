/-
  CompileCache.Body.Scripted — a body that follows a script.

  Each entry says what the next read meets: a chunk, with what is said once it is taken,
  or a wait, a failure or the end. A wait is met once; any other entry stays until
  something is taken. Any finite behaviour of a body can be written down this way.
-/

import CompileCache.Body

namespace CompileCache.Body

inductive ScriptEntry where
  | chunk (bytes : Bytes)
  /-- A chunk with which the body ends. -/
  | lastChunk (bytes : Bytes)
  /-- A chunk with which the body fails. -/
  | brokenChunk (bytes : Bytes) (cause : ReadFailure)
  | wait
  | failed (cause : ReadFailure)
  | finished
  deriving DecidableEq, Repr

namespace ScriptEntry

def offer : ScriptEntry → Offer
  | chunk bytes => .chunk bytes
  | lastChunk bytes => .chunk bytes
  | brokenChunk bytes _ => .chunk bytes
  | wait => .wait
  | failed cause => .failed cause
  | finished => .finished

def taken : ScriptEntry → Taken
  | lastChunk _ => .finished
  | brokenChunk _ cause => .failed cause
  | _ => .more

end ScriptEntry

structure Scripted where
  entries : List ScriptEntry
  deriving DecidableEq, Repr

namespace Scripted

/-- The entry the next read meets; after the last one the body is at its end. -/
def next (s : Scripted) : ScriptEntry := s.entries.headD .finished

def offer (s : Scripted) : Offer × Scripted :=
  (s.next.offer, if s.next = .wait then ⟨s.entries.tail⟩ else s)

def take (s : Scripted) (_ : Nat) : Taken × Scripted := (s.next.taken, ⟨s.entries.tail⟩)

def cancel (_ : Scripted) : Scripted := ⟨[]⟩

instance : Body Scripted where
  offer := offer
  take := take
  cancel := cancel
  pending s := s.entries.length
  pending_take_lt := by
    intro s bytes h
    cases hs : s.entries with
    | nil => simp [offer, next, hs, ScriptEntry.offer] at h
    | cons e es =>
      have hw : e ≠ .wait := by
        rintro rfl
        simp [offer, next, hs, ScriptEntry.offer] at h
      simp [offer, take, next, hs, hw]

end Scripted

end CompileCache.Body
