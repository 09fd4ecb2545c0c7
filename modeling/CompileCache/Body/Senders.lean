/-
  CompileCache.Body.Senders — the sending ends of pipes.

  The body at the other end is held somewhere: by a session, by a response, or by nobody
  once it was let go. `BodyHolder` says where to look for it. Senders are numbered in the
  order in which they were made; a closed one keeps its number. A pipe whose body is
  cancelled, or held by nobody, is closed to all its senders.
-/

import CompileCache.Body.Any

namespace CompileCache

class BodyHolder (α : Type) where
  bodies : α → List AnyBody
  mapBodies : (AnyBody → AnyBody) → α → α

namespace BodyHolder

variable {α : Type} [BodyHolder α]

/-- The body at the end of a pipe, if it is held. -/
def pipe? (a : α) (id : PipeId) : Option Body.Piped := (bodies a).findSome? (AnyBody.pipe? id)

def onPipe (a : α) (id : PipeId) (f : Body.Piped → Body.Piped) : α :=
  mapBodies (AnyBody.onPipe id f) a

def isOpen (a : α) (id : PipeId) : Bool :=
  match pipe? a id with
  | some p => !p.cancelled
  | none => false

end BodyHolder

instance : BodyHolder (Option AnyBody) where
  bodies := Option.toList
  mapBodies := Option.map

structure Senders where
  /-- The pipe of each sender; none for a closed one. -/
  slots : List (Option PipeId) := []
  next : PipeId := 0
  deriving DecidableEq

namespace Senders

/-- A new pipe: its body, and its first sender as the last of all. -/
def newPipe (s : Senders) : AnyBody × Senders :=
  (.piped s.next Body.Piped.new, ⟨s.slots ++ [some s.next], s.next + 1⟩)

/-- The pipe of the `i`-th sender, if it is not closed. -/
def pipeOf? (s : Senders) (i : Nat) : Option PipeId := (s.slots[i]?).join

variable {α : Type} [BodyHolder α]

/-- Sends through the `i`-th sender: whether it was taken. -/
def send (s : Senders) (a : α) (i : Nat) (item : Except ReadFailure Bytes) : Option Bool × α :=
  match s.pipeOf? i with
  | none => (none, a)
  | some id => (some (BodyHolder.isOpen a id), BodyHolder.onPipe a id (·.push item))

def isClosed? (s : Senders) (a : α) (i : Nat) : Option Bool :=
  (s.pipeOf? i).map fun id => !BodyHolder.isOpen a id

/-- Another sender of the same pipe: its number. -/
def clone (s : Senders) (a : α) (i : Nat) : Option Nat × Senders × α :=
  match s.pipeOf? i with
  | none => (none, s, a)
  | some id =>
    (some s.slots.length, { s with slots := s.slots ++ [some id] },
      BodyHolder.onPipe a id Body.Piped.addSender)

/-- Gives up the `i`-th sender: whether there was one. -/
def close (s : Senders) (a : α) (i : Nat) : Bool × Senders × α :=
  match s.pipeOf? i with
  | none => (false, s, a)
  | some id =>
    (true, { s with slots := s.slots.set i none }, BodyHolder.onPipe a id Body.Piped.dropSender)

end Senders

end CompileCache
