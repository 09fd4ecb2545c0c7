/-
  CompileCache.Embedder.Queue — tasks and the queues they wait in.

  A task files a record, or leaves its label and posts further tasks. What a queued task
  will bring about is finite; its weight counts it.
-/

import CompileCache.Context
import CompileCache.Key
import CompileCache.Record

namespace CompileCache

abbrev Label := String

/-- A task to post: it leaves its label, and then posts the next ones. A poster is to post
    tasks, if only none in the end, and keeps its threads open for them. -/
inductive Posting where
  | mk (thread : Thread) (label : Label) (poster : Bool) (next : List Posting)

inductive Task where
  | file (key : Key) (record : Record)
  /-- `mayPost` names the threads it can post to. -/
  | note (label : Label) (next : List Posting) (mayPost : List Thread)

namespace Posting

def thread : Posting → Thread
  | mk thread _ _ _ => thread

/-- The task itself; only a poster can post, to the threads that whoever posts it can. -/
def task (mayPost : List Thread) : Posting → Task
  | mk _ label poster next => .note label next (if poster then mayPost else [])

mutual

/-- The task and all that comes of it. -/
def weight : Posting → Nat
  | .mk _ _ _ next => 1 + weightAll next

def weightAll : List Posting → Nat
  | [] => 0
  | p :: ps => p.weight + weightAll ps

end

end Posting

namespace Task

def weight : Task → Nat
  | file .. => 1
  | note _ next _ => 1 + Posting.weightAll next

def keepsOpen (t : Thread) : Task → Bool
  | file .. => false
  | note _ _ mayPost => mayPost.contains t

end Task

inductive Queue.Mode where
  | idle
  /-- Waited on until nobody can post any more. -/
  | awaited
  /-- Shut down; nothing can be posted. -/
  | gone
  deriving DecidableEq, Repr

structure Queue where
  /-- Oldest first. -/
  tasks : List Task := []
  mode : Queue.Mode := .idle

def Queue.weight (q : Queue) : Nat := q.tasks.foldr (fun t n => t.weight + n) 0

end CompileCache
