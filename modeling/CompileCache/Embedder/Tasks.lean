/-
  CompileCache.Embedder.Tasks — posting and running tasks.

  A queue is run either until it is idle or as one wait that ends when no task is left
  and nobody can post another. Those who can are the embedder, until it gives that up; the
  context, for its own thread and the main one; every recorder that somebody still
  holds; and queued tasks that are to post others.
-/

import CompileCache.Embedder

namespace CompileCache.Embedder

def queue (m : Embedder) : Thread → Queue
  | .main => m.mainQueue
  | .worker => m.workerQueue

def putQueue (m : Embedder) (t : Thread) (q : Queue) : Embedder :=
  match t with
  | .main => { m with mainQueue := q }
  | .worker => { m with workerQueue := q }

/-! ## Posting -/

/-- Whether the queue took the task; one that is gone loses it. -/
def post (m : Embedder) (t : Thread) (task : Task) : Bool × Embedder :=
  let q := m.queue t
  if q.mode = .gone then (false, m) else (true, m.putQueue t { q with tasks := q.tasks ++ [task] })

/-- Posts to a thread if that is one of those `mayPost` names. -/
def postAs (mayPost : List Thread) (m : Embedder) (p : Posting) : Option Bool × Embedder :=
  if mayPost.contains p.thread then
    let (taken, m) := m.post p.thread (p.task mayPost)
    (some taken, m)
  else (none, m)

def postOwn (m : Embedder) (p : Posting) : Option Bool × Embedder := m.postAs m.mayPost p

/-- The embedder gives up posting to a thread: whether it could. -/
def stopPosting (m : Embedder) (t : Thread) : Bool × Embedder :=
  (m.mayPost.contains t, { m with mayPost := m.mayPost.filter (· ≠ t) })

/-! ## Running -/

def fileRecord (m : Embedder) (key : Key) (record : Record) : Embedder :=
  match m.liveContext.bind (·.archive) with
  | none => m
  | some name =>
    match m.store? name with
    | none => m
    | some s => (m.log (.storeCall .put name key)).putStore name (Store.put s key record m.clock).2

def runTask (m : Embedder) : Task → Embedder
  | .file key record => m.fileRecord key record
  | .note label next mayPost =>
    next.foldl (fun m p =>
      let (taken, m) := m.postAs mayPost p
      m.log (.posted taken)) (m.log (.task label))

/-- Runs the tasks of a queue, those that come up meanwhile included; answers how many. -/
def runTasks (t : Thread) : (most : Nat) → Embedder → Nat × Embedder
  | 0, m => (0, m)
  | most + 1, m =>
    let q := m.queue t
    match q.tasks with
    | [] => (0, m)
    | task :: rest =>
      let (n, m) := runTasks t most ((m.putQueue t { q with tasks := rest }).runTask task)
      (n + 1, m)

/-- Every task that can come up is counted in the weight of those that are queued. -/
def drain (m : Embedder) (t : Thread) : Nat × Embedder :=
  runTasks t (m.mainQueue.weight + m.workerQueue.weight) m

/-- Runs a queue until it is idle; `none` if it is gone or waited on. -/
def runUntilIdle (m : Embedder) (t : Thread) : Option Nat × Embedder :=
  if (m.queue t).mode = .idle then
    let (n, m) := m.drain t
    (some n, m)
  else (none, m)

/-- Shuts a queue down; its tasks are lost. -/
def shutDown (m : Embedder) (t : Thread) : Embedder := m.putQueue t { mode := .gone }

/-! ## Waiting -/

/-- A compiler is held while it is current or is owed an outcome. -/
def holdsCompiler (m : Embedder) (id : CompilerId) : Bool :=
  id == m.current || m.desk.token.any (·.compiler == id) ||
    m.desk.guard.any (·.token.compiler == id) ||
    m.sessions.any fun slot => slot.session.any fun s => s.token.any (·.compiler == id)

/-- A recorder is held by the desk, by a trial or session it is wired to, and by its compiler. -/
def holdsRecorder (m : Embedder) (id : RecorderId) : Bool :=
  m.desk.recorder == some id || m.desk.trial.any (·.recorder == some id) ||
    m.sessions.any (fun slot => slot.session.isSome && slot.wiring.recorder == some id) ||
    m.compilers.zipIdx.any fun (c, n) => c.recorder == some id && m.holdsCompiler n

def isKeptOpen (m : Embedder) (t : Thread) : Bool :=
  m.mayPost.contains t || m.context.any (·.uses t) ||
    m.recorders.zipIdx.any (fun (r, n) => r.thread == t && m.holdsRecorder n) ||
    (m.mainQueue.tasks ++ m.workerQueue.tasks).any (Task.keepsOpen t)

/-- Runs what is queued, and ends the wait if nothing more can come; answers whether it has
    ended, or `none` if the queue was gone before. -/
def await (m : Embedder) (t : Thread) : Option Bool × Embedder :=
  if (m.queue t).mode = .gone then (none, m)
  else
    let (_, m) := (m.putQueue t { m.queue t with mode := .awaited }).drain t
    if m.isKeptOpen t then (some false, m) else (some true, m.shutDown t)

end CompileCache.Embedder
