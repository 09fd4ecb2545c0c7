/-
  CompileCache.Disk.Plan — what an operation does to a disk, call by call.

  A plan is a computation whose only effects are calls to the disk, each chosen from the
  answers to those before it: it asks for the content of a file, or changes the disk. `run`
  makes all of them; since the calls are there one by one, a plan can also be followed up
  to any of them and left.
-/

import CompileCache.Disk

namespace CompileCache

/-- A call that changes the disk. -/
inductive Disk.Change where
  | write (p : Path) (content : Bytes)
  | rename (source target : Path)
  | unlink (p : Path)
  | makeDirectory (p : Path)
  | removeTree (p : Path)
  deriving DecidableEq, Repr

def Disk.change (d : Disk) : Disk.Change → Except OsError Disk
  | .write p content => d.write p content
  | .rename source target => d.rename source target
  | .unlink p => d.unlink p
  | .makeDirectory p => d.makeDirectory p
  | .removeTree p => d.removeTree p

inductive Plan (α : Type) where
  | done (a : α)
  | ask (p : Path) (next : Except OsError Bytes → Plan α)
  | change (c : Disk.Change) (next : Except OsError Unit → Plan α)

namespace Plan

variable {α β : Type}

def bind : Plan α → (α → Plan β) → Plan β
  | done a, f => f a
  | ask p next, f => .ask p fun answer => (next answer).bind f
  | change c next, f => .change c fun answer => (next answer).bind f

instance : Monad Plan where
  pure := done
  bind := bind

/-- What the caller of a changing call learns. -/
def outcome : Except OsError Disk → Except OsError Unit
  | .ok _ => .ok ()
  | .error e => .error e

/-- The disk after a changing call; a failed one leaves it as it was. -/
def after (d : Disk) : Except OsError Disk → Disk
  | .ok d' => d'
  | .error _ => d

def run : Plan α → Disk → α × Disk
  | done a, d => (a, d)
  | ask p next, d => (next (d.read p)).run d
  | change c next, d => (next (outcome (d.change c))).run (after d (d.change c))

@[simp] theorem run_pure (a : α) (d : Disk) : (pure a : Plan α).run d = (a, d) := rfl

@[simp] theorem run_bind (p : Plan α) (f : α → Plan β) (d : Disk) :
    (p >>= f).run d = (f (p.run d).1).run (p.run d).2 := by
  show (p.bind f).run d = _
  induction p generalizing d with
  | done a => rfl
  | ask q next ih => exact ih (d.read q) d
  | change c next ih => exact ih (outcome (d.change c)) (after d (d.change c))

/-! ## Single calls -/

def read (p : Path) : Plan (Except OsError Bytes) := .ask p .done

def write (p : Path) (content : Bytes) : Plan (Except OsError Unit) :=
  .change (.write p content) .done

def rename (source target : Path) : Plan (Except OsError Unit) :=
  .change (.rename source target) .done

def unlink (p : Path) : Plan (Except OsError Unit) := .change (.unlink p) .done

def makeDirectory (p : Path) : Plan (Except OsError Unit) := .change (.makeDirectory p) .done

def removeTree (p : Path) : Plan (Except OsError Unit) := .change (.removeTree p) .done

/-! ## Making directories -/

/-- A directory answers a read that it is one; nothing else does. -/
def isDirectory (p : Path) : Plan Bool := do
  match ← read p with
  | .error .isADirectory => return true
  | _ => return false

/-- Makes a directory. One that is there already will do. -/
def ensureDirectory (p : Path) : Plan (Except OsError Unit) := do
  match ← makeDirectory p with
  | .ok _ => return .ok ()
  | .error e => return if ← isDirectory p then .ok () else .error e

/-- Makes a directory and, if there is nothing to make it in, those above it first. -/
def ensureBelow (p : Path) : (above : List Path) → Plan (Except OsError Unit)
  | [] => ensureDirectory p
  | q :: above => do
    match ← ensureDirectory p with
    | .error .notFound =>
      match ← ensureBelow q above with
      | .ok _ => ensureDirectory p
      | .error e => return .error e
    | made => return made

def makeDirectories (p : Path) : Plan (Except OsError Unit) := ensureBelow p p.above

end Plan

end CompileCache
