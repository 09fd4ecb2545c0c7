/-
  CompileCache.Store.Opened — a store of any of the three kinds, and how one is opened.

  `openConfigured` decides the kind: nothing when caching is off, otherwise a
  layer in memory if it is given room and a layer on disk if it is given a directory. A
  store together with its disk (`Mounted`) is a `Store`.
-/

import CompileCache.Settings
import CompileCache.Store.Layered

namespace CompileCache.Store

inductive Opened where
  | memory (s : Memory)
  | directory (s : Directory)
  | layered (s : Layered)

namespace Opened

def get (key : Key) : Opened → Plan (Store.Found × Opened)
  | memory s => return (.ok (s.get key), memory s)
  | directory s => do return (← s.get key, directory s)
  | layered s => do
    let (found, s) ← s.get key
    return (found, layered s)

def evict (key : Key) : Opened → Plan (Store.Done × Opened)
  | memory s => return (.ok (), memory (s.evict key))
  | directory s => do return (← s.evict key, directory s)
  | layered s => do
    let (done, s) ← s.evict key
    return (done, layered s)

def put (key : Key) (r : Record) (now : UInt64) : Opened → Plan (Store.Done × Opened)
  | memory s => return (.ok (), memory (s.put key r))
  | directory s => do return (← s.put key r now, directory s)
  | layered s => do
    let (done, s) ← s.put key r now
    return (done, layered s)

/-- Does something to what is held in memory. -/
def onMemory (f : Memory → Memory) : Opened → Opened
  | memory s => memory (f s)
  | directory s => directory s
  | layered s => layered { s with memory := f s.memory }

/-- The store in memory, or the layer there. -/
def memory? : Opened → Option Memory
  | memory s => some s
  | directory _ => none
  | layered s => some s.memory

/-- The store in a directory, or the layer there. -/
def directory? : Opened → Option Directory
  | memory _ => none
  | directory s => some s
  | layered s => some s.directory

end Opened

/-! ## Opening -/

/-- Why a store was not opened. -/
inductive OpenError where
  /-- A memory store without room for a single byte was asked for. -/
  | zeroCapacity
  | store (cause : Store.Error)
  deriving DecidableEq, Repr

def OpenError.message : OpenError → String
  | zeroCapacity => "Memory store size must be greater than zero"
  | store cause => cause.message

/-- A store in a directory, with a layer over it if there is memory for one. -/
def inDirectory (memory : Option Memory) (directory : Directory) : Opened :=
  match memory with
  | none => .directory directory
  | some memory => .layered ⟨memory, directory⟩

/-- Opens what the settings describe; `none` if they leave no layer. -/
def openConfigured (upkeep : Upkeep) (c : CacheSettings) :
    Plan (Except Store.Error (Option Opened)) := do
  if !c.enabled then return .ok none
  let memory := Memory.empty? upkeep c.memoryBytes
  match c.directory with
  | none => return .ok (memory.map .memory)
  | some path => return (← Directory.create path).map fun s => some (inDirectory memory s)

/-- Which store to open. -/
inductive Spec where
  | memory (capacity : Nat)
  | directory (path : Path)
  | layered (path : Path) (capacity : Nat)
  | configured (settings : CacheSettings)
  deriving DecidableEq, Repr

namespace Spec

/-- A store in memory must have room for something. -/
def openMemory (upkeep : Upkeep) (capacity : Nat) : Except OpenError Memory :=
  match Memory.empty? upkeep capacity with
  | none => .error .zeroCapacity
  | some s => .ok s

/-- Memory, if there is any, is kept as `upkeep` says. -/
def openStore (upkeep : Upkeep) : Spec → Plan (Except OpenError (Option Opened))
  | memory capacity => return (openMemory upkeep capacity).map fun s => some (.memory s)
  | directory path =>
    return ((← Directory.create path).map fun s => some (.directory s)).mapError .store
  | layered path capacity => do
    match openMemory upkeep capacity with
    | .error e => return .error e
    | .ok m =>
      return ((← Directory.create path).map fun s => some (.layered ⟨m, s⟩)).mapError .store
  | configured settings => return (← openConfigured upkeep settings).mapError .store

/-- A store opened from settings hides which layers it has. -/
def showsLayers : Spec → Bool
  | configured _ => false
  | _ => true

end Spec

/-! ## A store and its disk -/

structure Mounted where
  store : Opened
  disk : Disk

namespace Mounted

/-- Carries out a plan of the store. -/
def perform {α : Type} (m : Mounted) (plan : Opened → Plan (α × Opened)) : α × Mounted :=
  let ((result, store), disk) := (plan m.store).run m.disk
  (result, ⟨store, disk⟩)

instance : Store Mounted where
  get m key := m.perform (Opened.get key)
  evict m key := m.perform (Opened.evict key)
  put m key r now := m.perform (Opened.put key r now)

end Mounted

end CompileCache.Store
