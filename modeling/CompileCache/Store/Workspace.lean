/-
  CompileCache.Store.Workspace — a disk, the store opened on it, and what others do to
  the disk behind the store's back.

  Reopening forgets what the store held in memory and keeps the disk. While no store
  is open, operations of the store have no answer. The layers of a layered store can be
  addressed one at a time, unless the store was opened from settings, which hide them.
-/

import CompileCache.Store.Opened

namespace CompileCache.Store

/-- The part of a layered store that an operation is meant for. -/
inductive Layer where
  | whole
  | memory
  | directory
  deriving DecidableEq, Repr

namespace Opened

/-- The layer as a store of its own; other stores have no layers. -/
def part (layer : Layer) : Opened → Opened
  | layered s =>
    match layer with
    | .whole => layered s
    | .memory => memory s.memory
    | .directory => directory s.directory
  | s => s

/-- Puts a layer, or the whole, back in its place. -/
def putPart : (whole part : Opened) → Opened
  | layered s, memory m => layered { s with memory := m }
  | layered s, directory d => layered { s with directory := d }
  | _, part => part

end Opened

structure Workspace where
  disk : Disk
  opened : Option Opened
  /-- Whether the open store's layers can be addressed. -/
  layersShown : Bool
  /-- The time, in seconds since 1970. -/
  clock : UInt64
  /-- How the memory of a store is kept that is opened here. -/
  upkeep : Upkeep

namespace Workspace

def new (disk : Disk) (clock : UInt64) (upkeep : Upkeep) : Workspace :=
  ⟨disk, none, true, clock, upkeep⟩

/-- Whether there is a store afterwards. -/
def reopen (w : Workspace) (spec : Spec) : Except OpenError Bool × Workspace :=
  match (spec.openStore w.upkeep).run w.disk with
  | (.ok s, disk) => (.ok s.isSome, { w with disk, opened := s, layersShown := spec.showsLayers })
  | (.error e, disk) => (.error e, { w with disk, opened := none, layersShown := spec.showsLayers })

def perform {α : Type} (w : Workspace) (layer : Layer) (plan : Opened → Plan (α × Opened)) :
    Option α × Workspace :=
  match w.opened with
  | none => (none, w)
  | some s =>
    let part := s.part (if w.layersShown then layer else .whole)
    let ((result, part), disk) := (plan part).run w.disk
    (some result, { w with disk, opened := some (s.putPart part) })

def get (w : Workspace) (layer : Layer) (key : Key) : Option Store.Found × Workspace :=
  w.perform layer (Opened.get key)

def evict (w : Workspace) (layer : Layer) (key : Key) : Option Store.Done × Workspace :=
  w.perform layer (Opened.evict key)

def put (w : Workspace) (layer : Layer) (key : Key) (r : Record) : Option Store.Done × Workspace :=
  w.perform layer (Opened.put key r w.clock)

/-- The open store, if its layers can be looked at. -/
def shown (w : Workspace) : Option Opened := if w.layersShown then w.opened else none

def memory? (w : Workspace) : Option Memory := w.shown.bind Opened.memory?

def path? (w : Workspace) : Option Path := (w.shown.bind Opened.directory?).map (·.path)

def interfere {α : Type} (w : Workspace) (plan : Plan α) : α × Workspace :=
  let (result, disk) := plan.run w.disk
  (result, { w with disk })

end Workspace

end CompileCache.Store
