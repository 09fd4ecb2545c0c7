/-
  CompileCache.Store.Directory — records kept in a directory, two files each.

  Under the key's file name, `.bin` holds the serialized record and `.meta` its
  sidecar. Each is written to `.tmp` and renamed into place, the record first, so that
  a sidecar that can be seen has its record. An entry that turns out unreadable is
  cleared and counts as a miss; an entry of another tag is left alone.
-/

import CompileCache.Disk.Plan
import CompileCache.Sidecar
import CompileCache.Store

namespace CompileCache.Store

structure Directory where
  path : Path
  deriving DecidableEq, Repr

namespace Directory

/-- A directory to keep records in, made if it is not there. -/
def create (path : Path) : Plan (Except Store.Error Directory) := do
  match ← Plan.makeDirectories path with
  | .ok _ => return .ok ⟨path⟩
  | .error e => return .error (.io path e)

def fileFor (s : Directory) (key : Key) (extension : String) : Path :=
  s.path.child (key.fileName ++ "." ++ extension)

def recordFile (s : Directory) (key : Key) : Path := s.fileFor key "bin"

def sidecarFile (s : Directory) (key : Key) : Path := s.fileFor key "meta"

/-- Shared by the two files of an entry, which are written one after the other. -/
def draftFile (s : Directory) (key : Key) : Path := s.fileFor key "tmp"

/-! ## Clearing -/

/-- Removes a file, or leaves its absence alone. -/
def discard (p : Path) : Plan Store.Done := do
  match ← Plan.unlink p with
  | .ok _ => return .ok ()
  | .error .notFound => return .ok ()
  | .error e => return .error (.io p e)

/-- Removes the record and then its sidecar; stops at the first that cannot be removed. -/
def clear (s : Directory) (key : Key) : Plan Store.Done := do
  match ← discard (s.recordFile key) with
  | .ok _ => discard (s.sidecarFile key)
  | .error e => return .error e

/-- The answer to an unreadable entry: a miss, if the entry can be cleared. -/
def missAfterClearing (s : Directory) (key : Key) : Plan Store.Found := do
  match ← s.clear key with
  | .ok _ => return .ok none
  | .error e => return .error e

/-! ## Operations -/

/-- The record of an entry whose sidecar carries the key's tag. -/
def readRecord (s : Directory) (key : Key) : Plan Store.Found := do
  match ← Plan.read (s.recordFile key) with
  | .error _ => s.missAfterClearing key
  | .ok bytes =>
    match Record.ofBytes bytes with
    | .error _ => s.missAfterClearing key
    | .ok r => if r.tag = key.tag then return .ok (some r) else s.missAfterClearing key

def get (s : Directory) (key : Key) : Plan Store.Found := do
  match ← Plan.read (s.sidecarFile key) with
  | .error .notFound => return .ok none
  | .error _ => s.missAfterClearing key
  | .ok bytes =>
    match Sidecar.parse? bytes with
    | none => s.missAfterClearing key
    | some sidecar => if sidecar.tag = key.tag then s.readRecord key else return .ok none

def evict (s : Directory) (key : Key) : Plan Store.Done := s.clear key

/-- Writes a draft and renames it; a draft that cannot be renamed is removed. -/
def replaceFile (draft target : Path) (content : Bytes) : Plan Store.Done := do
  match ← Plan.write draft content with
  | .error e => return .error (.io draft e)
  | .ok _ =>
    match ← Plan.rename draft target with
    | .ok _ => return .ok ()
    | .error e =>
      let _ ← Plan.unlink draft
      return .error (.io target e)

def sidecarOf (r : Record) (now : UInt64) : Sidecar := ⟨r.tag, UInt64.ofNat r.size, now⟩

/-- A record whose sidecar cannot be written is removed again. -/
def put (s : Directory) (key : Key) (r : Record) (now : UInt64) : Plan Store.Done := do
  match ← replaceFile (s.draftFile key) (s.recordFile key) r.toBytes with
  | .error e => return .error e
  | .ok _ =>
    let note := Bytes.ofString (sidecarOf r now).render
    match ← replaceFile (s.draftFile key) (s.sidecarFile key) note with
    | .ok _ => return .ok ()
    | .error e =>
      let _ ← Plan.unlink (s.recordFile key)
      return .error e

end Directory

end CompileCache.Store
