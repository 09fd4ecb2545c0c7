/-
  CompileCache.Digest — SHA-256 digests of wire bytes, and the digest of bytes that are
  still arriving.

  `Digest.compute` hashes bytes that are all at hand. A `RunningDigest` is added to chunk
  by chunk and closed once. Whatever is asked of it after that marks it as misused and
  yields no digest, so whoever holds it takes its stream for unverified.
-/

import CompileCache.Sha256
import CompileCache.Text.Fields

namespace CompileCache

structure Digest where
  bytes : Bytes
  size_eq : bytes.length = 32
  deriving DecidableEq

namespace Digest

/-- Bytes in a digest. -/
def size : Nat := 32

def compute (data : Bytes) : Digest := ⟨Sha256.hash data, Sha256.length_hash data⟩

/-- The digest at the front of `bs`, if `bs` is long enough to hold one. -/
def atFront? (bs : Bytes) : Option Digest :=
  if h : size ≤ bs.length then some ⟨bs.take size, by simp [size] at h ⊢; omega⟩ else none

def hex (d : Digest) : String := d.bytes.hex

def describe (d : Digest) : String := "WireDigest(" ++ d.hex ++ ")"

end Digest

structure RunningDigest where
  /-- The hash so far; none once the digest is closed. -/
  state : Option Sha256.Hasher
  /-- Bytes added before it was closed. -/
  count : Nat
  misused : Bool
  deriving DecidableEq

namespace RunningDigest

def empty : RunningDigest := ⟨some Sha256.Hasher.empty, 0, false⟩

def isClosed (r : RunningDigest) : Bool := r.state.isNone

def add (r : RunningDigest) (chunk : Bytes) : RunningDigest :=
  match r.state with
  | some h => { r with state := some (h.update chunk), count := r.count + chunk.length }
  | none => { r with misused := true }

/-- The digest of everything added, once. -/
def close (r : RunningDigest) : Option Digest × RunningDigest :=
  match r.state with
  | none => (none, { r with misused := true })
  | some h =>
    (if r.misused then none else some ⟨h.finish, h.length_finish⟩, { r with state := none })

def describe (r : RunningDigest) : String :=
  Text.describe "DigestAccumulator"
    [("bytes_seen", toString r.count), ("finished", toString r.isClosed),
     ("failed", toString r.misused)]

end RunningDigest

end CompileCache
