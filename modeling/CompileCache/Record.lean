/-
  CompileCache.Record — cache records and their serialized form.

  A record is a tag and a body; the body of a usable record is the digest of the
  wire bytes a module was compiled from, followed by the compiled artifact. The
  serialized form is

      tag, 4 bytes | length of the body, 4 bytes | body

  with both numbers least significant byte first, so a body has fewer than 2^32
  bytes. `ofBytes` checks the header and nothing more: a body too short for a digest
  is found out when the digest is asked for. `decode` asks for header and digest at
  once and undoes `encode`.
-/

import CompileCache.Blob
import CompileCache.Digest

namespace CompileCache

inductive Record.Error where
  /-- Fewer bytes than the fixed part takes. -/
  | truncated (actual required : Nat)
  /-- The length in the header is not the body's. -/
  | wrongLength (declared actual : Nat)
  /-- A length that the header cannot hold. -/
  | oversized (length : Nat)
  deriving DecidableEq, Repr

def Record.Error.message : Record.Error → String
  | truncated actual required =>
    s!"malformed cache record: {actual} bytes, need at least {required}"
  | wrongLength declared actual =>
    s!"cache record header declares {declared} body bytes but {actual} are present"
  | oversized length => s!"artifact of {length} bytes does not fit in a cache record"

structure Record where
  tag : UInt32
  body : Bytes
  fits : body.length < UInt32.size
  deriving DecidableEq

namespace Record

def moduleTag : UInt32 := 2

/-- The tag of an earlier layout, whose records are left unread. -/
def retiredTag : UInt32 := 1

def headerSize : Nat := 8

def around (tag : UInt32) (body : Blob) : Except Record.Error Record :=
  if h : body.size < UInt32.size then .ok ⟨tag, body.bytes, by simpa using h⟩
  else .error (.oversized body.size)

/-- A record of an artifact and the digest of what it was compiled from. -/
def pack (tag : UInt32) (digest : Digest) (artifact : Blob) : Except Record.Error Record :=
  if h : Digest.size + artifact.size < UInt32.size then
    .ok ⟨tag, digest.bytes ++ artifact.bytes, by simpa [digest.size_eq, Digest.size] using h⟩
  else .error (.oversized artifact.size)

def toBytes (r : Record) : Bytes :=
  Bytes.littleEndian 4 r.tag.toNat ++ Bytes.littleEndian 4 r.body.length ++ r.body

def size (r : Record) : Nat := headerSize + r.body.length

theorem length_toBytes (r : Record) : r.toBytes.length = r.size := by
  simp [toBytes, size, headerSize]
  omega

/-- The number in the four bytes at `offset`. -/
def wordAt (offset : Nat) (bs : Bytes) : Nat := Bytes.ofLittleEndian ((bs.drop offset).take 4)

theorem wordAt_lt (offset : Nat) (bs : Bytes) : wordAt offset bs < UInt32.size := by
  have h := Bytes.ofLittleEndian_lt ((bs.drop offset).take 4)
  have hl : ((bs.drop offset).take 4).length ≤ 4 := by
    rw [List.length_take]
    exact Nat.min_le_left ..
  exact Nat.lt_of_lt_of_le h (Bytes.limit_mono hl)

/-- Reads a serialized record by its header alone. -/
def ofBytes (bs : Bytes) : Except Record.Error Record :=
  if bs.length < headerSize then .error (.truncated bs.length headerSize)
  else if h : wordAt 4 bs = (bs.drop headerSize).length then
    .ok ⟨UInt32.ofNat (wordAt 0 bs), bs.drop headerSize, h ▸ wordAt_lt 4 bs⟩
  else .error (.wrongLength (wordAt 4 bs) (bs.drop headerSize).length)

/-- The digest at the front of the body. -/
def digest? (r : Record) : Option Digest := Digest.atFront? r.body

def artifact? (r : Record) : Option Bytes :=
  if Digest.size ≤ r.body.length then some (r.body.drop Digest.size) else none

def describe (r : Record) : String :=
  Text.describe "CacheRecord" [("tag", toString r.tag), ("body_len", toString r.body.length)]

/-- What the bytes of a usable record hold. -/
structure Contents where
  tag : UInt32
  digest : Digest
  payload : Bytes
  deriving DecidableEq

def encode (tag : UInt32) (digest : Digest) (payload : Blob) : Except Record.Error Bytes :=
  (pack tag digest payload).map toBytes

/-- Reads tag, digest and payload; too few bytes for them outweighs a wrong length. -/
def decode (bs : Bytes) : Except Record.Error Contents :=
  let body := bs.drop headerSize
  match Digest.atFront? body with
  | none => .error (.truncated bs.length (headerSize + Digest.size))
  | some digest =>
    if wordAt 4 bs = body.length then
      .ok ⟨UInt32.ofNat (wordAt 0 bs), digest, body.drop Digest.size⟩
    else .error (.wrongLength (wordAt 4 bs) body.length)

end Record

end CompileCache
