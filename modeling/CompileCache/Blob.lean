/-
  CompileCache.Blob — byte strings described by their parts, whose size is known
  before a byte of them is produced.

  A compiler hands over an artifact of any size, and an artifact too large for a
  record is turned away by its size alone. `Blob.size` is computed from the parts;
  `Blob.bytes` produces the bytes, and `length_bytes` says that the two agree.
-/

import CompileCache.Bytes

namespace CompileCache

inductive Blob where
  | leaf (bytes : Bytes)
  /-- One byte, many times. -/
  | fill (byte : UInt8) (count : Nat)
  | append (front back : Blob)
  deriving DecidableEq

namespace Blob

def size : Blob → Nat
  | leaf bs => bs.length
  | fill _ n => n
  | append a b => a.size + b.size

def bytes : Blob → Bytes
  | leaf bs => bs
  | fill b n => List.replicate n b
  | append a b => a.bytes ++ b.bytes

@[simp] theorem length_bytes (b : Blob) : b.bytes.length = b.size := by
  induction b with
  | leaf bs => rfl
  | fill b n => simp [bytes, size]
  | append a b iha ihb => simp [bytes, size, iha, ihb]

instance : Coe Bytes Blob := ⟨leaf⟩

end Blob

end CompileCache
