/-
  CompileCache.Sha256 — SHA-256 over byte strings, in one step and incrementally.

  A message is closed by `padding`: one bit, zeros, and its length in bits, so that
  it fills whole blocks of 64 bytes. Each block is spread to 64 words (`schedule`) and
  folded into eight registers (`compress`).

  `hash` closes the whole message and folds its blocks. A `Hasher` folds blocks as
  they fill up, keeps the bytes of the block that is still open (`tail`) and counts
  the message (`total`), and closes it at the end (`finish`).
-/

import CompileCache.Bytes

namespace CompileCache.Sha256

/-- The chaining value. -/
structure Registers where
  a : UInt32
  b : UInt32
  c : UInt32
  d : UInt32
  e : UInt32
  f : UInt32
  g : UInt32
  h : UInt32
  deriving DecidableEq

namespace Registers

def initial : Registers :=
  ⟨0x6a09e667, 0xbb67ae85, 0x3c6ef372, 0xa54ff53a, 0x510e527f, 0x9b05688c, 0x1f83d9ab, 0x5be0cd19⟩

def toList (r : Registers) : List UInt32 := [r.a, r.b, r.c, r.d, r.e, r.f, r.g, r.h]

/-- Each register in four bytes, most significant first. -/
def toBytes (r : Registers) : Bytes := r.toList.flatMap fun w => Bytes.bigEndian 4 w.toNat

@[simp] theorem length_toBytes (r : Registers) : r.toBytes.length = 32 := by
  simp [toBytes, toList]

def add (r s : Registers) : Registers :=
  ⟨r.a + s.a, r.b + s.b, r.c + s.c, r.d + s.d, r.e + s.e, r.f + s.f, r.g + s.g, r.h + s.h⟩

end Registers

/-- The fractional parts of the cube roots of the first 64 primes. -/
def roundConstants : List UInt32 :=
  [0x428a2f98, 0x71374491, 0xb5c0fbcf, 0xe9b5dba5, 0x3956c25b, 0x59f111f1, 0x923f82a4, 0xab1c5ed5,
   0xd807aa98, 0x12835b01, 0x243185be, 0x550c7dc3, 0x72be5d74, 0x80deb1fe, 0x9bdc06a7, 0xc19bf174,
   0xe49b69c1, 0xefbe4786, 0x0fc19dc6, 0x240ca1cc, 0x2de92c6f, 0x4a7484aa, 0x5cb0a9dc, 0x76f988da,
   0x983e5152, 0xa831c66d, 0xb00327c8, 0xbf597fc7, 0xc6e00bf3, 0xd5a79147, 0x06ca6351, 0x14292967,
   0x27b70a85, 0x2e1b2138, 0x4d2c6dfc, 0x53380d13, 0x650a7354, 0x766a0abb, 0x81c2c92e, 0x92722c85,
   0xa2bfe8a1, 0xa81a664b, 0xc24b8b70, 0xc76c51a3, 0xd192e819, 0xd6990624, 0xf40e3585, 0x106aa070,
   0x19a4c116, 0x1e376c08, 0x2748774c, 0x34b0bcb5, 0x391c0cb3, 0x4ed8aa4a, 0x5b9cca4f, 0x682e6ff3,
   0x748f82ee, 0x78a5636f, 0x84c87814, 0x8cc70208, 0x90befffa, 0xa4506ceb, 0xbef9a3f7, 0xc67178f2]

def rotateRight (x n : UInt32) : UInt32 := (x >>> n) ||| (x <<< (32 - n))

/-- Four bytes a word, most significant first. -/
def words : Bytes → List UInt32
  | a :: b :: c :: d :: rest => UInt32.ofNat (Bytes.ofLittleEndian [d, c, b, a]) :: words rest
  | _ => []

/-- The schedule's next word, from the words so far, newest first. -/
def nextWord (newestFirst : List UInt32) : UInt32 :=
  let near := newestFirst.getD 1 0
  let far := newestFirst.getD 14 0
  let σ1 := rotateRight near 17 ^^^ rotateRight near 19 ^^^ (near >>> 10)
  let σ0 := rotateRight far 7 ^^^ rotateRight far 18 ^^^ (far >>> 3)
  σ1 + newestFirst.getD 6 0 + σ0 + newestFirst.getD 15 0

def extend : Nat → List UInt32 → List UInt32
  | 0, ws => ws
  | n + 1, ws => extend n (nextWord ws :: ws)

/-- The block's sixteen words and the 48 computed from them. -/
def schedule (block : Bytes) : List UInt32 := (extend 48 (words block).reverse).reverse

def round (r : Registers) (constant word : UInt32) : Registers :=
  let choice := (r.e &&& r.f) ^^^ (~~~r.e &&& r.g)
  let majority := (r.a &&& r.b) ^^^ (r.a &&& r.c) ^^^ (r.b &&& r.c)
  let sumE := rotateRight r.e 6 ^^^ rotateRight r.e 11 ^^^ rotateRight r.e 25
  let sumA := rotateRight r.a 2 ^^^ rotateRight r.a 13 ^^^ rotateRight r.a 22
  let mixed := r.h + sumE + choice + constant + word
  ⟨mixed + sumA + majority, r.a, r.b, r.c, r.d + mixed, r.e, r.f, r.g⟩

def rounds : List UInt32 → List UInt32 → Registers → Registers
  | constant :: constants, word :: words, r => rounds constants words (round r constant word)
  | _, _, r => r

/-- Folds one block into the registers. -/
def compress (r : Registers) (block : Bytes) : Registers :=
  r.add (rounds roundConstants (schedule block) r)

/-- Folds the first `n` blocks of 64 bytes into the registers. -/
def compressBlocks : (n : Nat) → Registers → Bytes → Registers
  | 0, r, _ => r
  | n + 1, r, bs => compressBlocks n (compress r (bs.take 64)) (bs.drop 64)

/-- What closes a message of `total` bytes. -/
def padding (total : Nat) : Bytes :=
  0x80 :: (List.replicate ((119 - total % 64) % 64) 0 ++ Bytes.bigEndian 8 (8 * total))

/-- The digest of a whole message. -/
def hash (message : Bytes) : Bytes :=
  let closed := message ++ padding message.length
  (compressBlocks (closed.length / 64) Registers.initial closed).toBytes

@[simp] theorem length_hash (message : Bytes) : (hash message).length = 32 := by
  simp [hash]

structure Hasher where
  registers : Registers
  /-- The bytes of the open block, fewer than 64. -/
  tail : Bytes
  /-- The length of the message so far. -/
  total : Nat
  deriving DecidableEq

namespace Hasher

def empty : Hasher := ⟨Registers.initial, [], 0⟩

def update (s : Hasher) (data : Bytes) : Hasher :=
  let pool := s.tail ++ data
  let blocks := pool.length / 64
  ⟨compressBlocks blocks s.registers pool, pool.drop (64 * blocks), s.total + data.length⟩

def finish (s : Hasher) : Bytes :=
  let closed := s.tail ++ padding s.total
  (compressBlocks (closed.length / 64) s.registers closed).toBytes

@[simp] theorem length_finish (s : Hasher) : s.finish.length = 32 := by
  simp [finish]

end Hasher

end CompileCache.Sha256
