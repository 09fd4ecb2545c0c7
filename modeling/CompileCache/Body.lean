/-
  CompileCache.Body — where module bytes come from, and the protocol they are read by.

  A read has two phases: a body offers its next chunk (`offer`), and the reader says how
  much of it was taken (`take`). A body with nothing ready says so, and the reader
  suspends until it is told to look again.

  A body holds finitely many chunks at any time: taking an offered chunk whole makes
  what is `pending` smaller. That is what ends a reader's loop; the loop counts nothing.
-/

import CompileCache.Bytes
import CompileCache.CompileError

namespace CompileCache

inductive Offer where
  | wait
  /-- The next chunk, which may be empty. -/
  | chunk (bytes : Bytes)
  | finished
  | failed (cause : ReadFailure)
  deriving DecidableEq, Repr

/-- What a body says once something was taken from its offer. -/
inductive Taken where
  | more
  | finished
  | failed (cause : ReadFailure)
  deriving DecidableEq, Repr

class Body (σ : Type) where
  offer : σ → Offer × σ
  /-- Takes this many bytes of the chunk last offered. -/
  take : σ → (count : Nat) → Taken × σ
  cancel : σ → σ
  pending : σ → Nat
  pending_take_lt : ∀ {s : σ} {bytes : Bytes}, (offer s).1 = .chunk bytes →
    pending (take (offer s).2 bytes.length).2 < pending s

namespace Body

variable {σ : Type} [Body σ]

/-- Takes chunk after chunk until none is ready: the chunks, and what is offered then. -/
def drain (s : σ) : List Bytes × Offer × σ :=
  match _h : (offer s).1 with
  | .chunk bytes =>
    let (chunks, last, rest) := drain (take (offer s).2 bytes.length).2
    (bytes :: chunks, last, rest)
  | last => ([], last, (offer s).2)
termination_by pending s
decreasing_by exact pending_take_lt ‹_›

end Body

end CompileCache
