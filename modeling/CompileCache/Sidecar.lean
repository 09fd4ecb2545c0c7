/-
  CompileCache.Sidecar — the note kept beside a record on disk.

  A sidecar says how the record beside it is tagged, how large it is and when it was
  filed, so that a question for another tag is answered without reading the record.
  It is a JSON object with the members `tag`, `size` and `cached_at`; `parse?` also
  takes an array of the three numbers in that order. An object may have further
  members, but each of the three exactly once.
-/

import CompileCache.Json

namespace CompileCache

structure Sidecar where
  tag : UInt32
  /-- Size of the serialized record. -/
  size : UInt64
  /-- When the record was filed, in seconds since 1970. -/
  filedAt : UInt64
  deriving DecidableEq, Repr

namespace Sidecar

def render (s : Sidecar) : String :=
  "\x7b\"tag\":" ++ toString s.tag ++ ",\"size\":" ++ toString s.size ++ ",\"cached_at\":" ++
    toString s.filedAt ++ "\x7d"

/-- Refuses a number that its field cannot hold. -/
def ofNumbers? (tag size filedAt : Nat) : Option Sidecar :=
  if tag < UInt32.size ∧ size < UInt64.size ∧ filedAt < UInt64.size then
    some ⟨UInt32.ofNat tag, UInt64.ofNat size, UInt64.ofNat filedAt⟩
  else none

/-- The number of the one member called `name`. -/
def number? (name : String) (members : List (String × Json.Value)) : Option Nat :=
  match members.filter fun m => m.1 == name with
  | [(_, .natural n)] => some n
  | _ => none

/-- The names are decoded, so that an escaped name is the name it stands for. -/
def ofMembers? (members : List (List Json.Piece × Json.Value)) : Option Sidecar := do
  let named ← members.mapM fun m => (Json.text? m.1).map fun name => (name, m.2)
  ofNumbers? (← number? "tag" named) (← number? "size" named) (← number? "cached_at" named)

def ofDocument? : Json.Document → Option Sidecar
  | .array [.natural tag, .natural size, .natural filedAt] => ofNumbers? tag size filedAt
  | .object members => ofMembers? members
  | _ => none

def parse? (s : Bytes) : Option Sidecar := do ofDocument? (← Json.read? s)

end Sidecar

end CompileCache
