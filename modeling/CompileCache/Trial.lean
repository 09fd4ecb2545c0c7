/-
  CompileCache.Trial — whether a stored artifact may be used.

  Only the digest of every wire byte can prove an artifact right, but the compiler wants
  to try it at once. So there is a trial. It starts with the first chunk that is not
  empty: the record is fetched, its shape is checked and its artifact is offered to the
  compiler. The verdict comes with the end of the body, when digests can be compared. A
  record with a flaw, found at either time, is evicted. A record on trial is also kept
  by the recorder, for as long as the compiler may read it.

  What a trial asks of others it reports as `Call`s, in order, with the answers.
-/

import CompileCache.Body
import CompileCache.Store

namespace CompileCache

inductive Phase where
  | unread
  /-- The compiler has taken the artifact, and what it is fed is being hashed. -/
  | validating
  /-- The compiler goes without. -/
  | uncached
  deriving DecidableEq, Repr

inductive Flaw where
  | tooShort
  | incompatible
  /-- The body has no digest to compare with. -/
  | unhashed
  | wrongDigest
  deriving DecidableEq, Repr

/-- What is asked, on behalf of one compilation, of its body, its store, its compiler and
    its recorder. -/
inductive Call where
  | offer (answer : Offer)
  | take (count : Nat) (answer : Taken)
  | cancelBody
  | get (key : Key) (answer : Store.Found)
  | evict (key : Key) (answer : Store.Done)
  | tryArtifact (artifact : Bytes) (taken : Bool)
  | feed (chunk : Bytes)
  | keep (record : Record)
  | letGo

structure Trial where
  key : Key
  phase : Phase := .unread
  record : Option Record := none
  flaw : Option Flaw := none
  deriving DecidableEq

namespace Trial

structure Step (τ : Type) where
  trial : Trial
  store : Option τ
  calls : List Call

variable {τ : Type} [Store τ]

/-- Lets go of the record and evicts it; whether that succeeds is nobody's concern. -/
def dismiss (t : Trial) (store : τ) (flaw : Flaw) : Step τ :=
  let (answer, store) := Store.evict store t.key
  ⟨{ t with record := none, flaw := some flaw }, some store, [.letGo, .evict t.key answer]⟩

/-- The compiler goes without the record that was found. -/
def refuse (t : Trial) (store : τ) (flaw : Flaw) : Step τ :=
  let step := t.dismiss store flaw
  { step with trial := { step.trial with phase := .uncached } }

def tryRecord (accepts : Bytes → Bool) (t : Trial) (store : τ) (record : Record) : Step τ :=
  match record.artifact? with
  | none => t.refuse store .tooShort
  | some artifact =>
    if accepts artifact then
      ⟨{ t with phase := .validating, record := some record }, some store,
        [.tryArtifact artifact true, .keep record]⟩
    else
      let step := t.refuse store .incompatible
      { step with calls := .tryArtifact artifact false :: step.calls }

/-- Begins the trial; only the first time does anything. -/
def start (accepts : Bytes → Bool) (t : Trial) (store : Option τ) : Step τ :=
  if t.phase ≠ .unread then ⟨t, store, []⟩
  else
    match store with
    | none => ⟨{ t with phase := .uncached }, none, []⟩
    | some s =>
      let (answer, s) := Store.get s t.key
      match answer with
      | .ok (some record) =>
        let step := t.tryRecord accepts s record
        { step with calls := .get t.key answer :: step.calls }
      | _ => ⟨{ t with phase := .uncached }, some s, [.get t.key answer]⟩

/-- What is wrong with a record of digest `stored`, by the digest of the body. -/
def flawBy? (stored : Digest) (computed : Option Digest) (misused : Bool) : Option Flaw :=
  match computed with
  | none => some .unhashed
  | some d => if misused then some .unhashed else if d = stored then none else some .wrongDigest

/-- Whether the artifact may be trusted. The digest is closed only if a record is on
    trial; the phase stays what it was. -/
def verdict (t : Trial) (digest : RunningDigest) (store : Option τ) :
    Bool × RunningDigest × Step τ :=
  if t.phase ≠ .validating then (false, digest, ⟨t, store, []⟩)
  else
    match t.record.bind Record.digest? with
    | none => (false, digest, ⟨t, store, []⟩)
    | some stored =>
      let (computed, digest) := digest.close
      match flawBy? stored computed digest.misused, store with
      | none, _ => (true, digest, ⟨t, store, []⟩)
      | some _, none => (false, digest, ⟨t, none, []⟩)
      | some flaw, some s => (false, digest, t.dismiss s flaw)

end Trial

end CompileCache
