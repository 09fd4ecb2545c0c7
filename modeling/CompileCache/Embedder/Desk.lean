/-
  CompileCache.Embedder.Desk — tokens, guards, recorders and trials used by hand.

  Each place on the desk holds one thing. What takes the place of a token or a guard is
  there before the old one is let go, and letting go of either tells the compiler.
-/

import CompileCache.Embedder.Streaming

namespace CompileCache.Embedder

def onDesk (m : Embedder) (f : Desk → Desk) : Embedder := { m with desk := f m.desk }

/-! ## Tokens -/

def dropToken (m : Embedder) : Option Token → Embedder
  | some t => m.tell t.compiler t.drop
  | none => m

def newToken (m : Embedder) : Token × Embedder :=
  let t : Token := ⟨m.current⟩
  (t, (m.onDesk fun d => { d with token := some t }).dropToken m.desk.token)

/-- Takes the token off the desk and spends it: whether there was one. -/
def spendToken (m : Embedder) (spend : Token → Outcome) : Bool × Embedder :=
  match m.desk.token with
  | none => (false, m)
  | some t => (true, (m.onDesk fun d => { d with token := none }).tell t.compiler (spend t))

/-- Feeds the compiler of the token: whether there is one. -/
def feedToken (m : Embedder) (chunk : Bytes) : Bool × Embedder :=
  match m.desk.token with
  | none => (false, m)
  | some t => (true, m.feed t.compiler chunk)

/-! ## Guards -/

def letGoOfGuard (m : Embedder) : Option Guard → Embedder
  | some g => m.tell g.token.compiler g.drop
  | none => m

/-- Moves the token from its place into a guard. -/
def newGuard (m : Embedder) : Embedder :=
  let guard := m.desk.token.map fun token => ({ token } : Guard)
  (m.onDesk fun d => { d with token := none, guard }).letGoOfGuard m.desk.guard

def onGuard (m : Embedder) (f : Guard → Guard) : Embedder :=
  m.onDesk fun d => { d with guard := d.guard.map f }

/-- Takes the guard down and puts what it hands on in the token's place. -/
def releaseGuard (m : Embedder) : Embedder :=
  match m.desk.guard with
  | none => m
  | some g =>
    let old := m.desk.token
    let m := m.onDesk fun d => { d with guard := none }
    match g.handOn with
    | .ok t => (m.onDesk fun d => { d with token := some t }).dropToken old
    | .error outcome =>
      ((m.tell g.token.compiler outcome).onDesk fun d => { d with token := none }).dropToken old

/-- Takes the guard down: whether there was one. -/
def dropGuard (m : Embedder) : Bool × Embedder :=
  (m.desk.guard.isSome, (m.onDesk fun d => { d with guard := none }).letGoOfGuard m.desk.guard)

/-! ## Recorders -/

def recorder? (m : Embedder) : Option Recorder := m.desk.recorder.bind (m.recorders[·]?)

def placeRecorder (m : Embedder) (id : Option RecorderId) : Embedder :=
  m.onDesk fun d => { d with recorder := id }

/-- Where a recorder made by hand files: on the thread that is asked for, if the embedder
    can post to it, or else where the context lives. -/
def threadFor? (m : Embedder) (asked : Option Thread) : Option Thread :=
  match asked with
  | some t => if m.mayPost.contains t then some t else none
  | none => m.context.map (·.kind.thread)

/-- A recorder made by hand; `none` if there is no thread for it. -/
def newRecorder (m : Embedder) (url : String) (key : Key) (threshold : Nat)
    (asked : Option Thread) : Option Embedder :=
  (m.threadFor? asked).map fun thread =>
    let (id, m) := m.addRecorder { url, key, threshold, thread }
    m.placeRecorder (some id)

/-- Lays the current compiler's recorder on the desk too; the compiler keeps it. -/
def shareRecorder (m : Embedder) : Embedder :=
  m.placeRecorder ((m.compilers[m.current]?).bind (·.recorder))

def reportByHand (m : Embedder) (module : CompiledModule) : Option Recorder.Answer × Embedder :=
  match m.recorder? with
  | none => (none, m)
  | some r =>
    let (answer, m) := m.record r module
    (some answer, m)

/-! ## Trials -/

def newTrial (m : Embedder) (key : Key) (store : Option StoreName) (recorder : Option RecorderId) :
    Embedder :=
  m.onDesk fun d =>
    { d with trial := some ⟨{ key }, store, recorder⟩, digest := RunningDigest.empty }

/-- Puts back what a step of the trial leaves, and lets its calls reach their receivers. -/
def settle (m : Embedder) (held : HeldTrial) (step : Trial.Step Store.Faulty) : Embedder :=
  let m := m.onDesk fun d => { d with trial := some { held with trial := step.trial } }
  (m.putWiredStore held.store step.store).carryAll ⟨m.current, held.store, held.recorder⟩ none
    step.calls

/-- Starts the trial, with the current compiler to offer the artifact to. -/
def startTrial (m : Embedder) : Option Phase × Embedder :=
  match m.desk.trial with
  | none => (none, m)
  | some held =>
    let step := held.trial.start (m.accepts m.current) (m.wiredStore? held.store)
    (some step.trial.phase, m.settle held step)

/-- The verdict, by the digest on the desk. -/
def verdict (m : Embedder) : Option Bool × Embedder :=
  match m.desk.trial with
  | none => (none, m)
  | some held =>
    let (trusted, digest, step) := held.trial.verdict m.desk.digest (m.wiredStore? held.store)
    (some trusted, (m.settle held step).onDesk fun d => { d with digest })

def addToDigest (m : Embedder) (chunk : Bytes) : Embedder :=
  m.onDesk fun d => { d with digest := d.digest.add chunk }

def closeDigest (m : Embedder) : Option Digest × Embedder :=
  let (digest, running) := m.desk.digest.close
  (digest, m.onDesk fun d => { d with digest := running })

end CompileCache.Embedder
