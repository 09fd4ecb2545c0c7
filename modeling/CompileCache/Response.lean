/-
  CompileCache.Response — fetched responses, and which of them can be compiled.

  `check` finds the first thing wrong with a response, in a fixed order. `prepare` puts
  the rest together: for a live context and a usable response, the body to read, the key
  to look for and the store to use; otherwise the one failure that the compiler is told.
-/

import CompileCache.Recorder
import CompileCache.Settings
import CompileCache.CompileError

namespace CompileCache

/-- `σ` is the type of bodies. -/
structure Response (σ : Type) where
  url : String
  status : Nat := 200
  mediaType : Option String := none
  body : Option σ := none
  consumed : Bool := false
  locked : Bool := false
  store : Option StoreName := none
  /-- The cache the response itself came from. -/
  cacheName : Option String := none

namespace Response

variable {σ : Type}

def ok (r : Response σ) : Bool := 200 ≤ r.status && r.status < 300

/-- The media type in lower case; an absent one counts as empty. -/
def plainMediaType (r : Response σ) : String := (r.mediaType.getD "").map Char.toLower

def check (response : Option (Response σ)) : Except Unusable (Response σ × σ) :=
  match response with
  | none => .error .noResponse
  | some r =>
    if !r.ok then .error (.badStatus r.status)
    else if r.plainMediaType ≠ moduleMediaType then .error (.badMediaType r.plainMediaType)
    else if r.consumed || r.locked then .error .bodyTaken
    else
      match r.body with
      | none => .error .noBody
      | some body => .ok (r, body)

def describe (r : Response σ) : String :=
  Text.describe "Response"
    [("url", Text.quote r.url), ("status", toString r.status),
     ("content_type", Text.describeOption (r.mediaType.map Text.quote)),
     ("has_body", toString r.body.isSome), ("body_used", toString r.consumed),
     ("body_locked", toString r.locked), ("has_cache_store", toString r.store.isSome)]

structure Prepared (σ : Type) where
  url : String
  body : σ
  key : Key
  store : Option StoreName
  /-- What the compiler reports the module to; there is one if there is a store. -/
  recorder : Option Recorder

/-- `context` is the requesting context, if it is still live. -/
def prepare (context : Option Context) (response : Option (Response σ))
    (settings : StreamSettings) : Except Failure (Prepared σ) :=
  match context with
  | none => .error .silent
  | some context =>
    match check response with
    | .error cause => .error (.visible (.unusable cause))
    | .ok (r, body) =>
      let key := Key.ofResource settings.tag r.url context.origin r.cacheName
      let store := if settings.useCache then r.store else none
      let recorder := store.map fun _ =>
        { url := r.url, key, threshold := settings.threshold, thread := context.kind.thread }
      .ok { url := r.url, body, key, store, recorder }

end Response

end CompileCache
