/-
  CompileCache.CompileError — why a streaming compilation fails.

  A body fails with a `ReadFailure`; a response that cannot be compiled at all is
  `Unusable`. A `CompileError` is what the compiler is told, and a `Failure` says in
  addition when it is to be told nothing: the requesting context can no longer run
  script, so nobody may observe the error.
-/

import CompileCache.Text.Quoted

namespace CompileCache

/-- Failures of a body that is being read. -/
inductive ReadFailure where
  | network (detail : String)
  | stream (detail : String)
  deriving DecidableEq, Repr

def ReadFailure.message : ReadFailure → String
  | network detail => "network error: " ++ detail
  | stream detail => "body stream errored: " ++ detail

/-- The only media type a module may be served with. -/
def moduleMediaType : String := "application/wasm"

/-- What is wrong with a response, found before any byte is read. -/
inductive Unusable where
  | noResponse
  | badStatus (status : Nat)
  | badMediaType (mediaType : String)
  /-- Somebody else reads the body or has read it. -/
  | bodyTaken
  | noBody
  deriving DecidableEq, Repr

def Unusable.message : Unusable → String
  | noResponse => "an argument must be provided, which must be a Response object"
  | badStatus status => s!"HTTP status code {status} is not ok"
  | badMediaType mediaType =>
    "incorrect response MIME type " ++ Text.quote mediaType ++ ", expected '" ++ moduleMediaType ++
      "'"
  | bodyTaken => "cannot compile a module from an already read Response"
  | noBody => "empty WebAssembly module"

inductive CompileError where
  | unusable (cause : Unusable)
  | unreadable (cause : ReadFailure)
  | downloadStopped
  | withdrawn
  deriving DecidableEq, Repr

def CompileError.message : CompileError → String
  | unusable cause => cause.message
  | unreadable cause => "could not download wasm module: " ++ cause.message
  | downloadStopped => "could not download wasm module"
  | withdrawn => "the compilation was aborted"

inductive Failure where
  | visible (error : CompileError)
  /-- The compilation fails without anybody being shown an error. -/
  | silent
  deriving DecidableEq, Repr

end CompileCache
