/-
  CompileCache.Embedder.Request — what can be asked of a session, and who is told how it
  ended.

  A sink and a compiler are programs: told an outcome, they make requests of a session
  before they return. A request may hand over another sink with a program of its own.
-/

import CompileCache.Body.Any

namespace CompileCache

mutual

inductive Request where
  /-- Only the state is looked at. -/
  | look
  | resume
  | cancel
  | withdraw
  | start (body : AnyBody) (sink : Sink)

inductive Sink where
  | ignore
  /-- Takes note of the outcome, and then makes these requests. -/
  | notify (program : List Request)

end

/-- A request without what it hands over. -/
inductive Request.Kind where
  | look
  | resume
  | cancel
  | withdraw
  | start
  deriving DecidableEq, Repr

def Request.kind : Request → Request.Kind
  | look => .look
  | resume => .resume
  | cancel => .cancel
  | withdraw => .withdraw
  | start .. => .start

end CompileCache
