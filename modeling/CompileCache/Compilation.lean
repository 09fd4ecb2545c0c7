/-
  CompileCache.Compilation — how a compilation is ended.

  A compiler is told exactly one outcome. The right to tell it is a `Token`: whoever
  spends the token, with either outcome or by letting it go, answers what is told, and
  the token is gone. Letting it go is a silent failure, so a compiler is never left
  waiting.

  A `Guard` holds a token while something may still fail. The first failure noted wins
  and is told when the guard is taken down; a guard with nothing noted hands its token on.
-/

import CompileCache.CompileError
import CompileCache.Text.Fields

namespace CompileCache

inductive Outcome where
  /-- Every byte was delivered; `trusted` says that the stored artifact may be used. -/
  | compiled (trusted : Bool)
  | failed (failure : Failure)
  deriving DecidableEq, Repr

abbrev CompilerId := Nat

structure Token where
  compiler : CompilerId
  deriving DecidableEq, Repr

namespace Token

def succeed (_ : Token) (trusted : Bool) : Outcome := .compiled trusted

def fail (_ : Token) (failure : Failure) : Outcome := .failed failure

/-- A token that nobody spends. -/
def drop (t : Token) : Outcome := t.fail .silent

/-- A token that can be looked at is unspent. -/
def describe (_ : Token) : String := Text.describe "CompletionToken" [("spent", "false")]

end Token

structure Guard where
  token : Token
  noted : Option Failure := none
  deriving DecidableEq, Repr

namespace Guard

/-- The first failure wins. -/
def note (g : Guard) (failure : Failure) : Guard := { g with noted := g.noted <|> some failure }

def noteError (g : Guard) (error : CompileError) : Guard := g.note (.visible error)

def noteSilent (g : Guard) : Guard := g.note .silent

/-- Hands the token on if nothing failed; otherwise the compiler is told the failure. -/
def handOn (g : Guard) : Except Outcome Token :=
  match g.noted with
  | some failure => .error (g.token.fail failure)
  | none => .ok g.token

/-- Takes the guard down, and the token with it. -/
def drop (g : Guard) : Outcome :=
  match g.noted with
  | some failure => g.token.fail failure
  | none => g.token.drop

end Guard

end CompileCache
