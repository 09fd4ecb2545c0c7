/-
  CompileCache.Text.Quoted — a text in double quotes, on one line.

  The quote and the backslash are written with a backslash, tab, line feed, carriage
  return and NUL by their letters, and every other character that is not printable by
  its number in braces. All else stands for itself, the apostrophe included.
-/

import CompileCache.Text.Printable

namespace CompileCache.Text

def backslash : Char := '\x5c'

def quoteChar (c : Char) : List Char :=
  match c with
  | '\x22' => [backslash, '\x22']
  | '\x5c' => [backslash, backslash]
  | '\t' => [backslash, 't']
  | '\n' => [backslash, 'n']
  | '\r' => [backslash, 'r']
  | '\x00' => [backslash, '0']
  | c =>
    if isPrintable c then [c]
    else [backslash, 'u', '\x7b'] ++ Nat.toDigits 16 c.toNat ++ ['\x7d']

def quote (s : String) : String := String.ofList ('\x22' :: s.toList.flatMap quoteChar ++ ['\x22'])

end CompileCache.Text
