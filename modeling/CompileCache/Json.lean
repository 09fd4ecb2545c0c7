/-
  CompileCache.Json — reading JSON text one level deep.

  A reader of a few known members needs the numbers at the top of a text and has to
  step over everything else. So a `Value` is a natural number or `other`: any other
  value, checked for its form and forgotten, however deep it goes. A number counts as
  natural only when it is written in digits alone, with no sign, fraction or exponent.

  A string is read as `Piece`s, which keeps its escapes apart from its bytes. Nothing
  is decoded until `text?` asks for the characters: an ignored string may hold bytes
  and escapes that stand for no character, a member's name may not.

  A reader answers what it read and the bytes after it. Nesting is bounded by a
  budget that a text cannot exhaust (`budget`).
-/

import CompileCache.Bytes

namespace CompileCache.Json

/-! ## Bytes -/

def quoteMark : UInt8 := 0x22
def backslash : UInt8 := 0x5c
def comma : UInt8 := 0x2c
def colon : UInt8 := 0x3a
def minus : UInt8 := 0x2d
def plus : UInt8 := 0x2b
def point : UInt8 := 0x2e
def zero : UInt8 := 0x30
def openBracket : UInt8 := 0x5b
def closeBracket : UInt8 := 0x5d
def openBrace : UInt8 := 0x7b
def closeBrace : UInt8 := 0x7d

def isBlank (b : UInt8) : Bool := b == 0x20 || b == 0x09 || b == 0x0a || b == 0x0d

def isDigit (b : UInt8) : Bool := 0x30 ≤ b && b ≤ 0x39

def skipBlanks (s : Bytes) : Bytes := s.dropWhile isBlank

/-- The byte `b` after any blanks. -/
def expect? (b : UInt8) (s : Bytes) : Option Bytes :=
  match skipBlanks s with
  | [] => none
  | c :: rest => if c = b then some rest else none

/-! ## Strings -/

/-- A part of a string: a byte that stands for itself, or a code unit written `\uXXXX`. -/
inductive Piece where
  | byte (b : UInt8)
  | unit (code : Nat)
  deriving DecidableEq, Repr

def hexValue? (b : UInt8) : Option Nat :=
  if 0x30 ≤ b && b ≤ 0x39 then some (b.toNat - 0x30)
  else if 0x61 ≤ b && b ≤ 0x66 then some (b.toNat - 0x61 + 10)
  else if 0x41 ≤ b && b ≤ 0x46 then some (b.toNat - 0x41 + 10)
  else none

def codeUnit? (a b c d : UInt8) : Option Nat := do
  let w ← hexValue? a
  let x ← hexValue? b
  let y ← hexValue? c
  let z ← hexValue? d
  return ((w * 16 + x) * 16 + y) * 16 + z

/-- What a backslash and one letter stand for. -/
def shortEscape? (b : UInt8) : Option UInt8 :=
  if b = quoteMark || b = backslash || b = 0x2f then some b
  else if b = 0x62 then some 0x08
  else if b = 0x66 then some 0x0c
  else if b = 0x6e then some 0x0a
  else if b = 0x72 then some 0x0d
  else if b = 0x74 then some 0x09
  else none

/-- A string after its opening quote, up to and with its closing one. -/
def string? : Bytes → Option (List Piece × Bytes)
  | [] => none
  | b :: rest =>
    if b = quoteMark then some ([], rest)
    else if b = backslash then
      match rest with
      | [] => none
      | e :: tail =>
        if e = 0x75 then
          match tail with
          | w :: x :: y :: z :: tail => do
            let code ← codeUnit? w x y z
            let (pieces, after) ← string? tail
            return (.unit code :: pieces, after)
          | _ => none
        else do
          let c ← shortEscape? e
          let (pieces, after) ← string? tail
          return (.byte c :: pieces, after)
    else if b < 0x20 then none
    else do
      let (pieces, after) ← string? rest
      return (.byte b :: pieces, after)

def isHighSurrogate (code : Nat) : Bool := 0xd800 ≤ code && code ≤ 0xdbff

def isLowSurrogate (code : Nat) : Bool := 0xdc00 ≤ code && code ≤ 0xdfff

def encodeChar (code : Nat) : Bytes := String.utf8EncodeChar (Char.ofNat code)

/-- The character that a pair of surrogates stands for. -/
def encodePair (high low : Nat) : Bytes :=
  encodeChar (0x10000 + (high - 0xd800) * 0x400 + (low - 0xdc00))

/-- The bytes a string stands for; a surrogate must be part of a pair. -/
def flatten? : List Piece → Option Bytes
  | [] => some []
  | .byte b :: pieces => (flatten? pieces).map (b :: ·)
  | [.unit code] =>
    if isHighSurrogate code || isLowSurrogate code then none else some (encodeChar code)
  | .unit code :: next :: pieces =>
    if isLowSurrogate code then none
    else if isHighSurrogate code then
      match next with
      | .unit low =>
        if isLowSurrogate low then (flatten? pieces).map (encodePair code low ++ ·) else none
      | .byte _ => none
    else (flatten? (next :: pieces)).map (encodeChar code ++ ·)

/-- The characters a string stands for, if its bytes are UTF-8. -/
def text? (pieces : List Piece) : Option String := do
  let bytes ← flatten? pieces
  String.fromUTF8? ⟨bytes.toArray⟩

/-! ## Numbers -/

/-- One digit or more. -/
def digits? (s : Bytes) : Option (Bytes × Bytes) :=
  match s.takeWhile isDigit with
  | [] => none
  | ds => some (ds, s.dropWhile isDigit)

/-- A zero alone, or digits that do not start with one. -/
def integer? : Bytes → Option (Bytes × Bytes)
  | [] => none
  | b :: rest => if b = zero then some ([zero], rest) else digits? (b :: rest)

def natOfDigits (ds : Bytes) : Nat := ds.foldl (fun n d => 10 * n + (d.toNat - 0x30)) 0

/-- A point and digits, if there is a point. -/
def skipFraction? : Bytes → Option Bytes
  | [] => some []
  | b :: rest => if b = point then (digits? rest).map (·.2) else some (b :: rest)

def skipSign : Bytes → Bytes
  | [] => []
  | b :: rest => if b = plus || b = minus then rest else b :: rest

/-- Whether a number goes on after its integer part. -/
def goesOn : Bytes → Bool
  | [] => false
  | b :: _ => b == point || b == 0x65 || b == 0x45

/-- An `e` or `E`, a sign or none, and digits, if there is such a letter. -/
def skipExponent? : Bytes → Option Bytes
  | [] => some []
  | b :: rest =>
    if b = 0x65 || b = 0x45 then (digits? (skipSign rest)).map (·.2) else some (b :: rest)

/-! ## Values -/

inductive Value where
  | natural (n : Nat)
  | other
  deriving DecidableEq, Repr

def number? (s : Bytes) : Option (Value × Bytes) :=
  match s with
  | [] => none
  | b :: rest => do
    let (ds, after) ← integer? (if b = minus then rest else s)
    if b = minus || goesOn after then return (.other, ← skipExponent? (← skipFraction? after))
    return (.natural (natOfDigits ds), after)

def literals : List Bytes := [Bytes.ofString "true", Bytes.ofString "false", Bytes.ofString "null"]

def literal? (s : Bytes) : Option (Value × Bytes) :=
  literals.findSome? fun word =>
    if word.isPrefixOf s then some (.other, s.drop word.length) else none

mutual

/-- A value after any blanks. -/
def value? : Nat → Bytes → Option (Value × Bytes)
  | 0, _ => none
  | fuel + 1, s =>
    match skipBlanks s with
    | [] => none
    | b :: rest =>
      if b = quoteMark then (string? rest).map fun r => (.other, r.2)
      else if b = openBracket then
        match expect? closeBracket rest with
        | some after => some (.other, after)
        | none => (elements? fuel rest).map fun r => (.other, r.2)
      else if b = openBrace then
        match expect? closeBrace rest with
        | some after => some (.other, after)
        | none => (members? fuel rest).map fun r => (.other, r.2)
      else if b = minus || isDigit b then number? (b :: rest)
      else literal? (b :: rest)

/-- One element or more, up to and with the closing bracket. -/
def elements? : Nat → Bytes → Option (List Value × Bytes)
  | 0, _ => none
  | fuel + 1, s => do
    let (v, after) ← value? fuel s
    match expect? closeBracket after with
    | some rest => return ([v], rest)
    | none =>
      let (vs, rest) ← elements? fuel (← expect? comma after)
      return (v :: vs, rest)

/-- One named member or more, up to and with the closing brace. -/
def members? : Nat → Bytes → Option (List (List Piece × Value) × Bytes)
  | 0, _ => none
  | fuel + 1, s => do
    let (name, after) ← string? (← expect? quoteMark s)
    let (v, after) ← value? fuel (← expect? colon after)
    match expect? closeBrace after with
    | some rest => return ([(name, v)], rest)
    | none =>
      let (ms, rest) ← members? fuel (← expect? comma after)
      return ((name, v) :: ms, rest)

end

/-- Every second step of the readers at the latest takes a byte. -/
def budget (s : Bytes) : Nat := 2 * s.length + 2

/-! ## Texts -/

/-- The top of a text. -/
inductive Document where
  | scalar (v : Value)
  | array (elements : List Value)
  | object (members : List (List Piece × Value))
  deriving DecidableEq, Repr

/-- The value at the top, and what follows it. -/
def top? (s : Bytes) : Option (Document × Bytes) :=
  match expect? openBracket s, expect? openBrace s with
  | some rest, _ =>
    match expect? closeBracket rest with
    | some after => some (.array [], after)
    | none => (elements? (budget rest) rest).map fun r => (.array r.1, r.2)
  | none, some rest =>
    match expect? closeBrace rest with
    | some after => some (.object [], after)
    | none => (members? (budget rest) rest).map fun r => (.object r.1, r.2)
  | none, none => (value? (budget s) s).map fun r => (.scalar r.1, r.2)

/-- A whole text: one value, and nothing after it but blanks. -/
def read? (s : Bytes) : Option Document := do
  let (document, after) ← top? s
  if after.all isBlank then some document else none

end CompileCache.Json
