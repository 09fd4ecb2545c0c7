/-
  CompileCache.Proofs.Json.Grammar — what a JSON text is, said without a reader.

  Tokens are byte strings: the text of a string with the pieces it spells (`Spells`), a number
  (`IsNumber`), a literal. Blanks may stand around every token: `Padded`. A value is a token, or
  a list of values or of named values between brackets, of any depth (`IsValue`). Nothing that
  is only stepped over needs to stand for anything: the pieces of a string may be half a
  character or no UTF-8, and a number may have any size.

  What the pieces of a name stand for is said apart (`StandsFor`), from the characters: one of up
  to sixteen bits may be written as a code unit, a larger one as a pair of surrogates.
-/

import CompileCache.Proofs.Sidecar

namespace CompileCache.Json

def Blank (s : Bytes) : Prop := ∀ b ∈ s, isBlank b

instance : DecidablePred Blank := fun s => decidable_of_iff (s.all isBlank) List.all_eq_true

/-! ## Strings -/

def HexDigit (b : UInt8) (value : Nat) : Prop :=
  (Bytes.ofString "0123456789abcdef")[value]? = some b ∨
    (Bytes.ofString "0123456789ABCDEF")[value]? = some b

instance (b : UInt8) (value : Nat) : Decidable (HexDigit b value) :=
  inferInstanceAs (Decidable (_ ∨ _))

/-- What may follow a backslash, and the byte it stands for there. -/
def shortEscapes : List (UInt8 × UInt8) :=
  [(0x22, 0x22), (0x5c, 0x5c), (0x2f, 0x2f), (0x62, 0x08), (0x66, 0x0c), (0x6e, 0x0a),
   (0x72, 0x0d), (0x74, 0x09)]

/-- A text between quotes, and its pieces. -/
inductive Spells : Bytes → List Piece → Prop
  | nil : Spells [] []
  | plain {b : UInt8} {text : Bytes} {pieces : List Piece} : isPlain b → Spells text pieces →
      Spells (b :: text) (.byte b :: pieces)
  | short {letter b : UInt8} {text : Bytes} {pieces : List Piece} :
      (letter, b) ∈ shortEscapes → Spells text pieces →
      Spells (backslash :: letter :: text) (.byte b :: pieces)
  | unit {w x y z : UInt8} {a b c d : Nat} {text : Bytes} {pieces : List Piece} :
      HexDigit w a → HexDigit x b → HexDigit y c → HexDigit z d → Spells text pieces →
      Spells (backslash :: 0x75 :: w :: x :: y :: z :: text)
        (.unit (0x1000 * a + 0x100 * b + 0x10 * c + d) :: pieces)

def Quoted (s : Bytes) (pieces : List Piece) : Prop :=
  ∃ text, Spells text pieces ∧ s = quoteMark :: (text ++ [quoteMark])

/-- The bytes that pieces stand for, if every code unit is a character or half of one. -/
inductive StandsFor : List Piece → Bytes → Prop
  | nil : StandsFor [] []
  | byte (b : UInt8) {pieces : List Piece} {bytes : Bytes} : StandsFor pieces bytes →
      StandsFor (.byte b :: pieces) (b :: bytes)
  | char (c : Char) {pieces : List Piece} {bytes : Bytes} : c.toNat < 0x10000 →
      StandsFor pieces bytes →
      StandsFor (.unit c.toNat :: pieces) (String.utf8EncodeChar c ++ bytes)
  | pair (c : Char) {pieces : List Piece} {bytes : Bytes} : 0x10000 ≤ c.toNat →
      StandsFor pieces bytes →
      StandsFor (.unit (0xd800 + (c.toNat - 0x10000) / 0x400) ::
        .unit (0xdc00 + (c.toNat - 0x10000) % 0x400) :: pieces)
        (String.utf8EncodeChar c ++ bytes)

/-! ## Numbers -/

def IsDigits (s : Bytes) : Prop := s ≠ [] ∧ ∀ b ∈ s, isDigit b

/-- A zero alone, or digits that do not start with one. -/
def IsInteger (s : Bytes) : Prop := s = [zero] ∨ IsDigits s ∧ s.head? ≠ some zero

def IsFraction (s : Bytes) : Prop := s = [] ∨ ∃ ds, IsDigits ds ∧ s = point :: ds

def IsExponent (s : Bytes) : Prop :=
  s = [] ∨ ∃ e ∈ [0x65, 0x45], ∃ sign ∈ [[], [plus], [minus]], ∃ ds, IsDigits ds ∧
    s = e :: (sign ++ ds)

def IsNumber (s : Bytes) : Prop :=
  ∃ sign ∈ [[], [minus]], ∃ integer fraction exponent, IsInteger integer ∧
    IsFraction fraction ∧ IsExponent exponent ∧ s = sign ++ (integer ++ (fraction ++ exponent))

/-! ## Values -/

/-- A token or a value, with the blanks around it. -/
structure Padded where
  before : Bytes
  core : Bytes
  after : Bytes
  blank_before : Blank before
  blank_after : Blank after

def Padded.text (p : Padded) : Bytes := p.before ++ (p.core ++ p.after)

structure Member where
  name : Padded
  pieces : List Piece
  quoted : Quoted name.core pieces
  value : Padded

def Member.text (m : Member) : Bytes := m.name.text ++ colon :: m.value.text

/-- One item or more with commas between them, and the byte `close`. -/
inductive Items {β : Type} (close : UInt8) (text : β → Bytes) : List β → Bytes → Prop
  | last (item : β) : Items close text [item] (text item ++ [close])
  | more (item : β) {items : List β} {s : Bytes} : Items close text items s →
      Items close text (item :: items) (text item ++ comma :: s)

/-- Any number of items, and the byte `close`. -/
inductive Listed {β : Type} (close : UInt8) (text : β → Bytes) : List β → Bytes → Prop
  | blank {blanks : Bytes} : Blank blanks → Listed close text [] (blanks ++ [close])
  | items {items : List β} {s : Bytes} : Items close text items s → Listed close text items s

inductive IsValue : Bytes → Prop
  | literal {word : Bytes} : word ∈ literals → IsValue word
  | number {s : Bytes} : IsNumber s → IsValue s
  | string {s : Bytes} {pieces : List Piece} : Quoted s pieces → IsValue s
  | array {elements : List Padded} {s : Bytes} : Listed closeBracket Padded.text elements s →
      (∀ e ∈ elements, IsValue e.core) → IsValue (openBracket :: s)
  | object {members : List Member} {s : Bytes} : Listed closeBrace Member.text members s →
      (∀ m ∈ members, IsValue m.value.core) → IsValue (openBrace :: s)

/-- The text of an array with these elements. -/
def IsArray (core : Bytes) (elements : List Padded) : Prop :=
  ∃ s, core = openBracket :: s ∧ Listed closeBracket Padded.text elements s ∧
    ∀ e ∈ elements, IsValue e.core

/-- The text of an object with these members. -/
def IsObject (core : Bytes) (members : List Member) : Prop :=
  ∃ s, core = openBrace :: s ∧ Listed closeBrace Member.text members s ∧
    ∀ m ∈ members, IsValue m.value.core

/-- A member of this name. -/
def Member.Named (m : Member) (name : String) : Prop := StandsFor m.pieces (Bytes.ofString name)

end CompileCache.Json
