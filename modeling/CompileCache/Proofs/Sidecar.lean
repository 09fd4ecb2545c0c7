/-
  CompileCache.Proofs.Sidecar — a sidecar that was written is read back.

  The three numbers are written in decimal digits. Read up to a byte that continues no
  number, such digits are the number again (`number?_repr`). A member whose name is plain
  text is read as name and number (`members?_last`, `members?_more`), and the members of a
  written sidecar are the three that a reader looks for (`parse?_render`).
-/

import CompileCache.Sidecar

namespace CompileCache

theorem Bytes.ofString_append (s t : String) :
    Bytes.ofString (s ++ t) = Bytes.ofString s ++ Bytes.ofString t := by
  simp [Bytes.ofString, String.toUTF8, String.toByteArray_append]

namespace Json

/-! ## Digits -/

/-- The byte of a decimal digit. -/
def digit (n : Nat) : UInt8 := UInt8.ofNat (0x30 + n)

theorem ofString_digitChar {n : Nat} (h : n < 10) :
    Bytes.ofString (String.ofList [n.digitChar]) = [digit n] := by
  have hall : ∀ m < 10, Bytes.ofString (String.ofList [m.digitChar]) = [digit m] := by decide
  exact hall n h

theorem isDigit_digit {n : Nat} (h : n < 10) : isDigit (digit n) := by
  have hall : ∀ m < 10, isDigit (digit m) := by decide
  exact hall n h

theorem toNat_digit {n : Nat} (h : n < 10) : (digit n).toNat - 0x30 = n := by
  have hall : ∀ m < 10, (digit m).toNat - 0x30 = m := by decide
  exact hall n h

theorem digit_ne_zero {n : Nat} (h : n < 10) (hn : n ≠ 0) : digit n ≠ zero := by
  have hall : ∀ m < 10, m ≠ 0 → digit m ≠ zero := by decide
  exact hall n h hn

theorem ofString_repr (n : Nat) : Bytes.ofString n.repr =
    if n < 10 then [digit n] else Bytes.ofString (n / 10).repr ++ [digit (n % 10)] := by
  rw [Nat.repr_eq_ofList_toDigits, Nat.toDigits_eq_if (by decide)]
  split
  · next h => exact ofString_digitChar h
  · rw [String.ofList_append, Bytes.ofString_append, ofString_digitChar (Nat.mod_lt n (by decide)),
      Nat.repr_eq_ofList_toDigits]

/-- A number is written digit after digit, the most significant first. -/
theorem repr_induction {P : Nat → Bytes → Prop} (hone : ∀ n < 10, P n [digit n])
    (hmore : ∀ n ds, 10 ≤ n → P (n / 10) ds → P n (ds ++ [digit (n % 10)])) (n : Nat) :
    P n (Bytes.ofString n.repr) := by
  induction n using Nat.strongRecOn with
  | ind n ih =>
    rw [ofString_repr]
    split
    · next h => exact hone n h
    · next h => exact hmore n _ (by omega) (ih (n / 10) (by omega))

theorem isDigit_repr (n : Nat) : ∀ b ∈ Bytes.ofString n.repr, isDigit b := by
  refine repr_induction (P := fun _ ds => ∀ b ∈ ds, isDigit b) (fun n h b hb => ?_)
    (fun n ds _ ih b hb => ?_) n
  · obtain rfl := List.mem_singleton.1 hb
    exact isDigit_digit h
  · rcases List.mem_append.1 hb with hb | hb
    · exact ih b hb
    · obtain rfl := List.mem_singleton.1 hb
      exact isDigit_digit (Nat.mod_lt n (by decide))

theorem natOfDigits_repr (n : Nat) : natOfDigits (Bytes.ofString n.repr) = n := by
  refine repr_induction (P := fun n ds => natOfDigits ds = n) (fun n h => ?_) (fun n ds _ ih => ?_) n
  · simp only [natOfDigits, List.foldl_cons, List.foldl_nil, toNat_digit h]
    omega
  · have hdigit : (digit (n % 10)).toNat - 0x30 = n % 10 := toNat_digit (Nat.mod_lt n (by decide))
    simp only [natOfDigits] at ih ⊢
    rw [List.foldl_append, ih]
    simp only [List.foldl_cons, List.foldl_nil, hdigit]
    omega

/-- Only zero starts with the digit zero, and is that digit. -/
theorem exists_repr (n : Nat) : ∃ b ds, Bytes.ofString n.repr = b :: ds ∧ (b = zero → ds = []) := by
  have hhead : ∃ b ds, Bytes.ofString n.repr = b :: ds ∧ (n ≠ 0 → b ≠ zero) := by
    refine repr_induction (P := fun n all => ∃ b ds, all = b :: ds ∧ (n ≠ 0 → b ≠ zero))
      (fun n h => ⟨digit n, [], rfl, digit_ne_zero h⟩) (fun n all hn ih => ?_) n
    obtain ⟨b, ds, rfl, hb⟩ := ih
    exact ⟨b, _, rfl, fun _ => hb (by omega)⟩
  by_cases hn : n = 0
  · subst hn
    exact ⟨zero, [], rfl, fun _ => rfl⟩
  · obtain ⟨b, ds, heq, hb⟩ := hhead
    exact ⟨b, ds, heq, fun hz => absurd hz (hb hn)⟩

/-! ## Numbers -/

/-- What follows does not continue a number. -/
def EndsNumber (rest : Bytes) : Prop := (∀ b ∈ rest.head?, isDigit b = false) ∧ goesOn rest = false

theorem endsNumber_comma (rest : Bytes) : EndsNumber (comma :: rest) := by
  refine ⟨fun b hb => ?_, rfl⟩
  cases hb
  rfl

theorem endsNumber_closeBrace (rest : Bytes) : EndsNumber (closeBrace :: rest) := by
  refine ⟨fun b hb => ?_, rfl⟩
  cases hb
  rfl

theorem takeWhile_digits {ds rest : Bytes} (hds : ∀ b ∈ ds, isDigit b)
    (hrest : ∀ b ∈ rest.head?, isDigit b = false) :
    (ds ++ rest).takeWhile isDigit = ds ∧ (ds ++ rest).dropWhile isDigit = rest := by
  induction ds with
  | nil =>
    cases rest with
    | nil => exact ⟨rfl, rfl⟩
    | cons b rest =>
      have hb := hrest b (by simp)
      simp [hb]
  | cons b ds ih =>
    have hb := hds b (List.mem_cons_self ..)
    obtain ⟨htake, hdrop⟩ := ih fun c hc => hds c (List.mem_cons_of_mem b hc)
    simp [hb, htake, hdrop]

theorem integer?_repr (n : Nat) {rest : Bytes} (hrest : EndsNumber rest) :
    integer? (Bytes.ofString n.repr ++ rest) = some (Bytes.ofString n.repr, rest) := by
  obtain ⟨htake, hdrop⟩ := takeWhile_digits (isDigit_repr n) hrest.1
  obtain ⟨b, ds, heq, hzero⟩ := exists_repr n
  rw [heq] at htake hdrop ⊢
  by_cases hb : b = zero
  · simp [integer?, hb, hzero hb]
  · simp only [List.cons_append] at htake hdrop ⊢
    simp only [integer?, hb, if_false, digits?, htake, hdrop]

/-- Digits are no other mark that a value can start with. -/
theorem mark_of_isDigit {b : UInt8} (h : isDigit b) : isBlank b = false ∧ b ≠ quoteMark ∧
    b ≠ openBracket ∧ b ≠ openBrace ∧ b ≠ minus := by
  have hall : ∀ n < 256, isDigit (UInt8.ofNat n) → isBlank (UInt8.ofNat n) = false ∧
      UInt8.ofNat n ≠ quoteMark ∧ UInt8.ofNat n ≠ openBracket ∧ UInt8.ofNat n ≠ openBrace ∧
      UInt8.ofNat n ≠ minus := by decide +kernel
  simpa using hall b.toNat b.toNat_lt (by simpa using h)

theorem number?_repr (n : Nat) {rest : Bytes} (hrest : EndsNumber rest) :
    number? (Bytes.ofString n.repr ++ rest) = some (.natural n, rest) := by
  have hinteger := integer?_repr n hrest
  have hvalue := natOfDigits_repr n
  obtain ⟨b, ds, heq, -⟩ := exists_repr n
  have hb := mark_of_isDigit (isDigit_repr n b (by simp [heq]))
  rw [heq] at hinteger hvalue ⊢
  simp only [List.cons_append] at hinteger ⊢
  simp [number?, hb, hinteger, hrest.2, hvalue]

theorem value?_repr (fuel n : Nat) {rest : Bytes} (hrest : EndsNumber rest) :
    value? (fuel + 1) (Bytes.ofString n.repr ++ rest) = some (.natural n, rest) := by
  have hnumber := number?_repr n hrest
  obtain ⟨b, ds, heq, -⟩ := exists_repr n
  have hdigit := isDigit_repr n b (by simp [heq])
  have hb := mark_of_isDigit hdigit
  rw [heq] at hnumber ⊢
  simp only [List.cons_append] at hnumber ⊢
  simp [value?, skipBlanks, hb, hdigit, hnumber]

/-! ## Members -/

/-- A byte that stands for itself in a string. -/
def isPlain (b : UInt8) : Bool := b ≠ quoteMark && b ≠ backslash && !(b < 0x20)

theorem string?_quote (rest : Bytes) : string? (quoteMark :: rest) = some ([], rest) := by
  rw [string?.eq_def]
  rfl

theorem string?_byte {b : UInt8} (h : isPlain b) {rest after : Bytes} {pieces : List Piece}
    (hrest : string? rest = some (pieces, after)) :
    string? (b :: rest) = some (.byte b :: pieces, after) := by
  simp only [isPlain, Bool.and_eq_true, decide_eq_true_eq, Bool.not_eq_true',
    decide_eq_false_iff_not] at h
  rw [string?.eq_def]
  simp [h, hrest]

theorem string?_plain {name : Bytes} (h : name.all isPlain) (rest : Bytes) :
    string? (name ++ quoteMark :: rest) = some (name.map .byte, rest) := by
  induction name with
  | nil => exact string?_quote rest
  | cons b name ih =>
    simp only [List.all_cons, Bool.and_eq_true] at h
    exact string?_byte h.1 (ih h.2)

theorem expect?_mark {b : UInt8} (h : isBlank b = false) (rest : Bytes) :
    expect? b (b :: rest) = some rest := by
  simp [expect?, skipBlanks, h]

theorem expect?_other {b c : UInt8} (h : isBlank c = false) (hne : c ≠ b) (rest : Bytes) :
    expect? b (c :: rest) = none := by
  simp [expect?, skipBlanks, h, hne]

/-- A member as it is written, its value a number. -/
def memberText (name : Bytes) (n : Nat) : Bytes :=
  quoteMark :: (name ++ quoteMark :: colon :: Bytes.ofString n.repr)

section Members

variable {name : Bytes} (hname : name.all isPlain) (fuel n : Nat) (rest : Bytes)
include hname

theorem members?_last : members? (fuel + 2) (memberText name n ++ closeBrace :: rest) =
    some ([(name.map .byte, .natural n)], rest) := by
  have hstring := string?_plain hname (colon :: (Bytes.ofString n.repr ++ closeBrace :: rest))
  have hvalue := value?_repr fuel n (endsNumber_closeBrace rest)
  simp [members?, memberText, expect?_mark (b := quoteMark) rfl, hstring,
    expect?_mark (b := colon) rfl, hvalue, expect?_mark (b := closeBrace) rfl]

theorem members?_more {members : List (List Piece × Value)} {after : Bytes}
    (hrest : members? (fuel + 1) rest = some (members, after)) :
    members? (fuel + 2) (memberText name n ++ comma :: rest) =
      some ((name.map .byte, .natural n) :: members, after) := by
  have hstring := string?_plain hname (colon :: (Bytes.ofString n.repr ++ comma :: rest))
  have hvalue := value?_repr fuel n (endsNumber_comma rest)
  rw [members?]
  simp [memberText, expect?_mark (b := quoteMark) rfl, hstring,
    expect?_mark (b := colon) rfl, hvalue, expect?_mark (b := comma) rfl,
    expect?_other (b := closeBrace) (c := comma) rfl (by decide), hrest]

end Members

end Json

namespace Sidecar

open Json

theorem ofNumbers?_toNat (s : Sidecar) :
    ofNumbers? s.tag.toNat s.size.toNat s.filedAt.toNat = some s := by
  have htag : s.tag.toNat < UInt32.size := s.tag.toNat_lt
  have hsize : s.size.toNat < UInt64.size := s.size.toNat_lt
  have hfiledAt : s.filedAt.toNat < UInt64.size := s.filedAt.toNat_lt
  simp [ofNumbers?, htag, hsize, hfiledAt]

/-- The names of the members. -/
def tagName : Bytes := Bytes.ofString "tag"

def sizeName : Bytes := Bytes.ofString "size"

def filedAtName : Bytes := Bytes.ofString "cached_at"

theorem ofString_render (s : Sidecar) : Bytes.ofString s.render =
    openBrace :: (memberText tagName s.tag.toNat ++ comma ::
      (memberText sizeName s.size.toNat ++ comma ::
        (memberText filedAtName s.filedAt.toNat ++ [closeBrace]))) := by
  have hopen : Bytes.ofString "\x7b\"tag\":" =
      openBrace :: quoteMark :: (tagName ++ [quoteMark, colon]) := by decide
  have hsize : Bytes.ofString ",\"size\":" =
      comma :: quoteMark :: (sizeName ++ [quoteMark, colon]) := by decide
  have hfiledAt : Bytes.ofString ",\"cached_at\":" =
      comma :: quoteMark :: (filedAtName ++ [quoteMark, colon]) := by decide
  have hclose : Bytes.ofString "\x7d" = [closeBrace] := by decide
  have hshow32 : toString s.tag = s.tag.toNat.repr := rfl
  have hshow64 : ∀ n : UInt64, toString n = n.toNat.repr := fun _ => rfl
  simp only [render, Bytes.ofString_append, hopen, hsize, hfiledAt, hclose, hshow32, hshow64]
  simp [memberText]

/-- The three members, as they are read. -/
def members (s : Sidecar) : List (List Piece × Value) :=
  [(tagName.map .byte, .natural s.tag.toNat), (sizeName.map .byte, .natural s.size.toNat),
    (filedAtName.map .byte, .natural s.filedAt.toNat)]

theorem read?_render (s : Sidecar) : read? (Bytes.ofString s.render) = some (.object s.members) := by
  rw [ofString_render]
  have htagName : tagName.all isPlain := by decide
  have hsizeName : sizeName.all isPlain := by decide
  have hfiledAtName : filedAtName.all isPlain := by decide
  have hlast := fun fuel => members?_last hfiledAtName fuel s.filedAt.toNat []
  have hmore := fun fuel => members?_more hsizeName (fuel + 1) s.size.toNat _ (hlast fuel)
  have hall := fun fuel => members?_more htagName (fuel + 2) s.tag.toNat _ (hmore fuel)
  have hfirst : ∃ tail, memberText tagName s.tag.toNat ++ comma ::
      (memberText sizeName s.size.toNat ++ comma ::
        (memberText filedAtName s.filedAt.toNat ++ [closeBrace])) = quoteMark :: tail := ⟨_, rfl⟩
  obtain ⟨tail, htail⟩ := hfirst
  rw [htail] at hall ⊢
  have hbudget : budget (quoteMark :: tail) = 2 * tail.length + 4 := by
    simp only [budget, List.length_cons]
    omega
  have hnoArray : expect? openBracket (openBrace :: quoteMark :: tail) = none :=
    expect?_other rfl (by decide) _
  have hmember : expect? closeBrace (quoteMark :: tail) = none := expect?_other rfl (by decide) _
  have hmembers := hall (2 * tail.length)
  rw [← hbudget] at hmembers
  have htop : top? (openBrace :: quoteMark :: tail) = some (.object s.members, []) := by
    simp only [top?, hnoArray, expect?_mark (b := openBrace) rfl, hmember, hmembers]
    rfl
  simp [read?, htop]

theorem ofMembers?_members (s : Sidecar) : ofMembers? s.members = some s := by
  have htag : text? (tagName.map .byte) = some "tag" := by decide +kernel
  have hsize : text? (sizeName.map .byte) = some "size" := by decide +kernel
  have hfiledAt : text? (filedAtName.map .byte) = some "cached_at" := by decide +kernel
  have hnumbers := ofNumbers?_toNat s
  simp [ofMembers?, members, htag, hsize, hfiledAt, number?, hnumbers]

theorem parse?_render (s : Sidecar) : parse? (Bytes.ofString s.render) = some s := by
  simp [parse?, read?_render, ofDocument?, ofMembers?_members]

end Sidecar

end CompileCache
