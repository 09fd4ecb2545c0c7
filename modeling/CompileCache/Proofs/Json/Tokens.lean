/-
  CompileCache.Proofs.Json.Tokens — blanks, marks and strings are read as the grammar has them.

  Each of these ends at a byte of its own, so the reader finds the end without looking further:
  it reads one if and only if there is one, and what it leaves is what follows
  (`skipBlanks_eq_iff`, `expect?_eq_some_iff`, `string?_eq_some_iff`).

  The characters of a name are found afterwards, from the pieces. They are the ones that the
  pieces stand for (`flatten?_eq_some_iff`, `text?_eq_some_iff`), as long as every code unit has
  four hexadecimal digits, as it has in a string that was read (`Spells.lt`).
-/

import CompileCache.Proofs.Json.Grammar

namespace CompileCache.Json

/-- What holds of the bytes, one by one. -/
theorem forall_byte {P : UInt8 → Prop} (h : ∀ n < 256, P (UInt8.ofNat n)) (b : UInt8) : P b := by
  simpa using h b.toNat b.toNat_lt

/-! ## Blanks and marks -/

theorem skipBlanks_append {blanks : Bytes} (h : Blank blanks) (s : Bytes) :
    skipBlanks (blanks ++ s) = skipBlanks s := by
  induction blanks with
  | nil => rfl
  | cons b blanks ih =>
    obtain ⟨hb, hrest⟩ := List.forall_mem_cons.1 h
    show (b :: (blanks ++ s)).dropWhile isBlank = _
    rw [List.dropWhile_cons_of_pos hb]
    exact ih hrest

theorem skipBlanks_eq_iff {s rest : Bytes} {b : UInt8} : skipBlanks s = b :: rest ↔
    isBlank b = false ∧ ∃ blanks, Blank blanks ∧ s = blanks ++ b :: rest := by
  constructor
  · intro h
    induction s with
    | nil => cases h
    | cons c s ih =>
      by_cases hc : isBlank c
      · have hskip : skipBlanks (c :: s) = skipBlanks s := List.dropWhile_cons_of_pos hc
        obtain ⟨hb, blanks, hblanks, rfl⟩ := ih (hskip ▸ h)
        exact ⟨hb, c :: blanks, List.forall_mem_cons.2 ⟨hc, hblanks⟩, rfl⟩
      · have hstop : skipBlanks (c :: s) = c :: s := List.dropWhile_cons_of_neg hc
        obtain ⟨rfl, rfl⟩ := List.cons.inj (hstop.symm.trans h)
        exact ⟨by simpa using hc, [], nofun, rfl⟩
  · rintro ⟨hb, blanks, hblanks, rfl⟩
    rw [skipBlanks_append hblanks]
    simp [skipBlanks, hb]

theorem expect?_eq_some_iff {b : UInt8} (hb : isBlank b = false) {s rest : Bytes} :
    expect? b s = some rest ↔ ∃ blanks, Blank blanks ∧ s = blanks ++ b :: rest := by
  have hskip : expect? b s = some rest ↔ skipBlanks s = b :: rest := by
    unfold expect?
    cases skipBlanks s with
    | nil => simp
    | cons c tail => by_cases hc : c = b <;> simp [hc]
  rw [hskip, skipBlanks_eq_iff]
  simp [hb]

theorem expect?_append {b : UInt8} (hb : isBlank b = false) {blanks : Bytes} (h : Blank blanks)
    (rest : Bytes) : expect? b (blanks ++ b :: rest) = some rest :=
  (expect?_eq_some_iff hb).2 ⟨blanks, h, rfl⟩

theorem expect?_eq_none {b c : UInt8} (hc : isBlank c = false) (hne : c ≠ b) {blanks : Bytes}
    (h : Blank blanks) (rest : Bytes) : expect? b (blanks ++ c :: rest) = none := by
  simp only [expect?, skipBlanks_append h]
  simp [skipBlanks, hc, hne]

/-! ## Strings -/

theorem hexValue?_eq_some_iff {b : UInt8} {v : Nat} : hexValue? b = some v ↔ HexDigit b v := by
  have hread : ∀ b : UInt8, (hexValue? b).all fun v => HexDigit b v :=
    forall_byte (by decide +kernel)
  have hwritten : ∀ digits ∈ ["0123456789abcdef", "0123456789ABCDEF"], ∀ v < 16,
      (Bytes.ofString digits)[v]?.all fun b => hexValue? b = some v := by
    decide +kernel
  have hlower := hwritten "0123456789abcdef" (by simp) v
  have hupper := hwritten "0123456789ABCDEF" (by simp) v
  refine ⟨fun h => ?_, ?_⟩
  · have hdigit := hread b
    rw [h] at hdigit
    simpa using hdigit
  · rintro (h | h)
    · have hvalue := hlower (List.getElem?_eq_some_iff.1 h).1
      rw [h] at hvalue
      simpa using hvalue
    · have hvalue := hupper (List.getElem?_eq_some_iff.1 h).1
      rw [h] at hvalue
      simpa using hvalue

theorem HexDigit.lt {b : UInt8} {v : Nat} (h : HexDigit b v) : v < 16 := by
  rcases h with h | h <;> exact (List.getElem?_eq_some_iff.1 h).1

theorem shortEscape?_eq_some_iff {letter b : UInt8} :
    shortEscape? letter = some b ↔ (letter, b) ∈ shortEscapes := by
  have hread : ∀ letter : UInt8,
      (shortEscape? letter).all fun b => shortEscapes.contains (letter, b) :=
    forall_byte (by decide +kernel)
  have hwritten : shortEscapes.all fun e => shortEscape? e.1 = some e.2 := by decide +kernel
  refine ⟨fun h => ?_, fun h => by simpa using List.all_eq_true.1 hwritten (letter, b) h⟩
  have hmem := hread letter
  rw [h] at hmem
  simpa using hmem

theorem codeUnit?_eq_some_iff {w x y z : UInt8} {code : Nat} : codeUnit? w x y z = some code ↔
    ∃ a b c d, (HexDigit w a ∧ HexDigit x b ∧ HexDigit y c ∧ HexDigit z d) ∧
      code = 0x1000 * a + 0x100 * b + 0x10 * c + d := by
  simp only [codeUnit?, Option.bind_eq_bind, Option.bind_eq_some_iff, hexValue?_eq_some_iff,
    Option.pure_def, Option.some.injEq]
  constructor
  · rintro ⟨a, ha, b, hb, c, hc, d, hd, rfl⟩
    exact ⟨a, b, c, d, ⟨ha, hb, hc, hd⟩, by omega⟩
  · rintro ⟨a, b, c, d, ⟨ha, hb, hc, hd⟩, rfl⟩
    exact ⟨a, ha, b, hb, c, hc, d, hd, by omega⟩

/-- A string is read up to its closing quote. -/
theorem string?_spelled {text : Bytes} {pieces : List Piece} (h : Spells text pieces)
    (rest : Bytes) : string? (text ++ quoteMark :: rest) = some (pieces, rest) := by
  induction h with
  | nil => exact string?_quote rest
  | plain hb _ ih => exact string?_byte hb ih
  | @short letter b text pieces hmem _ ih =>
    have hletter : shortEscape? letter = some b := shortEscape?_eq_some_iff.2 hmem
    have hnotUnit : letter ≠ 0x75 := by
      rintro rfl
      cases hletter
    show string? (backslash :: letter :: (text ++ quoteMark :: rest)) = _
    rw [string?.eq_def]
    simp [show backslash ≠ quoteMark by decide, hnotUnit, hletter, ih]
  | @unit w x y z a b c d text pieces ha hb hc hd _ ih =>
    have hunit := codeUnit?_eq_some_iff.2 ⟨a, b, c, d, ⟨ha, hb, hc, hd⟩, rfl⟩
    show string? (backslash :: 0x75 :: w :: x :: y :: z :: (text ++ quoteMark :: rest)) = _
    rw [string?.eq_def]
    simp [show backslash ≠ quoteMark by decide, hunit, ih]

theorem spells_plain {name : Bytes} (h : name.all isPlain) : Spells name (name.map .byte) := by
  induction name with
  | nil => exact .nil
  | cons b name ih =>
    obtain ⟨hb, hname⟩ := Bool.and_eq_true_iff.1 h
    exact .plain hb (ih hname)

theorem spelled_of_string? {s rest : Bytes} {pieces : List Piece}
    (h : string? s = some (pieces, rest)) :
    ∃ text, Spells text pieces ∧ s = text ++ quoteMark :: rest := by
  fun_induction string? s generalizing pieces rest with
  | case2 tail =>
    cases h
    exact ⟨[], .nil, rfl⟩
  | case4 w x y z tail _ ih =>
    obtain ⟨code, hcode, ⟨pieces', after⟩, htail, h⟩ := by
      simpa only [Option.bind_eq_bind, Option.bind_eq_some_iff] using h
    cases h
    obtain ⟨a, b, c, d, ⟨ha, hb, hc, hd⟩, rfl⟩ := codeUnit?_eq_some_iff.1 hcode
    obtain ⟨text, htext, rfl⟩ := ih htail
    exact ⟨_, .unit ha hb hc hd htext, rfl⟩
  | case6 letter tail _ _ ih =>
    obtain ⟨b, hletter, ⟨pieces', after⟩, htail, h⟩ := by
      simpa only [Option.bind_eq_bind, Option.bind_eq_some_iff] using h
    cases h
    obtain ⟨text, htext, rfl⟩ := ih htail
    exact ⟨_, .short (shortEscape?_eq_some_iff.1 hletter) htext, rfl⟩
  | case8 b tail hquote hslash hcontrol ih =>
    obtain ⟨⟨pieces', after⟩, htail, h⟩ := by
      simpa only [Option.bind_eq_bind, Option.bind_eq_some_iff] using h
    cases h
    obtain ⟨text, htext, rfl⟩ := ih htail
    exact ⟨_, .plain (by simp [isPlain, hquote, hslash, hcontrol]) htext, rfl⟩
  | _ => cases h

theorem string?_eq_some_iff {s rest : Bytes} {pieces : List Piece} :
    string? s = some (pieces, rest) ↔ ∃ text, Spells text pieces ∧ s = text ++ quoteMark :: rest := by
  refine ⟨spelled_of_string?, ?_⟩
  rintro ⟨text, htext, rfl⟩
  exact string?_spelled htext rest

/-! ## What names stand for -/

theorem Spells.lt {text : Bytes} {pieces : List Piece} (h : Spells text pieces) {code : Nat}
    (hcode : .unit code ∈ pieces) : code < 0x10000 := by
  induction h with
  | nil => cases hcode
  | plain _ _ ih => exact ih (by simpa using hcode)
  | short _ _ ih => exact ih (by simpa using hcode)
  | unit ha hb hc hd _ ih =>
    rcases List.mem_cons.1 hcode with heq | hcode
    · have := ha.lt
      have := hb.lt
      have := hc.lt
      have := hd.lt
      injection heq with heq
      omega
    · exact ih hcode

theorem toNat_charOfNat {code : Nat} (h : code.isValidChar) : (Char.ofNat code).toNat = code := by
  rw [Char.ofNat, dif_pos h]
  rfl

/-- A code unit that is no surrogate is a character. -/
theorem char_of_unit {code : Nat} (h : code < 0x10000) (hhigh : isHighSurrogate code = false)
    (hlow : isLowSurrogate code = false) : (Char.ofNat code).toNat = code := by
  have hvalid : code.isValidChar := by
    simp only [isHighSurrogate, isLowSurrogate, Bool.and_eq_false_iff,
      decide_eq_false_iff_not] at hhigh hlow
    unfold Nat.isValidChar
    omega
  exact toNat_charOfNat hvalid

theorem unit_of_char (c : Char) : isHighSurrogate c.toNat = false ∧ isLowSurrogate c.toNat = false := by
  have hvalid : c.toNat.isValidChar := c.valid
  simp only [isHighSurrogate, isLowSurrogate, Bool.and_eq_false_iff, decide_eq_false_iff_not]
  unfold Nat.isValidChar at hvalid
  omega

theorem flatten?_char (c : Char) (pieces : List Piece) :
    flatten? (.unit c.toNat :: pieces) = (flatten? pieces).map (String.utf8EncodeChar c ++ ·) := by
  obtain ⟨hhigh, hlow⟩ := unit_of_char c
  cases pieces with
  | nil => simp [flatten?, hhigh, hlow, encodeChar]
  | cons next pieces => simp [flatten?, hhigh, hlow, encodeChar]

theorem flatten?_pair {high low : Nat} (hhigh : isHighSurrogate high) (hlow : isLowSurrogate low)
    (pieces : List Piece) : flatten? (.unit high :: .unit low :: pieces) =
      (flatten? pieces).map (encodePair high low ++ ·) := by
  have hnotLow : isLowSurrogate high = false := by
    simp only [isHighSurrogate, isLowSurrogate, Bool.and_eq_true, Bool.and_eq_false_iff,
      decide_eq_true_eq, decide_eq_false_iff_not] at hhigh ⊢
    omega
  simp [flatten?, hhigh, hlow, hnotLow]

/-- One code unit that is no surrogate, whatever follows it. -/
theorem StandsFor.unit {code : Nat} (hcode : code < 0x10000) (hhigh : isHighSurrogate code = false)
    (hlow : isLowSurrogate code = false) {pieces : List Piece} {bytes : Bytes}
    (h : StandsFor pieces bytes) : StandsFor (.unit code :: pieces) (encodeChar code ++ bytes) := by
  have hsame := char_of_unit hcode hhigh hlow
  have hstands := StandsFor.char (Char.ofNat code) (hsame.symm ▸ hcode) h
  rwa [hsame] at hstands

theorem StandsFor.surrogates {high low : Nat} (hhigh : isHighSurrogate high)
    (hlow : isLowSurrogate low) {pieces : List Piece} {bytes : Bytes} (h : StandsFor pieces bytes) :
    StandsFor (.unit high :: .unit low :: pieces) (encodePair high low ++ bytes) := by
  simp only [isHighSurrogate, isLowSurrogate, Bool.and_eq_true, decide_eq_true_eq] at hhigh hlow
  let code := 0x10000 + (high - 0xd800) * 0x400 + (low - 0xdc00)
  have hcode : (Char.ofNat code).toNat = code := by
    apply toNat_charOfNat
    unfold Nat.isValidChar
    omega
  have hhighUnit : 0xd800 + (code - 0x10000) / 0x400 = high := by omega
  have hlowUnit : 0xdc00 + (code - 0x10000) % 0x400 = low := by omega
  have hstands := StandsFor.pair (Char.ofNat code) (by omega) h
  rwa [hcode, hhighUnit, hlowUnit] at hstands

theorem standsFor_of_flatten? {pieces : List Piece} {bytes : Bytes}
    (hunits : ∀ code, .unit code ∈ pieces → code < 0x10000) (h : flatten? pieces = some bytes) :
    StandsFor pieces bytes := by
  fun_induction flatten? pieces generalizing bytes with
  | case1 =>
    cases h
    exact .nil
  | case2 b pieces ih =>
    obtain ⟨tail, htail, rfl⟩ := Option.map_eq_some_iff.1 h
    exact .byte b (ih (fun code hcode => hunits code (List.mem_cons_of_mem _ hcode)) htail)
  | case4 code hnot =>
    cases h
    simp only [Bool.or_eq_true, not_or, Bool.not_eq_true] at hnot
    have hstands := StandsFor.unit (hunits code (by simp)) hnot.1 hnot.2 .nil
    rwa [List.append_nil] at hstands
  | case6 high pieces _ hhigh low hlow ih =>
    obtain ⟨tail, htail, rfl⟩ := Option.map_eq_some_iff.1 h
    exact .surrogates hhigh hlow (ih (fun code hcode => hunits code (by simp [hcode])) htail)
  | case9 code next pieces hlow hhigh ih =>
    obtain ⟨tail, htail, rfl⟩ := Option.map_eq_some_iff.1 h
    have hrest := ih (fun code hcode => hunits code (List.mem_cons_of_mem _ hcode)) htail
    exact .unit (hunits code (by simp)) (by simpa using hhigh) (by simpa using hlow) hrest
  | _ => cases h

theorem flatten?_eq_some_iff {pieces : List Piece} {bytes : Bytes}
    (hunits : ∀ code, .unit code ∈ pieces → code < 0x10000) :
    flatten? pieces = some bytes ↔ StandsFor pieces bytes := by
  refine ⟨standsFor_of_flatten? hunits, fun h => ?_⟩
  clear hunits
  induction h with
  | nil => rfl
  | byte b _ ih => simp [flatten?, ih]
  | char c _ _ ih => simp [flatten?_char, ih]
  | pair c hlarge _ ih =>
    have hvalid : c.toNat.isValidChar := c.valid
    have hhigh : isHighSurrogate (0xd800 + (c.toNat - 0x10000) / 0x400) := by
      unfold Nat.isValidChar at hvalid
      simp only [isHighSurrogate, Bool.and_eq_true, decide_eq_true_eq]
      omega
    have hlow : isLowSurrogate (0xdc00 + (c.toNat - 0x10000) % 0x400) := by
      simp only [isLowSurrogate, Bool.and_eq_true, decide_eq_true_eq]
      omega
    have hcode : 0x10000 + (c.toNat - 0x10000) / 0x400 * 0x400 + (c.toNat - 0x10000) % 0x400 =
        c.toNat := by
      omega
    rw [flatten?_pair hhigh hlow, ih]
    simp only [Option.map_some, encodePair, encodeChar, Nat.add_sub_cancel_left, hcode,
      Char.ofNat_toNat]

theorem fromUTF8?_eq_some_iff {bytes : Bytes} {name : String} :
    String.fromUTF8? ⟨bytes.toArray⟩ = some name ↔ bytes = Bytes.ofString name := by
  unfold String.fromUTF8? Bytes.ofString
  constructor
  · intro h
    split at h
    · next hvalid =>
      cases h
      rfl
    · cases h
  · rintro rfl
    have hsame : (⟨name.toUTF8.data.toList.toArray⟩ : ByteArray) = name.toUTF8 := rfl
    rw [hsame]
    exact dif_pos name.isValidUTF8

theorem text?_eq_some_iff {pieces : List Piece} {name : String}
    (hunits : ∀ code, .unit code ∈ pieces → code < 0x10000) :
    text? pieces = some name ↔ StandsFor pieces (Bytes.ofString name) := by
  rw [← flatten?_eq_some_iff hunits]
  simp only [text?, Option.bind_eq_bind, Option.bind_eq_some_iff, fromUTF8?_eq_some_iff]
  exact ⟨fun ⟨_, hbytes, heq⟩ => heq ▸ hbytes, fun h => ⟨_, h, rfl⟩⟩

end CompileCache.Json
