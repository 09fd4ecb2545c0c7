/-
  CompileCache.Proofs.Json.Reading — values and texts are read as the grammar has them.

  Elements and members are both read as items between commas (`items?`, `list?`), and both
  directions are shown once for items, from what holds of one item: `list?_append` from
  `ReadsItem`, `of_list?` from `TakesItem`.

  Every value of the grammar is read whole, by induction on the value (`readWhole`). Every step
  into a value spends one of the budget, and so does every comma, while each of them is a byte:
  twice the length is always enough. What the reader takes for a value is one, by induction on
  the budget (`of_value?`).

  So a text is read as an array, or as an object, if and only if it is the text of one with
  nothing but blanks around it (`read?_array_iff`, `read?_object_iff`). The values are known
  only as `valueOf` their text.
-/

import CompileCache.Proofs.Json.Scalars

namespace CompileCache.Json

/-! ## Items between commas -/

section Items

variable {α β : Type}

/-- One item or more, up to and with the byte `close`. -/
def items? (close : UInt8) (item? : Nat → Bytes → Option (α × Bytes)) :
    Nat → Bytes → Option (List α × Bytes)
  | 0, _ => none
  | fuel + 1, s => do
    let (x, after) ← item? fuel s
    match expect? close after with
    | some rest => return ([x], rest)
    | none =>
      let (xs, rest) ← items? close item? fuel (← expect? comma after)
      return (x :: xs, rest)

/-- Any number of items. -/
def list? (close : UInt8) (item? : Nat → Bytes → Option (α × Bytes)) (fuel : Nat) (s : Bytes) :
    Option (List α × Bytes) :=
  match expect? close s with
  | some after => some ([], after)
  | none => items? close item? fuel s

theorem elements?_eq (fuel : Nat) (s : Bytes) :
    elements? fuel s = items? closeBracket value? fuel s := by
  induction fuel generalizing s with
  | zero => rfl
  | succ fuel ih =>
    simp only [elements?, items?, Option.bind_eq_bind]
    refine Option.bind_congr fun r _ => ?_
    cases expect? closeBracket r.2 with
    | some rest => rfl
    | none => simp only [ih]

/-- A name, a colon and a value. -/
def member? (fuel : Nat) (s : Bytes) : Option ((List Piece × Value) × Bytes) := do
  let (name, after) ← string? (← expect? quoteMark s)
  let (v, rest) ← value? fuel (← expect? colon after)
  return ((name, v), rest)

theorem members?_eq (fuel : Nat) (s : Bytes) :
    members? fuel s = items? closeBrace member? fuel s := by
  induction fuel generalizing s with
  | zero => rfl
  | succ fuel ih =>
    simp only [members?, items?, member?, Option.bind_eq_bind, Option.bind_assoc, Option.pure_def,
      Option.bind_some]
    refine Option.bind_congr fun quoted _ => Option.bind_congr fun name _ =>
      Option.bind_congr fun afterColon _ => Option.bind_congr fun r _ => ?_
    cases expect? closeBrace r.2 with
    | some rest => rfl
    | none => simp only [ih]

/-- In front of a comma or of `close` the text is read as `x`, but for the blanks after it, on a
    budget that its length bounds; and what it starts with is not taken for `close`. -/
structure ReadsItem (close : UInt8) (item? : Nat → Bytes → Option (α × Bytes)) (text : Bytes)
    (x : α) : Prop where
  read : ∀ fuel, 2 * text.length ≤ fuel → ∀ mark ∈ [comma, close], ∀ rest, ∃ blanks,
    Blank blanks ∧ item? fuel (text ++ mark :: rest) = some (x, blanks ++ mark :: rest)
  starts : ∀ rest, expect? close (text ++ rest) = none

variable {close : UInt8} (hblank : isBlank close = false)
  {item? : Nat → Bytes → Option (α × Bytes)} {text : β → Bytes} {value : β → α}
include hblank

theorem items?_append (hcomma : close ≠ comma) {ys : List β} {s : Bytes}
    (h : Items close text ys s) (hitem : ∀ y ∈ ys, ReadsItem close item? (text y) (value y))
    {fuel : Nat} (hfuel : 2 * s.length ≤ fuel + 1) (rest : Bytes) :
    items? close item? fuel (s ++ rest) = some (ys.map value, rest) := by
  -- The last item is followed by `close`, every other one by a comma.
  induction h generalizing fuel with
  | last y =>
    rw [List.length_append, List.length_singleton] at hfuel
    obtain ⟨f, rfl⟩ : ∃ f, fuel = f + 1 := ⟨fuel - 1, by omega⟩
    obtain ⟨blanks, hblanks, hread⟩ :=
      (hitem y List.mem_cons_self).read f (by omega) close (by simp) rest
    have hclose := expect?_append hblank hblanks rest
    simp [items?, hread, hclose]
  | @more y ys s _ ih =>
    rw [List.length_append, List.length_cons] at hfuel
    obtain ⟨f, rfl⟩ : ∃ f, fuel = f + 1 := ⟨fuel - 1, by omega⟩
    obtain ⟨hy, hys⟩ := List.forall_mem_cons.1 hitem
    obtain ⟨blanks, hblanks, hread⟩ := hy.read f (by omega) comma (by simp) (s ++ rest)
    have hclose : expect? close (blanks ++ comma :: (s ++ rest)) = none :=
      expect?_eq_none rfl hcomma.symm hblanks _
    have hnext : expect? comma (blanks ++ comma :: (s ++ rest)) = some (s ++ rest) :=
      expect?_append rfl hblanks _
    have hmore := ih hys (by omega : 2 * s.length ≤ f + 1)
    simp [items?, hread, hclose, hnext, hmore]

theorem list?_append (hcomma : close ≠ comma) {ys : List β} {s : Bytes}
    (h : Listed close text ys s) (hitem : ∀ y ∈ ys, ReadsItem close item? (text y) (value y))
    {fuel : Nat} (hfuel : 2 * s.length ≤ fuel + 1) (rest : Bytes) :
    list? close item? fuel (s ++ rest) = some (ys.map value, rest) := by
  cases h with
  | blank hblanks => simp [list?, expect?_append hblank hblanks]
  | items h =>
    have hstarts : expect? close (s ++ rest) = none := by
      cases h with
      | last y => simpa using (hitem y List.mem_cons_self).starts (close :: rest)
      | more y h => simpa using (hitem y List.mem_cons_self).starts _
    simp only [list?, hstarts, items?_append hblank hcomma h hitem hfuel]

/-- What the reader of one item takes is an item, whatever blanks are added to it. -/
def TakesItem (item? : Nat → Bytes → Option (α × Bytes)) (text : β → Bytes) (value : β → α)
    (P : β → Prop) (fuel : Nat) : Prop :=
  ∀ s x after, item? fuel s = some (x, after) → ∃ t, s = t ++ after ∧
    ∀ blanks, Blank blanks → ∃ y, P y ∧ value y = x ∧ text y = t ++ blanks

theorem of_items? {P : β → Prop} {fuel : Nat} (hitem : ∀ f < fuel, TakesItem item? text value P f)
    {s rest : Bytes} {xs : List α} (h : items? close item? fuel s = some (xs, rest)) :
    ∃ ys t, Items close text ys t ∧ (∀ y ∈ ys, P y) ∧ ys.map value = xs ∧ s = t ++ rest := by
  induction fuel generalizing s xs rest with
  | zero => cases h
  | succ fuel ih =>
    simp only [items?, Option.bind_eq_bind, Option.bind_eq_some_iff] at h
    obtain ⟨⟨x, after⟩, hread, h⟩ := h
    obtain ⟨t, rfl, hpadded⟩ := hitem fuel (by omega) s x after hread
    cases hclose : expect? close after with
    | some rest' =>
      rw [hclose] at h
      cases h
      obtain ⟨blanks, hblanks, rfl⟩ := (expect?_eq_some_iff hblank).1 hclose
      obtain ⟨y, hy, rfl, htext⟩ := hpadded blanks hblanks
      exact ⟨[y], _, .last y, by simpa using hy, rfl, by simp [htext]⟩
    | none =>
      rw [hclose] at h
      simp only [Option.bind_eq_some_iff] at h
      obtain ⟨next, hnext, ⟨xs', rest'⟩, hmore, h⟩ := h
      cases h
      obtain ⟨blanks, hblanks, rfl⟩ := (expect?_eq_some_iff (b := comma) rfl).1 hnext
      obtain ⟨y, hy, rfl, htext⟩ := hpadded blanks hblanks
      obtain ⟨ys, t', hitems, hys, rfl, rfl⟩ := ih (fun f hf => hitem f (by omega)) hmore
      exact ⟨y :: ys, _, .more y hitems, List.forall_mem_cons.2 ⟨hy, hys⟩, rfl, by simp [htext]⟩

theorem of_list? {P : β → Prop} {fuel : Nat} (hitem : ∀ f < fuel, TakesItem item? text value P f)
    {s rest : Bytes} {xs : List α} (h : list? close item? fuel s = some (xs, rest)) :
    ∃ ys t, Listed close text ys t ∧ (∀ y ∈ ys, P y) ∧ ys.map value = xs ∧ s = t ++ rest := by
  unfold list? at h
  cases hclose : expect? close s with
  | some after =>
    rw [hclose] at h
    cases h
    obtain ⟨blanks, hblanks, rfl⟩ := (expect?_eq_some_iff hblank).1 hclose
    exact ⟨[], _, .blank hblanks, nofun, rfl, by simp⟩
  | none =>
    rw [hclose] at h
    obtain ⟨ys, t, hitems, hys, hvalues, hs⟩ := of_items? hblank hitem h
    exact ⟨ys, t, .items hitems, hys, hvalues, hs⟩

end Items

/-! ## Values -/

theorem endsNumber_mark {mark : UInt8} (h : mark ∈ [comma, closeBracket, closeBrace]) {blanks : Bytes}
    (hblanks : Blank blanks) (rest : Bytes) : EndsNumber (blanks ++ mark :: rest) := by
  have hstop : ∀ b : UInt8, isBlank b ∨ b ∈ [comma, closeBracket, closeBrace] →
      isDigit b = false ∧ goesOn [b] = false :=
    forall_byte (by decide +kernel)
  have hhead : ∃ b more, blanks ++ mark :: rest = b :: more ∧
      (isBlank b ∨ b ∈ [comma, closeBracket, closeBrace]) := by
    cases blanks with
    | nil => exact ⟨mark, rest, rfl, .inr h⟩
    | cons b blanks => exact ⟨b, _, rfl, .inl (hblanks b List.mem_cons_self)⟩
  obtain ⟨b, more, heq, hb⟩ := hhead
  rw [heq]
  refine ⟨fun c hc => ?_, (hstop b hb).2⟩
  obtain rfl : b = c := by simpa using hc
  exact (hstop b hb).1

/-- What a value may start with. -/
def startsValue (b : UInt8) : Bool :=
  b = quoteMark || b = openBracket || b = openBrace || b = minus || isDigit b || b ∈ [0x74, 0x66, 0x6e]

theorem mark_of_startsValue {b : UInt8} (h : startsValue b) :
    isBlank b = false ∧ b ≠ closeBracket ∧ b ≠ closeBrace := by
  have hall : ∀ b : UInt8, startsValue b → isBlank b = false ∧ b ≠ closeBracket ∧ b ≠ closeBrace :=
    forall_byte (by decide +kernel)
  exact hall b h

theorem IsNumber.eq_cons {s : Bytes} (h : IsNumber s) : ∃ b t, s = b :: t ∧ (b = minus ∨ isDigit b) := by
  obtain ⟨sign, hsign, integer, fraction, exponent, hinteger, -, -, rfl⟩ := h
  obtain ⟨b, ds, rfl, hb⟩ := hinteger.eq_cons
  simp only [List.mem_cons, List.not_mem_nil, or_false] at hsign
  rcases hsign with rfl | rfl
  · exact ⟨b, _, rfl, .inr hb⟩
  · exact ⟨minus, _, rfl, .inl rfl⟩

theorem IsValue.eq_cons {core : Bytes} (h : IsValue core) : ∃ b t, core = b :: t ∧ startsValue b := by
  cases h with
  | literal hword =>
    simp only [literals, List.mem_cons, List.not_mem_nil, or_false] at hword
    rcases hword with rfl | rfl | rfl
    all_goals exact ⟨_, _, rfl, rfl⟩
  | number hnumber =>
    obtain ⟨b, t, rfl, hb⟩ := hnumber.eq_cons
    exact ⟨b, t, rfl, by rcases hb with rfl | hb <;> simp [startsValue, *]⟩
  | string hquoted =>
    obtain ⟨text, -, rfl⟩ := hquoted
    exact ⟨quoteMark, _, rfl, rfl⟩
  | array _ _ => exact ⟨openBracket, _, rfl, rfl⟩
  | object _ _ => exact ⟨openBrace, _, rfl, rfl⟩

theorem value?_blanks {blanks : Bytes} (h : Blank blanks) (fuel : Nat) (s : Bytes) :
    value? fuel (blanks ++ s) = value? fuel s := by
  cases fuel with
  | zero => rfl
  | succ fuel => simp only [value?, skipBlanks_append h]

theorem skipBlanks_mark {b : UInt8} (h : isBlank b = false) (rest : Bytes) :
    skipBlanks (b :: rest) = b :: rest := by
  simp [skipBlanks, h]

/-- A value that is read whole, on a budget that its length bounds. -/
def ReadWhole (core : Bytes) : Prop :=
  ∀ fuel, 2 * core.length ≤ fuel → ∀ rest, EndsNumber rest →
    value? fuel (core ++ rest) = some (valueOf core, rest)

theorem readsItem_element {e : Padded} (hvalue : IsValue e.core) (h : ReadWhole e.core) :
    ReadsItem closeBracket value? e.text (valueOf e.core) where
  read := by
    intro fuel hlength mark hmark rest
    have hends : EndsNumber (e.after ++ mark :: rest) :=
      endsNumber_mark (by simp at hmark ⊢; tauto) e.blank_after rest
    have hcore : 2 * e.core.length ≤ fuel := by
      simp only [Padded.text, List.length_append] at hlength
      omega
    refine ⟨e.after, e.blank_after, ?_⟩
    simp only [Padded.text, List.append_assoc, value?_blanks e.blank_before]
    exact h fuel hcore _ hends
  starts := by
    intro rest
    obtain ⟨b, t, hcore, hb⟩ := hvalue.eq_cons
    obtain ⟨hblank, hbracket, -⟩ := mark_of_startsValue hb
    simp only [Padded.text, hcore, List.append_assoc, List.cons_append]
    exact expect?_eq_none hblank hbracket e.blank_before _

/-- What a member is read as. -/
def Member.asRead (m : Member) : List Piece × Value := (m.pieces, valueOf m.value.core)

theorem readsItem_member {m : Member} (h : ReadWhole m.value.core) :
    ReadsItem closeBrace member? m.text m.asRead where
  read := by
    intro fuel hlength mark hmark rest
    have hends : EndsNumber (m.value.after ++ mark :: rest) :=
      endsNumber_mark (by simp at hmark ⊢; tauto) m.value.blank_after rest
    have hcore : 2 * m.value.core.length ≤ fuel := by
      simp only [Member.text, Padded.text, List.length_append, List.length_cons] at hlength
      omega
    obtain ⟨text, hspells, hquoted⟩ := m.quoted
    let more := m.value.before ++ (m.value.core ++ (m.value.after ++ mark :: rest))
    have hsplit : m.text ++ mark :: rest = m.name.before ++ quoteMark :: (text ++ quoteMark ::
        (m.name.after ++ colon :: more)) := by
      simp [Member.text, Padded.text, hquoted, more]
    have hname := string?_spelled hspells (m.name.after ++ colon :: more)
    have hopen := expect?_append (b := quoteMark) rfl m.name.blank_before
      (text ++ quoteMark :: (m.name.after ++ colon :: more))
    have hcolon := expect?_append (b := colon) rfl m.name.blank_after more
    have hvalue : value? fuel more = some (valueOf m.value.core, m.value.after ++ mark :: rest) := by
      rw [value?_blanks m.value.blank_before]
      exact h fuel hcore _ hends
    refine ⟨m.value.after, m.value.blank_after, ?_⟩
    rw [hsplit]
    simp [member?, Member.asRead, hopen, hname, hcolon, hvalue]
  starts := by
    intro rest
    obtain ⟨text, -, hquoted⟩ := m.quoted
    simp only [Member.text, Padded.text, hquoted, List.append_assoc, List.cons_append]
    exact expect?_eq_none rfl (by decide) m.name.blank_before _

theorem readWhole_cons {b : UInt8} {t : Bytes}
    (h : ∀ fuel, 2 * (b :: t).length ≤ fuel + 1 → ∀ rest, EndsNumber rest →
      value? (fuel + 1) (b :: (t ++ rest)) = some (valueOf (b :: t), rest)) : ReadWhole (b :: t) := by
  intro fuel hfuel rest hrest
  cases fuel with
  | zero => simp at hfuel
  | succ fuel => exact h fuel hfuel rest hrest

theorem readWhole_literal {word : Bytes} (h : word ∈ literals) : ReadWhole word := by
  have hread := literal?_append h
  simp only [literals, List.mem_cons, List.not_mem_nil, or_false] at h
  rcases h with rfl | rfl | rfl
  all_goals exact readWhole_cons fun fuel _ rest _ => hread rest

theorem readWhole_number {s : Bytes} (h : IsNumber s) : ReadWhole s := by
  obtain ⟨b, t, rfl, hb⟩ := h.eq_cons
  have hmarks : isBlank b = false ∧ b ≠ quoteMark ∧ b ≠ openBracket ∧ b ≠ openBrace := by
    rcases hb with rfl | hb
    · decide
    · obtain ⟨hblank, hquote, hbracket, hbrace, -⟩ := mark_of_isDigit hb
      exact ⟨hblank, hquote, hbracket, hbrace⟩
  refine readWhole_cons fun fuel _ rest hrest => ?_
  have hread : number? (b :: (t ++ rest)) = some (valueOf (b :: t), rest) := number?_append h hrest
  simp [value?, skipBlanks_mark, hmarks, hb, hread]

theorem readWhole_string {s : Bytes} {pieces : List Piece} (h : Quoted s pieces) : ReadWhole s := by
  obtain ⟨text, hspells, rfl⟩ := h
  refine readWhole_cons fun fuel _ rest _ => ?_
  have hread := string?_spelled hspells rest
  have hother : valueOf (quoteMark :: (text ++ [quoteMark])) = .other :=
    valueOf_other List.mem_cons_self rfl
  rw [hother, List.append_assoc]
  simp [value?, skipBlanks_mark (b := quoteMark) rfl, hread]

theorem value?_openBracket (fuel : Nat) (s : Bytes) : value? (fuel + 1) (openBracket :: s) =
    (list? closeBracket value? fuel s).map fun r => (.other, r.2) := by
  have hopen : value? (fuel + 1) (openBracket :: s) = match expect? closeBracket s with
      | some after => some (.other, after)
      | none => (elements? fuel s).map fun r => (.other, r.2) := by
    simp only [value?, skipBlanks_mark (b := openBracket) rfl]
    rfl
  rw [hopen, list?, elements?_eq]
  cases expect? closeBracket s <;> rfl

theorem value?_openBrace (fuel : Nat) (s : Bytes) : value? (fuel + 1) (openBrace :: s) =
    (list? closeBrace member? fuel s).map fun r => (.other, r.2) := by
  have hopen : value? (fuel + 1) (openBrace :: s) = match expect? closeBrace s with
      | some after => some (.other, after)
      | none => (members? fuel s).map fun r => (.other, r.2) := by
    simp only [value?, skipBlanks_mark (b := openBrace) rfl]
    rfl
  rw [hopen, list?, members?_eq]
  cases expect? closeBrace s <;> rfl

theorem readWhole {core : Bytes} (h : IsValue core) : ReadWhole core := by
  induction h with
  | literal hword => exact readWhole_literal hword
  | number hnumber => exact readWhole_number hnumber
  | string hquoted => exact readWhole_string hquoted
  | @array elements s hlisted helements ih =>
    refine readWhole_cons fun fuel hfuel rest _ => ?_
    have hother : valueOf (openBracket :: s) = .other := valueOf_other List.mem_cons_self rfl
    have hlength : 2 * s.length ≤ fuel + 1 := by
      rw [List.length_cons] at hfuel
      omega
    have hread := list?_append rfl (by decide) hlisted (fun e he => readsItem_element (helements e he) (ih e he))
      hlength rest
    rw [hother, value?_openBracket, hread]
    rfl
  | @object members s hlisted hmembers ih =>
    refine readWhole_cons fun fuel hfuel rest _ => ?_
    have hother : valueOf (openBrace :: s) = .other := valueOf_other List.mem_cons_self rfl
    have hlength : 2 * s.length ≤ fuel + 1 := by
      rw [List.length_cons] at hfuel
      omega
    have hread := list?_append rfl (by decide) hlisted (fun m hm => readsItem_member (ih m hm))
      hlength rest
    rw [hother, value?_openBrace, hread]
    rfl

/-! ## What was read -/

/-- The value `v` stands in front of `rest`. -/
def StandsBefore (rest : Bytes) (v : Value) (s : Bytes) : Prop :=
  ∃ before core, Blank before ∧ IsValue core ∧ v = valueOf core ∧ s = before ++ (core ++ rest)

section Smaller

variable {fuel : Nat}
  (hvalue : ∀ s v rest, value? fuel s = some (v, rest) → StandsBefore rest v s)
include hvalue

theorem takesItem_element :
    TakesItem value? Padded.text (valueOf ·.core) (IsValue ·.core) fuel := by
  intro s v after hread
  obtain ⟨before, core, hbefore, hcore, rfl, rfl⟩ := hvalue s v after hread
  refine ⟨before ++ core, by simp, fun blanks hblanks => ?_⟩
  exact ⟨⟨before, core, blanks, hbefore, hblanks⟩, hcore, rfl, by simp [Padded.text]⟩

theorem takesItem_member :
    TakesItem member? Member.text Member.asRead (IsValue ·.value.core) fuel := by
  intro s x after hread
  simp only [member?, Option.bind_eq_bind, Option.bind_eq_some_iff] at hread
  obtain ⟨quoted, hquote, ⟨pieces, afterName⟩, hname, afterColon, hcolon, ⟨v, rest'⟩, hread, heq⟩ :=
    hread
  cases heq
  obtain ⟨beforeName, hbeforeName, rfl⟩ := (expect?_eq_some_iff (b := quoteMark) rfl).1 hquote
  obtain ⟨text, htext, rfl⟩ := string?_eq_some_iff.1 hname
  obtain ⟨afterName, hafterName, rfl⟩ := (expect?_eq_some_iff (b := colon) rfl).1 hcolon
  obtain ⟨before, core, hbefore, hcore, rfl, rfl⟩ := hvalue _ v _ hread
  refine ⟨beforeName ++ quoteMark :: (text ++ quoteMark :: (afterName ++ colon :: (before ++ core))),
    by simp, fun blanks hblanks => ?_⟩
  let name : Padded := ⟨beforeName, quoteMark :: (text ++ [quoteMark]), afterName, hbeforeName,
    hafterName⟩
  let value : Padded := ⟨before, core, blanks, hbefore, hblanks⟩
  exact ⟨⟨name, pieces, ⟨text, htext, rfl⟩, value⟩, hcore, rfl,
    by simp [Member.text, Padded.text, name, value]⟩

end Smaller

theorem of_quoteMark {fuel : Nat} {s rest : Bytes} {v : Value}
    (h : value? (fuel + 1) (quoteMark :: s) = some (v, rest)) :
    ∃ core, IsValue core ∧ v = valueOf core ∧ quoteMark :: s = core ++ rest := by
  have hread : (string? s).map (fun r => (Value.other, r.2)) = some (v, rest) := h
  obtain ⟨⟨pieces, after⟩, hstring, heq⟩ := Option.map_eq_some_iff.1 hread
  cases heq
  obtain ⟨text, htext, rfl⟩ := string?_eq_some_iff.1 hstring
  exact ⟨_, .string ⟨text, htext, rfl⟩, (valueOf_other List.mem_cons_self rfl).symm, by simp⟩

theorem of_value? {fuel : Nat} {s rest : Bytes} {v : Value} (h : value? fuel s = some (v, rest)) :
    StandsBefore rest v s := by
  induction fuel using Nat.strongRecOn generalizing s v rest with
  | ind fuel ih =>
    cases fuel with
    | zero => cases h
    | succ fuel =>
      cases hskip : skipBlanks s with
      | nil => simp [value?, hskip] at h
      | cons b tail =>
        obtain ⟨hblank, before, hbefore, rfl⟩ := skipBlanks_eq_iff.1 hskip
        rw [value?_blanks hbefore] at h
        have hvalue : ∀ f < fuel, ∀ s v rest, value? f s = some (v, rest) → StandsBefore rest v s :=
          fun f hf s v rest hread => ih f (by omega) hread
        suffices hcore : ∃ core, IsValue core ∧ v = valueOf core ∧ b :: tail = core ++ rest by
          obtain ⟨core, hcore, hv, heq⟩ := hcore
          exact ⟨before, core, hbefore, hcore, hv, by rw [heq]⟩
        -- The first byte that is no blank tells what the value is.
        by_cases hquote : b = quoteMark
        · subst hquote
          exact of_quoteMark h
        by_cases hbracket : b = openBracket
        · subst hbracket
          rw [value?_openBracket] at h
          obtain ⟨⟨vs, after⟩, hread, heq⟩ := Option.map_eq_some_iff.1 h
          cases heq
          obtain ⟨elements, t, hlisted, helements, -, rfl⟩ :=
            of_list? rfl (fun f hf => takesItem_element (hvalue f hf)) hread
          exact ⟨_, .array hlisted helements, (valueOf_other List.mem_cons_self rfl).symm, rfl⟩
        by_cases hbrace : b = openBrace
        · subst hbrace
          rw [value?_openBrace] at h
          obtain ⟨⟨ms, after⟩, hread, heq⟩ := Option.map_eq_some_iff.1 h
          cases heq
          obtain ⟨members, t, hlisted, hmembers, -, rfl⟩ :=
            of_list? rfl (fun f hf => takesItem_member (hvalue f hf)) hread
          exact ⟨_, .object hlisted hmembers, (valueOf_other List.mem_cons_self rfl).symm, rfl⟩
        simp only [value?, skipBlanks_mark hblank, hquote, hbracket, hbrace, if_false] at h
        split at h
        · obtain ⟨core, hnumber, hv, heq⟩ := of_number? h
          exact ⟨core, .number hnumber, hv, heq⟩
        · obtain ⟨word, hword, hv, heq⟩ := of_literal? h
          exact ⟨word, .literal hword, hv, heq⟩

/-! ## Texts -/

theorem top?_openBracket {before : Bytes} (h : Blank before) (s : Bytes) :
    top? (before ++ openBracket :: s) =
      (list? closeBracket value? (budget s) s).map fun r => (.array r.1, r.2) := by
  have hopen : expect? openBracket (before ++ openBracket :: s) = some s := expect?_append rfl h s
  simp only [top?, hopen, list?, elements?_eq]
  cases expect? closeBracket s <;> rfl

theorem top?_openBrace {before : Bytes} (h : Blank before) (s : Bytes) :
    top? (before ++ openBrace :: s) =
      (list? closeBrace member? (budget s) s).map fun r => (.object r.1, r.2) := by
  have hnoArray : expect? openBracket (before ++ openBrace :: s) = none :=
    expect?_eq_none rfl (by decide) h s
  have hopen : expect? openBrace (before ++ openBrace :: s) = some s := expect?_append rfl h s
  simp only [top?, hnoArray, hopen, list?, members?_eq]
  cases expect? closeBrace s <;> rfl

theorem le_budget (s rest : Bytes) : 2 * s.length ≤ budget (s ++ rest) + 1 := by
  rw [budget, List.length_append]
  omega

theorem top?_array_iff {s after : Bytes} {vs : List Value} : top? s = some (.array vs, after) ↔
    ∃ before core elements, Blank before ∧ IsArray core elements ∧
      elements.map (valueOf ·.core) = vs ∧ s = before ++ (core ++ after) := by
  constructor
  · intro h
    cases hopen : expect? openBracket s with
    | none =>
      cases hbrace : expect? openBrace s with
      | none => simp [top?, hopen, hbrace] at h
      | some rest =>
        cases hclose : expect? closeBrace rest <;> simp [top?, hopen, hbrace, hclose] at h
    | some rest =>
      obtain ⟨before, hbefore, rfl⟩ := (expect?_eq_some_iff (b := openBracket) rfl).1 hopen
      rw [top?_openBracket hbefore] at h
      obtain ⟨⟨vs', after'⟩, hread, heq⟩ := Option.map_eq_some_iff.1 h
      cases heq
      obtain ⟨elements, t, hlisted, helements, hvalues, rfl⟩ :=
        of_list? rfl (fun f _ => takesItem_element fun s v rest => of_value?) hread
      exact ⟨before, _, elements, hbefore, ⟨t, rfl, hlisted, helements⟩, hvalues, rfl⟩
  · rintro ⟨before, core, elements, hbefore, ⟨t, rfl, hlisted, helements⟩, rfl, rfl⟩
    have hread := list?_append rfl (by decide) hlisted
      (fun e he => readsItem_element (helements e he) (readWhole (helements e he)))
      (le_budget t after) after
    rw [List.cons_append, top?_openBracket hbefore, hread]
    rfl

theorem top?_object_iff {s after : Bytes} {ms : List (List Piece × Value)} :
    top? s = some (.object ms, after) ↔ ∃ before core members, Blank before ∧
      IsObject core members ∧ members.map Member.asRead = ms ∧
      s = before ++ (core ++ after) := by
  constructor
  · intro h
    cases hbracket : expect? openBracket s with
    | some rest => cases hclose : expect? closeBracket rest <;> simp [top?, hbracket, hclose] at h
    | none =>
      cases hopen : expect? openBrace s with
      | none => simp [top?, hbracket, hopen] at h
      | some rest =>
        obtain ⟨before, hbefore, rfl⟩ := (expect?_eq_some_iff (b := openBrace) rfl).1 hopen
        rw [top?_openBrace hbefore] at h
        obtain ⟨⟨ms', after'⟩, hread, heq⟩ := Option.map_eq_some_iff.1 h
        cases heq
        obtain ⟨members, t, hlisted, hmembers, hvalues, rfl⟩ :=
          of_list? rfl (fun f _ => takesItem_member fun s v rest => of_value?) hread
        exact ⟨before, _, members, hbefore, ⟨t, rfl, hlisted, hmembers⟩, hvalues, rfl⟩
  · rintro ⟨before, core, members, hbefore, ⟨t, rfl, hlisted, hmembers⟩, rfl, rfl⟩
    have hread := list?_append rfl (by decide) hlisted
      (fun m hm => readsItem_member (readWhole (hmembers m hm))) (le_budget t after) after
    rw [List.cons_append, top?_openBrace hbefore, hread]
    rfl

theorem read?_eq_some_iff {s : Bytes} {document : Document} :
    read? s = some document ↔ ∃ after, Blank after ∧ top? s = some (document, after) := by
  simp only [read?, Option.bind_eq_bind, Option.bind_eq_some_iff]
  constructor
  · rintro ⟨⟨document', after⟩, htop, h⟩
    split at h
    · next hblank =>
      cases h
      exact ⟨after, List.all_eq_true.1 hblank, htop⟩
    · cases h
  · rintro ⟨after, hblank, htop⟩
    exact ⟨(document, after), htop, if_pos (List.all_eq_true.2 hblank)⟩

theorem read?_array_iff {s : Bytes} {vs : List Value} : read? s = some (.array vs) ↔
    ∃ (top : Padded) (elements : List Padded), s = top.text ∧ IsArray top.core elements ∧
      elements.map (valueOf ·.core) = vs := by
  simp only [read?_eq_some_iff, top?_array_iff]
  constructor
  · rintro ⟨after, hafter, before, core, elements, hbefore, hcore, hvalues, rfl⟩
    exact ⟨⟨before, core, after, hbefore, hafter⟩, elements, rfl, hcore, hvalues⟩
  · rintro ⟨top, elements, rfl, hcore, hvalues⟩
    exact ⟨top.after, top.blank_after, top.before, top.core, elements, top.blank_before, hcore,
      hvalues, rfl⟩

theorem read?_object_iff {s : Bytes} {ms : List (List Piece × Value)} :
    read? s = some (.object ms) ↔ ∃ (top : Padded) (members : List Member),
      s = top.text ∧ IsObject top.core members ∧
      members.map Member.asRead = ms := by
  simp only [read?_eq_some_iff, top?_object_iff]
  constructor
  · rintro ⟨after, hafter, before, core, members, hbefore, hcore, hvalues, rfl⟩
    exact ⟨⟨before, core, after, hbefore, hafter⟩, members, rfl, hcore, hvalues⟩
  · rintro ⟨top, members, rfl, hcore, hvalues⟩
    exact ⟨top.after, top.blank_after, top.before, top.core, members, top.blank_before, hcore,
      hvalues, rfl⟩

end CompileCache.Json
