/-
  CompileCache.Proofs.Sidecar.Texts — which texts are read as a sidecar.

  Blanks aside, the texts of a sidecar are the arrays of its three numbers in their order, and
  the objects in which each of the three is given by one member (`Describes`). A member is
  known by the characters that its name stands for, and a number has to be in its decimal form.
  There may be members of any other name, with any value.

  An object is taken for a sidecar if and only if its members tell of it
  (`ofMembers?_eq_some_iff`), and with the grammar of values this settles every text
  (`parse?_eq_some_iff`). So one member too many, too few or too large spoils a text
  (`parse?_spoiled`), and so does all but blanks after it (`parse?_append`).
-/

import CompileCache.Proofs.Json.Reading

namespace CompileCache.Sidecar

open Json

/-! ## What a text has to say -/

def decimal (n : Nat) : Bytes := Bytes.ofString n.repr

def numbers (s : Sidecar) : List Nat := [s.tag.toNat, s.size.toNat, s.filedAt.toNat]

/-- One member has this name, and its value is written as this number. -/
def Gives (members : List Member) (name : String) (n : Nat) : Prop :=
  ∃ before m after, members = before ++ m :: after ∧ m.Named name ∧ m.value.core = decimal n ∧
    ∀ other ∈ before ++ after, ¬ other.Named name

/-- Every member has a name, and each of the three numbers is given once. -/
structure Tells (members : List Member) (s : Sidecar) : Prop where
  named : ∀ m ∈ members, ∃ name, m.Named name
  tag : Gives members "tag" s.tag.toNat
  size : Gives members "size" s.size.toNat
  filedAt : Gives members "cached_at" s.filedAt.toNat

/-- The texts of a sidecar. -/
def Describes (text : Bytes) (s : Sidecar) : Prop :=
  ∃ top : Padded, text = top.text ∧
    ((∃ elements, IsArray top.core elements ∧ elements.map Padded.core = s.numbers.map decimal) ∨
      ∃ members, IsObject top.core members ∧ Tells members s)

/-- The name of a number, and what the number stays below. -/
def fields : List (String × Nat) :=
  [("tag", UInt32.size), ("size", UInt64.size), ("cached_at", UInt64.size)]

/-- No member has the name, or two have, or one whose value is no number below the bound. -/
def Spoils (members : List Member) (field : String × Nat) : Prop :=
  (∀ m ∈ members, ¬ m.Named field.1) ∨
    (∃ m m', [m, m'].Sublist members ∧ m.Named field.1 ∧ m'.Named field.1) ∨
      ∃ m ∈ members, m.Named field.1 ∧ ∀ n < field.2, m.value.core ≠ decimal n

/-! ## Members -/

theorem named_iff (m : Member) (name : String) :
    m.Named name ↔ text? m.pieces = some name := by
  obtain ⟨text, hspells, -⟩ := m.quoted
  exact (text?_eq_some_iff fun code hcode => hspells.lt hcode).symm

def nameOf (m : Member) : String := (text? m.pieces).getD ""

/-- A member with its name decoded. -/
def decoded (m : Member) : String × Value := (nameOf m, valueOf m.value.core)

theorem nameOf_eq_iff {m : Member} (h : ∃ name, m.Named name) (name : String) :
    nameOf m = name ↔ m.Named name := by
  obtain ⟨name', h⟩ := h
  have htext := (named_iff m name').1 h
  rw [named_iff, nameOf, htext]
  simp

theorem mapM_named {members : List Member} {named : List (String × Value)} :
    (members.map Member.asRead).mapM (fun m => (text? m.1).map fun name => (name, m.2)) = some named ↔
      (∀ m ∈ members, ∃ name, m.Named name) ∧ named = members.map decoded := by
  induction members generalizing named with
  | nil => simp [eq_comm]
  | cons m members ih =>
    simp only [List.map_cons, List.mapM_cons, Option.bind_eq_bind, Option.bind_eq_some_iff, ih,
      Option.map_eq_some_iff, List.forall_mem_cons]
    constructor
    · rintro ⟨_, ⟨name, hname, rfl⟩, tail, ⟨hmembers, rfl⟩, h⟩
      cases h
      have hnamed := (named_iff m name).2 hname
      have hname' := (nameOf_eq_iff ⟨name, hnamed⟩ name).2 hnamed
      exact ⟨⟨⟨name, hnamed⟩, hmembers⟩, by simp [decoded, hname', Member.asRead]⟩
    · rintro ⟨⟨⟨name, hnamed⟩, hmembers⟩, rfl⟩
      have hname := (nameOf_eq_iff ⟨name, hnamed⟩ name).2 hnamed
      refine ⟨_, ⟨name, (named_iff m name).1 hnamed, rfl⟩, _, ⟨hmembers, rfl⟩, ?_⟩
      simp [decoded, hname, Member.asRead]

theorem filter_named_iff {members : List Member} (h : ∀ m ∈ members, ∃ name, m.Named name)
    {name : String} {m : Member} : (members.filter fun m => nameOf m == name) = [m] ↔
      ∃ before after, members = before ++ m :: after ∧ m.Named name ∧
        ∀ other ∈ before ++ after, ¬ other.Named name := by
  have hiff : ∀ other ∈ members, (nameOf other == name) = true ↔ other.Named name := by
    intro other hother
    rw [beq_iff_eq, nameOf_eq_iff (h other hother)]
  rw [List.filter_eq_cons_iff]
  constructor
  · rintro ⟨before, after, rfl, hbefore, hm, hafter⟩
    refine ⟨before, after, rfl, (hiff m (by simp)).1 hm, fun other hother => ?_⟩
    rw [← hiff other (by simp at hother ⊢; tauto)]
    rcases List.mem_append.1 hother with hother | hother
    · exact hbefore other hother
    · exact List.filter_eq_nil_iff.1 hafter other hother
  · rintro ⟨before, after, rfl, hm, hothers⟩
    refine ⟨before, after, rfl, fun other hother => ?_, (hiff m (by simp)).2 hm,
      List.filter_eq_nil_iff.2 fun other hother => ?_⟩
    all_goals
      rw [hiff other (by simp [hother])]
      exact hothers other (by simp [hother])

theorem number?_eq_some_iff {members : List Member} (h : ∀ m ∈ members, ∃ name, m.Named name)
    {name : String} {n : Nat} :
    number? name (members.map decoded) = some n ↔ Gives members name n := by
  have hgives : Gives members name n ↔ ∃ m, (members.filter fun m => nameOf m == name) = [m] ∧
      valueOf m.value.core = .natural n := by
    simp only [filter_named_iff h, valueOf_eq_natural_iff, Gives, decimal]
    constructor
    · rintro ⟨before, m, after, heq, hm, hvalue, hothers⟩
      exact ⟨m, ⟨before, after, heq, hm, hothers⟩, hvalue⟩
    · rintro ⟨m, ⟨before, after, heq, hm, hothers⟩, hvalue⟩
      exact ⟨before, m, after, heq, hm, hvalue, hothers⟩
  have hfilter : (members.map decoded).filter (fun m => m.1 == name) =
      (members.filter fun m => nameOf m == name).map decoded := by
    rw [List.filter_map]
    rfl
  rw [hgives, number?, hfilter]
  cases members.filter fun m => nameOf m == name with
  | nil => simp
  | cons m ms =>
    cases ms with
    | nil => cases hvalue : valueOf m.value.core <;> simp [decoded, hvalue]
    | cons m' ms => simp

theorem ofNumbers?_eq_some_iff {tag size filedAt : Nat} {s : Sidecar} :
    ofNumbers? tag size filedAt = some s ↔
      tag = s.tag.toNat ∧ size = s.size.toNat ∧ filedAt = s.filedAt.toNat := by
  constructor
  · intro h
    unfold ofNumbers? at h
    split at h
    · next hbounds =>
      obtain ⟨htag, hsize, hfiledAt⟩ := hbounds
      cases h
      exact ⟨(UInt32.toNat_ofNat_of_lt' htag).symm, (UInt64.toNat_ofNat_of_lt' hsize).symm,
        (UInt64.toNat_ofNat_of_lt' hfiledAt).symm⟩
    · cases h
  · rintro ⟨rfl, rfl, rfl⟩
    exact ofNumbers?_toNat s

theorem ofMembers?_eq_some_iff {members : List Member} {s : Sidecar} :
    ofMembers? (members.map Member.asRead) = some s ↔ Tells members s := by
  simp only [ofMembers?, Option.bind_eq_bind, Option.bind_eq_some_iff, mapM_named,
    ofNumbers?_eq_some_iff]
  constructor
  · rintro ⟨_, ⟨hnamed, rfl⟩, _, htag, _, hsize, _, hfiledAt, rfl, rfl, rfl⟩
    exact ⟨hnamed, (number?_eq_some_iff hnamed).1 htag, (number?_eq_some_iff hnamed).1 hsize,
      (number?_eq_some_iff hnamed).1 hfiledAt⟩
  · rintro ⟨hnamed, htag, hsize, hfiledAt⟩
    exact ⟨_, ⟨hnamed, rfl⟩, _, (number?_eq_some_iff hnamed).2 htag, _,
      (number?_eq_some_iff hnamed).2 hsize, _, (number?_eq_some_iff hnamed).2 hfiledAt, rfl, rfl, rfl⟩

instance (members : List Member) (s : Sidecar) : Decidable (Tells members s) :=
  decidable_of_iff (ofMembers? (members.map Member.asRead) = some s) ofMembers?_eq_some_iff

theorem Gives.not_spoils {members : List Member} {name : String} {n bound : Nat}
    (h : Gives members name n) (hn : n < bound) : ¬ Spoils members (name, bound) := by
  classical
  obtain ⟨before, m, after, rfl, hm, hvalue, hothers⟩ := h
  rintro (hmissing | ⟨x, y, hsublist, hx, hy⟩ | ⟨x, hx, hnamed, hbad⟩)
  · exact hmissing m (by simp) hm
  · have hle := hsublist.countP_le (p := fun m => decide (m.Named name))
    have hbefore : before.countP (fun m => decide (m.Named name)) = 0 :=
      List.countP_eq_zero.2 fun other hother => by simpa using hothers other (by simp [hother])
    have hafter : after.countP (fun m => decide (m.Named name)) = 0 :=
      List.countP_eq_zero.2 fun other hother => by simpa using hothers other (by simp [hother])
    simp [hx, hy, hm, hbefore, hafter] at hle
  · have hsame : x = m := by
      by_contra hne
      exact hothers x (by simpa [hne] using hx) hnamed
    subst hsame
    exact hbad n hn hvalue

/-! ## Texts -/

theorem map_valueOf_iff {elements : List Padded} {ns : List Nat} :
    elements.map (valueOf ·.core) = ns.map .natural ↔ elements.map Padded.core = ns.map decimal := by
  induction elements generalizing ns with
  | nil => cases ns <;> simp
  | cons e elements ih =>
    cases ns with
    | nil => simp
    | cons n ns => simp [valueOf_eq_natural_iff, ih, decimal]

theorem ofDocument?_array_iff {vs : List Value} {s : Sidecar} :
    ofDocument? (.array vs) = some s ↔ vs = s.numbers.map .natural := by
  constructor
  · intro h
    unfold ofDocument? at h
    split at h
    · next heq =>
      cases heq
      obtain ⟨rfl, rfl, rfl⟩ := ofNumbers?_eq_some_iff.1 h
      rfl
    · next heq => cases heq
    · cases h
  · rintro rfl
    exact ofNumbers?_toNat s

theorem parse?_array_iff {top : Padded} {elements : List Padded} (h : IsArray top.core elements)
    {s : Sidecar} :
    parse? top.text = some s ↔ elements.map Padded.core = s.numbers.map decimal := by
  have hread : read? top.text = some (.array (elements.map (valueOf ·.core))) :=
    read?_array_iff.2 ⟨top, elements, rfl, h, rfl⟩
  rw [← map_valueOf_iff, ← ofDocument?_array_iff]
  simp [parse?, hread]

theorem parse?_object_iff {top : Padded} {members : List Member} (h : IsObject top.core members)
    {s : Sidecar} : parse? top.text = some s ↔ Tells members s := by
  have hread : read? top.text = some (.object (members.map Member.asRead)) :=
    read?_object_iff.2 ⟨top, members, rfl, h, rfl⟩
  rw [← ofMembers?_eq_some_iff]
  simp [parse?, hread, ofDocument?]

theorem parse?_eq_some_iff {text : Bytes} {s : Sidecar} : parse? text = some s ↔ Describes text s := by
  constructor
  · intro h
    simp only [parse?, Option.bind_eq_bind, Option.bind_eq_some_iff] at h
    obtain ⟨document, hread, hdocument⟩ := h
    cases document with
    | scalar v => cases hdocument
    | array vs =>
      obtain ⟨top, elements, rfl, harray, rfl⟩ := read?_array_iff.1 hread
      exact ⟨top, rfl, .inl ⟨elements, harray, map_valueOf_iff.1 (ofDocument?_array_iff.1 hdocument)⟩⟩
    | object ms =>
      obtain ⟨top, members, rfl, hobject, rfl⟩ := read?_object_iff.1 hread
      exact ⟨top, rfl, .inr ⟨members, hobject, ofMembers?_eq_some_iff.1 hdocument⟩⟩
  · rintro ⟨top, rfl, ⟨elements, harray, hcores⟩ | ⟨members, hobject, htells⟩⟩
    · exact (parse?_array_iff harray).2 hcores
    · exact (parse?_object_iff hobject).2 htells

theorem parse?_spoiled {top : Padded} {members : List Member} (h : IsObject top.core members)
    {field : String × Nat} (hfield : field ∈ fields) (hspoils : Spoils members field) :
    parse? top.text = none := by
  rw [Option.eq_none_iff_forall_ne_some]
  intro s hparse
  obtain ⟨-, htag, hsize, hfiledAt⟩ := (parse?_object_iff h).1 hparse
  simp only [fields, List.mem_cons, List.not_mem_nil, or_false] at hfield
  rcases hfield with rfl | rfl | rfl
  · exact htag.not_spoils s.tag.toNat_lt hspoils
  · exact hsize.not_spoils s.size.toNat_lt hspoils
  · exact hfiledAt.not_spoils s.filedAt.toNat_lt hspoils

theorem parse?_more {top : Padded} {document : Document} {more : Bytes}
    (htop : top? (top.text ++ more) = some (document, top.after ++ more)) (hmore : ¬ Blank more) :
    parse? (top.text ++ more) = none := by
  have hread : read? (top.text ++ more) = none := by
    rw [Option.eq_none_iff_forall_ne_some]
    intro document' hread
    obtain ⟨after, hblank, htop'⟩ := read?_eq_some_iff.1 hread
    rw [htop] at htop'
    cases htop'
    exact hmore fun b hb => hblank b (List.mem_append_right _ hb)
  simp [parse?, hread]

theorem parse?_append {text more : Bytes} {s : Sidecar} (h : Describes text s) (hmore : ¬ Blank more) :
    parse? (text ++ more) = none := by
  obtain ⟨top, rfl, ⟨elements, harray, -⟩ | ⟨members, hobject, -⟩⟩ := h
  · exact parse?_more (top?_array_iff.2 ⟨top.before, top.core, elements, top.blank_before, harray, rfl,
      by simp [Padded.text]⟩) hmore
  · exact parse?_more (top?_object_iff.2 ⟨top.before, top.core, members, top.blank_before, hobject, rfl,
      by simp [Padded.text]⟩) hmore

/-! ## A text with an escaped name -/

/-- A token with no blanks around it. -/
def bare (core : Bytes) : Padded := ⟨[], core, [], nofun, nofun⟩

def plainMember (name : Bytes) (h : name.all isPlain) (value : Bytes) : Member :=
  ⟨bare (quoteMark :: (name ++ [quoteMark])), name.map .byte, ⟨name, spells_plain h, rfl⟩, bare value⟩

/-- The name `tag`, its second letter escaped. -/
def escapedTag : Member where
  name := ⟨[], Bytes.ofString "\"t\\u0061g\"", [0x20], nofun, by decide⟩
  pieces := [.byte 0x74, .unit 0x61, .byte 0x67]
  quoted := ⟨Bytes.ofString "t\\u0061g",
    .plain rfl (.unit (a := 0) (b := 0) (c := 6) (d := 1) (by decide) (by decide) (by decide)
      (by decide) (.plain rfl .nil)), by decide⟩
  value := bare (decimal 1)

def nullArray : Bytes := openBracket :: (Bytes.ofString "null" ++ [closeBracket])

def escapedMembers : List Member :=
  [plainMember sizeName (by decide) (decimal 7), escapedTag,
    plainMember [0x78] (by decide) nullArray, plainMember filedAtName (by decide) (decimal 2)]

def escapedText : Bytes :=
  Bytes.ofString "\x7b\"size\":7,\"t\\u0061g\" :1,\"x\":[null],\"cached_at\":2\x7d"

theorem isValue_decimal (n : Nat) : IsValue (decimal n) :=
  .number ⟨[], by simp, decimal n, [], [], isInteger_repr n, .inl rfl, .inl rfl, by simp⟩

theorem isValue_nullArray : IsValue nullArray := by
  refine .array (.items (.last (bare (Bytes.ofString "null")))) fun e he => ?_
  obtain rfl := List.mem_singleton.1 he
  exact .literal (by decide)

theorem isObject_escaped : IsObject escapedText escapedMembers := by
  have hitems : Items closeBrace Member.text escapedMembers _ :=
    .more _ (.more _ (.more _ (.last _)))
  refine ⟨_, ?_, .items hitems, fun m hm => ?_⟩
  · decide +kernel
  · simp only [escapedMembers, List.mem_cons, List.not_mem_nil, or_false] at hm
    rcases hm with rfl | rfl | rfl | rfl
    · exact isValue_decimal 7
    · exact isValue_decimal 1
    · exact isValue_nullArray
    · exact isValue_decimal 2

/-! ## Strictness -/

/-- The text that is filed is read back, the texts of a sidecar are read as it, and no others. -/
theorem reading_is_strict (s : Sidecar) :
    parse? (Bytes.ofString s.render) = some s ∧
    (∀ text, parse? text = some s ↔ Describes text s) ∧
    (∀ (top : Padded) (members : List Member), IsObject top.core members →
      ∀ field ∈ fields, Spoils members field → parse? top.text = none) ∧
    (∀ (top : Padded) (elements : List Padded), IsArray top.core elements →
      (∀ s' : Sidecar, elements.map Padded.core ≠ s'.numbers.map decimal) →
      parse? top.text = none) ∧
    ∀ text more, Describes text s → ¬ Blank more → parse? (text ++ more) = none := by
  refine ⟨parse?_render s, fun text => parse?_eq_some_iff, fun top members h field hfield hspoils =>
    parse?_spoiled h hfield hspoils, fun top elements h hnone => ?_, fun text more h hmore =>
    parse?_append h hmore⟩
  rw [Option.eq_none_iff_forall_ne_some]
  exact fun s' hparse => hnone s' ((parse?_array_iff h).1 hparse)

theorem escaped_name_is_read :
    parse? escapedText = some ⟨1, 7, 2⟩ ∧ parse? (escapedText ++ [comma]) = none := by
  have htext : escapedText = (bare escapedText).text := (List.append_nil escapedText).symm
  have htells : Tells escapedMembers ⟨1, 7, 2⟩ := by decide +kernel
  have hdescribes : Describes escapedText ⟨1, 7, 2⟩ :=
    ⟨bare escapedText, htext, .inr ⟨escapedMembers, isObject_escaped, htells⟩⟩
  obtain ⟨-, haccepts, -, -, htrailing⟩ := reading_is_strict ⟨1, 7, 2⟩
  exact ⟨(haccepts _).2 hdescribes, htrailing _ _ hdescribes (by decide)⟩

end CompileCache.Sidecar
