/-
  CompileCache.Proofs.Json.Scalars — numbers and literals are read as the grammar has them.

  A number has no end of its own. The reader takes as much as it can, and what it took is a
  number (`of_number?`); a number is taken whole if what follows does not continue it
  (`number?_append`). A number is known as a natural one when it is the decimal form of that
  number, and otherwise only as some value (`valueOf`): with a sign, a fraction or an exponent
  there is a byte in it that is no digit (`valueOf_other`), and digits that may start an integer
  are the decimal form of their number (`repr_of_isInteger`).
-/

import Mathlib.Data.List.Induction
import CompileCache.Proofs.Json.Tokens

namespace CompileCache.Json

/-! ## Numbers -/

theorem of_digits? {s ds rest : Bytes} (h : digits? s = some (ds, rest)) :
    IsDigits ds ∧ s = ds ++ rest := by
  have hsplit : s.takeWhile isDigit ++ s.dropWhile isDigit = s := List.takeWhile_append_dropWhile
  have hall : (s.takeWhile isDigit).all isDigit := List.all_takeWhile
  unfold digits? at h
  split at h
  · cases h
  · next hds =>
    cases h
    exact ⟨⟨hds, List.all_eq_true.1 hall⟩, hsplit.symm⟩

theorem digits?_append {ds rest : Bytes} (h : IsDigits ds)
    (hrest : ∀ b ∈ rest.head?, isDigit b = false) : digits? (ds ++ rest) = some (ds, rest) := by
  obtain ⟨htake, hdrop⟩ := takeWhile_digits h.2 hrest
  unfold digits?
  rw [htake, hdrop]
  split
  · exact absurd rfl h.1
  · rfl

theorem of_integer? {s ds rest : Bytes} (h : integer? s = some (ds, rest)) :
    IsInteger ds ∧ s = ds ++ rest := by
  cases s with
  | nil => cases h
  | cons b tail =>
    by_cases hb : b = zero
    · simp only [integer?, hb, if_true, Option.some.injEq, Prod.mk.injEq] at h
      obtain ⟨rfl, rfl⟩ := h
      exact ⟨.inl rfl, by rw [hb]; rfl⟩
    · simp only [integer?, hb, if_false] at h
      obtain ⟨hds, heq⟩ := of_digits? h
      refine ⟨.inr ⟨hds, ?_⟩, heq⟩
      obtain ⟨c, ds, rfl⟩ := List.exists_cons_of_ne_nil hds.1
      obtain rfl : b = c := (List.cons.inj heq).1
      simpa using hb

theorem integer?_append {ds rest : Bytes} (h : IsInteger ds)
    (hrest : ∀ b ∈ rest.head?, isDigit b = false) : integer? (ds ++ rest) = some (ds, rest) := by
  rcases h with rfl | ⟨hds, hhead⟩
  · rfl
  · have hread := digits?_append hds hrest
    obtain ⟨b, ds, rfl⟩ := List.exists_cons_of_ne_nil hds.1
    have hb : b ≠ zero := by simpa using hhead
    simp only [List.cons_append] at hread ⊢
    simp only [integer?, hb, if_false, hread]

theorem digit_of_isDigit {b : UInt8} (h : isDigit b) :
    b.toNat - 0x30 < 10 ∧ digit (b.toNat - 0x30) = b := by
  have hall : ∀ b : UInt8, isDigit b → b.toNat - 0x30 < 10 ∧ digit (b.toNat - 0x30) = b :=
    forall_byte (by decide +kernel)
  exact hall b h

theorem natOfDigits_append (ds : Bytes) (d : UInt8) :
    natOfDigits (ds ++ [d]) = 10 * natOfDigits ds + (d.toNat - 0x30) := by
  simp [natOfDigits, List.foldl_append]

/-- Digits that do not start with a zero are the decimal form of their number. -/
theorem repr_natOfDigits {ds : Bytes} (h : IsDigits ds) (hhead : ds.head? ≠ some zero) :
    Bytes.ofString (natOfDigits ds).repr = ds := by
  obtain ⟨hne, hdigits⟩ := h
  induction ds using List.reverseRecOn with
  | nil => exact absurd rfl hne
  | append_singleton init d ih =>
    obtain ⟨hlt, hd⟩ := digit_of_isDigit (hdigits d (by simp))
    rw [ofString_repr, natOfDigits_append]
    by_cases hinit : init = []
    · subst hinit
      have hzero : natOfDigits [] = 0 := rfl
      rw [hzero, if_pos (by omega)]
      simp [hd]
    · have hhead' : init.head? ≠ some zero := by
        obtain ⟨c, tail, rfl⟩ := List.exists_cons_of_ne_nil hinit
        exact hhead
      have hrepr := ih hhead' hinit fun b hb => hdigits b (List.mem_append_left _ hb)
      have hpos : natOfDigits init ≠ 0 := by
        intro hzero
        rw [hzero] at hrepr
        exact hhead' (hrepr ▸ rfl)
      have hdiv : (10 * natOfDigits init + (d.toNat - 0x30)) / 10 = natOfDigits init := by omega
      have hmod : (10 * natOfDigits init + (d.toNat - 0x30)) % 10 = d.toNat - 0x30 := by omega
      rw [if_neg (by omega), hdiv, hmod, hrepr, hd]

theorem repr_of_isInteger {ds : Bytes} (h : IsInteger ds) :
    Bytes.ofString (natOfDigits ds).repr = ds := by
  rcases h with rfl | ⟨hds, hhead⟩
  · rfl
  · exact repr_natOfDigits hds hhead

theorem isInteger_repr (n : Nat) : IsInteger (Bytes.ofString n.repr) := by
  obtain ⟨b, ds, heq, hzero⟩ := exists_repr n
  by_cases hb : b = zero
  · left
    rw [heq, hzero hb, hb]
  · right
    refine ⟨⟨by simp [heq], isDigit_repr n⟩, ?_⟩
    simpa [heq] using hb

/-- What the text of a value is read as. -/
def valueOf (core : Bytes) : Value :=
  if Bytes.ofString (natOfDigits core).repr = core then .natural (natOfDigits core) else .other

theorem valueOf_eq_natural_iff {core : Bytes} {n : Nat} :
    valueOf core = .natural n ↔ core = Bytes.ofString n.repr := by
  unfold valueOf
  constructor
  · intro h
    split at h
    · next hrepr =>
      cases h
      exact hrepr.symm
    · cases h
  · rintro rfl
    rw [natOfDigits_repr, if_pos rfl]

/-- What is not made of digits only is no natural number. -/
theorem valueOf_other {core : Bytes} {b : UInt8} (hb : b ∈ core) (hdigit : isDigit b = false) :
    valueOf core = .other := by
  unfold valueOf
  rw [if_neg]
  intro hrepr
  have hall := isDigit_repr (natOfDigits core)
  rw [hrepr] at hall
  have hb' := hall b hb
  rw [hdigit] at hb'
  cases hb'

theorem of_skipFraction? {s rest : Bytes} (h : skipFraction? s = some rest) :
    ∃ fraction, IsFraction fraction ∧ s = fraction ++ rest ∧
      (s.head? = some point → point ∈ fraction) := by
  cases s with
  | nil =>
    cases h
    exact ⟨[], .inl rfl, rfl, nofun⟩
  | cons b tail =>
    by_cases hb : b = point
    · simp only [skipFraction?, hb, if_true] at h
      obtain ⟨⟨ds, rest'⟩, hds, rfl⟩ := Option.map_eq_some_iff.1 h
      obtain ⟨hdigits, rfl⟩ := of_digits? hds
      exact ⟨point :: ds, .inr ⟨ds, hdigits, rfl⟩, by rw [hb]; rfl, fun _ => List.mem_cons_self⟩
    · simp only [skipFraction?, hb, if_false, Option.some.injEq] at h
      exact ⟨[], .inl rfl, h, fun hhead => absurd (by simpa using hhead) hb⟩

theorem of_skipExponent? {s rest : Bytes} (h : skipExponent? s = some rest) :
    ∃ exponent, IsExponent exponent ∧ s = exponent ++ rest ∧
      ∀ e, s.head? = some e → e ∈ [0x65, 0x45] → e ∈ exponent := by
  cases s with
  | nil =>
    cases h
    exact ⟨[], .inl rfl, rfl, nofun⟩
  | cons b tail =>
    by_cases hb : b = 0x65 || b = 0x45
    · simp only [skipExponent?, hb, if_true] at h
      obtain ⟨⟨ds, rest'⟩, hds, rfl⟩ := Option.map_eq_some_iff.1 h
      obtain ⟨hdigits, hskip⟩ := of_digits? hds
      obtain ⟨sign, hsign, htail⟩ : ∃ sign ∈ [[], [plus], [minus]], tail = sign ++ skipSign tail := by
        cases tail with
        | nil => exact ⟨[], by simp, rfl⟩
        | cons c tail =>
          by_cases hplus : c = plus
          · exact ⟨[plus], by simp, by simp [skipSign, hplus]⟩
          · by_cases hminus : c = minus
            · exact ⟨[minus], by simp, by simp [skipSign, hminus]⟩
            · exact ⟨[], by simp, by simp [skipSign, hplus, hminus]⟩
      refine ⟨b :: (sign ++ ds), .inr ⟨b, by simpa using hb, sign, hsign, ds, hdigits, rfl⟩, ?_,
        fun e he _ => ?_⟩
      · rw [htail, hskip]
        simp
      · obtain rfl : b = e := by simpa using he
        exact List.mem_cons_self
    · simp only [skipExponent?, hb] at h
      refine ⟨[], .inl rfl, by simpa using h, fun e he hmem => ?_⟩
      obtain rfl : b = e := by simpa using he
      exact absurd (by simpa using hmem) hb

/-- What a number may not go on with. -/
theorem EndsNumber.head? {rest : Bytes} (h : EndsNumber rest) : ∀ b ∈ rest.head?,
    isDigit b = false ∧ b ≠ point ∧ b ≠ 0x65 ∧ b ≠ 0x45 := by
  intro b hb
  refine ⟨h.1 b hb, ?_⟩
  cases rest with
  | nil => cases hb
  | cons c rest =>
    obtain rfl : c = b := by simpa using hb
    have hgoesOn := h.2
    simp only [goesOn, Bool.or_eq_false_iff, beq_eq_false_iff_ne] at hgoesOn
    exact ⟨hgoesOn.1.1, hgoesOn.1.2, hgoesOn.2⟩

theorem ne_of_isDigit {b : UInt8} (h : isDigit b) :
    b ≠ minus ∧ b ≠ plus ∧ b ≠ point ∧ b ≠ 0x65 ∧ b ≠ 0x45 := by
  have hall : ∀ b : UInt8, isDigit b → b ≠ minus ∧ b ≠ plus ∧ b ≠ point ∧ b ≠ 0x65 ∧ b ≠ 0x45 :=
    forall_byte (by decide +kernel)
  exact hall b h

theorem skipSign_append {sign ds : Bytes} (hsign : sign ∈ [[], [plus], [minus]])
    (hds : IsDigits ds) (rest : Bytes) : skipSign (sign ++ (ds ++ rest)) = ds ++ rest := by
  obtain ⟨d, ds, rfl⟩ := List.exists_cons_of_ne_nil hds.1
  obtain ⟨hminus, hplus, -⟩ := ne_of_isDigit (hds.2 d List.mem_cons_self)
  simp only [List.mem_cons, List.not_mem_nil, or_false] at hsign
  rcases hsign with rfl | rfl | rfl
  · simp [skipSign, hminus, hplus]
  · rfl
  · rfl

theorem skipExponent?_append {exponent rest : Bytes} (h : IsExponent exponent)
    (hrest : EndsNumber rest) : skipExponent? (exponent ++ rest) = some rest := by
  rcases h with rfl | ⟨e, he, sign, hsign, ds, hds, rfl⟩
  · cases rest with
    | nil => rfl
    | cons b rest =>
      obtain ⟨-, -, hlower, hupper⟩ := hrest.head? b rfl
      simp [skipExponent?, hlower, hupper]
  · have hletter : (e = 0x65 || e = 0x45) = true := by simpa using he
    have hread := digits?_append hds fun b hb => (hrest.head? b hb).1
    simp only [List.cons_append, List.append_assoc, skipExponent?, hletter, if_true,
      skipSign_append hsign hds, hread, Option.map_some]

/-- The exponent is left where it is. -/
theorem skipFraction?_append {fraction exponent rest : Bytes} (h : IsFraction fraction)
    (hexponent : IsExponent exponent) (hrest : EndsNumber rest) :
    skipFraction? (fraction ++ (exponent ++ rest)) = some (exponent ++ rest) := by
  have hhead : ∀ b ∈ (exponent ++ rest).head?, isDigit b = false ∧ b ≠ point := by
    rcases hexponent with rfl | ⟨e, he, sign, -, ds, -, rfl⟩
    · exact fun b hb => ⟨(hrest.head? b hb).1, (hrest.head? b hb).2.1⟩
    · intro b hb
      obtain rfl : e = b := by simpa using hb
      simp only [List.mem_cons, List.not_mem_nil, or_false] at he
      rcases he with rfl | rfl <;> decide
  rcases h with rfl | ⟨ds, hds, rfl⟩
  · generalize exponent ++ rest = more at hhead
    cases more with
    | nil => rfl
    | cons b more => simp [skipFraction?, (hhead b rfl).2]
  · have hread := digits?_append hds fun b hb => (hhead b hb).1
    simp only [List.cons_append, skipFraction?, if_true, hread, Option.map_some]

/-- Where a fraction or an exponent follows, the number goes on, and not with a digit. -/
theorem goesOn_append {fraction exponent rest : Bytes} (hfraction : IsFraction fraction)
    (hexponent : IsExponent exponent) (hrest : EndsNumber rest) :
    (∀ b ∈ (fraction ++ (exponent ++ rest)).head?, isDigit b = false) ∧
      (fraction = [] ∧ exponent = [] ∧ goesOn (fraction ++ (exponent ++ rest)) = false ∨
        (∃ b ∈ fraction ++ exponent, isDigit b = false) ∧
          goesOn (fraction ++ (exponent ++ rest))) := by
  rcases hfraction with rfl | ⟨ds, -, rfl⟩
  · rcases hexponent with rfl | ⟨e, he, sign, -, ds, -, rfl⟩
    · exact ⟨hrest.1, .inl ⟨rfl, rfl, hrest.2⟩⟩
    · simp only [List.mem_cons, List.not_mem_nil, or_false] at he
      rcases he with rfl | rfl
      all_goals
        refine ⟨fun b hb => ?_, .inr ⟨⟨_, List.mem_cons_self, rfl⟩, rfl⟩⟩
        cases hb
        rfl
  · refine ⟨fun b hb => ?_, .inr ⟨⟨point, List.mem_cons_self, rfl⟩, rfl⟩⟩
    cases hb
    rfl

theorem IsInteger.eq_cons {integer : Bytes} (h : IsInteger integer) :
    ∃ b ds, integer = b :: ds ∧ isDigit b := by
  rcases h with rfl | ⟨hds, -⟩
  · exact ⟨zero, [], rfl, rfl⟩
  · obtain ⟨b, ds, rfl⟩ := List.exists_cons_of_ne_nil hds.1
    exact ⟨b, ds, rfl, hds.2 b List.mem_cons_self⟩

/-- A number is read whole, if what follows does not continue it. -/
theorem number?_append {core rest : Bytes} (h : IsNumber core) (hrest : EndsNumber rest) :
    number? (core ++ rest) = some (valueOf core, rest) := by
  obtain ⟨sign, hsign, integer, fraction, exponent, hinteger, hfraction, hexponent, rfl⟩ := h
  obtain ⟨hhead, hends⟩ := goesOn_append hfraction hexponent hrest
  have hread := integer?_append hinteger hhead
  have hfractionSkip := skipFraction?_append hfraction hexponent hrest
  have hexponentSkip := skipExponent?_append hexponent hrest
  simp only [List.mem_cons, List.not_mem_nil, or_false] at hsign
  rcases hsign with rfl | rfl
  · obtain ⟨b, ds, rfl, hb⟩ := hinteger.eq_cons
    have hminus : b ≠ minus := (ne_of_isDigit hb).1
    simp only [List.nil_append, List.cons_append, List.append_assoc] at hread ⊢
    simp only [number?, hminus, if_false, hread, Option.bind_eq_bind, Option.bind_some]
    rcases hends with ⟨rfl, rfl, hstop⟩ | ⟨⟨c, hc, hdigit⟩, hgoesOn⟩
    · have hvalue : valueOf (b :: ds) = .natural (natOfDigits (b :: ds)) :=
        valueOf_eq_natural_iff.2 (repr_of_isInteger hinteger).symm
      simp only [List.nil_append, List.append_nil] at hstop ⊢
      simp [hstop, hvalue]
    · have hvalue : valueOf (b :: (ds ++ (fraction ++ exponent))) = .other :=
        valueOf_other (b := c) (by simp [List.mem_append.1 hc]) hdigit
      simp [hgoesOn, hfractionSkip, hexponentSkip, hvalue]
  · have hvalue : valueOf ([minus] ++ (integer ++ (fraction ++ exponent))) = .other :=
      valueOf_other (b := minus) List.mem_cons_self rfl
    rw [hvalue]
    simp [number?, hread, hfractionSkip, hexponentSkip]

theorem of_fraction_exponent {s mid rest : Bytes} (hfraction : skipFraction? s = some mid)
    (hexponent : skipExponent? mid = some rest) : ∃ fraction exponent, IsFraction fraction ∧
      IsExponent exponent ∧ s = fraction ++ (exponent ++ rest) ∧
      (goesOn s → ∃ b ∈ fraction ++ exponent, isDigit b = false) := by
  obtain ⟨fraction, hisFraction, rfl, hpoint⟩ := of_skipFraction? hfraction
  obtain ⟨exponent, hisExponent, rfl, hletter⟩ := of_skipExponent? hexponent
  refine ⟨fraction, exponent, hisFraction, hisExponent, rfl, fun hgoesOn => ?_⟩
  rcases hisFraction with rfl | ⟨ds, -, rfl⟩
  · simp only [List.nil_append] at hpoint hgoesOn ⊢
    cases hhead : exponent ++ rest with
    | nil =>
      rw [hhead] at hgoesOn
      cases hgoesOn
    | cons b more =>
      rw [hhead] at hpoint hletter hgoesOn
      simp only [goesOn, Bool.or_eq_true, beq_iff_eq] at hgoesOn
      rcases hgoesOn with (rfl | rfl) | rfl
      · exact absurd (hpoint rfl) (by simp)
      · exact ⟨_, hletter _ rfl (by simp), rfl⟩
      · exact ⟨_, hletter _ rfl (by simp), rfl⟩
  · exact ⟨point, List.mem_cons_self, rfl⟩

theorem of_number? {s rest : Bytes} {v : Value} (h : number? s = some (v, rest)) :
    ∃ core, IsNumber core ∧ v = valueOf core ∧ s = core ++ rest := by
  cases s with
  | nil => cases h
  | cons b tail =>
    obtain ⟨⟨integer, after⟩, hread, h⟩ := by
      simpa only [number?, Option.bind_eq_bind, Option.bind_eq_some_iff] using h
    obtain ⟨hinteger, hsplit⟩ := of_integer? hread
    obtain ⟨sign, hsign, htext, hminus⟩ : ∃ sign ∈ [[], [minus]],
        b :: tail = sign ++ (integer ++ after) ∧ (b = minus ↔ sign = [minus]) := by
      by_cases hb : b = minus
      · rw [if_pos hb] at hsplit
        exact ⟨[minus], by simp, by rw [hb, hsplit]; rfl, by simp [hb]⟩
      · rw [if_neg hb] at hsplit
        exact ⟨[], by simp, hsplit, by simp [hb]⟩
    by_cases hmore : b = minus || goesOn after
    · simp only [hmore, if_true, Option.bind_eq_some_iff] at h
      obtain ⟨mid, hfraction, rest', hexponent, h⟩ := h
      cases h
      obtain ⟨fraction, exponent, hisFraction, hisExponent, rfl, hmark⟩ :=
        of_fraction_exponent hfraction hexponent
      refine ⟨sign ++ (integer ++ (fraction ++ exponent)), ⟨sign, hsign, integer, fraction, exponent,
        hinteger, hisFraction, hisExponent, rfl⟩, Eq.symm ?_, by simp [htext]⟩
      simp only [Bool.or_eq_true, decide_eq_true_eq] at hmore
      rcases hmore with hb | hgoesOn
      · exact valueOf_other (b := minus) (by simp [hminus.1 hb]) rfl
      · obtain ⟨c, hc, hdigit⟩ := hmark hgoesOn
        exact valueOf_other (b := c) (by simp [List.mem_append.1 hc]) hdigit
    · simp only [hmore] at h
      cases h
      have hplain : sign = [] := by
        simp only [Bool.or_eq_true, decide_eq_true_eq, not_or, hminus] at hmore
        simpa [hmore.1] using hsign
      refine ⟨integer, ⟨[], by simp, integer, [], [], hinteger, .inl rfl, .inl rfl, by simp⟩, ?_,
        by simp [htext, hplain]⟩
      exact (valueOf_eq_natural_iff.2 (repr_of_isInteger hinteger).symm).symm

/-! ## Literals -/

theorem valueOf_literal {word : Bytes} (h : word ∈ literals) : valueOf word = .other := by
  have hall : ∀ word ∈ literals, valueOf word = .other := by decide +kernel
  exact hall word h

theorem literal?_append {word : Bytes} (h : word ∈ literals) (rest : Bytes) :
    literal? (word ++ rest) = some (valueOf word, rest) := by
  rw [valueOf_literal h]
  simp only [literals, List.mem_cons, List.not_mem_nil, or_false] at h
  rcases h with rfl | rfl | rfl <;> rfl

theorem of_literal? {s rest : Bytes} {v : Value} (h : literal? s = some (v, rest)) :
    ∃ word ∈ literals, v = valueOf word ∧ s = word ++ rest := by
  obtain ⟨word, hword, h⟩ := List.exists_of_findSome?_eq_some h
  split at h
  · next hprefix =>
    cases h
    obtain ⟨more, rfl⟩ := List.isPrefixOf_iff_prefix.1 hprefix
    exact ⟨word, hword, (valueOf_literal hword).symm, by simp⟩
  · cases h

end CompileCache.Json
