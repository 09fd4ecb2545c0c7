/-
  CompileCache.Proofs.Key — keys of different resources never meet.

  A text that is preceded by its length can be split off the front of whatever follows it
  (`counted_append_inj`): the length is told apart first, and it says where the text stops. So
  it does no harm if a part looks like the length and the text of the next one. Three parts in
  a row can be split off likewise (`scope_append_inj`).

  Proved: two resources have one scope only if they are the same resource, no scope goes on
  where another one ends, and apart from its tag there is nothing more to a key
  (`ofResource_eq_iff`). The length must fit into its eight bytes.
-/

import CompileCache.Key

namespace CompileCache

namespace Bytes

theorem ofString_injective {s t : String} (h : ofString s = ofString t) : s = t := by
  unfold ofString at h
  apply String.toByteArray_inj.1
  apply ByteArray.ext
  exact Array.toList_inj.1 h

/-- Numbers that fit are told apart by their bytes. -/
theorem littleEndian_injective {width m n : Nat} (hm : m < limit width) (hn : n < limit width)
    (h : littleEndian width m = littleEndian width n) : m = n := by
  have hread := congrArg ofLittleEndian h
  rwa [ofLittleEndian_littleEndian, ofLittleEndian_littleEndian, Nat.mod_eq_of_lt hm,
    Nat.mod_eq_of_lt hn] at hread

end Bytes

namespace Key

/-- The length of the text fits into the bytes that it is given. -/
def Short (s : String) : Prop := (Bytes.ofString s).length < Bytes.limit 8

theorem short_iff (s : String) : Short s ↔ (Bytes.ofString s).length < UInt64.size := Iff.rfl

theorem counted_append_inj {s t : String} (hs : Short s) (ht : Short t) {a b : Bytes}
    (h : counted s ++ a = counted t ++ b) : s = t ∧ a = b := by
  unfold counted at h
  rw [List.append_assoc, List.append_assoc] at h
  obtain ⟨hcount, hrest⟩ := List.append_inj h (by simp)
  have hlength : (Bytes.ofString s).length = (Bytes.ofString t).length :=
    Bytes.littleEndian_injective hs ht hcount
  obtain ⟨htext, hmore⟩ := List.append_inj hrest hlength
  exact ⟨Bytes.ofString_injective htext, hmore⟩

section Resources

variable {tag tag' : UInt32} {url url' origin origin' : String} {name name' : Option String}

theorem scope_append_inj
    (hshort : ∀ s ∈ [url, url', origin, origin', name.getD "", name'.getD ""], Short s)
    {a b : Bytes}
    (h : (ofResource tag url origin name).scope ++ a =
      (ofResource tag' url' origin' name').scope ++ b) :
    (url = url' ∧ origin = origin' ∧ name.getD "" = name'.getD "") ∧ a = b := by
  simp only [List.forall_mem_cons] at hshort
  obtain ⟨hurl, hurl', horigin, horigin', hname, hname', -⟩ := hshort
  simp only [ofResource, List.append_assoc] at h
  obtain ⟨hurls, h⟩ := counted_append_inj hurl hurl' h
  obtain ⟨horigins, h⟩ := counted_append_inj horigin horigin' h
  obtain ⟨hnames, hrest⟩ := counted_append_inj hname hname' h
  exact ⟨⟨hurls, horigins, hnames⟩, hrest⟩

end Resources

/-- Keys of two resources whose texts are each shorter than 2^64 bytes. -/
theorem ofResource_eq_iff (tag tag' : UInt32) (url url' origin origin' : String)
    (name name' : Option String)
    (hshort : ∀ s ∈ [url, url', origin, origin', name.getD "", name'.getD ""],
      (Bytes.ofString s).length < UInt64.size) :
    let k := ofResource tag url origin name
    let k' := ofResource tag' url' origin' name'
    let same := url = url' ∧ origin = origin' ∧ name.getD "" = name'.getD ""
    (k.scope = k'.scope ↔ same) ∧
    -- No scope is the beginning of another one.
    (k.scope <+: k'.scope → k.scope = k'.scope) ∧
    (k = k' ↔ same ∧ tag = tag') := by
  intro k k' same
  have hapart : ∀ {a b : Bytes}, k.scope ++ a = k'.scope ++ b → same ∧ a = b :=
    fun h => scope_append_inj (fun s hs => (short_iff s).2 (hshort s hs)) h
  have hscope : k.scope = k'.scope ↔ same := by
    constructor
    · intro h
      exact (hapart (a := []) (b := []) (by rw [h])).1
    · rintro ⟨hurl, horigin, hname⟩
      simp only [k, k', ofResource, hurl, horigin, hname]
  refine ⟨hscope, ?_, ?_⟩
  · rintro ⟨more, hmore⟩
    obtain ⟨hsame, -⟩ := hapart (b := []) (by rw [hmore, List.append_nil])
    exact hscope.2 hsame
  · rw [Key.mk.injEq, and_comm]
    exact and_congr_left fun _ => hscope

/-- The one URL goes on with what follows the other one: the length of an origin, and the
    origin. -/
theorem ofResource_eq_iff_of_lookalike :
    let url := "https://a.test"
    let url' := "https://a.test\x01\x00\x00\x00\x00\x00\x00\x00b"
    let k := ofResource 2 url "b" none
    let k' := ofResource 2 url' "" (some "")
    (∀ s ∈ [url, url', "b", "", none.getD "", (some "").getD ""],
      (Bytes.ofString s).length < UInt64.size) ∧
    k.scope ≠ k'.scope ∧ ¬ k.scope <+: k'.scope ∧ k ≠ k' := by
  intro url url' k k'
  have hshort : ∀ s ∈ [url, url', "b", "", none.getD "", (some "").getD ""],
      (Bytes.ofString s).length < UInt64.size := by decide
  obtain ⟨hscope, hbegins, hkey⟩ :=
    ofResource_eq_iff 2 2 url url' "b" "" none (some "") hshort
  have horigin : "b" ≠ "" := by decide
  have hne : k.scope ≠ k'.scope := fun h => horigin (hscope.1 h).2.1
  exact ⟨hshort, hne, fun h => hne (hbegins h), fun h => horigin (hkey.1 h).1.2.1⟩

end Key

end CompileCache
