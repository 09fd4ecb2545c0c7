/-
  CompileCache.Proofs.Store.Memory — what is filed under a scope in memory.

  Every operation is described by what `filed?` answers afterwards, scope by scope. A record
  that does not fit changes nothing. One that fits is meant to take the place of what was filed
  (`intended`); it may be dropped at once, and others may be dropped for it (`filed?_put`).
  With room for everything nothing is dropped (`filed?_put_of_room`).
-/

import CompileCache.Proofs.Disk
import CompileCache.Store.Memory

namespace CompileCache.Store

/-- What was filed last stays, if it fits by itself. -/
def Upkeep.KeepsNewest (u : Upkeep) : Prop :=
  ∀ {capacity : Nat} (scope : Bytes) (r : Record) (entries : List (Bytes × Record)),
    r.size ≤ capacity → u.keeps capacity ((scope, r) :: entries) scope = true

theorem Upkeep.oldestFirst_keepsNewest : Upkeep.oldestFirst.KeepsNewest := by
  intro capacity scope r entries hfits
  simp [oldestFirst, fitting, hfits]

theorem bytesIn_le_of_sublist {entries entries' : List (Bytes × Record)}
    (h : entries.Sublist entries') : bytesIn entries ≤ bytesIn entries' := by
  induction h with
  | slnil => exact Nat.le_refl _
  | cons e _ ih =>
    simp only [bytesIn] at ih ⊢
    omega
  | cons_cons e _ ih =>
    simp only [bytesIn] at ih ⊢
    omega

namespace Memory

/-- There is room for so many bytes beside what is filed under other scopes. -/
def HasRoom (s : Memory) (scope : Bytes) (size : Nat) : Prop :=
  bytesIn (s.entries.filter fun e => e.1 ≠ scope) + size ≤ s.capacity

variable {s : Memory} {key : Key} {scope : Bytes} {r : Record}

theorem filed?_erase (s : Memory) (scope other : Bytes) :
    (s.erase scope).filed? other = if other = scope then none else s.filed? other := by
  have hlookup := lookup_filter_fst (fun l => decide (l ≠ scope)) s.entries other
  simp only [filed?, erase, hlookup]
  by_cases h : other = scope <;> simp [h]

theorem filed?_insert (s : Memory) (scope other : Bytes) (r : Record) :
    (s.insert scope r).filed? other = if other = scope then some r else s.filed? other := by
  by_cases h : other = scope
  · subst h
    simp [filed?, insert]
  · have hne : (other == scope) = false := by simpa using h
    have herase := filed?_erase s scope other
    rw [if_neg h] at herase ⊢
    rw [← herase]
    simp [filed?, insert, List.lookup_cons, hne]

theorem filed?_evict (s : Memory) (key : Key) (scope : Bytes) :
    (s.evict key).filed? scope = if scope = key.scope then none else s.filed? scope :=
  filed?_erase s key.scope scope

/-! ## Dropping records -/

theorem filed?_forget_eq (s : Memory) (gone : Bytes → Bool) (scope : Bytes) :
    (s.forget gone).filed? scope = if gone scope then none else s.filed? scope := by
  have hlookup := lookup_filter_fst (fun l => !gone l) s.entries scope
  rw [filed?, forget, hlookup]
  cases gone scope <;> rfl

theorem filed?_forget (gone : Bytes → Bool) (h : (s.forget gone).filed? scope = some r) :
    s.filed? scope = some r := by
  rw [filed?_forget_eq] at h
  split at h
  · cases h
  · exact h

theorem relieve_of_room (h : bytesIn s.entries ≤ s.capacity) : s.relieve = s := by
  have hall : ∀ e ∈ s.entries, (!!s.upkeep.keeps s.capacity s.entries e.1) = true := by
    simpa using s.upkeep.keeps_of_room h
  rw [relieve, forget, List.filter_eq_self.2 hall]

/-! ## Filing -/

/-- What is meant to be filed under a scope once a record was put. -/
def intended (s : Memory) (key : Key) (r : Record) (scope : Bytes) : Option Record :=
  if scope = key.scope ∧ r.size ≤ s.capacity then some r else s.filed? scope

theorem intended_self (key : Key) (hfits : r.size ≤ s.capacity) :
    s.intended key r key.scope = some r := if_pos ⟨rfl, hfits⟩

theorem intended_elsewhere (r : Record) (h : scope ≠ key.scope) :
    s.intended key r scope = s.filed? scope := if_neg fun hc => h hc.1

theorem put_of_large (h : s.capacity < r.size) : s.put key r = s := if_pos h

theorem filed?_put_of_large (h : s.capacity < r.size) (scope : Bytes) :
    (s.put key r).filed? scope = s.intended key r scope := by
  rw [put_of_large h, intended, if_neg (by omega)]

theorem put_of_fits (h : r.size ≤ s.capacity) : s.put key r = (s.insert key.scope r).relieve :=
  if_neg (by omega)

theorem filed?_insert_of_fits (h : r.size ≤ s.capacity) (scope : Bytes) :
    (s.insert key.scope r).filed? scope = s.intended key r scope := by
  rw [filed?_insert, intended]
  simp only [h, and_true]

/-- What was meant to be filed is, or it was dropped at once. -/
theorem filed?_put (s : Memory) (key : Key) (r : Record) (scope : Bytes) :
    (s.put key r).filed? scope = s.intended key r scope ∨ (s.put key r).filed? scope = none := by
  by_cases hfits : r.size ≤ s.capacity
  · rw [put_of_fits hfits, relieve, filed?_forget_eq, filed?_insert_of_fits hfits]
    split
    · exact .inr rfl
    · exact .inl rfl
  · exact .inl (filed?_put_of_large (by omega) scope)

/-- What is filed after a record was put is that record, or was filed before. -/
theorem of_filed?_put {found : Record} (h : (s.put key r).filed? scope = some found) :
    scope = key.scope ∧ found = r ∨
      (scope = key.scope → s.capacity < r.size) ∧ s.filed? scope = some found := by
  rcases s.filed?_put key r scope with hput | hnone
  · rw [hput, intended] at h
    split at h
    · next hnew => exact .inl ⟨hnew.1, (Option.some.inj h).symm⟩
    · next hold =>
      refine .inr ⟨fun hscope => ?_, h⟩
      have hlarge : ¬ r.size ≤ s.capacity := fun hfits => hold ⟨hscope, hfits⟩
      omega
  · rw [hnone] at h
    cases h

theorem HasRoom.fits {size : Nat} (h : s.HasRoom scope size) : size ≤ s.capacity := by
  unfold HasRoom at h
  omega

theorem put_of_room (h : s.HasRoom key.scope r.size) : s.put key r = s.insert key.scope r := by
  have hroom : bytesIn (s.insert key.scope r).entries ≤ s.capacity := by
    simpa [HasRoom, bytesIn, insert, erase, Nat.add_comm] using h
  rw [put_of_fits h.fits]
  exact relieve_of_room hroom

theorem filed?_put_of_room (h : s.HasRoom key.scope r.size) (scope : Bytes) :
    (s.put key r).filed? scope = s.intended key r scope := by
  rw [put_of_room h, filed?_insert_of_fits h.fits]

theorem filed?_put_newest (h : s.upkeep.KeepsNewest) (key : Key) (r : Record) :
    (s.put key r).filed? key.scope = s.intended key r key.scope := by
  by_cases hfits : r.size ≤ s.capacity
  · have hkeeps : (s.insert key.scope r).upkeep.keeps (s.insert key.scope r).capacity
        (s.insert key.scope r).entries key.scope = true := h key.scope r _ hfits
    rw [put_of_fits hfits, relieve, filed?_forget_eq, hkeeps, filed?_insert_of_fits hfits]
    rfl
  · exact filed?_put_of_large (by omega) key.scope

/-! ## Room -/

theorem HasRoom.of_sublist {s' : Memory} {size : Nat} (h : s.HasRoom scope size)
    (hentries : s'.entries.Sublist s.entries) (hcapacity : s'.capacity = s.capacity) :
    s'.HasRoom scope size := by
  have hfewer := bytesIn_le_of_sublist (hentries.filter fun e => decide (e.1 ≠ scope))
  unfold HasRoom at h ⊢
  omega

/-- Filing takes no more room than the record has bytes. -/
theorem HasRoom.put {size : Nat} (h : s.HasRoom scope (r.size + size)) (key : Key) :
    (s.put key r).HasRoom scope size := by
  unfold Memory.put
  split
  · unfold HasRoom at h ⊢
    omega
  · have hinsert : (s.insert key.scope r).HasRoom scope size := by
      have hfewer := bytesIn_le_of_sublist
        ((List.filter_sublist (p := fun e => decide (e.1 ≠ key.scope)) (l := s.entries)).filter
          fun e => decide (e.1 ≠ scope))
      unfold HasRoom at h ⊢
      simp only [insert, erase, List.filter_cons] at h hfewer ⊢
      split
      · simp only [bytesIn]
        omega
      · omega
    exact hinsert.of_sublist List.filter_sublist rfl

theorem get_eq_some_iff : s.get key = some r ↔ s.filed? key.scope = some r ∧ r.tag = key.tag := by
  rw [get, Option.filter_eq_some_iff]
  simp

@[simp] theorem capacity_put (s : Memory) (key : Key) (r : Record) :
    (s.put key r).capacity = s.capacity := by
  unfold put
  split <;> rfl

@[simp] theorem upkeep_put (s : Memory) (key : Key) (r : Record) :
    (s.put key r).upkeep = s.upkeep := by
  unfold put
  split <;> rfl

end Memory

end CompileCache.Store
