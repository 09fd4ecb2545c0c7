/-
  CompileCache.Proofs.Store.Room — a store that will take a record.

  A store takes a record of some size under a key (`Opened.Takes`) if the record is not too
  large for memory, nothing is in the way of its files, and, where there is no directory to find
  it in, memory keeps it: because its upkeep keeps what was filed last, or because there is
  room for the record beside all others. Others may be filed first, as long as the room that
  they take was reckoned with. Whatever else the store is asked, it will take the record still
  (`takes_get`, `takes_evict`, `takes_put`).

  Proved: a record that was put into a store that takes it is found under its key, in a store
  of any kind (`Opened.get_put`), with its disk (`Faulty.get_put`), as long as nothing of the
  store is out of order.
-/

import CompileCache.Proofs.Store.Mounted
import CompileCache.Proofs.Store.Shelf

namespace CompileCache.Store

/-! ## Stores of any kind -/

namespace Opened

/-- The store will have a record of `size` bytes that is filed under the key, once up to `others`
    bytes were filed under other keys. -/
structure Takes (key : Key) (size others : Nat) (s : Opened) (d : Disk) : Prop where
  fits : ∀ m, s.memory? = some m → size ≤ m.capacity
  kept : s.directory? = none → ∀ m, s.memory? = some m →
    m.upkeep.KeepsNewest ∨ m.HasRoom key.scope (others + size)
  free : ∀ dir, s.directory? = some dir → ∃ here, dir.Free key here d

section Takes

variable {key : Key} {size others : Nat} {s s' : Opened} {d d' : Disk}

/-- Over a directory that nobody else has touched, memory may drop what it likes. -/
theorem takes_of_shows (hfits : ∀ m, s.memory? = some m → size ≤ m.capacity)
    (hkept : s.directory? = none → ∀ m, s.memory? = some m →
      m.upkeep.KeepsNewest ∨ m.HasRoom key.scope (others + size))
    (hshows : ∀ dir, s.directory? = some dir → ∃ here shelf, dir.Shows here shelf d) :
    s.Takes key size others d := by
  refine ⟨hfits, hkept, fun dir hdir => ?_⟩
  obtain ⟨here, shelf, hdir⟩ := hshows dir hdir
  exact ⟨here, hdir.free key⟩

/-- Something is done to memory that leaves it room, and no directory is removed. -/
theorem Takes.onMemory {others' : Nat} (h : s.Takes key size others d) {f : Memory → Memory}
    (hcapacity : ∀ m, (f m).capacity = m.capacity) (hupkeep : ∀ m, (f m).upkeep = m.upkeep)
    (hroom : s.directory? = none → ∀ m : Memory, m.HasRoom key.scope (others + size) →
      (f m).HasRoom key.scope (others' + size))
    (hsame : Disk.SameDirectories d d') : (s.onMemory f).Takes key size others' d' := by
  refine ⟨fun m hm => ?_, fun hdir m hm => ?_, fun dir hdir => ?_⟩
  · rw [memory?_onMemory] at hm
    obtain ⟨m₀, hm₀, rfl⟩ := Option.map_eq_some_iff.1 hm
    rw [hcapacity]
    exact h.fits m₀ hm₀
  · rw [memory?_onMemory] at hm
    rw [directory?_onMemory] at hdir
    obtain ⟨m₀, hm₀, rfl⟩ := Option.map_eq_some_iff.1 hm
    rw [hupkeep]
    exact (h.kept hdir m₀ hm₀).imp_right (hroom hdir m₀)
  · rw [directory?_onMemory] at hdir
    obtain ⟨here, hfree⟩ := h.free dir hdir
    exact ⟨here, hfree.of_same hsame⟩

theorem takes_get (h : s.Takes key size others d) (asked : Key) :
    ((s.get asked).run d).1.2.Takes key size others ((s.get asked).run d).2 := by
  have hsame := (same_get s d asked).2
  have hidle : s.Takes key size others ((s.get asked).run d).2 := by
    refine ⟨h.fits, h.kept, fun dir hdir => ?_⟩
    obtain ⟨here, hfree⟩ := h.free dir hdir
    exact ⟨here, hfree.of_same hsame⟩
  rcases get_cases s d asked with ⟨m, r, -, -, hrun⟩ | ⟨dir, r, d', hdir, -, hrun, -⟩ |
    ⟨dir, found, d', -, -, -, hrun⟩ | ⟨-, hrun⟩
  · rw [hrun] at hidle ⊢
    exact hidle
  · rw [hrun] at hsame ⊢
    refine h.onMemory (fun m => Memory.capacity_put m asked r)
      (fun m => Memory.upkeep_put m asked r) (fun hnone => ?_) hsame
    rw [hdir] at hnone
    cases hnone
  · rw [hrun] at hidle ⊢
    exact hidle
  · rw [hrun] at hidle ⊢
    exact hidle

theorem takes_evict (h : s.Takes key size others d) (asked : Key) :
    ((s.evict asked).run d).1.2.Takes key size others ((s.evict asked).run d).2 := by
  have hstore : ((s.evict asked).run d).1.2 = s.onMemory (·.evict asked) := by
    rw [evict_run]
    cases s.directory? <;> rfl
  rw [hstore]
  exact h.onMemory (fun _ => rfl) (fun _ => rfl)
    (fun _ m hroom => hroom.of_sublist List.filter_sublist rfl) (same_evict s d asked).2

theorem takes_put {r : Record} (h : s.Takes key size (r.size + others) d) (asked : Key)
    (now : UInt64) :
    ((s.put asked r now).run d).1.2.Takes key size others ((s.put asked r now).run d).2 := by
  have hstore : ((s.put asked r now).run d).1.2 = s.onMemory (·.put asked r) := by
    rw [put_run]
    cases s.directory? <;> rfl
  rw [hstore]
  refine h.onMemory (fun m => Memory.capacity_put m asked r) (fun m => Memory.upkeep_put m asked r)
    (fun _ m hroom => ?_) (same_put s d asked r now).2
  rw [Nat.add_assoc] at hroom
  exact hroom.put asked

/-- What was put is found: in memory if it is there, or else in its files. -/
theorem get_put {r : Record} (h : s.Takes key r.size others d) (htag : r.tag = key.tag)
    (now : UInt64) :
    let filed := (s.put key r now).run d
    ((filed.1.2.get key).run filed.2).1.1 = .ok (some r) := by
  intro filed
  cases s with
  | memory m =>
    have hfiled : (m.put key r).filed? key.scope = some r := by
      rw [← Memory.intended_self key (h.fits m rfl)]
      rcases h.kept rfl m rfl with hnewest | hroom
      · exact Memory.filed?_put_newest hnewest key r
      · have hbeside : m.HasRoom key.scope r.size := by
          unfold Memory.HasRoom at hroom ⊢
          omega
        exact Memory.filed?_put_of_room hbeside key.scope
    simp [filed, put, get, Memory.get_eq_some_iff.2 ⟨hfiled, htag⟩]
  | directory dir =>
    obtain ⟨here, hfree⟩ := h.free dir rfl
    have hfound := Directory.get_put hfree r now
    simp only [filed, put, get, Plan.run_bind, Plan.run_pure, hfound]
    simp [Option.filter, htag]
  | layered l =>
    obtain ⟨here, hfree⟩ := h.free l.directory rfl
    have hfound := Directory.get_put hfree r now
    have hindirectory : (some r).filter (fun r => r.tag == key.tag) = some r := by
      simp [Option.filter, htag]
    rw [hindirectory] at hfound
    simp only [filed, put, get, Layered.put, Plan.run_bind, Plan.run_pure, layered_get_run]
    rcases l.memory.filed?_put key r key.scope with hkept | hdropped
    · rw [Memory.intended_self key (h.fits l.memory rfl)] at hkept
      rw [Memory.get_eq_some_iff.2 ⟨hkept, htag⟩]
    · have hmiss : (l.memory.put key r).get key = none := by rw [Memory.get, hdropped]; rfl
      rw [hmiss]
      generalize (l.directory.get key).run ((l.directory.put key r now).run d).2 = answer at hfound
      obtain ⟨found, d'⟩ := answer
      obtain rfl : found = .ok (some r) := hfound
      rfl

end Takes

end Opened

/-! ## A store with its disk -/

namespace Faulty

/-- The store is in order and takes a record of this size, after up to `others` bytes. -/
structure Takes (key : Key) (size others : Nat) (s : Faulty) : Prop where
  inOrder : s.faults = {}
  takes : s.mounted.store.Takes key size others s.mounted.disk

variable {key : Key} {size others : Nat} {s : Faulty}

theorem takes_get (h : s.Takes key size others) (asked : Key) :
    (Store.get s asked).2.Takes key size others := by
  have hget : (Store.get s asked).2 = { s with mounted := (Store.get s.mounted asked).2 } := by
    simp [Store.get, attempt, h.inOrder]
  rw [hget]
  exact ⟨h.inOrder, Opened.takes_get h.takes asked⟩

theorem takes_evict (h : s.Takes key size others) (asked : Key) :
    (Store.evict s asked).2.Takes key size others := by
  have hevict : (Store.evict s asked).2 = { s with mounted := (Store.evict s.mounted asked).2 } := by
    simp [Store.evict, attempt, h.inOrder]
  rw [hevict]
  exact ⟨h.inOrder, Opened.takes_evict h.takes asked⟩

theorem takes_put {r : Record} (h : s.Takes key size (r.size + others)) (asked : Key)
    (now : UInt64) : (Store.put s asked r now).2.Takes key size others := by
  have hput : (Store.put s asked r now).2 =
      { s with mounted := (Store.put s.mounted asked r now).2 } := by
    simp [Store.put, attempt, h.inOrder]
  rw [hput]
  exact ⟨h.inOrder, Opened.takes_put h.takes asked now⟩

/-- What was put into a store that takes it is found. -/
theorem get_put {r : Record} (h : s.Takes key r.size others) (htag : r.tag = key.tag) (now : UInt64) :
    (Store.get (Store.put s key r now).2 key).1 = .ok (some r) := by
  have hfound := Opened.get_put h.takes htag now
  simp only [Store.get, Store.put, attempt, h.inOrder] at hfound ⊢
  exact hfound

end Faulty

end CompileCache.Store
