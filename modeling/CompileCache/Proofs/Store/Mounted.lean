/-
  CompileCache.Proofs.Store.Mounted — looking up and evicting in a store with its disk.

  What was looked up is found again (`get_again`): a record that lookups move up into memory
  may be dropped there at once, but stays in the directory. After an eviction no lookup under
  the scope finds a record, whatever was stored there (`evict_none`). A store that is out of
  order does neither: it stays as it is (`Faulty.evict_cases`).
-/

import CompileCache.Proofs.Store.Opened
import CompileCache.Store.Faulty

namespace CompileCache.Store

/-! ## Looking up twice -/

namespace Opened

variable {s : Opened} {key : Key} {d : Disk} {r : Record}

/-- What memory answers after a record was promoted is that record. -/
theorem eq_of_get_promoted {m : Memory} {found : Record} (hmiss : m.get key = none)
    (h : (m.put key r).get key = some found) : found = r := by
  obtain ⟨hfiled, htag⟩ := Memory.get_eq_some_iff.1 h
  rcases Memory.of_filed?_put hfiled with ⟨-, rfl⟩ | ⟨-, hfiled⟩
  · rfl
  · have hold := Memory.get_eq_some_iff.2 ⟨hfiled, htag⟩
    rw [hmiss] at hold
    cases hold

/-- A record that was found is found again. -/
theorem get_again (hfound : ((s.get key).run d).1.1 = .ok (some r)) :
    ((((s.get key).run d).1.2.get key).run ((s.get key).run d).2).1.1 = .ok (some r) := by
  rcases get_cases s d key with ⟨m, r', -, -, hrun⟩ | ⟨dir, r', d', hdir, hget, hrun, hmiss⟩ |
    ⟨dir, found, d', -, -, hne, hrun⟩ | ⟨-, hrun⟩
  · rw [hrun] at hfound ⊢
    rw [hrun]
    exact hfound
  · obtain rfl : r' = r := by
      rw [hrun] at hfound
      simpa using hfound
    have hdirectory : ((dir.get key).run d).1 = .ok (some r') := by rw [hget]
    obtain ⟨-, -, hsame⟩ := Directory.get_found hdirectory
    obtain rfl : d' = d := by rw [← hsame, hget]
    have hdir' : (s.onMemory (·.put key r')).directory? = some dir := by
      rw [directory?_onMemory, hdir]
    rw [hrun]
    dsimp only
    rcases get_cases (s.onMemory (·.put key r')) d' key with ⟨m, found, hm, hmem, hagain⟩ |
      ⟨dir', found, d'', hd, hget', hagain, -⟩ | ⟨dir', found, d'', hd, hget', hne, -⟩ | ⟨hd, -⟩
    · rw [memory?_onMemory] at hm
      obtain ⟨m₀, hm₀, rfl⟩ := Option.map_eq_some_iff.1 hm
      rw [hagain, eq_of_get_promoted (hmiss m₀ hm₀) hmem]
    · obtain rfl : dir = dir' := by simpa [hdir'] using hd
      rw [hget] at hget'
      cases hget'
      rw [hagain]
    · obtain rfl : dir = dir' := by simpa [hdir'] using hd
      rw [hget] at hget'
      cases hget'
      exact absurd rfl (hne r')
    · rw [hdir'] at hd
      cases hd
  · rw [hrun] at hfound
    exact absurd hfound (hne r)
  · rw [hrun] at hfound
    cases hfound

end Opened

/-! ## A store and its disk -/

namespace Mounted

variable {s : Mounted} {key : Key} {r : Record}

theorem get_again (hfound : (Store.get s key).1 = .ok (some r)) :
    (Store.get (Store.get s key).2 key).1 = .ok (some r) :=
  Opened.get_again hfound

/-- Whatever was stored under the scope. -/
theorem evict_none (s : Mounted) {key other : Key} (hscope : other.scope = key.scope) (r : Record) :
    (Store.get (Store.evict s key).2 other).1 ≠ .ok (some r) := by
  intro hfound
  have hnone : Opened.Holds (fun _ => False) key (Store.evict s key).2.store
      (Store.evict s key).2.disk :=
    Opened.evict_holds_none s.store s.disk rfl
  exact (Opened.get_answer hnone hscope hfound).1

end Mounted

/-! ## A store that may be out of order -/

namespace Faulty

variable {s : Faulty} {key : Key} {r : Record}

/-- An operation that fails answers an error and does nothing; the others are done by what is
    mounted. -/
theorem attempt_cases {α : Type} (s : Faulty) (fails : Bool)
    (operation : Mounted → Except Store.Error α × Mounted) :
    fails = true ∧ s.attempt fails operation = (.error .unavailable, s) ∨
      fails = false ∧ s.attempt fails operation =
        ((operation s.mounted).1, { s with mounted := (operation s.mounted).2 }) := by
  cases fails with
  | true => exact .inl ⟨rfl, rfl⟩
  | false => exact .inr ⟨rfl, rfl⟩

theorem get_again (hfound : (Store.get s key).1 = .ok (some r)) :
    (Store.get (Store.get s key).2 key).1 = .ok (some r) := by
  have hcases : s.faults.get = true ∧ Store.get s key = (.error .unavailable, s) ∨
      s.faults.get = false ∧ Store.get s key =
        ((Store.get s.mounted key).1, { s with mounted := (Store.get s.mounted key).2 }) :=
    attempt_cases s s.faults.get (Store.get · key)
  rcases hcases with ⟨-, hget⟩ | ⟨hworks, hget⟩
  · rw [hget] at hfound
    cases hfound
  · rw [hget] at hfound ⊢
    rcases attempt_cases { s with mounted := (Store.get s.mounted key).2 } s.faults.get
      (Store.get · key) with ⟨hfails, -⟩ | ⟨-, hagain⟩
    · rw [hworks] at hfails
      cases hfails
    · exact (congrArg Prod.fst hagain).trans (Mounted.get_again hfound)

/-- An eviction leaves nothing under the scope, or the store as it was. -/
theorem evict_cases (s : Faulty) (key : Key) :
    s.faults.evict = true ∧ (Store.evict s key).2 = s ∨ s.faults.evict = false ∧
      ∀ other : Key, other.scope = key.scope → ∀ r,
        (Store.get (Store.evict s key).2 other).1 ≠ .ok (some r) := by
  have hcases : s.faults.evict = true ∧ Store.evict s key = (.error .unavailable, s) ∨
      s.faults.evict = false ∧ Store.evict s key =
        ((Store.evict s.mounted key).1, { s with mounted := (Store.evict s.mounted key).2 }) :=
    attempt_cases s s.faults.evict (Store.evict · key)
  rcases hcases with ⟨hfails, hevict⟩ | ⟨hworks, hevict⟩
  · exact .inl ⟨hfails, by rw [hevict]⟩
  · refine .inr ⟨hworks, fun other hscope r hfound => ?_⟩
    rw [hevict] at hfound
    rcases attempt_cases { s with mounted := (Store.evict s.mounted key).2 } s.faults.get
      (Store.get · other) with ⟨-, hget⟩ | ⟨-, hget⟩
    · have herror : Except.error Store.Error.unavailable = Except.ok (some r) :=
        (congrArg Prod.fst hget).symm.trans hfound
      cases herror
    · exact Mounted.evict_none s.mounted hscope r ((congrArg Prod.fst hget).symm.trans hfound)

end Faulty

end CompileCache.Store
