/-
  CompileCache.Proofs.Store.Opening — opening a store where there is one already.

  A store is opened in a place, or in none. Opening it makes the directories of the place, and
  what was in memory is forgotten (`openStore_opens`). If the directory there can be entered,
  opening changes nothing on the disk (`openStore_fresh`), and which store it is depends on
  nothing in the directory (`openStore_same`).
-/

import CompileCache.Proofs.Disk.Plan
import CompileCache.Store.Opened

namespace CompileCache.Store

/-- Where the files go of a store that is opened. -/
def Spec.place : Spec → Option Path
  | memory _ => none
  | directory path => some path
  | layered path _ => some path
  | configured settings => if settings.enabled then settings.directory else none

/-- Where the store keeps its files. -/
def Opened.place (s : Opened) : Option Path := s.directory?.map (·.path)

theorem Memory.entries_of_empty? {upkeep : Upkeep} {capacity : Nat} {m : Memory}
    (h : Memory.empty? upkeep capacity = some m) : m.entries = [] := by
  unfold Memory.empty? at h
  split at h
  · cases h
    rfl
  · cases h

theorem Spec.entries_of_openMemory {upkeep : Upkeep} {capacity : Nat} {m : Memory}
    (h : Spec.openMemory upkeep capacity = .ok m) : m.entries = [] := by
  unfold Spec.openMemory at h
  split at h
  · cases h
  · next s hs =>
    cases h
    exact Memory.entries_of_empty? hs

theorem Directory.create_eq (path : Path) (d : Disk) : (Directory.create path).run d =
    (match ((Plan.makeDirectories path).run d).1 with
      | .ok _ => .ok ⟨path⟩
      | .error e => .error (.io path e), ((Plan.makeDirectories path).run d).2) := by
  simp only [Directory.create, Plan.run_bind]
  cases ((Plan.makeDirectories path).run d).1 <;> rfl

theorem Directory.run_create {path : Path} {d : Disk} {here : Location} (h : d.enter path = .ok here) :
    (Directory.create path).run d = (.ok ⟨path⟩, d) := by
  rw [Directory.create_eq, Plan.run_makeDirectories h]

/-- Whatever is made of a directory, it is made of this one. -/
theorem Directory.eq_of_create {path : Path} {d : Disk} {f : Directory → Opened} {s : Opened}
    (h : (((Directory.create path).run d).1.map fun dir => some (f dir)) = .ok (some s)) :
    s = f ⟨path⟩ := by
  rw [Directory.create_eq] at h
  dsimp only at h
  split at h
  · cases h
    rfl
  · cases h

theorem ok_of_mapError {α β γ : Type} {answer : Except α γ} {f : α → β} {a : γ}
    (h : answer.mapError f = .ok a) : answer = .ok a := by
  cases answer with
  | error e => cases h
  | ok b =>
    cases h
    rfl

/-- A store that has just been opened: in its place, and with nothing in memory. -/
def Opened.Fresh (place : Option Path) (s : Opened) : Prop :=
  s.place = place ∧ ∀ m, s.memory? = some m → m.entries = []

theorem fresh_inDirectory {memory : Option Memory} (h : ∀ m, memory = some m → m.entries = [])
    (path : Path) : (inDirectory memory ⟨path⟩).Fresh (some path) := by
  cases memory with
  | none => exact ⟨rfl, fun m hm => by cases hm⟩
  | some m₀ =>
    refine ⟨rfl, fun m hm => ?_⟩
    cases hm
    exact h _ rfl

/-- Between the two, the directories of the place were made, or nothing was done. -/
def MadeAt (place : Option Path) (d d' : Disk) : Prop :=
  d' = d ∨ ∃ path, place = some path ∧ d' = ((Plan.makeDirectories path).run d).2

theorem openConfigured_opens (upkeep : Upkeep) (settings : CacheSettings) (d : Disk) :
    MadeAt (Spec.configured settings).place d ((openConfigured upkeep settings).run d).2 ∧
      ∀ s, ((openConfigured upkeep settings).run d).1 = .ok (some s) →
        s.Fresh (Spec.configured settings).place := by
  by_cases henabled : settings.enabled
  · simp only [Spec.place, henabled, if_true]
    simp only [openConfigured, henabled, Bool.not_true, Bool.false_eq_true, if_false]
    cases hp : settings.directory with
    | none =>
      refine ⟨.inl rfl, fun s hs => ?_⟩
      simp only [Plan.run_pure, Except.ok.injEq] at hs
      obtain ⟨m, hm, rfl⟩ := Option.map_eq_some_iff.1 hs
      refine ⟨rfl, fun m' hm' => ?_⟩
      cases hm'
      exact Memory.entries_of_empty? hm
    | some path =>
      simp only [Plan.run_bind, Plan.run_pure]
      refine ⟨.inr ⟨path, rfl, congrArg Prod.snd (Directory.create_eq path d)⟩, fun s hs => ?_⟩
      rw [Directory.eq_of_create hs]
      exact fresh_inDirectory (fun m => Memory.entries_of_empty?) path
  · simp only [openConfigured, henabled]
    exact ⟨.inl rfl, fun s hs => by cases hs⟩

/-- Opening a store makes the directories of its place; the store has nothing in memory. -/
theorem openStore_opens (upkeep : Upkeep) (spec : Spec) (d : Disk) :
    MadeAt spec.place d ((spec.openStore upkeep).run d).2 ∧
      ∀ s, ((spec.openStore upkeep).run d).1 = .ok (some s) → s.Fresh spec.place := by
  cases spec with
  | memory capacity =>
    refine ⟨.inl rfl, fun s hs => ?_⟩
    simp only [Spec.openStore, Plan.run_pure] at hs
    cases hm : Spec.openMemory upkeep capacity with
    | error e =>
      rw [hm] at hs
      cases hs
    | ok m =>
      rw [hm] at hs
      cases hs
      refine ⟨rfl, fun m' hm' => ?_⟩
      cases hm'
      exact Spec.entries_of_openMemory hm
  | directory path =>
    simp only [Spec.openStore, Plan.run_bind, Plan.run_pure]
    refine ⟨.inr ⟨path, rfl, congrArg Prod.snd (Directory.create_eq path d)⟩, fun s hs => ?_⟩
    rw [Directory.eq_of_create (ok_of_mapError hs)]
    exact ⟨rfl, fun m hm => by cases hm⟩
  | layered path capacity =>
    simp only [Spec.openStore]
    cases hm : Spec.openMemory upkeep capacity with
    | error e => exact ⟨.inl rfl, fun s hs => by cases hs⟩
    | ok m =>
      simp only [Plan.run_bind, Plan.run_pure]
      refine ⟨.inr ⟨path, rfl, congrArg Prod.snd (Directory.create_eq path d)⟩, fun s hs => ?_⟩
      rw [Directory.eq_of_create (ok_of_mapError hs)]
      refine ⟨rfl, fun m' hm' => ?_⟩
      cases hm'
      exact Spec.entries_of_openMemory hm
  | configured settings =>
    obtain ⟨hdisk, hfresh⟩ := openConfigured_opens upkeep settings d
    simp only [Spec.openStore, Plan.run_bind, Plan.run_pure]
    exact ⟨hdisk, fun s hs => hfresh s (ok_of_mapError hs)⟩

theorem openStore_fresh (upkeep : Upkeep) (spec : Spec) {d : Disk}
    (h : ∀ p, spec.place = some p → ∃ here, d.enter p = .ok here) :
    ((spec.openStore upkeep).run d).2 = d ∧
      ∀ s, ((spec.openStore upkeep).run d).1 = .ok (some s) → s.Fresh spec.place := by
  obtain ⟨hdisk, hfresh⟩ := openStore_opens upkeep spec d
  refine ⟨?_, hfresh⟩
  rcases hdisk with hsame | ⟨path, hplace, hmade⟩
  · exact hsame
  · obtain ⟨here, hin⟩ := h path hplace
    rw [hmade, Plan.run_makeDirectories hin]

/-- Whatever is in the directory, the same store is opened there. -/
theorem openStore_same (upkeep : Upkeep) (spec : Spec) {d d' : Disk}
    (h : ∀ p, spec.place = some p → ∃ here, d.enter p = .ok here)
    (h' : ∀ p, spec.place = some p → ∃ here, d'.enter p = .ok here) :
    ((spec.openStore upkeep).run d').1 = ((spec.openStore upkeep).run d).1 := by
  have hcreate : ∀ p, spec.place = some p →
      ((Directory.create p).run d').1 = ((Directory.create p).run d).1 := by
    intro p hp
    obtain ⟨here, hin⟩ := h p hp
    obtain ⟨here', hin'⟩ := h' p hp
    rw [Directory.run_create hin, Directory.run_create hin']
  cases spec with
  | memory capacity => rfl
  | directory path => simp only [Spec.openStore, Plan.run_bind, Plan.run_pure, hcreate path rfl]
  | layered path capacity =>
    simp only [Spec.openStore]
    cases Spec.openMemory upkeep capacity with
    | error e => rfl
    | ok m => simp only [Plan.run_bind, Plan.run_pure, hcreate path rfl]
  | configured settings =>
    simp only [Spec.openStore, Plan.run_bind, Plan.run_pure, openConfigured]
    by_cases henabled : settings.enabled
    · simp only [henabled, Bool.not_true, Bool.false_eq_true, if_false]
      cases hp : settings.directory with
      | none => rfl
      | some path =>
        have hplace : (Spec.configured settings).place = some path := by
          rw [Spec.place, if_pos henabled, hp]
        simp only [Plan.run_bind, Plan.run_pure, hcreate path hplace]
    · simp [henabled]

end CompileCache.Store
