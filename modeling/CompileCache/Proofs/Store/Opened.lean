/-
  CompileCache.Proofs.Store.Opened — what can be found under a scope, in any kind of store.

  A store and its disk hold records of one kind only under a scope (`Holds`) if memory has no
  other filed there and the record file, should there be one, reads as no other. Lookups
  answer only such records (`get_answer`). Looking up, evicting, dropping records and whatever
  is done under other scopes keep it so (`get_holds`, `evict_holds`, `put_holds`,
  `holds_onMemory`), as long as other scopes have other file names.

  An eviction leaves no record (`evict_holds_none`). A record that was filed without an error
  is the only one afterwards, unless memory has turned it away and has another (`put_holds_new`).
-/

import CompileCache.Proofs.Record
import CompileCache.Proofs.Store.Directory
import CompileCache.Proofs.Store.Memory
import CompileCache.Store.Opened

namespace CompileCache.Store

/-- File names tell the scopes of these two keys apart. -/
def Apart (a b : Key) : Prop := a.fileName = b.fileName → a.scope = b.scope

theorem Directory.nameFor_congr {a b : Key} (h : a.scope = b.scope) (extension : String) :
    Directory.nameFor a extension = Directory.nameFor b extension := by
  simp [Directory.nameFor, Key.fileName, h]

namespace Opened

/-- Under the scope of `k` there are no records but those of one kind. -/
structure Holds (A : Record → Prop) (k : Key) (s : Opened) (d : Disk) : Prop where
  memory : ∀ m r, s.memory? = some m → m.filed? k.scope = some r → A r
  directory : ∀ dir here bytes r, s.directory? = some dir → d.enter dir.path = .ok here →
    d.get? (here ++ [Directory.binName k]) = some (.file bytes) → Record.ofBytes bytes = .ok r → A r

theorem onMemory_id (s : Opened) : s.onMemory id = s := by
  cases s <;> rfl

/-! ## The operations by layers -/

/-- What a lookup in layers does, by the answers of the two layers. -/
theorem layered_get_run (s : Layered) (key : Key) (d : Disk) :
    (s.get key).run d =
      match s.memory.get key, (s.directory.get key).run d with
      | some r, _ => ((.ok (some r), s), d)
      | none, (.ok (some r), d') => ((.ok (some r), { s with memory := s.memory.put key r }), d')
      | none, (found, d') => ((found, s), d') := by
  cases hm : s.memory.get key with
  | some r => simp only [Layered.get, hm, Plan.run_pure]
  | none =>
    simp only [Layered.get, hm, Plan.run_bind]
    generalize (s.directory.get key).run d = answer
    obtain ⟨(e | _ | r), d'⟩ := answer <;> rfl

section Layers

variable (s : Opened) (d : Disk) (key : Key) (r : Record) (now : UInt64)

/-- What a lookup comes to: memory answers, the directory has a record, or neither. -/
theorem get_cases :
    (∃ m r, s.memory? = some m ∧ m.get key = some r ∧ (s.get key).run d = ((.ok (some r), s), d)) ∨
    (∃ dir r d', s.directory? = some dir ∧ (dir.get key).run d = (.ok (some r), d') ∧
      (s.get key).run d = ((.ok (some r), s.onMemory (·.put key r)), d') ∧
      ∀ m, s.memory? = some m → m.get key = none) ∨
    (∃ dir found d', s.directory? = some dir ∧ (dir.get key).run d = (found, d') ∧
      (∀ r, found ≠ .ok (some r)) ∧ (s.get key).run d = ((found, s), d')) ∨
    s.directory? = none ∧ (s.get key).run d = ((.ok none, s), d) := by
  cases s with
  | memory m =>
    cases hm : m.get key with
    | some r => exact .inl ⟨m, r, rfl, hm, by simp [get, hm]⟩
    | none => exact .inr (.inr (.inr ⟨rfl, by simp [get, hm]⟩))
  | directory dir =>
    simp only [get, Plan.run_bind, Plan.run_pure]
    generalize hfound : (dir.get key).run d = answer
    obtain ⟨(e | _ | r), d'⟩ := answer
    · exact .inr (.inr (.inl ⟨dir, _, d', rfl, hfound, by simp, rfl⟩))
    · exact .inr (.inr (.inl ⟨dir, _, d', rfl, hfound, by simp, rfl⟩))
    · exact .inr (.inl ⟨dir, r, d', rfl, hfound, rfl, by simp [memory?]⟩)
  | layered s =>
    simp only [get, Plan.run_bind, Plan.run_pure, layered_get_run]
    cases hm : s.memory.get key with
    | some r => exact .inl ⟨s.memory, r, rfl, hm, rfl⟩
    | none =>
      generalize hfound : (s.directory.get key).run d = answer
      obtain ⟨(e | _ | r), d'⟩ := answer
      · exact .inr (.inr (.inl ⟨s.directory, _, d', rfl, hfound, by simp, rfl⟩))
      · exact .inr (.inr (.inl ⟨s.directory, _, d', rfl, hfound, by simp, rfl⟩))
      · exact .inr (.inl ⟨s.directory, r, d', rfl, hfound, rfl, by simp [memory?, hm]⟩)

@[simp] theorem directory?_onMemory (f : Memory → Memory) :
    (s.onMemory f).directory? = s.directory? := by
  cases s <;> rfl

@[simp] theorem memory?_onMemory (f : Memory → Memory) :
    (s.onMemory f).memory? = s.memory?.map f := by
  cases s <;> rfl

theorem evict_run : (s.evict key).run d =
    match s.directory? with
    | some dir => ((((dir.evict key).run d).1, s.onMemory (·.evict key)), ((dir.evict key).run d).2)
    | none => ((.ok (), s.onMemory (·.evict key)), d) := by
  cases s <;> simp [evict, Layered.evict, directory?, onMemory]

theorem put_run : (s.put key r now).run d =
    match s.directory? with
    | some dir =>
      ((((dir.put key r now).run d).1, s.onMemory (·.put key r)), ((dir.put key r now).run d).2)
    | none => ((.ok (), s.onMemory (·.put key r)), d) := by
  cases s <;> simp [put, Layered.put, directory?, onMemory]

end Layers

/-! ## What is held -/

section Holds

variable {A : Record → Prop} {k key : Key} {s : Opened} {d : Disk} {r : Record}

theorem Holds.onMemory (h : Holds A k s d) {f : Memory → Memory}
    (hf : ∀ m r, s.memory? = some m → (f m).filed? k.scope = some r → A r) :
    Holds A k (s.onMemory f) d := by
  refine ⟨fun m r hm hr => ?_, by simpa using h.directory⟩
  rw [memory?_onMemory] at hm
  obtain ⟨m₀, hm₀, rfl⟩ := Option.map_eq_some_iff.1 hm
  exact hf m₀ r hm₀ hr

/-- Dropping records only loses records. -/
theorem holds_onMemory (h : Holds A k s d) {f : Memory → Memory}
    (hf : ∀ m r, (f m).filed? k.scope = some r → m.filed? k.scope = some r) :
    Holds A k (s.onMemory f) d :=
  h.onMemory fun m r hm hr => h.memory m r hm (hf m r hr)

theorem Holds.clears {α : Type} (h : Holds A k s d) {dir : Directory}
    (hdir : s.directory? = some dir) {plan : Plan α} (hplan : plan.Within (Directory.Clears dir key)) :
    Holds A k s (plan.run d).2 := by
  refine ⟨h.memory, fun dir' here bytes r hdir' hin hfile hr => ?_⟩
  obtain rfl : dir = dir' := by simpa [hdir] using hdir'
  have hbefore := Plan.enter_of_run (fun _ => Directory.isName_of_mem_names)
    (Plan.within_mono hplan fun _ hc => hc.1) hin
  have hunlinks := Plan.run_unlinks (Plan.within_mono hplan fun _ hc => hc.2) d _ bytes hfile
  exact h.directory dir here bytes r hdir hbefore hunlinks hr

theorem Holds.others {α : Type} (h : Holds A k s d) {dir : Directory}
    (hdir : s.directory? = some dir) {plan : Plan α}
    (hplan : plan.Within (Disk.Change.Among dir.path (Directory.names key)))
    (hname : key.fileName ≠ k.fileName) : Holds A k s (plan.run d).2 := by
  refine ⟨h.memory, fun dir' here bytes r hdir' hin hfile hr => ?_⟩
  obtain rfl : dir = dir' := by simpa [hdir] using hdir'
  have hbefore := Plan.enter_of_run (fun _ => Directory.isName_of_mem_names) hplan hin
  have honly := Plan.run_onlyAt (fun _ => Directory.isName_of_mem_names) hplan hbefore
  have helse : ∀ name ∈ Directory.names key,
      here ++ [Directory.binName k] ≠ here ++ [name] := by
    intro name hmem heq
    have hsame : Directory.binName k = name := by simpa using heq
    exact Directory.not_mem_names hname hmem (hsame ▸ Directory.binName_mem k)
  rw [honly.elsewhere _ helse] at hfile
  exact h.directory dir here bytes r hdir hbefore hfile hr

/-- A lookup answers what is held, and only under the record's own tag. -/
theorem get_answer (h : Holds A k s d) (hk : key.scope = k.scope)
    (hfound : ((s.get key).run d).1.1 = .ok (some r)) : A r ∧ r.tag = key.tag := by
  rcases get_cases s d key with ⟨m, r', hm, hget, hrun⟩ | ⟨dir, r', d', hdir, hget, hrun, -⟩ |
    ⟨dir, found, d', hdir, hget, hne, hrun⟩ | ⟨-, hrun⟩
  · rw [hrun] at hfound
    cases hfound
    obtain ⟨hfiled, htag⟩ := Memory.get_eq_some_iff.1 hget
    exact ⟨h.memory m r hm (hk ▸ hfiled), htag⟩
  · rw [hrun] at hfound
    cases hfound
    have hdirectory : ((dir.get key).run d).1 = .ok (some r) := by rw [hget]
    obtain ⟨⟨here, bytes, hin, hfile, hr⟩, htag, -⟩ := Directory.get_found hdirectory
    rw [Directory.binName, Directory.nameFor_congr hk] at hfile
    exact ⟨h.directory dir here bytes r hdir hin hfile hr, htag⟩
  · rw [hrun] at hfound
    exact absurd hfound (hne r)
  · rw [hrun] at hfound
    cases hfound

theorem get_holds (h : Holds A k s d) (key : Key) :
    Holds A k ((s.get key).run d).1.2 ((s.get key).run d).2 := by
  rcases get_cases s d key with ⟨m, r, -, -, hrun⟩ | ⟨dir, r, d', hdir, hget, hrun, -⟩ |
    ⟨dir, found, d', hdir, hget, -, hrun⟩ | ⟨-, hrun⟩
  · rw [hrun]
    exact h
  · have hdirectory : ((dir.get key).run d).1 = .ok (some r) := by rw [hget]
    obtain ⟨⟨here, bytes, hin, hfile, hr⟩, -, hsame⟩ := Directory.get_found hdirectory
    rw [hget] at hsame
    cases hsame
    rw [hrun]
    refine h.onMemory fun m r' hm hr' => ?_
    rcases Memory.of_filed?_put hr' with ⟨hscope, rfl⟩ | ⟨-, hold⟩
    · rw [Directory.binName, Directory.nameFor_congr hscope.symm] at hfile
      exact h.directory dir here bytes r' hdir hin hfile hr
    · exact h.memory m r' hm hold
  · have hwithin : (dir.get key).Within (Directory.Clears dir key) := Directory.get_within
    have hcleared := h.clears hdir hwithin
    rw [hget] at hcleared
    rw [hrun]
    exact hcleared
  · rw [hrun]
    exact h

theorem evict_holds (h : Holds A k s d) (key : Key) :
    Holds A k ((s.evict key).run d).1.2 ((s.evict key).run d).2 := by
  have hmemory : Holds A k (s.onMemory (·.evict key)) d := by
    refine h.onMemory fun m r hm hr => ?_
    rw [Memory.filed?_evict] at hr
    split at hr
    · cases hr
    · exact h.memory m r hm hr
  rw [evict_run]
  cases hdir : s.directory? with
  | none => exact hmemory
  | some dir =>
    have hwithin : (dir.evict key).Within (Directory.Clears dir key) := Directory.evict_within
    have hdir' : (s.onMemory (·.evict key)).directory? = some dir := by rw [directory?_onMemory, hdir]
    dsimp only
    exact hmemory.clears hdir' hwithin

/-- Filing under other scopes, in files of other names. -/
theorem put_holds (h : Holds A k s d) (hscope : key.scope ≠ k.scope) (hapart : Apart key k)
    (r : Record) (now : UInt64) :
    Holds A k ((s.put key r now).run d).1.2 ((s.put key r now).run d).2 := by
  have hmemory : Holds A k (s.onMemory (·.put key r)) d := by
    refine h.onMemory fun m r' hm hr => ?_
    rcases Memory.of_filed?_put hr with ⟨hsame, -⟩ | ⟨-, hold⟩
    · exact absurd hsame.symm hscope
    · exact h.memory m r' hm hold
  rw [put_run]
  cases hdir : s.directory? with
  | none => exact hmemory
  | some dir =>
    have hwithin : (dir.put key r now).Within (Disk.Change.Among dir.path (Directory.names key)) :=
      Directory.put_within r now
    have hdir' : (s.onMemory (·.put key r)).directory? = some dir := by rw [directory?_onMemory, hdir]
    dsimp only
    exact hmemory.others hdir' hwithin fun hname => hscope (hapart hname)

/-- After an eviction, failed or not, there is no record under the scope. -/
theorem evict_holds_none (s : Opened) (d : Disk) (hk : key.scope = k.scope) :
    Holds (fun _ => False) k ((s.evict key).run d).1.2 ((s.evict key).run d).2 := by
  have hmemory : ∀ m r, (s.onMemory (·.evict key)).memory? = some m →
      m.filed? k.scope = some r → False := by
    intro m r hm hr
    rw [memory?_onMemory] at hm
    obtain ⟨m₀, -, rfl⟩ := Option.map_eq_some_iff.1 hm
    rw [Memory.filed?_evict, if_pos hk.symm] at hr
    cases hr
  rw [evict_run]
  cases hdir : s.directory? with
  | none => exact ⟨hmemory, fun dir here bytes r hdir' => by simp [hdir] at hdir'⟩
  | some dir =>
    dsimp only
    refine ⟨hmemory, fun dir' here bytes r hdir' hin hfile _ => ?_⟩
    obtain rfl : dir = dir' := by simpa [hdir] using hdir'
    rw [Directory.binName, ← Directory.nameFor_congr hk] at hfile
    exact Directory.evict_gone hin bytes hfile

/-- A record that was filed without an error is the only one afterwards, if memory has no
    other. -/
theorem put_holds_new {now : UInt64} (hok : ((s.put key r now).run d).1.1 = .ok ())
    (hmemory : ∀ m r', s.memory? = some m → (m.put key r).filed? key.scope = some r' → r' = r) :
    Holds (· = r) key ((s.put key r now).run d).1.2 ((s.put key r now).run d).2 := by
  have hfiled : ∀ m r', (s.onMemory (·.put key r)).memory? = some m →
      m.filed? key.scope = some r' → r' = r := by
    intro m r' hm hr
    rw [memory?_onMemory] at hm
    obtain ⟨m₀, hm₀, rfl⟩ := Option.map_eq_some_iff.1 hm
    exact hmemory m₀ r' hm₀ hr
  rw [put_run] at hok ⊢
  cases hdir : s.directory? with
  | none => exact ⟨hfiled, fun dir here bytes r' hdir' => by simp [hdir] at hdir'⟩
  | some dir =>
    rw [hdir] at hok
    dsimp only at hok ⊢
    refine ⟨hfiled, fun dir' here bytes r' hdir' hin hfile hr => ?_⟩
    obtain rfl : dir = dir' := by simpa [hdir] using hdir'
    obtain ⟨there, hbefore, hnew, -⟩ := Directory.put_ok hok
    have hafter := Plan.enter_of_run (fun _ => Directory.isName_of_mem_names)
      (Directory.put_within r now) hin
    rw [hbefore] at hafter
    cases hafter
    rw [hnew] at hfile
    cases hfile
    rw [Record.ofBytes_toBytes] at hr
    cases hr
    rfl

end Holds

/-! ## Nothing in the way -/

/-- If there is a directory, it can be entered, and none stands where the files of `k` go. -/
def Intact (k : Key) (s : Opened) (d : Disk) : Prop :=
  ∀ dir, s.directory? = some dir → ∃ here, d.enter dir.path = .ok here ∧
    d.get? (here ++ [Directory.binName k]) ≠ some .directory ∧
    d.get? (here ++ [Directory.metaName k]) ≠ some .directory

section Intact

variable {k key : Key} {s s' : Opened} {d d' : Disk}

theorem intact_of_same (h : Intact k s d) (hdir : s'.directory? = s.directory?)
    (hsame : Disk.SameDirectories d d') : Intact k s' d' := by
  intro dir hd
  obtain ⟨here, hin, hbin, hmeta⟩ := h dir (hdir ▸ hd)
  exact ⟨here, Disk.enter_of_same hsame hin, by rwa [ne_eq, hsame], by rwa [ne_eq, hsame]⟩

theorem same_get (s : Opened) (d : Disk) (key : Key) :
    ((s.get key).run d).1.2.directory? = s.directory? ∧
      Disk.SameDirectories d ((s.get key).run d).2 := by
  have hdisk : ∀ dir : Directory, Disk.SameDirectories d ((dir.get key).run d).2 := by
    intro dir
    have hwithin : (dir.get key).Within (Directory.Clears dir key) := Directory.get_within
    exact Plan.run_sameDirectories (fun _ => Directory.isName_of_mem_names)
      (Plan.within_mono hwithin fun _ hc => hc.1)
  rcases get_cases s d key with ⟨m, r, -, -, hrun⟩ | ⟨dir, r, d', -, hget, hrun, -⟩ |
    ⟨dir, found, d', -, hget, -, hrun⟩ | ⟨-, hrun⟩
  · rw [hrun]
    exact ⟨rfl, fun _ => Iff.rfl⟩
  · have hsame := hdisk dir
    rw [hget] at hsame
    rw [hrun]
    exact ⟨directory?_onMemory s _, hsame⟩
  · have hsame := hdisk dir
    rw [hget] at hsame
    rw [hrun]
    exact ⟨rfl, hsame⟩
  · rw [hrun]
    exact ⟨rfl, fun _ => Iff.rfl⟩

theorem same_evict (s : Opened) (d : Disk) (key : Key) :
    ((s.evict key).run d).1.2.directory? = s.directory? ∧
      Disk.SameDirectories d ((s.evict key).run d).2 := by
  rw [evict_run]
  cases hdir : s.directory? with
  | none => exact ⟨by simp [hdir], fun _ => Iff.rfl⟩
  | some dir =>
    have hwithin : (dir.evict key).Within (Directory.Clears dir key) := Directory.evict_within
    have hsame := Plan.run_sameDirectories (d := d) (fun _ => Directory.isName_of_mem_names)
      (Plan.within_mono hwithin fun _ hc => hc.1)
    dsimp only
    exact ⟨by simp [hdir], hsame⟩

theorem same_put (s : Opened) (d : Disk) (key : Key) (r : Record) (now : UInt64) :
    ((s.put key r now).run d).1.2.directory? = s.directory? ∧
      Disk.SameDirectories d ((s.put key r now).run d).2 := by
  rw [put_run]
  cases hdir : s.directory? with
  | none => exact ⟨by simp [hdir], fun _ => Iff.rfl⟩
  | some dir =>
    have hwithin : (dir.put key r now).Within (Disk.Change.Among dir.path (Directory.names key)) :=
      Directory.put_within r now
    have hsame := Plan.run_sameDirectories (d := d) (fun _ => Directory.isName_of_mem_names) hwithin
    dsimp only
    exact ⟨by simp [hdir], hsame⟩

/-- With nothing in the way, a lookup does not fail. -/
theorem get_intact (h : Intact k s d) (hk : key.scope = k.scope) :
    ((s.get key).run d).1.1 = .ok none ∨ ∃ r, ((s.get key).run d).1.1 = .ok (some r) := by
  rcases get_cases s d key with ⟨m, r, -, -, hrun⟩ | ⟨dir, r, d', -, hget, hrun, -⟩ |
    ⟨dir, found, d', hdir, hget, -, hrun⟩ | ⟨-, hrun⟩
  · exact .inr ⟨r, by rw [hrun]⟩
  · exact .inr ⟨r, by rw [hrun]⟩
  · obtain ⟨here, hin, hbin, hmeta⟩ := h dir hdir
    rw [Directory.binName, ← Directory.nameFor_congr hk] at hbin
    rw [Directory.metaName, ← Directory.nameFor_congr hk] at hmeta
    have hintact := Directory.get_intact hin hbin hmeta
    rw [hget] at hintact
    rw [hrun]
    exact hintact
  · exact .inl (by rw [hrun])

theorem put_intact {r : Record} {now : UInt64} (hok : ((s.put key r now).run d).1.1 = .ok ()) :
    Intact key ((s.put key r now).run d).1.2 ((s.put key r now).run d).2 := by
  obtain ⟨hdirs, hsame⟩ := same_put s d key r now
  intro dir hd
  rw [hdirs] at hd
  rw [put_run, hd] at hok hsame ⊢
  dsimp only at hok hsame ⊢
  obtain ⟨here, hin, hbin, hmeta⟩ := Directory.put_ok hok
  exact ⟨here, Disk.enter_of_same hsame hin, by simp [hbin], by simp [hmeta]⟩

end Intact

end Opened

end CompileCache.Store
