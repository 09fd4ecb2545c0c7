/-
  CompileCache.Proofs.Store.Evicted — an entry that was evicted is not found any more.

  Anything may stand in the directory, and the eviction may have failed. Afterwards memory has
  nothing under the scope, and there is no record file (`NoRecord`); if it did not fail, there is
  no sidecar, either, and no file on the way to the directory (`NoEntry`). Lookups, evictions and
  filing under other scopes leave it so, since they put nothing in any of those places
  (`spared_of_clears`, `spared_of_others`). So does opening a store, as long as it makes
  directories only where the path leads already (`spared_of_paved`).

  That the entry stays away when the store is opened again does not hold everywhere. The path may
  have two dots behind a directory that is missing. Then its own directory cannot be entered, and
  there is nothing to evict; but opening the store makes the one that is missing, and the path
  leads to another, where the entry still is (`evicted_entry_returns`).

  Proved: after an eviction, failed or not, no lookup under the scope finds a record, until one
  is filed there; if it did not fail, all of them are misses; other scopes are not affected
  (`evicted_is_gone`). What it supposes holds of the disk of every workspace that is used
  (`grounded_use`, `grounded_interfere`).
-/

import CompileCache.Proofs.Disk.Paths
import CompileCache.Proofs.Store.HalfFiled

namespace CompileCache.Store

namespace Directory

variable {s : Directory} {j k key : Key} {here there : Location} {d d' d'' : Disk}

/-! ## Evicting -/

/-- Nothing is evicted from a directory that is not there, and that will do. -/
theorem evict_of_not_entered {e : OsError} (h : d.enter s.path = .error e) :
    (s.evict key).run d =
      (if e = .notFound then .ok () else .error (.io (s.recordFile key) e), d) := by
  have hbin : d.change (.unlink (s.recordFile key)) = .error e :=
    Disk.change_of_not_entered (fun _ => isName_of_mem_names) clears_bin.1 h
  have hmeta : d.change (.unlink (s.sidecarFile key)) = .error e :=
    Disk.change_of_not_entered (fun _ => isName_of_mem_names) clears_meta.1 h
  cases e <;>
    simp [evict, clear, discard, Plan.unlink, Plan.run, hbin, hmeta, Plan.outcome, Plan.after]

/-- An eviction that does not fail leaves neither file, or there is no directory. -/
theorem evict_ok (h : ((s.evict key).run d).1 = .ok ()) :
    d.enter s.path = .error .notFound ∨ ∃ here, d.enter s.path = .ok here ∧
      ((s.evict key).run d).2.get? (here ++ [binName key]) = none ∧
      ((s.evict key).run d).2.get? (here ++ [metaName key]) = none := by
  cases hin : d.enter s.path with
  | error e =>
    rw [evict_of_not_entered hin] at h
    by_cases he : e = .notFound
    · exact .inl (he ▸ rfl)
    · simp [he] at h
  | ok here =>
    have hne : here ++ [binName key] ≠ here ++ [metaName key] := by simpa using (names_apart key).1
    have hrun : (s.evict key).run d = _ := clear_eq hin
    refine .inr ⟨here, rfl, ?_⟩
    rw [hrun] at h ⊢
    split at h
    · cases h
    · next hbin =>
      split at h
      · cases h
      · next hmeta =>
        rw [if_neg hbin, if_neg hmeta]
        refine ⟨?_, Disk.get?_erase_self _ (by simp)⟩
        rw [Disk.get?_erase_ne _ hne, Disk.get?_erase_self d (by simp)]

/-! ## What is not there -/

/-- Wherever the path leads, there is no record file of the scope. -/
def NoRecord (s : Directory) (k : Key) (d : Disk) : Prop :=
  ∀ there, d.Leads s.path there → ∀ bytes, d.get? (there ++ [binName k]) ≠ some (.file bytes)

/-- Wherever the path leads, nothing has a name of the entry's files, and no file is in the way. -/
structure NoEntry (s : Directory) (k : Key) (d : Disk) : Prop where
  missing : ∀ e, d.enter s.path = .error e → e = .notFound
  unblocked : ∀ there, d.Leads s.path there → d.Unblocked there
  record : ∀ there, d.Leads s.path there → d.get? (there ++ [binName k]) = none
  sidecar : ∀ there, d.Leads s.path there → d.get? (there ++ [metaName k]) = none

/-- On a grounded disk, there is nothing where the path leads if that cannot be entered. -/
theorem none_of_not_entered (hg : d.Grounded) {e : OsError} (h : d.enter s.path = .error e)
    (hleads : d.Leads s.path there) (name : String) : d.get? (there ++ [name]) = none := by
  by_contra hsome
  rw [hleads.enter hg (hg there name hsome)] at h
  cases h

theorem noRecord_evicted (hg : d.Grounded) : NoRecord s k ((s.evict k).run d).2 := by
  intro there hleads bytes
  cases hin : d.enter s.path with
  | error e =>
    rw [evict_of_not_entered hin] at hleads ⊢
    rw [none_of_not_entered hg hin hleads]
    simp
  | ok here =>
    have hafter : ((s.evict k).run d).2.enter s.path = .ok here :=
      Disk.enter_of_same (clears_same evict_within d) hin
    rw [hleads.unique (Disk.leads_of_enter hafter)]
    exact evict_gone hafter bytes

theorem noEntry_evicted (hg : d.Grounded) (h : ((s.evict k).run d).1 = .ok ()) :
    NoEntry s k ((s.evict k).run d).2 := by
  have hg' := Plan.run_grounded (s.evict k) hg
  rcases evict_ok h with hin | ⟨here, hin, hbin, hmeta⟩
  · have hnone : ∀ there, d.Leads s.path there → ∀ name, d.get? (there ++ [name]) = none :=
      fun _ hleads => none_of_not_entered hg hin hleads
    have hmissing : ∀ e, d.enter s.path = .error e → e = .notFound := by
      intro e he
      rw [hin] at he
      cases he
      rfl
    rw [evict_of_not_entered hin]
    exact ⟨hmissing, fun there hleads => hleads.unblocked hg hmissing,
      fun there hleads => hnone there hleads _, fun there hleads => hnone there hleads _⟩
  · have hafter : ((s.evict k).run d).2.enter s.path = .ok here :=
      Disk.enter_of_same (clears_same evict_within d) hin
    have hmissing : ∀ e, ((s.evict k).run d).2.enter s.path = .error e → e = .notFound := by
      intro e he
      rw [hafter] at he
      cases he
    have hhere : ∀ there, ((s.evict k).run d).2.Leads s.path there → there = here :=
      fun there hleads => hleads.unique (Disk.leads_of_enter hafter)
    exact ⟨hmissing, fun there hleads => hleads.unblocked hg' hmissing,
      fun there hleads => hhere there hleads ▸ hbin, fun there hleads => hhere there hleads ▸ hmeta⟩

/-! ## What leaves it so -/

/-- The places on the way to the directory, and those of the entry's files in it. -/
def Concerns (k : Key) (there l : Location) : Prop :=
  l <+: there ∨ ∃ name ∈ names k, l = there ++ [name]

/-- The path leads where it led. No file was put on the way there or among those of the entry, and
    nothing at all where one of these was absent. -/
structure Spared (s : Directory) (k : Key) (d d' : Disk) : Prop where
  leads : ∀ there, d'.Leads s.path there ↔ d.Leads s.path there
  files : ∀ there, d.Leads s.path there → ∀ l, Concerns k there l → ∀ bytes,
    d'.get? l = some (.file bytes) → d.get? l = some (.file bytes)
  absent : ∀ there, d.Leads s.path there → ∀ name ∈ names k,
    d.get? (there ++ [name]) = none → d'.get? (there ++ [name]) = none
  closed : ∀ e, d'.enter s.path = .error e →
    d.enter s.path = .error e ∨ ∃ there, d.Leads s.path there

theorem spared_refl (s : Directory) (k : Key) (d : Disk) : Spared s k d d :=
  ⟨fun _ => Iff.rfl, fun _ _ _ _ _ h => h, fun _ _ _ _ h => h, fun _ h => .inl h⟩

theorem Spared.trans (h : Spared s k d d') (h' : Spared s k d' d'') : Spared s k d d'' where
  leads there := (h'.leads there).trans (h.leads there)
  files there hleads l hl bytes hfile :=
    h.files there hleads l hl bytes (h'.files there ((h.leads there).2 hleads) l hl bytes hfile)
  absent there hleads name hname hnone :=
    h'.absent there ((h.leads there).2 hleads) name hname (h.absent there hleads name hname hnone)
  closed e he := by
    rcases h'.closed e he with he' | ⟨there, hleads⟩
    · exact h.closed e he'
    · exact .inr ⟨there, (h.leads there).1 hleads⟩

theorem not_on_way (there : Location) (name : String) : ¬ there ++ [name] <+: there := by
  intro hup
  have hlength := hup.length_le
  rw [List.length_append, List.length_singleton] at hlength
  omega

theorem NoRecord.of_spared (h : NoRecord s k d) (hspared : Spared s k d d') : NoRecord s k d' := by
  intro there hleads bytes hfile
  have hbefore := (hspared.leads there).1 hleads
  exact h there hbefore bytes
    (hspared.files there hbefore _ (.inr ⟨_, binName_mem k, rfl⟩) bytes hfile)

theorem NoEntry.of_spared (h : NoEntry s k d) (hspared : Spared s k d d') : NoEntry s k d' := by
  have hunblocked : ∀ there, d'.Leads s.path there → d'.Unblocked there := by
    intro there hleads l hl bytes hfile
    have hbefore := (hspared.leads there).1 hleads
    exact h.unblocked there hbefore l hl bytes (hspared.files there hbefore l (.inl hl) bytes hfile)
  refine ⟨fun e he => ?_, hunblocked, fun there hleads => ?_, fun there hleads => ?_⟩
  · rcases hspared.closed e he with hbefore | ⟨there, hleads⟩
    · exact h.missing e hbefore
    · have hleads' := (hspared.leads there).2 hleads
      exact hleads'.missing (hunblocked there hleads') he
  · have hbefore := (hspared.leads there).1 hleads
    exact hspared.absent there hbefore _ (binName_mem k) (h.record there hbefore)
  · have hbefore := (hspared.leads there).1 hleads
    exact hspared.absent there hbefore _ (metaName_mem k) (h.sidecar there hbefore)

/-- A plan among the files of entries leaves the path where it leads. -/
theorem spared_of_within {α : Type} {plan : Plan α} {names : List String}
    (hnames : ∀ a ∈ names, Path.isName a) (hplan : plan.Within (Disk.Change.Among s.path names))
    (hfiles : ∀ there, d.Leads s.path there → ∀ l, Concerns k there l → ∀ bytes,
      (plan.run d).2.get? l = some (.file bytes) → d.get? l = some (.file bytes)) :
    Spared s k d (plan.run d).2 := by
  have hsame : Disk.SameDirectories d (plan.run d).2 := Plan.run_sameDirectories hnames hplan
  have hleads : ∀ there, (plan.run d).2.Leads s.path there ↔ d.Leads s.path there :=
    fun there => ⟨fun h => h.of_kept fun l => (hsame l).1, fun h => h.of_kept fun l => (hsame l).2⟩
  refine ⟨hleads, hfiles, fun there hthere name hname hnone => ?_, fun e he => .inl ?_⟩
  · cases hafter : (plan.run d).2.get? (there ++ [name]) with
    | none => rfl
    | some n =>
      cases n with
      | directory =>
        rw [(hsame _).1 hafter] at hnone
        cases hnone
      | file bytes =>
        rw [hfiles there hthere _ (.inr ⟨name, hname, rfl⟩) bytes hafter] at hnone
        cases hnone
  · cases hin : d.enter s.path with
    | error o =>
      rw [Plan.run_of_not_entered hnames hplan hin, hin] at he
      exact he
    | ok here =>
      rw [Disk.enter_of_same hsame hin] at he
      cases he

/-- Looking up and evicting put nothing anywhere. -/
theorem spared_of_clears {α : Type} {plan : Plan α} (hplan : plan.Within (Clears s j)) (d : Disk) :
    Spared s k d (plan.run d).2 :=
  spared_of_within (fun _ => isName_of_mem_names) (Plan.within_mono hplan fun _ hc => hc.1)
    fun _ _ l _ => Plan.run_unlinks (Plan.within_mono hplan fun _ hc => hc.2) d l

/-- Filing puts nothing under other names. -/
theorem spared_of_others {α : Type} {plan : Plan α} (hfile : j.fileName ≠ k.fileName)
    (hplan : plan.Within (Disk.Change.Among s.path (names j))) (d : Disk) :
    Spared s k d (plan.run d).2 := by
  refine spared_of_within (fun _ => isName_of_mem_names) hplan fun there hleads l hl bytes => ?_
  cases hin : d.enter s.path with
  | error e =>
    rw [Plan.run_of_not_entered (fun _ => isName_of_mem_names) hplan hin]
    exact id
  | ok here =>
    obtain rfl := hleads.unique (Disk.leads_of_enter hin)
    have honly := Plan.run_onlyAt (fun _ => isName_of_mem_names) hplan hin
    have helse : ∀ name ∈ names j, l ≠ there ++ [name] := by
      rintro name hname rfl
      rcases hl with hway | ⟨own, hown, heq⟩
      · exact not_on_way there name hway
      · obtain rfl : name = own := by simpa using heq
        exact not_mem_names hfile hname hown
    rw [honly.elsewhere l helse]
    exact id

/-- Making the directory puts nothing in it. -/
theorem spared_of_paved (hleads : d.Leads s.path there) (hpaved : Disk.Paved there d d') :
    Spared s k d d' := by
  refine ⟨fun l => ⟨fun h => ?_, fun h => h.of_kept hpaved.keeps⟩, fun _ _ l _ bytes => hpaved.file,
    fun l h name _ hnone => ?_, fun e _ => .inr ⟨there, hleads⟩⟩
  · rw [h.unique (hleads.of_kept hpaved.keeps)]
    exact hleads
  · obtain rfl := h.unique hleads
    rw [hpaved.aside (not_on_way l name), hnone]

/-! ## What is answered then -/

/-- With no entry, a lookup is a miss. -/
theorem NoEntry.get (h : NoEntry s k d) (hk : key.scope = k.scope) :
    ((s.get key).run d).1 = .ok none := by
  cases hin : d.enter s.path with
  | error e => rw [get_of_not_entered hin, if_pos (h.missing e hin)]
  | ok here =>
    have hmeta : d.get? (here ++ [metaName key]) = none := by
      rw [metaName, nameFor_congr hk]
      exact h.sidecar here (Disk.leads_of_enter hin)
    rw [get_eq hin, reading_eq_miss_iff.2 (.inl hmeta)]

theorem NoEntry.read (h : NoEntry s k d) :
    d.read (s.recordFile k) = .error .notFound ∧ d.read (s.sidecarFile k) = .error .notFound := by
  rw [show s.recordFile k = s.path.child (binName k) from rfl,
    show s.sidecarFile k = s.path.child (metaName k) from rfl]
  have hbin := isName_of_mem_names (binName_mem k)
  have hmeta := isName_of_mem_names (metaName_mem k)
  cases hin : d.enter s.path with
  | error e =>
    obtain rfl := h.missing e hin
    simp only [Disk.read, Disk.fileAt, Disk.target_child d _ hbin, Disk.target_child d _ hmeta, hin]
    exact ⟨rfl, rfl⟩
  | ok here =>
    have hleads := Disk.leads_of_enter hin
    rw [Disk.read_child hin hbin, Disk.read_child hin hmeta, h.record here hleads,
      h.sidecar here hleads]
    exact ⟨rfl, rfl⟩

end Directory

/-! ## Stores of any kind -/

namespace Opened

variable {s : Opened} {j k key : Key} {d : Disk}

theorem store_evicted (s : Opened) (k : Key) (d : Disk) :
    ((s.evict k).run d).1.2 = s.onMemory (·.evict k) := by
  rw [evict_run]
  cases s.directory? <;> rfl

/-- Nothing else is dropped. -/
theorem remembered?_evicted (s : Opened) (hscope : j.scope ≠ k.scope) :
    (s.onMemory (·.evict k)).remembered? j = s.remembered? j := by
  rw [remembered?_eq, remembered?_eq, filed?_onMemory, filed?]
  simp only [Memory.filed?_evict, if_neg hscope]

/-- Memory answers, or else the directory. -/
theorem answer_eq (s : Opened) (key : Key) (d : Disk) : ((s.get key).run d).1.1 =
    match s.remembered? key, s.directory? with
    | some r, _ => .ok (some r)
    | none, none => .ok none
    | none, some dir => ((dir.get key).run d).1 := by
  rw [get_run]
  cases s.remembered? key with
  | some r => rfl
  | none => cases s.directory? <;> dsimp only

/-- In the directory, an eviction is not noticed under other file names. -/
theorem get_after_evict (s : Opened) (hname : j.fileName ≠ k.fileName) (d : Disk) {dir : Directory}
    (hdir : s.directory? = some dir) :
    ((dir.get j).run ((s.evict k).run d).2).1 = ((dir.get j).run d).1 := by
  rw [evict_run, hdir]
  dsimp only
  exact Directory.get_after_other hname
    (Plan.within_mono Directory.evict_within fun _ hc => hc.1) d

theorem spared_get {dir : Directory} (hdir : s.directory? = some dir) (j k : Key) (d : Disk) :
    dir.Spared k d ((s.get j).run d).2 := by
  rw [get_run, hdir]
  cases s.remembered? j with
  | some r => exact Directory.spared_refl dir k d
  | none =>
    dsimp only
    exact Directory.spared_of_clears Directory.get_within d

theorem spared_evict {dir : Directory} (hdir : s.directory? = some dir) (j k : Key) (d : Disk) :
    dir.Spared k d ((s.evict j).run d).2 := by
  rw [evict_run, hdir]
  dsimp only
  exact Directory.spared_of_clears Directory.evict_within d

theorem spared_put {dir : Directory} (hdir : s.directory? = some dir)
    (hfile : j.fileName ≠ k.fileName) (r : Record) (now : UInt64) (d : Disk) :
    dir.Spared k d ((s.put j r now).run d).2 := by
  rw [put_run, hdir]
  dsimp only
  exact Directory.spared_of_others hfile (Directory.put_within r now) d

end Opened

namespace Workspace

variable {w : Workspace} {k key j : Key} {place : Option Path} {s : Opened}

/-! ## Workspaces that are used -/

theorem grounded_interfere {α : Type} (h : w.disk.Grounded) (plan : Plan α) :
    (w.interfere plan).2.disk.Grounded :=
  Plan.run_grounded plan h

theorem grounded_perform {α : Type} (h : w.disk.Grounded) (layer : Layer)
    (plan : Opened → Plan (α × Opened)) : (w.perform layer plan).2.disk.Grounded := by
  cases hs : w.opened with
  | none =>
    rw [perform_none hs]
    exact h
  | some s =>
    simp only [perform, hs]
    exact Plan.run_grounded _ h

theorem disk_reopen (w : Workspace) (spec : Spec) :
    (w.reopen spec).2.disk = ((spec.openStore w.upkeep).run w.disk).2 := by
  unfold reopen
  generalize (spec.openStore w.upkeep).run w.disk = answer
  obtain ⟨e | s, d⟩ := answer <;> rfl

/-- On the disk of a workspace everything stands in a directory, whatever is done. -/
theorem grounded_use (h : w.disk.Grounded) (u : Use) : (w.use u).disk.Grounded := by
  cases u with
  | get key => exact grounded_perform h .whole _
  | evict key => exact grounded_perform h .whole _
  | put key r => exact grounded_perform h .whole _
  | reopen spec =>
    rw [use, disk_reopen]
    exact Plan.run_grounded _ h
  | tick now => exact h
  | forget gone => exact h

theorem grounded_usedBy (clock : UInt64) (upkeep : Upkeep) (uses : List Use) :
    ((new Disk.empty clock upkeep).usedBy uses).disk.Grounded := by
  have hall : ∀ (uses : List Use) (w : Workspace), w.disk.Grounded →
      (w.usedBy uses).disk.Grounded := by
    intro uses
    induction uses with
    | nil => exact fun _ h => h
    | cons u uses ih => exact fun w h => ih _ (grounded_use h u)
  exact hall uses _ Disk.grounded_empty

/-! ## After an eviction -/

theorem directory?_of_place {path : Path} (h : s.place = some path) :
    s.directory? = some ⟨path⟩ := by
  obtain ⟨dir, hdir, rfl⟩ := Option.map_eq_some_iff.1 h
  exact hdir

theorem evict_opened (hs : w.opened = some s) (k : Key) : w.evict .whole k =
    (some ((s.evict k).run w.disk).1.1,
      { w with disk := ((s.evict k).run w.disk).2, opened := some (s.onMemory (·.evict k)) }) := by
  rw [Workspace.evict, perform_whole hs (kind_evict s k w.disk), Opened.store_evicted]

/-- Under the scope of `k` there is no record, neither in memory nor wherever the path leads. -/
structure Emptied (k : Key) (place : Option Path) (w : Workspace) : Prop where
  placed : ∀ s, w.opened = some s → s.place = place
  holds : ∀ s, w.opened = some s → s.Holds (fun _ => False) k w.disk
  absent : ∀ path, place = some path → Directory.NoRecord ⟨path⟩ k w.disk

theorem evict_placed (hs : w.opened = some s) (k : Key) {path : Path}
    (hplace : w.place = some path) : w.evict .whole k =
    (some ((Directory.evict ⟨path⟩ k).run w.disk).1,
      { w with
        disk := ((Directory.evict ⟨path⟩ k).run w.disk).2,
        opened := some (s.onMemory (·.evict k)) }) := by
  rw [Workspace.place, hs] at hplace
  rw [evict_opened hs, Opened.evict_run, directory?_of_place hplace]

theorem spared_evicted (hs : w.opened = some s) (k : Key) {path : Path}
    (hplace : w.place = some path) :
    Directory.Spared ⟨path⟩ k w.disk (w.evict .whole k).2.disk := by
  rw [evict_placed hs k hplace]
  dsimp only
  exact Directory.spared_of_clears Directory.evict_within w.disk

theorem noEntry_evicted (h : w.disk.Grounded) (hs : w.opened = some s)
    (hdone : (w.evict .whole k).1 = some (.ok ())) {path : Path} (hplace : w.place = some path) :
    Directory.NoEntry ⟨path⟩ k (w.evict .whole k).2.disk := by
  rw [evict_placed hs k hplace] at hdone ⊢
  dsimp only
  exact Directory.noEntry_evicted h (Option.some.inj hdone)

theorem emptied_evicted (h : w.disk.Grounded) (hs : w.opened = some s) (k : Key) :
    Emptied k w.place (w.evict .whole k).2 := by
  have hplace : s.place = w.place := by simp [Workspace.place, hs]
  rw [evict_opened hs]
  refine ⟨fun s' hs' => ?_, fun s' hs' => ?_, fun path hpath => ?_⟩
  · cases hs'
    rw [Opened.place, Opened.directory?_onMemory]
    exact hplace
  · cases hs'
    have hnone : Opened.Holds (fun _ => False) k ((s.evict k).run w.disk).1.2 _ :=
      Opened.evict_holds_none s w.disk rfl
    rwa [Opened.store_evicted] at hnone
  · rw [← evict_opened hs, evict_placed hs k hpath]
    dsimp only
    exact Directory.noRecord_evicted h

theorem perform_spared {α : Type} (h : Emptied k place w) {path : Path} (hplace : place = some path)
    {plan : Opened → Plan (α × Opened)}
    (hkind : ∀ s : Opened, ∃ f, ((plan s).run w.disk).1.2 = s.onMemory f)
    (hspared : ∀ s : Opened, s.directory? = some ⟨path⟩ →
      Directory.Spared ⟨path⟩ k w.disk ((plan s).run w.disk).2) :
    Directory.Spared ⟨path⟩ k w.disk (w.perform .whole plan).2.disk := by
  cases hs : w.opened with
  | none =>
    rw [perform_none hs]
    exact Directory.spared_refl _ k w.disk
  | some s =>
    rw [perform_whole hs (hkind s)]
    exact hspared s (directory?_of_place ((h.placed s hs).trans hplace))

/-- What a use does to the disk, if it spares the entry. A store may be opened only where the path
    leads somewhere. -/
theorem use_spared (h : Emptied k place w) {u : Use} (hu : u.Spares k place) {path : Path}
    (hplace : place = some path)
    (hleads : ∀ spec, u = .reopen spec → ∃ there, w.disk.Leads path there) :
    Directory.Spared ⟨path⟩ k w.disk (w.use u).disk := by
  cases u with
  | get key =>
    exact perform_spared h hplace (fun s => kind_get s key w.disk)
      fun s hs => Opened.spared_get hs key k w.disk
  | evict key =>
    exact perform_spared h hplace (fun s => kind_evict s key w.disk)
      fun s hs => Opened.spared_evict hs key k w.disk
  | put key r =>
    exact perform_spared h hplace (fun s => kind_put s key r w.clock w.disk)
      fun s hs => Opened.spared_put hs (fun hname => hu.1 (hu.2 hname)) r w.clock w.disk
  | reopen spec =>
    obtain ⟨there, hthere⟩ := hleads spec rfl
    obtain ⟨hmade, -⟩ := openStore_opens w.upkeep spec w.disk
    rw [use, disk_reopen]
    rcases hmade with hsame | ⟨path', hpath', hmade⟩
    · rw [hsame]
      exact Directory.spared_refl _ k w.disk
    · obtain rfl : path = path' := by
        rw [show spec.place = place from hu, hplace] at hpath'
        exact Option.some.inj hpath'
      rw [hmade]
      exact Directory.spared_of_paved hthere (Plan.run_makeDirectories_paved hthere)
  | tick now => exact Directory.spared_refl _ k w.disk
  | forget gone => exact Directory.spared_refl _ k w.disk

theorem emptied_perform {α : Type} (h : Emptied k place w) {plan : Opened → Plan (α × Opened)}
    (hkind : ∀ s : Opened, ∃ f, ((plan s).run w.disk).1.2 = s.onMemory f)
    (hholds : ∀ s : Opened, s.Holds (fun _ => False) k w.disk →
      ((plan s).run w.disk).1.2.Holds (fun _ => False) k ((plan s).run w.disk).2)
    (habsent : ∀ path, place = some path →
      Directory.NoRecord ⟨path⟩ k (w.perform .whole plan).2.disk) :
    Emptied k place (w.perform .whole plan).2 := by
  cases hs : w.opened with
  | none =>
    rw [perform_none hs]
    exact h
  | some s =>
    refine ⟨fun s' hs' => ?_, fun s' hs' => ?_, habsent⟩
    · rw [perform_whole hs (hkind s)] at hs'
      cases hs'
      obtain ⟨f, hf⟩ := hkind s
      rw [Opened.place, hf, Opened.directory?_onMemory]
      exact h.placed s hs
    · rw [perform_whole hs (hkind s)] at hs' ⊢
      cases hs'
      exact hholds s (h.holds s hs)

theorem emptied_reopen {spec : Spec} (hplace : spec.place = place)
    (habsent : ∀ path, place = some path → Directory.NoRecord ⟨path⟩ k (w.reopen spec).2.disk) :
    Emptied k place (w.reopen spec).2 := by
  obtain ⟨-, hfresh⟩ := openStore_opens w.upkeep spec w.disk
  rw [disk_reopen] at habsent
  have hopened : ∀ s, (w.reopen spec).2.opened = some s → s.Fresh place := by
    intro s hs
    refine hplace ▸ hfresh s ?_
    unfold reopen at hs
    generalize (spec.openStore w.upkeep).run w.disk = answer at hs
    obtain ⟨e | s', d⟩ := answer
    · cases hs
    · exact congrArg _ hs
  refine ⟨fun s hs => (hopened s hs).1, fun s hs => ?_, by rwa [disk_reopen]⟩
  obtain ⟨hplaced, hempty⟩ := hopened s hs
  refine ⟨fun m r hm hr => ?_, fun dir here bytes r hdir hin hfile _ => ?_⟩
  · rw [Memory.filed?, hempty m hm] at hr
    cases hr
  · rw [disk_reopen] at hin hfile
    have hpath : place = some dir.path := by rw [← hplaced, Opened.place, hdir]; rfl
    exact habsent dir.path hpath here (Disk.leads_of_enter hin) bytes hfile

/-- Every use that spares the entry leaves it gone. -/
theorem use_emptied (h : Emptied k place w) {u : Use} (hu : u.Spares k place)
    (hleads : ∀ spec, u = .reopen spec → ∀ path, place = some path →
      ∃ there, w.disk.Leads path there) : Emptied k place (w.use u) := by
  have habsent : ∀ path, place = some path → Directory.NoRecord ⟨path⟩ k (w.use u).disk :=
    fun path hplace => (h.absent path hplace).of_spared
      (use_spared h hu hplace fun spec hspec => hleads spec hspec path hplace)
  cases u with
  | get key =>
    exact emptied_perform h (fun s => kind_get s key w.disk)
      (fun s hs => Opened.get_holds hs key) habsent
  | evict key =>
    exact emptied_perform h (fun s => kind_evict s key w.disk)
      (fun s hs => Opened.evict_holds hs key) habsent
  | put key r =>
    exact emptied_perform h (fun s => kind_put s key r w.clock w.disk)
      (fun s hs => Opened.put_holds hs hu.1 hu.2 r w.clock) habsent
  | reopen spec => exact emptied_reopen hu habsent
  | tick now => exact ⟨h.placed, h.holds, h.absent⟩
  | forget gone =>
    refine ⟨fun s hs => ?_, fun s hs => ?_, h.absent⟩
    · obtain ⟨s₀, hs₀, rfl⟩ := Option.map_eq_some_iff.1 hs
      rw [Opened.place, Opened.directory?_onMemory]
      exact h.placed s₀ hs₀
    · obtain ⟨s₀, hs₀, rfl⟩ := Option.map_eq_some_iff.1 hs
      exact Opened.holds_onMemory (h.holds s₀ hs₀) fun m r => Memory.filed?_forget gone

theorem usedBy_emptied (h : Emptied k place w) {uses : List Use}
    (huses : ∀ u ∈ uses, u.Spares k place)
    (hleads : ∀ spec, .reopen spec ∈ uses → ∀ path, place = some path →
      ∃ there, w.disk.Leads path there) :
    Emptied k place (w.usedBy uses) ∧ ∀ path, place = some path →
      Directory.Spared ⟨path⟩ k w.disk (w.usedBy uses).disk := by
  induction uses generalizing w with
  | nil => exact ⟨h, fun path _ => Directory.spared_refl _ k w.disk⟩
  | cons u us ih =>
    have hu := huses u (List.mem_cons_self ..)
    have hmade : ∀ spec, u = .reopen spec → ∀ path, place = some path →
        ∃ there, w.disk.Leads path there :=
      fun spec hspec => hleads spec (hspec ▸ List.mem_cons_self ..)
    have hspared := fun (path : Path) (hplace : place = some path) =>
      use_spared h hu hplace fun spec hspec => hmade spec hspec path hplace
    obtain ⟨hemptied, hrest⟩ := ih (use_emptied h hu hmade)
      (fun v hv => huses v (List.mem_cons_of_mem u hv)) fun spec hspec path hplace => by
        obtain ⟨there, hthere⟩ := hleads spec (List.mem_cons_of_mem u hspec) path hplace
        exact ⟨there, ((hspared path hplace).leads there).2 hthere⟩
    exact ⟨hemptied, fun path hplace => (hspared path hplace).trans (hrest path hplace)⟩

theorem Emptied.get (h : Emptied k place w) (hk : key.scope = k.scope) (r : Record) :
    (w.get .whole key).1 ≠ some (.ok (some r)) := by
  intro hfound
  cases hs : w.opened with
  | none =>
    rw [Workspace.get, perform_none hs] at hfound
    cases hfound
  | some s =>
    rw [get_opened hs] at hfound
    exact (Opened.get_answer (h.holds s hs) hk (Option.some.inj hfound)).1

/-- With no entry in the directory, either, all lookups are misses. -/
theorem Emptied.get_miss (h : Emptied k place w) (hk : key.scope = k.scope)
    (hnone : ∀ path, place = some path → Directory.NoEntry ⟨path⟩ k w.disk) {found : Store.Found}
    (hfound : (w.get .whole key).1 = some found) : found = .ok none := by
  cases hs : w.opened with
  | none =>
    rw [Workspace.get, perform_none hs] at hfound
    cases hfound
  | some s =>
    have hfiled : s.filed? key.scope = none := by
      rw [hk]
      cases hfiled : s.filed? k.scope with
      | none => rfl
      | some r =>
        obtain ⟨m, hm, hr⟩ := Option.bind_eq_some_iff.1 hfiled
        exact ((h.holds s hs).memory m r hm hr).elim
    have hforgot : s.remembered? key = none := by rw [Opened.remembered?_eq, hfiled]; rfl
    rw [get_opened hs, Opened.answer_eq, hforgot] at hfound
    cases hfound
    cases hdir : s.directory? with
    | none => rfl
    | some dir =>
      have hplace : place = some dir.path := by rw [← h.placed s hs, Opened.place, hdir]; rfl
      exact (hnone dir.path hplace).get hk

/-- Other scopes are looked up with the same answer, at once and when the store is opened again. -/
theorem get_elsewhere (hs : w.opened = some s) (hscope : j.scope ≠ k.scope)
    (hapart : Apart j k) :
    ((w.evict .whole k).2.get .whole j).1 = (w.get .whole j).1 ∧
      ∀ spec : Spec, spec.place = w.place →
        (((w.evict .whole k).2.reopen spec).2.get .whole j).1 =
          ((w.reopen spec).2.get .whole j).1 := by
  have hname : j.fileName ≠ k.fileName := fun hname => hscope (hapart hname)
  have hplace : w.place = s.place := by simp [Workspace.place, hs]
  have hanswer : ∀ dir, s.directory? = some dir →
      ((dir.get j).run ((s.evict k).run w.disk).2).1 = ((dir.get j).run w.disk).1 :=
    fun _ hdir => Opened.get_after_evict s hname w.disk hdir
  rw [evict_opened hs, hplace]
  refine ⟨?_, fun spec hspec => ?_⟩
  · rw [get_opened hs, get_opened rfl, Opened.answer_eq, Opened.answer_eq,
      Opened.remembered?_evicted s hscope, Opened.directory?_onMemory]
    cases s.remembered? j with
    | some r => rfl
    | none =>
      cases hdir : s.directory? with
      | none => rfl
      | some dir => exact congrArg some (hanswer dir hdir)
  · cases hdir : s.directory? with
    | none =>
      have hdisk : ((s.evict k).run w.disk).2 = w.disk := by rw [Opened.evict_run, hdir]
      rw [get_reopen, get_reopen, hdisk]
    | some dir =>
      have haccess : dir.SameAccess w.disk ((s.evict k).run w.disk).2 := by
        rw [Opened.evict_run, hdir]
        dsimp only
        exact Directory.sameAccess_of_within
          (Plan.within_mono Directory.evict_within fun _ hc => hc.1) w.disk
      rw [Opened.place, hdir] at hspec
      exact get_reopened_of_access (w := w)
        (v := { w with disk := ((s.evict k).run w.disk).2, opened := some (s.onMemory (·.evict k)) })
        haccess rfl hspec (hanswer dir hdir)

/-- After an eviction, failed or not, no lookup under the scope finds a record, whatever is looked
    up, evicted or filed under other scopes meanwhile; if it did not fail, the entry's files are
    not there, and all these lookups are misses. The store may be opened again in its place if
    its path leads anywhere. Lookups under other scopes are answered as if nothing had been
    evicted. -/
theorem evicted_is_gone (h : w.disk.Grounded) (k : Key) {done : Store.Done}
    (hdone : (w.evict .whole k).1 = some done) :
    let evicted := (w.evict .whole k).2
    (∀ uses : List Use, (∀ u ∈ uses, u.Spares k w.place) →
      (∀ spec, .reopen spec ∈ uses → ∀ path, w.place = some path →
        ∃ there, w.disk.Leads path there) →
      (∀ key : Key, key.scope = k.scope → ∀ found,
        ((evicted.usedBy uses).get .whole key).1 = some found →
          (∀ r, found ≠ .ok (some r)) ∧ (done = .ok () → found = .ok none)) ∧
      (done = .ok () → ∀ dir : Directory, w.place = some dir.path →
        (evicted.usedBy uses).disk.read (dir.recordFile k) = .error .notFound ∧
          (evicted.usedBy uses).disk.read (dir.sidecarFile k) = .error .notFound)) ∧
    -- other scopes
    ∀ j : Key, j.scope ≠ k.scope → Apart j k →
      (evicted.get .whole j).1 = (w.get .whole j).1 ∧
      ∀ spec : Spec, spec.place = w.place →
        ((evicted.reopen spec).2.get .whole j).1 = ((w.reopen spec).2.get .whole j).1 := by
  intro evicted
  cases hs : w.opened with
  | none =>
    rw [Workspace.evict, perform_none hs] at hdone
    cases hdone
  | some s =>
    refine ⟨fun uses huses hleads => ?_, fun j => get_elsewhere hs⟩
    obtain ⟨hemptied, hspared⟩ := usedBy_emptied (emptied_evicted h hs k) huses
      fun spec hspec path hplace => by
        obtain ⟨there, hthere⟩ := hleads spec hspec path hplace
        exact ⟨there, ((spared_evicted hs k hplace).leads there).2 hthere⟩
    have hnone : done = .ok () → ∀ path, w.place = some path →
        Directory.NoEntry ⟨path⟩ k (evicted.usedBy uses).disk := by
      rintro rfl path hplace
      exact (noEntry_evicted h hs hdone hplace).of_spared (hspared path hplace)
    refine ⟨fun key hk found hfound => ⟨fun r hr => ?_, fun hok => ?_⟩, fun hok dir hplace => ?_⟩
    · exact hemptied.get hk r (hr ▸ hfound)
    · exact hemptied.get_miss hk (hnone hok) hfound
    · exact (hnone hok dir.path hplace).read

theorem get_directory {dir : Directory} (hs : w.opened = some (.directory dir)) (key : Key) :
    (w.get .whole key).1 = some ((dir.get key).run w.disk).1 := by
  have hforgot : (Opened.directory dir).remembered? key = none := rfl
  rw [get_opened hs, Opened.answer_eq, hforgot]
  dsimp only [Opened.directory?]

/-- A directory that holds one entry. -/
def oneEntry (top : String) (k : Key) (r : Record) : Disk :=
  ⟨[([top], .directory), ([top, Directory.binName k], .file r.toBytes),
    ([top, Directory.metaName k], .file (Bytes.ofString (Directory.sidecarOf r 0).render))]⟩

section OneEntry

variable (top : String) (r : Record)

theorem grounded_oneEntry (k : Key) : (oneEntry top k r).Grounded := by
  refine Disk.grounded_of_nodes ?_
  simp only [oneEntry, List.forall_mem_cons]
  simp [Disk.get?]

theorem get?_oneEntry (k : Key) :
    (oneEntry top k r).get? ([top] ++ [Directory.binName k]) = some (.file r.toBytes) ∧
      (oneEntry top k r).get? ([top] ++ [Directory.metaName k]) =
        some (.file (Bytes.ofString (Directory.sidecarOf r 0).render)) := by
  have hne : (Directory.metaName k == Directory.binName k) = false := by
    simpa using (Directory.names_apart k).1.symm
  simp [oneEntry, Disk.get?, List.lookup_cons, hne]

/-- A path that goes up again from a directory that is missing. That one is made, and then
    nothing is missing any more. -/
theorem create_beside (k : Key) :
    let path : Path := ⟨["", "a", "..", "b"]⟩
    let d := (oneEntry "b" k r).put ["a"] .directory
    (Directory.create path).run (oneEntry "b" k r) = (.ok ⟨path⟩, d) ∧
      d.enter path = .ok ["b"] := by
  intro path d
  have hin : d.enter path = .ok ["b"] := rfl
  have habove : path.above = [⟨["a", ".."]⟩, ⟨["a"]⟩, ⟨[]⟩] := by decide
  have hpath : (Plan.ensureDirectory path).run (oneEntry "b" k r) =
      (.error .notFound, oneEntry "b" k r) := rfl
  have hup : (Plan.ensureDirectory ⟨["a", ".."]⟩).run (oneEntry "b" k r) =
      (.error .notFound, oneEntry "b" k r) := rfl
  have hmade : (Plan.ensureDirectory ⟨["a"]⟩).run (oneEntry "b" k r) = (.ok (), d) := rfl
  have hup' : (Plan.ensureDirectory ⟨["a", ".."]⟩).run d = (.ok (), d) :=
    Plan.run_ensureDirectory (show d.enter ⟨["a", ".."]⟩ = .ok [] from rfl)
  refine ⟨?_, hin⟩
  simp only [Directory.create, Plan.makeDirectories, habove, Plan.ensureBelow, Plan.run_bind, hpath,
    hup, hmade, hup', Plan.run_ensureDirectory hin, Plan.run_pure]

end OneEntry

/-- The entry is evicted from both layers, and stays away when the store is opened again. -/
theorem evicted_is_gone_when_reopened :
    let k : Key := ⟨Record.moduleTag, [109]⟩
    let r : Record := ⟨Record.moduleTag, [1, 2, 3], by decide⟩
    let l : Layered := ⟨⟨64, by decide, .oldestFirst, [(k.scope, r)]⟩, ⟨⟨["", "cache"]⟩⟩⟩
    let w : Workspace := ⟨oneEntry "cache" k r, some (.layered l), true, 0, .oldestFirst⟩
    let again : Spec := .layered l.directory.path 64
    (w.get .whole k).1 = some (.ok (some r)) ∧ (w.evict .whole k).1 = some (.ok ()) ∧
      ∀ found, (((w.evict .whole k).2.reopen again).2.get .whole k).1 = some found →
        found = .ok none := by
  intro k r l w again
  have hin : w.disk.enter l.directory.path = .ok ["cache"] := rfl
  have hget : l.memory.get k = some r := rfl
  have hw : w.disk.Grounded := grounded_oneEntry "cache" r k
  clear_value k r
  obtain ⟨hbin, hmeta⟩ := get?_oneEntry "cache" r k
  have hevict : (w.evict .whole k).1 = some (.ok ()) := by
    rw [evict_placed rfl k rfl]
    exact congrArg some (Directory.clear_ok hin (by rw [hbin]; simp) (by rw [hmeta]; simp))
  refine ⟨by rw [get_layered rfl, hget], hevict, fun found hfound => ?_⟩
  obtain ⟨hgone, -⟩ := evicted_is_gone hw k hevict
  have hspares : ∀ u ∈ [Use.reopen again], u.Spares k w.place := by
    rintro u hu
    obtain rfl := List.mem_singleton.1 hu
    exact rfl
  obtain ⟨hmiss, -⟩ := hgone [.reopen again] hspares fun spec hspec path hpath => by
    cases hpath
    exact ⟨_, Disk.leads_of_enter hin⟩
  exact (hmiss k rfl found hfound).2 rfl

/-- The entry is in the directory beside the one that is missing. It cannot be evicted, nor found,
    before that is made; then it is found. -/
theorem evicted_entry_returns :
    let k : Key := ⟨Record.moduleTag, [109]⟩
    let r : Record := ⟨Record.moduleTag, [1, 2, 3], by decide⟩
    let dir : Directory := ⟨⟨["", "a", "..", "b"]⟩⟩
    let w : Workspace := ⟨oneEntry "b" k r, some (.directory dir), true, 0, .oldestFirst⟩
    let evicted := (w.evict .whole k).2
    w.disk.Grounded ∧ (w.evict .whole k).1 = some (.ok ()) ∧
      (evicted.get .whole k).1 = some (.ok none) ∧
      ((evicted.reopen (.directory dir.path)).2.get .whole k).1 = some (.ok (some r)) := by
  intro k r dir w evicted
  have htag : r.tag = k.tag := rfl
  clear_value k r
  have hclosed : w.disk.enter dir.path = .error .notFound := rfl
  have hw : w.disk.Grounded := grounded_oneEntry "b" r k
  have hevict : w.evict .whole k = (some (.ok ()), w) := by
    rw [evict_placed rfl k rfl, Directory.evict_of_not_entered hclosed]
    rfl
  have hevicted : evicted = w := congrArg Prod.snd hevict
  refine ⟨hw, congrArg Prod.fst hevict, ?_, ?_⟩
  · rw [hevicted, get_directory rfl, Directory.get_of_not_entered hclosed]
    rfl
  · -- Opening the store makes the missing directory, and then the other can be entered.
    obtain ⟨hmade, hin⟩ : (Directory.create dir.path).run w.disk = (.ok dir, _) ∧
        ((oneEntry "b" k r).put ["a"] .directory).enter dir.path = .ok ["b"] := create_beside r k
    obtain ⟨hbin, hmeta⟩ := get?_oneEntry "b" r k
    rw [← Disk.get?_put_ne _ .directory (show _ ≠ ["a"] by simp)] at hbin hmeta
    generalize (oneEntry "b" k r).put ["a"] .directory = d at hmade hin hbin hmeta
    have hopened : ((Spec.directory dir.path).openStore w.upkeep).run w.disk =
        (.ok (some (.directory dir)), d) := by
      simp only [Spec.openStore, Plan.run_bind, hmade]
      rfl
    have hreopened : (w.reopen (.directory dir.path)).2 =
        { w with disk := d, opened := some (.directory dir) } := by
      simp only [reopen, hopened]
      rfl
    have hreadable : Directory.Readable k (d.get? (["b"] ++ [Directory.metaName k]))
        (d.get? (["b"] ++ [Directory.binName k])) r :=
      ⟨⟨_, _, hmeta, Sidecar.parse?_render _, htag⟩, _, hbin, htag ▸ Record.headed_toBytes r, rfl⟩
    rw [hevicted, hreopened, get_directory rfl]
    exact congrArg some
      ((Directory.get_found_iff hin).2 (Directory.reading_eq_found_iff.2 hreadable))

end Workspace

end CompileCache.Store
