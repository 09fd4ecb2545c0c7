/-
  CompileCache.Proofs.Store.Replacement — whether a stored record takes the place of the last.

  A workspace is used in any order (`Use`): records are looked up, filed and evicted, the
  store is reopened in the same place, and memory drops what it likes. After a record was
  filed without an error, a lookup under its scope should answer that record or a miss, until
  the next record is filed there.

  That is kept by every use (`use_keeps`): memory and the record's file hold no other record
  of the scope, and nothing is in the way of its files. But it need not hold in the first
  place. A record that is too large for memory is turned away there without an error, and the
  record that it should have replaced stays and is answered (`oversized_put_keeps_old`), over
  a directory too, which has the new one.

  Proved: filing replaces exactly if that did not happen (`put_replaces_iff`).
-/

import CompileCache.Proofs.Store.Opened
import CompileCache.Proofs.Store.Opening
import CompileCache.Store.Workspace

namespace CompileCache.Store

namespace Workspace

/-! ## Using a workspace -/

/-- What can be done with a workspace; nobody else touches its disk. -/
inductive Use where
  | get (key : Key)
  | evict (key : Key)
  | put (key : Key) (r : Record)
  /-- Another store is opened, or the same one again. -/
  | reopen (spec : Spec)
  /-- Time passes. -/
  | tick (now : UInt64)
  /-- Memory drops the records of some scopes. -/
  | forget (gone : Bytes → Bool)

def use (w : Workspace) : Use → Workspace
  | .get key => (w.get .whole key).2
  | .evict key => (w.evict .whole key).2
  | .put key r => (w.put .whole key r).2
  | .reopen spec => (w.reopen spec).2
  | .tick now => { w with clock := now }
  | .forget gone => { w with opened := w.opened.map (·.onMemory (·.forget gone)) }

def usedBy (w : Workspace) (uses : List Use) : Workspace := uses.foldl use w

/-- A use that files nothing under the scope of `k`, nor under a name of its files, and that
    opens no store elsewhere. -/
def Use.Spares (k : Key) (place : Option Path) : Use → Prop
  | put key _ => key.scope ≠ k.scope ∧ Apart key k
  | reopen spec => spec.place = place
  | get _ | evict _ | tick _ | forget _ => True

/-- Where the open store keeps its files. -/
def place (w : Workspace) : Option Path := w.opened.bind Opened.place

/-- What the open store has in memory. -/
def inMemory (w : Workspace) : Option Memory := w.opened.bind Opened.memory?

/-- Under the scope of `k` there is `r` or nothing, in memory and in the directory, and nothing
    is in the way of its files. -/
structure Keeps (r : Record) (k : Key) (place : Option Path) (w : Workspace) : Prop where
  placed : ∀ s, w.opened = some s → s.place = place
  memory : ∀ m r', w.inMemory = some m → m.filed? k.scope = some r' → r' = r
  directory : ∀ path, place = some path →
    (Opened.directory ⟨path⟩).Holds (· = r) k w.disk ∧ (Opened.directory ⟨path⟩).Intact k w.disk

variable {r : Record} {k : Key} {place : Option Path} {w : Workspace}

theorem Keeps.holds (h : Keeps r k place w) {s : Opened} (hs : w.opened = some s) :
    s.Holds (· = r) k w.disk := by
  refine ⟨fun m r' hm hr => ?_, fun dir here bytes r' hdir => ?_⟩
  · exact h.memory m r' (by simp [inMemory, hs, hm]) hr
  · have hplace := h.placed s hs
    rw [Opened.place, hdir] at hplace
    exact (h.directory dir.path hplace.symm).1.directory dir here bytes r' rfl

theorem Keeps.intact (h : Keeps r k place w) {s : Opened} (hs : w.opened = some s) :
    s.Intact k w.disk := by
  intro dir hdir
  have hplace := h.placed s hs
  rw [Opened.place, hdir] at hplace
  exact (h.directory dir.path hplace.symm).2 dir rfl

theorem keeps_of_holds {s : Opened} {d : Disk} (hplace : s.place = place)
    (hholds : s.Holds (· = r) k d) (hintact : s.Intact k d) :
    Keeps r k place { w with disk := d, opened := some s } := by
  refine ⟨fun s' hs' => ?_, fun m r' hm => ?_, fun path hpath => ?_⟩
  · cases hs'
    exact hplace
  · exact hholds.memory m r' hm
  · rw [← hplace, Opened.place] at hpath
    obtain ⟨dir, hdir, rfl⟩ := Option.map_eq_some_iff.1 hpath
    refine ⟨⟨fun m r' hm => (by cases hm), fun dir' here bytes r' hdir' => ?_⟩, fun dir' hdir' => ?_⟩
    · cases hdir'
      exact hholds.directory dir here bytes r' hdir
    · cases hdir'
      exact hintact dir hdir

/-! ## Operations on the whole store -/

theorem part_whole (s : Opened) : s.part .whole = s := by
  cases s <;> rfl

theorem putPart_onMemory (s : Opened) (f : Memory → Memory) :
    s.putPart (s.onMemory f) = s.onMemory f := by
  cases s <;> rfl

/-- An operation on the whole store that leaves it of its kind. -/
theorem perform_whole {α : Type} {s : Opened} (hs : w.opened = some s)
    {plan : Opened → Plan (α × Opened)} (hkind : ∃ f, ((plan s).run w.disk).1.2 = s.onMemory f) :
    w.perform .whole plan = (some ((plan s).run w.disk).1.1,
      { w with
        disk := ((plan s).run w.disk).2,
        opened := some ((plan s).run w.disk).1.2 }) := by
  obtain ⟨f, hf⟩ := hkind
  simp only [perform, hs, ite_self, part_whole, hf, putPart_onMemory]

theorem kind_get (s : Opened) (key : Key) (d : Disk) :
    ∃ f, ((s.get key).run d).1.2 = s.onMemory f := by
  rcases Opened.get_cases s d key with ⟨m, r, -, -, hrun⟩ | ⟨dir, r, d', -, -, hrun, -⟩ |
    ⟨dir, found, d', -, -, -, hrun⟩ | ⟨-, hrun⟩
  · exact ⟨id, by rw [hrun, Opened.onMemory_id]⟩
  · exact ⟨_, by rw [hrun]⟩
  · exact ⟨id, by rw [hrun, Opened.onMemory_id]⟩
  · exact ⟨id, by rw [hrun, Opened.onMemory_id]⟩

theorem kind_evict (s : Opened) (key : Key) (d : Disk) :
    ∃ f, ((s.evict key).run d).1.2 = s.onMemory f := by
  refine ⟨(·.evict key), ?_⟩
  rw [Opened.evict_run]
  cases s.directory? <;> rfl

theorem kind_put (s : Opened) (key : Key) (r : Record) (now : UInt64) (d : Disk) :
    ∃ f, ((s.put key r now).run d).1.2 = s.onMemory f := by
  refine ⟨(·.put key r), ?_⟩
  rw [Opened.put_run]
  cases s.directory? <;> rfl

theorem perform_none {α : Type} (hs : w.opened = none) (layer : Layer)
    (plan : Opened → Plan (α × Opened)) : w.perform layer plan = (none, w) := by
  simp only [perform, hs]

/-! ## What every use keeps -/

theorem keeps_perform {α : Type} (h : Keeps r k place w) {plan : Opened → Plan (α × Opened)}
    (hkind : ∀ s, ∃ f, ((plan s).run w.disk).1.2 = s.onMemory f)
    (hholds : ∀ s : Opened, s.Holds (· = r) k w.disk →
      ((plan s).run w.disk).1.2.Holds (· = r) k ((plan s).run w.disk).2)
    (hsame : ∀ s : Opened, Disk.SameDirectories w.disk ((plan s).run w.disk).2) :
    Keeps r k place (w.perform .whole plan).2 := by
  cases hs : w.opened with
  | none =>
    rw [perform_none hs]
    exact h
  | some s =>
    rw [perform_whole hs (hkind s)]
    have hdir : ((plan s).run w.disk).1.2.directory? = s.directory? := by
      obtain ⟨f, hf⟩ := hkind s
      rw [hf, Opened.directory?_onMemory]
    refine keeps_of_holds ?_ (hholds s (h.holds hs)) (Opened.intact_of_same (h.intact hs) hdir (hsame s))
    rw [Opened.place, hdir]
    exact h.placed s hs

theorem keeps_reopen (h : Keeps r k place w) {spec : Spec} (hplace : spec.place = place) :
    Keeps r k place (w.reopen spec).2 := by
  have henter : ∀ p, spec.place = some p → ∃ here, w.disk.enter p = .ok here := by
    intro p hp
    obtain ⟨here, hin, -⟩ := (h.directory p (hplace ▸ hp)).2 ⟨p⟩ rfl
    exact ⟨here, hin⟩
  obtain ⟨hdisk, hfresh⟩ := openStore_fresh w.upkeep spec henter
  unfold reopen
  generalize (spec.openStore w.upkeep).run w.disk = answer at hdisk hfresh ⊢
  obtain ⟨opened, d⟩ := answer
  obtain rfl : d = w.disk := hdisk
  cases opened with
  | error e => exact ⟨fun s hs => (by cases hs), fun m r' hm => (by cases hm), h.directory⟩
  | ok s =>
    refine ⟨fun s' hs' => ?_, fun m r' hm hr => ?_, h.directory⟩
    · obtain rfl : s = some s' := hs'
      rw [(hfresh s' rfl).1, hplace]
    · obtain ⟨s', rfl, hm'⟩ := Option.bind_eq_some_iff.1 hm
      have hempty := (hfresh s' rfl).2 m hm'
      rw [Memory.filed?, hempty] at hr
      cases hr

theorem use_keeps (h : Keeps r k place w) {u : Use} (hu : u.Spares k place) :
    Keeps r k place (w.use u) := by
  cases u with
  | get key =>
    exact keeps_perform h (fun s => kind_get s key w.disk) (fun s hs => Opened.get_holds hs key)
      fun s => (Opened.same_get s w.disk key).2
  | evict key =>
    exact keeps_perform h (fun s => kind_evict s key w.disk) (fun s hs => Opened.evict_holds hs key)
      fun s => (Opened.same_evict s w.disk key).2
  | put key r' =>
    exact keeps_perform h (fun s => kind_put s key r' w.clock w.disk)
      (fun s hs => Opened.put_holds hs hu.1 hu.2 r' w.clock)
      fun s => (Opened.same_put s w.disk key r' w.clock).2
  | reopen spec => exact keeps_reopen h hu
  | tick now => exact ⟨h.placed, h.memory, h.directory⟩
  | forget gone =>
    refine ⟨fun s hs => ?_, fun m r' hm hr => ?_, h.directory⟩
    · obtain ⟨s₀, hs₀, rfl⟩ := Option.map_eq_some_iff.1 hs
      rw [Opened.place, Opened.directory?_onMemory]
      exact h.placed s₀ hs₀
    · obtain ⟨s, hs, hm⟩ := Option.bind_eq_some_iff.1 hm
      obtain ⟨s₀, hs₀, rfl⟩ := Option.map_eq_some_iff.1 hs
      rw [Opened.memory?_onMemory] at hm
      obtain ⟨m₀, hm₀, rfl⟩ := Option.map_eq_some_iff.1 hm
      exact (h.holds hs₀).memory m₀ r' hm₀ (Memory.filed?_forget gone hr)

theorem usedBy_keeps (h : Keeps r k place w) (uses : List Use)
    (huses : ∀ u ∈ uses, u.Spares k place) : Keeps r k place (w.usedBy uses) := by
  induction uses generalizing w with
  | nil => exact h
  | cons u us ih =>
    exact ih (use_keeps h (huses u (List.mem_cons_self ..)))
      fun v hv => huses v (List.mem_cons_of_mem u hv)

/-- A lookup under the scope answers the record or a miss. -/
theorem Keeps.get (h : Keeps r k place w) {key : Key} (hk : key.scope = k.scope)
    {found : Store.Found} (hfound : (w.get .whole key).1 = some found) :
    found = .ok none ∨ found = .ok (some r) ∧ r.tag = key.tag := by
  cases hs : w.opened with
  | none =>
    rw [Workspace.get, perform_none hs] at hfound
    cases hfound
  | some s =>
    rw [Workspace.get, perform_whole hs (kind_get s key w.disk)] at hfound
    cases hfound
    rcases Opened.get_intact (h.intact hs) hk with hmiss | ⟨r', hr'⟩
    · exact .inl hmiss
    · obtain ⟨rfl, htag⟩ := Opened.get_answer (h.holds hs) hk hr'
      exact .inr ⟨hr', htag⟩

/-! ## Filing -/

/-- Filing a record that fits, or that has no other to replace in memory. -/
theorem put_keeps (hput : (w.put .whole k r).1 = some (.ok ()))
    (hreplaced : ∀ m old, (w.put .whole k r).2.inMemory = some m → m.capacity < r.size →
      m.filed? k.scope = some old → old = r) :
    Keeps r k (w.put .whole k r).2.place (w.put .whole k r).2 := by
  cases hs : w.opened with
  | none =>
    rw [Workspace.put, perform_none hs] at hput
    cases hput
  | some s =>
    have hrun := perform_whole hs (kind_put s k r w.clock w.disk)
    rw [Workspace.put, hrun] at hput hreplaced ⊢
    have hok : ((s.put k r w.clock).run w.disk).1.1 = .ok () := by simpa using hput
    have hstore : ((s.put k r w.clock).run w.disk).1.2 = s.onMemory (·.put k r) := by
      rw [Opened.put_run]
      cases s.directory? <;> rfl
    refine keeps_of_holds rfl (Opened.put_holds_new hok fun m r' hm hr => ?_) (Opened.put_intact hok)
    rcases Memory.of_filed?_put hr with ⟨-, rfl⟩ | ⟨hlarge, -⟩
    · rfl
    · refine hreplaced (m.put k r) r' ?_ ?_ hr
      · simp [inMemory, hstore, hm]
      · rw [Memory.capacity_put]
        exact hlarge rfl

/-- What memory has under the key's scope and tag is answered. -/
theorem get_inMemory {m : Memory} {old : Record} (hm : w.inMemory = some m) (key : Key)
    (hold : m.filed? key.scope = some old) (htag : old.tag = key.tag) :
    (w.get .whole key).1 = some (.ok (some old)) := by
  obtain ⟨s, hs, hsm⟩ := Option.bind_eq_some_iff.1 hm
  have hget : m.get key = some old := Memory.get_eq_some_iff.2 ⟨hold, htag⟩
  have hrun : ((s.get key).run w.disk).1.1 = .ok (some old) := by
    cases s with
    | memory m₀ =>
      cases hsm
      simp [Opened.get, hget]
    | directory dir => cases hsm
    | layered s =>
      cases hsm
      simp [Opened.get, Opened.layered_get_run, hget]
  rw [Workspace.get, perform_whole hs (kind_get s key w.disk), hrun]

/-- After a record was filed without an error, lookups under its scope answer it or nothing,
    until another is filed there — except when it is too large for memory and memory has
    another record of the scope, which is then answered instead. -/
theorem put_replaces_iff (w : Workspace) (k : Key) (r : Record)
    (hput : (w.put .whole k r).1 = some (.ok ())) :
    let filed := (w.put .whole k r).2
    (∀ uses : List Use, (∀ u ∈ uses, u.Spares k filed.place) →
      ∀ key : Key, key.scope = k.scope → ∀ found, ((filed.usedBy uses).get .whole key).1 = some found →
        found = .ok none ∨ found = .ok (some r) ∧ r.tag = key.tag) ↔
    ¬ ∃ m old, filed.inMemory = some m ∧ m.capacity < r.size ∧
      m.filed? k.scope = some old ∧ old ≠ r := by
  intro filed
  constructor
  · rintro hreplaced ⟨m, old, hm, -, hold, hne⟩
    have hfound := get_inMemory hm ⟨old.tag, k.scope⟩ hold rfl
    rcases hreplaced [] (by simp) ⟨old.tag, k.scope⟩ rfl _ hfound with hmiss | ⟨hr, -⟩
    · cases hmiss
    · cases hr
      exact hne rfl
  · intro hno uses huses key hk found hfound
    have hkeeps : Keeps r k filed.place filed := by
      refine put_keeps hput fun m old hm hbig hold => ?_
      by_cases hne : old = r
      · exact hne
      · exact absurd ⟨m, old, hm, hbig, hold, hne⟩ hno
    exact (usedBy_keeps hkeeps uses huses).get hk hfound

/-- Sixteen bytes of memory turn the second record away, and answer the first. -/
theorem oversized_put_keeps_old :
    let key : Key := ⟨Record.moduleTag, Bytes.ofString "module"⟩
    let old : Record := ⟨Record.moduleTag, Bytes.ofString "old", by decide +kernel⟩
    let new : Record := ⟨Record.moduleTag, Bytes.ofString "a newer, larger record",
      by decide +kernel⟩
    let empty := ((Workspace.new Disk.empty 0 .oldestFirst).reopen (.memory 16)).2
    let filed := ((empty.put .whole key old).2).put .whole key new
    filed.1 = some (.ok ()) ∧ (filed.2.get .whole key).1 = some (.ok (some old)) ∧ old ≠ new := by
  refine ⟨rfl, rfl, ?_⟩
  decide +kernel

/-- In memory with room for it, a record takes the place of the last. -/
theorem put_replaces_in_room :
    let k : Key := ⟨Record.moduleTag, [109]⟩
    let old : Record := ⟨Record.moduleTag, [1], by decide⟩
    let r : Record := ⟨Record.moduleTag, [1, 2, 3], by decide⟩
    let w := (((Workspace.new Disk.empty 0 .oldestFirst).reopen (.memory 64)).2.put .whole k old).2
    (w.put .whole k r).1 = some (.ok ()) ∧
      ∀ uses : List Use, (∀ u ∈ uses, u.Spares k (w.put .whole k r).2.place) →
        ∀ found, (((w.put .whole k r).2.usedBy uses).get .whole k).1 = some found →
          found = .ok none ∨ found = .ok (some r) := by
  intro k old r w
  have hput : (w.put .whole k r).1 = some (.ok ()) := rfl
  have hroom : ∀ m, (w.put .whole k r).2.inMemory = some m → ¬ m.capacity < r.size := by
    intro m hm
    cases hm
    decide
  refine ⟨hput, fun uses huses found hfound => ?_⟩
  have hreplaced := (put_replaces_iff w k r hput).2 fun ⟨m, _, hm, hbig, _⟩ => hroom m hm hbig
  rcases hreplaced uses huses k rfl found hfound with hmiss | ⟨hr, -⟩
  · exact .inl hmiss
  · exact .inr hr

end Workspace

end CompileCache.Store
