/-
  CompileCache.Proofs.Store.Refinement — a store in use is a map from scopes to records.

  A workspace that nobody else touches is used in any order: records are looked up, filed and
  evicted, the store is reopened as it was, time passes and memory drops what it likes. What
  is asked of the store (`Use.request?`) is asked of a shelf too. The workspace stands for the
  shelf (`StandsFor`) if its directory shows the shelf and its open store backs it; every use
  answers as the shelf does, and what it leaves stands for the shelf afterwards
  (`use_standsFor`, `usedBy_standsFor`).

  Proved: a store in a directory is such a map, and its files are those of the records on it
  (`directory_refines_shelf`). With memory over the directory, and records that fit there, the
  answers and the files are the same as without it (`memory_invisible`).
-/

import CompileCache.Proofs.Store.Replacement
import CompileCache.Proofs.Store.Shelf

namespace CompileCache.Store

/-! ## Opening -/

/-- Opens a store in this directory, with or without memory over it that holds such records. -/
def Spec.Serves (fits : Record → Prop) (path : Path) : Spec → Prop
  | directory p => p = path
  | layered p capacity => p = path ∧ 0 < capacity ∧ ∀ r, fits r → r.size ≤ capacity
  | memory _ | configured _ => False

theorem openStore_serves {spec : Spec} {fits : Record → Prop} {path : Path} {d : Disk}
    {here : Location} (hspec : spec.Serves fits path) (hin : d.enter path = .ok here)
    (upkeep : Upkeep) (shelf : Shelf) :
    ∃ s, (spec.openStore upkeep).run d = (.ok (some s), d) ∧ s.Backs shelf fits ⟨path⟩ := by
  cases spec with
  | memory capacity => exact absurd hspec id
  | configured settings => exact absurd hspec id
  | directory p =>
    obtain rfl : p = path := hspec
    refine ⟨.directory ⟨p⟩, ?_, ⟨rfl, fun m hm => (by cases hm), fun m hm => (by cases hm)⟩⟩
    simp only [Spec.openStore, Plan.run_bind, Directory.run_create hin]
    rfl
  | layered p capacity =>
    obtain ⟨rfl, hpos, hroom⟩ := hspec
    have hmemory : Spec.openMemory upkeep capacity = .ok ⟨capacity, hpos, upkeep, []⟩ := by
      simp only [Spec.openMemory, Memory.empty?, dif_pos hpos]
    refine ⟨.layered ⟨⟨capacity, hpos, upkeep, []⟩, ⟨p⟩⟩, ?_,
      ⟨rfl, fun m hm scope r hr => ?_, fun m hm => ?_⟩⟩
    · simp only [Spec.openStore, hmemory, Plan.run_bind, Directory.run_create hin]
      rfl
    · cases hm
      cases hr
    · cases hm
      exact hroom

namespace Workspace

/-! ## Asking -/

/-- What a use asks of the store. Time passes and memory drops records unasked. -/
def Use.request? : Use → Option Request
  | get key => some (.get key)
  | evict key => some (.evict key)
  | put key r => some (.put key r)
  | reopen _ => some .reopen
  | tick _ | forget _ => none

/-- What is answered, if anything was asked and there is a store to answer. -/
def reply (w : Workspace) : Use → Option Reply
  | .get key => (w.get .whole key).1.map .found
  | .evict key => (w.evict .whole key).1.map .done
  | .put key r => (w.put .whole key r).1.map .done
  | .reopen spec => some (.opened (w.reopen spec).1)
  | .tick _ | .forget _ => none

def replies (w : Workspace) : List Use → List Reply
  | [] => []
  | u :: uses => (w.reply u).toList ++ (w.use u).replies uses

/-- Uses keys of these scopes and files such records only, and reopens the store as it was. -/
def Use.Follows (scopes : Bytes → Prop) (fits : Record → Prop) (spec : Spec) : Use → Prop
  | get key | evict key => scopes key.scope
  | put key r => scopes key.scope ∧ fits r
  | reopen again => again = spec
  | tick _ | forget _ => True

/-! ## Standing for a shelf -/

structure StandsFor (scopes : Bytes → Prop) (fits : Record → Prop) (path : Path) (here : Location)
    (shelf : Shelf) (w : Workspace) : Prop where
  shows : Directory.Shows ⟨path⟩ here shelf w.disk
  under : shelf.Under scopes
  opened : ∃ s, w.opened = some s ∧ s.Backs shelf fits ⟨path⟩

section StandsFor

variable {scopes : Bytes → Prop} {fits : Record → Prop} {path : Path} {here : Location}
  {shelf : Shelf} {w : Workspace} {spec : Spec}

/-- An operation of the open store, by the operation alone. -/
theorem perform_standsFor {α : Type} {s : Opened} (hs : w.opened = some s)
    {plan : Opened → Plan (α × Opened)} (hkind : ∃ f, ((plan s).run w.disk).1.2 = s.onMemory f)
    (hshows : Directory.Shows ⟨path⟩ here shelf ((plan s).run w.disk).2) (hunder : shelf.Under scopes)
    (hbacks : ((plan s).run w.disk).1.2.Backs shelf fits ⟨path⟩) :
    (w.perform .whole plan).1 = some ((plan s).run w.disk).1.1 ∧
      (w.perform .whole plan).2.StandsFor scopes fits path here shelf := by
  rw [perform_whole hs hkind]
  exact ⟨rfl, hshows, hunder, _, rfl, hbacks⟩

theorem reopen_standsFor (hspec : spec.Serves fits path)
    (hshows : Directory.Shows ⟨path⟩ here shelf w.disk) (hunder : shelf.Under scopes) :
    (w.reopen spec).1 = .ok true ∧ (w.reopen spec).2.StandsFor scopes fits path here shelf := by
  obtain ⟨s, hopen, hbacks⟩ := openStore_serves hspec hshows.entered w.upkeep shelf
  simp only [reopen, hopen]
  exact ⟨rfl, hshows, hunder, s, rfl, hbacks⟩

theorem get_standsFor (h : w.StandsFor scopes fits path here shelf) (hnames : NamesApart scopes)
    {key : Key} (hkey : scopes key.scope) :
    (w.get .whole key).1 = some (.ok (shelf.get key)) ∧ (w.get .whole key).2.disk = w.disk ∧
      (w.get .whole key).2.StandsFor scopes fits path here shelf := by
  obtain ⟨s, hs, hbacks⟩ := h.opened
  obtain ⟨hanswer, hdisk, hafter⟩ := hbacks.get h.shows hnames h.under hkey
  have hkind := kind_get s key w.disk
  obtain ⟨hreply, hstands⟩ := perform_standsFor hs hkind (hdisk.symm ▸ h.shows) h.under hafter
  refine ⟨hreply.trans (congrArg some hanswer), ?_, hstands⟩
  rw [Workspace.get, perform_whole hs hkind]
  exact hdisk

/-- Every use answers as the shelf does, and leaves what the shelf is afterwards. -/
theorem use_standsFor (h : w.StandsFor scopes fits path here shelf) (hnames : NamesApart scopes)
    (hspec : spec.Serves fits path) {u : Use} (hu : u.Follows scopes fits spec) :
    w.reply u = u.request?.map shelf.reply ∧
      (w.use u).StandsFor scopes fits path here (u.request?.elim shelf shelf.after) := by
  obtain ⟨s, hs, hbacks⟩ := h.opened
  cases u with
  | get key =>
    obtain ⟨hreply, -, hstands⟩ := get_standsFor h hnames hu
    exact ⟨congrArg (Option.map Reply.found) hreply, hstands⟩
  | evict key =>
    obtain ⟨hok, hshows, hafter⟩ := hbacks.evict h.shows hnames h.under hu
    obtain ⟨hreply, hstands⟩ := perform_standsFor hs (kind_evict s key w.disk) hshows
      (h.under.set hu none) hafter
    rw [hok] at hreply
    exact ⟨congrArg (Option.map Reply.done) hreply, hstands⟩
  | put key r =>
    obtain ⟨hok, hshows, hafter⟩ := hbacks.put h.shows hnames h.under hu.1 hu.2 w.clock
    obtain ⟨hreply, hstands⟩ := perform_standsFor hs (kind_put s key r w.clock w.disk) hshows
      (h.under.set hu.1 (some r)) hafter
    rw [hok] at hreply
    exact ⟨congrArg (Option.map Reply.done) hreply, hstands⟩
  | reopen again =>
    obtain rfl : again = spec := hu
    obtain ⟨hreply, hstands⟩ := reopen_standsFor hspec h.shows h.under
    exact ⟨by rw [reply, hreply]; rfl, hstands⟩
  | tick now => exact ⟨rfl, h.shows, h.under, s, hs, hbacks⟩
  | forget gone =>
    exact ⟨rfl, h.shows, h.under, s.onMemory (·.forget gone), by simp [use, hs], hbacks.forget gone⟩

theorem usedBy_standsFor (h : w.StandsFor scopes fits path here shelf) (hnames : NamesApart scopes)
    (hspec : spec.Serves fits path) {uses : List Use}
    (huses : ∀ u ∈ uses, u.Follows scopes fits spec) :
    w.replies uses = shelf.replies (uses.filterMap Use.request?) ∧
      (w.usedBy uses).StandsFor scopes fits path here
        (shelf.afterAll (uses.filterMap Use.request?)) := by
  induction uses generalizing w shelf with
  | nil => exact ⟨rfl, h⟩
  | cons u uses ih =>
    obtain ⟨hreply, hstands⟩ := use_standsFor h hnames hspec (huses u (List.mem_cons_self ..))
    obtain ⟨hreplies, hrest⟩ := ih hstands fun v hv => huses v (List.mem_cons_of_mem u hv)
    rw [replies, hreply, hreplies]
    cases hq : u.request? with
    | none =>
      rw [hq] at hrest
      rw [List.filterMap_cons_none hq]
      exact ⟨rfl, hrest⟩
    | some request =>
      rw [hq] at hrest
      rw [List.filterMap_cons_some hq]
      exact ⟨rfl, hrest⟩

/-- A store that is opened in an empty directory stands for the shelf of what it is asked. -/
theorem opened_standsFor {d : Disk} (hin : d.enter path = .ok here)
    (hempty : ∀ below, below ≠ [] → d.get? (here ++ below) = none) (hnames : NamesApart scopes)
    (hspec : spec.Serves fits path) (clock : UInt64) (upkeep : Upkeep) {uses : List Use}
    (huses : ∀ u ∈ uses, u.Follows scopes fits spec) :
    (new d clock upkeep).replies (.reopen spec :: uses) =
        Shelf.empty.replies (.reopen :: uses.filterMap Use.request?) ∧
      ((new d clock upkeep).usedBy (.reopen spec :: uses)).StandsFor scopes fits path here
        (Shelf.empty.afterAll (uses.filterMap Use.request?)) := by
  have hshows : Directory.Shows ⟨path⟩ here .empty (new d clock upkeep).disk :=
    Directory.Shows.of_empty hin hempty
  obtain ⟨hopened, hstands⟩ := reopen_standsFor hspec hshows (Shelf.under_empty scopes)
  obtain ⟨hreplies, hrest⟩ := usedBy_standsFor hstands hnames hspec huses
  refine ⟨?_, hrest⟩
  rw [replies, reply, hopened]
  exact congrArg (Reply.opened (.ok true) :: ·) hreplies

end StandsFor

/-! ## A store in a directory -/

/-- A store in an empty directory does what a shelf does: every operation succeeds, a lookup
    answers what was put under its scope last and not evicted since, if it has the key's tag,
    and leaves the disk as it is. The directory has the two files of every record on the shelf
    and nothing else. -/
theorem directory_refines_shelf {path : Path} {d : Disk} {here : Location}
    (hin : d.enter path = .ok here) (hempty : ∀ below, below ≠ [] → d.get? (here ++ below) = none)
    {scopes : Bytes → Prop} (hnames : NamesApart scopes) (clock : UInt64) (upkeep : Upkeep)
    (uses : List Use) (huses : ∀ u ∈ uses, u.Follows scopes (fun _ => True) (.directory path)) :
    let w := (new d clock upkeep).usedBy (.reopen (.directory path) :: uses)
    let requests := uses.filterMap Use.request?
    (new d clock upkeep).replies (.reopen (.directory path) :: uses) =
        Shelf.empty.replies (.reopen :: requests) ∧
      Directory.Shows ⟨path⟩ here (Shelf.empty.afterAll requests) w.disk ∧
      ∀ key : Key, scopes key.scope → (w.use (.get key)).disk = w.disk := by
  intro w requests
  have hspec : (Spec.directory path).Serves (fun _ => True) path := rfl
  obtain ⟨hreplies, hstands⟩ := opened_standsFor hin hempty hnames hspec clock upkeep huses
  refine ⟨hreplies, hstands.shows, fun key hkey => ?_⟩
  obtain ⟨-, hdisk, -⟩ := get_standsFor hstands hnames hkey
  exact hdisk

/-- A record is filed, looked up under two tags, evicted and missed. -/
theorem directory_refines_shelf_of_one :
    let path : Path := ⟨["", "cache"]⟩
    let key : Key := ⟨Record.moduleTag, [109]⟩
    let r : Record := ⟨Record.moduleTag, [1, 2, 3], by decide⟩
    let d : Disk := ⟨[(["cache"], .directory)]⟩
    let uses : List Use := [.put key r, .get key, .tick 7, .reopen (.directory path),
      .get (key.retag Record.retiredTag), .evict key, .get key]
    d.enter path = .ok ["cache"] ∧
      (new d 0 .oldestFirst).replies (.reopen (.directory path) :: uses) =
      [.opened (.ok true), .done (.ok ()), .found (.ok (some r)), .opened (.ok true),
        .found (.ok none), .done (.ok ()), .found (.ok none)] := by
  intro path key r d uses
  have hin : d.enter path = .ok ["cache"] := rfl
  have huses : ∀ u ∈ uses, u.Follows (· = [109]) (fun _ => True) (.directory path) := by
    simp [uses, Use.Follows, key, Key.retag]
  exact ⟨hin, (directory_refines_shelf hin (Disk.get?_below_only "cache") (namesApart_one [109]) 0
    .oldestFirst uses huses).1⟩

/-! ## Memory over a directory -/

/-- The same, or two sidecars that differ in their time. -/
def SameNode (a b : Option Node) : Prop :=
  a = b ∨ ∃ (s : Sidecar) (now : UInt64), a = some (.file (Bytes.ofString s.render)) ∧
    b = some (.file (Bytes.ofString { s with filedAt := now }.render))

/-- The same files below a location, up to the times in sidecars. -/
def SameFiles (here : Location) (d d' : Disk) : Prop :=
  ∀ below, below ≠ [] → SameNode (d.get? (here ++ below)) (d'.get? (here ++ below))

/-- What shows the same shelf has the same files. -/
theorem sameFiles_of_shows {s : Directory} {here : Location} {shelf : Shelf} {d d' : Disk}
    (h : s.Shows here shelf d) (h' : s.Shows here shelf d') : SameFiles here d d' := by
  have hfiled : ∀ key r below, shelf key.scope = some r →
      below = [Directory.binName key] ∨ below = [Directory.metaName key] →
      SameNode (d.get? (here ++ below)) (d'.get? (here ++ below)) := by
    rintro key r below hr (rfl | rfl)
    · exact .inl ((h.record key r hr).trans (h'.record key r hr).symm)
    · obtain ⟨now, hmeta⟩ := h.sidecar key r hr
      obtain ⟨now', hmeta'⟩ := h'.sidecar key r hr
      exact .inr ⟨Directory.sidecarOf r now, now', hmeta, hmeta'⟩
  intro below hne
  cases hn : d.get? (here ++ below) with
  | some n =>
    obtain ⟨key, r, hr, hbelow⟩ := h.nothingElse below n hne hn
    exact hn ▸ hfiled key r below hr hbelow
  | none =>
    cases hn' : d'.get? (here ++ below) with
    | none => exact .inl rfl
    | some n =>
      obtain ⟨key, r, hr, hbelow⟩ := h'.nothingElse below n hne hn'
      rw [← hn, ← hn']
      exact hfiled key r below hr hbelow

/-- A store with memory over an empty directory, which drops records as it likes, and a store in
    the directory alone are asked the same. If the records fit into memory, both answer the
    same and have the same files, up to the times at which they were filed. -/
theorem memory_invisible {path : Path} {d : Disk} {here : Location} (hin : d.enter path = .ok here)
    (hempty : ∀ below, below ≠ [] → d.get? (here ++ below) = none) {scopes : Bytes → Prop}
    (hnames : NamesApart scopes) {capacity : Nat} (hpos : 0 < capacity) (clock clock' : UInt64)
    -- what memory drops when a record is filed; what it drops at other times is in `layered`
    (upkeep upkeep' : Upkeep) (layered alone : List Use)
    (hlayered : ∀ u ∈ layered,
      u.Follows scopes (fun r => r.toBytes.length ≤ capacity) (.layered path capacity))
    (halone : ∀ u ∈ alone, u.Follows scopes (fun _ => True) (.directory path))
    (hsame : layered.filterMap Use.request? = alone.filterMap Use.request?) :
    (new d clock upkeep).replies (.reopen (.layered path capacity) :: layered) =
        (new d clock' upkeep').replies (.reopen (.directory path) :: alone) ∧
      SameFiles here
        ((new d clock upkeep).usedBy (.reopen (.layered path capacity) :: layered)).disk
        ((new d clock' upkeep').usedBy (.reopen (.directory path) :: alone)).disk := by
  have hspec : (Spec.layered path capacity).Serves (fun r => r.toBytes.length ≤ capacity) path :=
    ⟨rfl, hpos, fun r hr => r.length_toBytes ▸ hr⟩
  obtain ⟨hover, hoverStands⟩ := opened_standsFor hin hempty hnames hspec clock upkeep hlayered
  have hdirectory : (Spec.directory path).Serves (fun _ => True) path := rfl
  obtain ⟨honly, honlyStands⟩ :=
    opened_standsFor hin hempty hnames hdirectory clock' upkeep' halone
  rw [hsame] at hover hoverStands
  exact ⟨hover.trans honly.symm, sameFiles_of_shows hoverStands.shows honlyStands.shows⟩

/-- Memory for one record keeps the first, turns the second away and forgets the first; the
    directory answers. -/
theorem memory_invisible_when_forgetful :
    let path : Path := ⟨["", "cache"]⟩
    let a : Key := ⟨Record.moduleTag, [109]⟩
    let b : Key := ⟨Record.moduleTag, [110]⟩
    let r : Record := ⟨Record.moduleTag, [1, 2, 3], by decide⟩
    let d : Disk := ⟨[(["cache"], .directory)]⟩
    let layered : List Use :=
      [.put a r, .put b r, .get a, .get b, .forget fun _ => true, .get a]
    let alone : List Use := [.tick 7, .put a r, .put b r, .get a, .get b, .get a]
    let full := ((new d 0 .firstComers).usedBy (.reopen (.layered path 16) :: layered.take 2))
    (full.inMemory.bind (·.filed? a.scope) = some r ∧
        full.inMemory.bind (·.filed? b.scope) = none) ∧
      (new d 0 .firstComers).replies (.reopen (.layered path 16) :: layered) =
        (new d 0 .oldestFirst).replies (.reopen (.directory path) :: alone) := by
  intro path a b r d layered alone full
  have hfits : r.toBytes.length ≤ 16 := by decide
  have hlayered : ∀ u ∈ layered,
      u.Follows (· ∈ [[109], [110]]) (fun r => r.toBytes.length ≤ 16) (.layered path 16) := by
    simpa [layered, Use.Follows, a, b] using hfits
  have halone : ∀ u ∈ alone, u.Follows (· ∈ [[109], [110]]) (fun _ => True) (.directory path) := by
    simp [alone, Use.Follows, a, b]
  have hnames : NamesApart (· ∈ [[109], [110]]) := by
    have hall : ∀ x ∈ [[(109 : UInt8)], [110]], ∀ y ∈ [[(109 : UInt8)], [110]],
        (Sha256.hash x).hex = (Sha256.hash y).hex → x = y := by decide +kernel
    exact fun x y hx hy => hall x.scope hx y.scope hy
  exact ⟨by decide +kernel, (memory_invisible rfl (Disk.get?_below_only "cache") hnames
    (by decide) 0 0 .firstComers .oldestFirst layered alone hlayered halone rfl).1⟩

end Workspace

end CompileCache.Store
