/-
  CompileCache.Proofs.Store.Shelf — what a store is meant to be: a map from scopes to records.

  A `Shelf` has one record or none under each scope and answers requests at once, without
  files and without failing. Under a scope it has what was put there last, unless that was
  evicted since (`afterAll_eq_some_iff`). A directory shows a shelf (`Shows`) if it has the two
  files of every record on the shelf, and no other files or directories. A store in memory,
  a directory or both backs a shelf (`Opened.Backs`) if memory has nothing that is not on it.

  Proved: a directory that shows a shelf answers as the shelf does and shows the shelf after
  the request, a lookup leaving the disk alone (`Shows.get`, `Shows.evict`, `Shows.put`). So
  does a directory with memory over it, as long as the records fit there (`Backs.get`,
  `Backs.evict`, `Backs.put`): then no record on the shelf is hidden by an older one in memory.
-/

import Mathlib.Data.List.Induction
import CompileCache.Proofs.Store.Entry
import CompileCache.Proofs.Store.Opened

namespace CompileCache.Store

/-! ## Shelves -/

/-- What is asked of a store. -/
inductive Request where
  | get (key : Key)
  | evict (key : Key)
  | put (key : Key) (r : Record)
  | reopen
  deriving DecidableEq

/-- Whether the request changes what is filed under a scope. -/
def Request.Sets (scope : Bytes) : Request → Prop
  | put key _ | evict key => key.scope = scope
  | get _ | reopen => False

inductive Reply where
  | found (found : Store.Found)
  | done (done : Store.Done)
  /-- Whether there is a store. -/
  | opened (there : Except OpenError Bool)

/-- The record under each scope. -/
def Shelf : Type := Bytes → Option Record

namespace Shelf

def empty : Shelf := fun _ => none

def set (shelf : Shelf) (scope : Bytes) (filed : Option Record) : Shelf :=
  fun other => if other = scope then filed else shelf other

/-- The record under the key's scope, if it has the key's tag. -/
def get (shelf : Shelf) (key : Key) : Option Record :=
  (shelf key.scope).filter fun r => r.tag == key.tag

def reply (shelf : Shelf) : Request → Reply
  | .get key => .found (.ok (shelf.get key))
  | .evict _ | .put _ _ => .done (.ok ())
  | .reopen => .opened (.ok true)

def after (shelf : Shelf) : Request → Shelf
  | .put key r => shelf.set key.scope (some r)
  | .evict key => shelf.set key.scope none
  | .get _ | .reopen => shelf

def afterAll (shelf : Shelf) (requests : List Request) : Shelf := requests.foldl after shelf

def replies (shelf : Shelf) : List Request → List Reply
  | [] => []
  | request :: requests => shelf.reply request :: (shelf.after request).replies requests

/-- There are records under these scopes only. -/
def Under (scopes : Bytes → Prop) (shelf : Shelf) : Prop :=
  ∀ scope r, shelf scope = some r → scopes scope

variable {shelf : Shelf} {scopes : Bytes → Prop}

@[simp] theorem set_self (shelf : Shelf) (scope : Bytes) (filed : Option Record) :
    shelf.set scope filed scope = filed := if_pos rfl

theorem set_ne (shelf : Shelf) {scope other : Bytes} (filed : Option Record) (h : other ≠ scope) :
    shelf.set scope filed other = shelf other := if_neg h

theorem under_empty (scopes : Bytes → Prop) : empty.Under scopes := by
  intro scope r hr
  cases hr

theorem Under.set (h : shelf.Under scopes) {scope : Bytes} (hscope : scopes scope)
    (filed : Option Record) : (shelf.set scope filed).Under scopes := by
  intro other r hr
  by_cases hother : other = scope
  · exact hother ▸ hscope
  · rw [set_ne shelf filed hother] at hr
    exact h other r hr

theorem get_of_none {key : Key} (h : shelf key.scope = none) : shelf.get key = none := by
  rw [get, h, Option.filter_none]

theorem after_of_not_sets {request : Request} {scope : Bytes} (h : ¬ request.Sets scope) :
    shelf.after request scope = shelf scope := by
  cases request with
  | get key => rfl
  | reopen => rfl
  | evict key => exact set_ne shelf none fun heq => h heq.symm
  | put key r => exact set_ne shelf (some r) fun heq => h heq.symm

theorem after_eq_some {request : Request} {scope : Bytes} {r : Record} (h : request.Sets scope)
    (hr : shelf.after request scope = some r) : ∃ key, request = .put key r ∧ key.scope = scope := by
  cases request with
  | get key => exact absurd h id
  | reopen => exact absurd h id
  | evict key =>
    obtain rfl : key.scope = scope := h
    rw [after, set_self] at hr
    cases hr
  | put key r' =>
    obtain rfl : key.scope = scope := h
    rw [after, set_self] at hr
    cases hr
    exact ⟨key, rfl, rfl⟩

theorem afterAll_of_not_sets {requests : List Request} {scope : Bytes}
    (h : ∀ request ∈ requests, ¬ request.Sets scope) :
    shelf.afterAll requests scope = shelf scope := by
  induction requests generalizing shelf with
  | nil => rfl
  | cons request requests ih =>
    have hrest : (shelf.after request).afterAll requests scope = shelf.after request scope :=
      ih fun q hq => h q (List.mem_cons_of_mem request hq)
    exact hrest.trans (after_of_not_sets (h request (List.mem_cons_self ..)))

/-- What is under a scope was put there, and nothing was put there or evicted since. -/
theorem afterAll_eq_some_iff (requests : List Request) (scope : Bytes) (r : Record) :
    empty.afterAll requests scope = some r ↔ ∃ before key rest,
      requests = before ++ .put key r :: rest ∧ key.scope = scope ∧
        ∀ request ∈ rest, ¬ request.Sets scope := by
  constructor
  · intro h
    induction requests using List.reverseRecOn with
    | nil => cases h
    | append_singleton requests last ih =>
      simp only [afterAll, List.foldl_append, List.foldl_cons, List.foldl_nil] at h ih
      by_cases hlast : last.Sets scope
      · obtain ⟨key, rfl, hscope⟩ := after_eq_some hlast h
        exact ⟨requests, key, [], rfl, hscope, by simp⟩
      · rw [after_of_not_sets hlast] at h
        obtain ⟨before, key, rest, rfl, hscope, hrest⟩ := ih h
        refine ⟨before, key, rest ++ [last], by simp, hscope, fun request hrequest => ?_⟩
        rcases List.mem_append.1 hrequest with hmem | hmem
        · exact hrest request hmem
        · exact List.mem_singleton.1 hmem ▸ hlast
  · rintro ⟨before, key, rest, rfl, rfl, hrest⟩
    have hput : afterAll empty (before ++ .put key r :: rest) =
        ((empty.afterAll before).after (.put key r)).afterAll rest := by
      simp only [afterAll, List.foldl_append, List.foldl_cons]
    rw [hput, afterAll_of_not_sets hrest, after, set_self]

end Shelf

/-! ## Directories -/

/-- File names tell these scopes apart. -/
def NamesApart (scopes : Bytes → Prop) : Prop :=
  ∀ a b : Key, scopes a.scope → scopes b.scope → Apart a b

theorem namesApart_one (scope : Bytes) : NamesApart (· = scope) := by
  intro a b ha hb _
  exact ha.trans hb.symm

namespace Directory

/-- The directory has the files of the records on the shelf, and nothing else. -/
structure Shows (s : Directory) (here : Location) (shelf : Shelf) (d : Disk) : Prop where
  entered : d.enter s.path = .ok here
  record : ∀ key r, shelf key.scope = some r →
    d.get? (here ++ [binName key]) = some (.file r.toBytes)
  sidecar : ∀ key r, shelf key.scope = some r → ∃ now,
    d.get? (here ++ [metaName key]) = some (.file (Bytes.ofString (sidecarOf r now).render))
  nothingElse : ∀ below n, below ≠ [] → d.get? (here ++ below) = some n →
    ∃ key r, shelf key.scope = some r ∧ (below = [binName key] ∨ below = [metaName key])

namespace Shows

variable {s : Directory} {here : Location} {shelf : Shelf} {d : Disk} {scopes : Bytes → Prop}
  {key : Key}

theorem of_empty (hin : d.enter s.path = .ok here)
    (hempty : ∀ below, below ≠ [] → d.get? (here ++ below) = none) : Shows s here .empty d := by
  refine ⟨hin, fun key r hr => (by cases hr), fun key r hr => (by cases hr), fun below n hne hn => ?_⟩
  rw [hempty below hne] at hn
  cases hn

theorem free (h : Shows s here shelf d) (key : Key) : Free s key here d := by
  refine ⟨h.entered, fun name _ hdir => ?_⟩
  obtain ⟨other, r, hr, heq | heq⟩ := h.nothingElse [name] .directory (by simp) hdir
  · rw [heq, h.record other r hr] at hdir
    cases hdir
  · obtain ⟨now, hmeta⟩ := h.sidecar other r hr
    rw [heq, hmeta] at hdir
    cases hdir

/-- Nothing on the shelf, nothing in the files. -/
theorem absent (h : Shows s here shelf d) (hnames : NamesApart scopes) (hunder : shelf.Under scopes)
    (hkey : scopes key.scope) (hnone : shelf key.scope = none) {name : String}
    (hname : name ∈ names key) : d.get? (here ++ [name]) = none := by
  cases hn : d.get? (here ++ [name]) with
  | none => rfl
  | some n =>
    obtain ⟨other, r, hr, heq⟩ := h.nothingElse [name] n (by simp) hn
    have hother : name ∈ names other := by
      rcases heq with heq | heq
      · exact List.singleton_inj.1 heq ▸ binName_mem other
      · exact List.singleton_inj.1 heq ▸ metaName_mem other
    by_cases hfile : other.fileName = key.fileName
    · have hscope := hnames other key (hunder _ r hr) hkey hfile
      rw [hscope, hnone] at hr
      cases hr
    · exact absurd hname (not_mem_names hfile hother)

theorem reading_eq (h : Shows s here shelf d) (hnames : NamesApart scopes)
    (hunder : shelf.Under scopes) (hkey : scopes key.scope) :
    Reading.of key (sidecarAt d here key) (recordAt d here key) =
      match shelf.get key with
      | some r => .found r
      | none => .miss := by
  cases hfiled : shelf key.scope with
  | none =>
    rw [sidecarAt, Disk.content?_none (h.absent hnames hunder hkey hfiled (metaName_mem key)),
      Shelf.get_of_none hfiled]
    rfl
  | some r =>
    obtain ⟨now, hmeta⟩ := h.sidecar key r hfiled
    rw [sidecarAt, recordAt, Disk.content?_file hmeta, Disk.content?_file (h.record key r hfiled),
      reading_filed, Shelf.get, hfiled]
    by_cases htag : r.tag = key.tag <;> simp [Option.filter, htag]

/-- A lookup answers from the shelf, and leaves the disk as it is. -/
theorem get (h : Shows s here shelf d) (hnames : NamesApart scopes) (hunder : shelf.Under scopes)
    (hkey : scopes key.scope) : (s.get key).run d = (.ok (shelf.get key), d) := by
  rw [get_run (h.free key), h.reading_eq hnames hunder hkey]
  cases shelf.get key <;> rfl

/-- Once the files of an entry are renewed or gone, the directory shows the shelf with the
    record renewed or gone. -/
theorem of_withEntry (h : Shows s here shelf d) (hnames : NamesApart scopes)
    (hunder : shelf.Under scopes) (hkey : scopes key.scope) {d' : Disk}
    (hin : d'.enter s.path = .ok here) {filed : Option Record} {now : UInt64}
    (hafter : ∀ l, d'.get? l = withEntry filed now key here d l) :
    Shows s here (shelf.set key.scope filed) d' := by
  obtain ⟨hbm, -, -⟩ := names_apart key
  have hbin : d'.get? (here ++ [binName key]) = filed.map fun r => .file r.toBytes := by
    rw [hafter, withEntry, if_pos rfl]
  have hmeta : d'.get? (here ++ [metaName key]) =
      filed.map fun r => .file (Bytes.ofString (sidecarOf r now).render) := by
    rw [hafter, withEntry, if_neg (by simpa using hbm.symm), if_pos rfl]
  have hothers : ∀ other r, shelf other.scope = some r → other.scope ≠ key.scope →
      ∀ name ∈ names other, d'.get? (here ++ [name]) = d.get? (here ++ [name]) := by
    intro other r hr hne name hname
    have hfile : other.fileName ≠ key.fileName := fun heq =>
      hne (hnames other key (hunder _ r hr) hkey heq)
    rw [hafter, withEntry_elsewhere filed now fun name' hname' heq => ?_]
    obtain rfl : name = name' := by simpa using heq
    exact not_mem_names hfile hname hname'
  refine ⟨hin, fun other r hr => ?_, fun other r hr => ?_, fun below n hne hn => ?_⟩
  · by_cases hscope : other.scope = key.scope
    · rw [hscope, Shelf.set_self] at hr
      rw [binName, nameFor_congr hscope, ← binName, hbin, hr]
      rfl
    · rw [Shelf.set_ne shelf filed hscope] at hr
      rw [hothers other r hr hscope _ (binName_mem other)]
      exact h.record other r hr
  · by_cases hscope : other.scope = key.scope
    · rw [hscope, Shelf.set_self] at hr
      rw [metaName, nameFor_congr hscope, ← metaName, hmeta, hr]
      exact ⟨now, rfl⟩
    · rw [Shelf.set_ne shelf filed hscope] at hr
      rw [hothers other r hr hscope _ (metaName_mem other)]
      exact h.sidecar other r hr
  · by_cases hentry : below = [binName key] ∨ below = [metaName key]
    · have hfiled : ∃ r, filed = some r := by
        rcases hentry with rfl | rfl
        · rw [hbin] at hn
          obtain ⟨r, hr, -⟩ := Option.map_eq_some_iff.1 hn
          exact ⟨r, hr⟩
        · rw [hmeta] at hn
          obtain ⟨r, hr, -⟩ := Option.map_eq_some_iff.1 hn
          exact ⟨r, hr⟩
      obtain ⟨r, rfl⟩ := hfiled
      exact ⟨key, r, Shelf.set_self .., hentry⟩
    · have hold : d.get? (here ++ below) = some n := by
        rw [hafter, withEntry] at hn
        simp only [List.append_cancel_left_eq] at hn
        rw [if_neg fun heq => hentry (.inl heq), if_neg fun heq => hentry (.inr heq)] at hn
        split at hn
        · cases hn
        · exact hn
      obtain ⟨other, r, hr, hbelow⟩ := h.nothingElse below n hne hold
      have hscope : other.scope ≠ key.scope := by
        intro heq
        rw [binName, metaName, nameFor_congr heq, nameFor_congr heq] at hbelow
        exact hentry hbelow
      exact ⟨other, r, by rw [Shelf.set_ne shelf filed hscope, hr], hbelow⟩

theorem put (h : Shows s here shelf d) (hnames : NamesApart scopes) (hunder : shelf.Under scopes)
    (hkey : scopes key.scope) (r : Record) (now : UInt64) :
    ((s.put key r now).run d).1 = .ok () ∧
      Shows s here (shelf.set key.scope (some r)) ((s.put key r now).run d).2 := by
  obtain ⟨hok, hafter⟩ := put_run (h.free key) r now
  exact ⟨hok, h.of_withEntry hnames hunder hkey
    (Disk.enter_of_same (put_same s key r now d) h.entered) hafter⟩

theorem no_draft (h : Shows s here shelf d) (key : Key) : d.get? (here ++ [tmpName key]) = none := by
  cases hn : d.get? (here ++ [tmpName key]) with
  | none => rfl
  | some n =>
    obtain ⟨other, r, -, heq⟩ := h.nothingElse [tmpName key] n (by simp) hn
    have hextension : ∀ e ∈ extensions, e ≠ "tmp" → tmpName key ≠ nameFor other e := by
      intro e he hne hname
      exact hne (nameFor_inj (by decide) he hname).2.symm
    rcases heq with heq | heq
    · exact absurd (List.singleton_inj.1 heq) (hextension "bin" (by decide) (by decide))
    · exact absurd (List.singleton_inj.1 heq) (hextension "meta" (by decide) (by decide))

theorem evict (h : Shows s here shelf d) (hnames : NamesApart scopes) (hunder : shelf.Under scopes)
    (hkey : scopes key.scope) :
    ((s.evict key).run d).1 = .ok () ∧
      Shows s here (shelf.set key.scope none) ((s.evict key).run d).2 := by
  obtain ⟨hok, hgone⟩ := evict_run (h.free key)
  have hafter : ∀ l, ((s.evict key).run d).2.get? l = withEntry none 0 key here d l := by
    intro l
    rw [hgone, withEntry]
    by_cases hb : l = here ++ [binName key]
    · simp [hb]
    · by_cases hm : l = here ++ [metaName key]
      · simp [hm]
      · by_cases ht : l = here ++ [tmpName key]
        · simp [ht, h.no_draft key]
        · simp [hb, hm, ht]
  have hwithin : (s.evict key).Within (Clears s key) := evict_within
  have hsame := clears_same hwithin d
  exact ⟨hok, h.of_withEntry hnames hunder hkey (Disk.enter_of_same hsame h.entered) hafter⟩

end Shows

end Directory

/-! ## Stores over a directory -/

namespace Opened

/-- The store is in this directory. Memory over it, if there is any, has nothing that is not on
    the shelf, and room for the records that are filed. -/
structure Backs (shelf : Shelf) (fits : Record → Prop) (dir : Directory) (s : Opened) : Prop where
  directory : s.directory? = some dir
  memory : ∀ m, s.memory? = some m → ∀ scope r, m.filed? scope = some r → shelf scope = some r
  room : ∀ m, s.memory? = some m → ∀ r, fits r → r.size ≤ m.capacity

namespace Backs

variable {shelf : Shelf} {fits : Record → Prop} {dir : Directory} {s : Opened} {here : Location}
  {d : Disk} {scopes : Bytes → Prop} {key : Key}

theorem onMemory (h : s.Backs shelf fits dir) {shelf' : Shelf} {f : Memory → Memory}
    (hcapacity : ∀ m : Memory, (f m).capacity = m.capacity)
    (hf : ∀ m, s.memory? = some m → ∀ scope r, (f m).filed? scope = some r → shelf' scope = some r) :
    (s.onMemory f).Backs shelf' fits dir := by
  refine ⟨by rw [directory?_onMemory, h.directory], fun m hm => ?_, fun m hm => ?_⟩
  · rw [memory?_onMemory] at hm
    obtain ⟨m₀, hm₀, rfl⟩ := Option.map_eq_some_iff.1 hm
    exact hf m₀ hm₀
  · rw [memory?_onMemory] at hm
    obtain ⟨m₀, hm₀, rfl⟩ := Option.map_eq_some_iff.1 hm
    rw [hcapacity]
    exact h.room m₀ hm₀

/-- Memory may drop what it likes. -/
theorem forget (h : s.Backs shelf fits dir) (gone : Bytes → Bool) :
    (s.onMemory (·.forget gone)).Backs shelf fits dir :=
  h.onMemory (fun _ => rfl) fun m hm scope r hr => h.memory m hm scope r (Memory.filed?_forget gone hr)

/-- What a lookup finds, in memory or not, is on the shelf. -/
theorem get (h : s.Backs shelf fits dir) (hshows : dir.Shows here shelf d)
    (hnames : NamesApart scopes) (hunder : shelf.Under scopes) (hkey : scopes key.scope) :
    ((s.get key).run d).1.1 = .ok (shelf.get key) ∧ ((s.get key).run d).2 = d ∧
      ((s.get key).run d).1.2.Backs shelf fits dir := by
  have hshelf := hshows.get hnames hunder hkey
  rcases get_cases s d key with ⟨m, r, hm, hget, hrun⟩ | ⟨dir', r, d', hdir, hget, hrun, -⟩ |
    ⟨dir', found, d', hdir, hget, -, hrun⟩ | ⟨hdir, -⟩
  · obtain ⟨hfiled, htag⟩ := Memory.get_eq_some_iff.1 hget
    have hanswer : shelf.get key = some r := by
      rw [Shelf.get, h.memory m hm _ r hfiled]
      simp [Option.filter, htag]
    rw [hrun, hanswer]
    exact ⟨rfl, rfl, h⟩
  · obtain rfl : dir' = dir := by simpa [hdir] using h.directory
    rw [hget] at hshelf
    cases hd : shelf.get key with
    | none =>
      rw [hd] at hshelf
      cases hshelf
    | some found =>
      rw [hd] at hshelf
      cases hshelf
      rw [hrun]
      refine ⟨rfl, rfl, h.onMemory (fun m => Memory.capacity_put m key r) fun m hm scope r' hr' => ?_⟩
      rcases Memory.of_filed?_put hr' with ⟨rfl, rfl⟩ | ⟨-, hold⟩
      · exact (Option.filter_eq_some_iff.1 hd).1
      · exact h.memory m hm scope r' hold
  · obtain rfl : dir' = dir := by simpa [hdir] using h.directory
    rw [hget] at hshelf
    cases hshelf
    rw [hrun]
    exact ⟨rfl, rfl, h⟩
  · rw [h.directory] at hdir
    cases hdir

theorem evict (h : s.Backs shelf fits dir) (hshows : dir.Shows here shelf d)
    (hnames : NamesApart scopes) (hunder : shelf.Under scopes) (hkey : scopes key.scope) :
    ((s.evict key).run d).1.1 = .ok () ∧
      dir.Shows here (shelf.set key.scope none) ((s.evict key).run d).2 ∧
      ((s.evict key).run d).1.2.Backs (shelf.set key.scope none) fits dir := by
  obtain ⟨hok, hafter⟩ := hshows.evict hnames hunder hkey
  rw [evict_run, h.directory]
  dsimp only
  refine ⟨hok, hafter, h.onMemory (fun m => rfl) fun m hm scope r hr => ?_⟩
  rw [Memory.filed?_evict] at hr
  split at hr
  · cases hr
  · next hscope =>
    rw [Shelf.set_ne shelf none hscope]
    exact h.memory m hm scope r hr

/-- The older record is in memory no longer either. -/
theorem put (h : s.Backs shelf fits dir) (hshows : dir.Shows here shelf d)
    (hnames : NamesApart scopes) (hunder : shelf.Under scopes) (hkey : scopes key.scope) {r : Record}
    (hfits : fits r) (now : UInt64) :
    ((s.put key r now).run d).1.1 = .ok () ∧
      dir.Shows here (shelf.set key.scope (some r)) ((s.put key r now).run d).2 ∧
      ((s.put key r now).run d).1.2.Backs (shelf.set key.scope (some r)) fits dir := by
  obtain ⟨hok, hafter⟩ := hshows.put hnames hunder hkey r now
  rw [put_run, h.directory]
  dsimp only
  refine ⟨hok, hafter, h.onMemory (fun m => Memory.capacity_put m key r) fun m hm scope r' hr => ?_⟩
  rcases Memory.of_filed?_put hr with ⟨rfl, rfl⟩ | ⟨hlarge, hold⟩
  · exact Shelf.set_self ..
  · by_cases hscope : scope = key.scope
    · have hroom := h.room m hm r hfits
      have hcapacity := hlarge hscope
      omega
    · rw [Shelf.set_ne shelf (some r) hscope]
      exact h.memory m hm scope r' hold

end Backs

end Opened

end CompileCache.Store
