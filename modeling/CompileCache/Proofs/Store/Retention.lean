/-
  CompileCache.Proofs.Store.Retention — stores that keep whatever they are given.

  The user of a key need not notice at all who else uses the store, if the store keeps what
  is filed. A store in a directory alone does, whatever is on the disk. A store with memory
  does, however that is kept, if there is room in memory for all records at once, those that
  lookups move up from the disk included (`Memory.Roomy`, `Mounted.Ample`). And a store over a
  directory that nobody else touches stands for a shelf (`Mounted.StandsFor`): what memory
  drops is found on the shelf again, if each record fits in memory by itself.

  Proved: these stores (`Mounted.Retains`) shield the user of a key without dropping anything
  (`Mounted.Retains.shielded`).
-/

import Mathlib.Algebra.Order.BigOperators.Group.Finset
import CompileCache.Proofs.Store.Sharing

namespace CompileCache.Store

/-! ## Room for all records -/

namespace Memory

/-- There is room for a record of `bound` bytes under each of these scopes, and nothing is filed
    that was not reckoned with. -/
structure Roomy (scopes : Finset Bytes) (bound : Bytes → Nat) (m : Memory) : Prop where
  room : ∑ scope ∈ scopes, bound scope ≤ m.capacity
  distinct : (m.entries.map (·.1)).Nodup
  within : ∀ e ∈ m.entries, e.1 ∈ scopes ∧ e.2.size ≤ bound e.1

namespace Roomy

variable {scopes : Finset Bytes} {bound : Bytes → Nat} {m : Memory} {key : Key} {r : Record}

theorem bytes_le (h : m.Roomy scopes bound) : bytesIn m.entries ≤ m.capacity := by
  have hsubset : (m.entries.map (·.1)).toFinset ⊆ scopes := by
    intro scope hscope
    obtain ⟨e, he, rfl⟩ := List.mem_map.1 (List.mem_toFinset.1 hscope)
    exact (h.within e he).1
  have hsum : bytesIn m.entries = (m.entries.map (·.2.size)).sum := by
    induction m.entries with
    | nil => rfl
    | cons e es ih => rw [bytesIn, ih, List.map_cons, List.sum_cons]
  calc bytesIn m.entries
      = (m.entries.map (·.2.size)).sum := hsum
    _ ≤ (m.entries.map fun e => bound e.1).sum := List.sum_le_sum fun e he => (h.within e he).2
    _ = ((m.entries.map (·.1)).map bound).sum := by rw [List.map_map]; rfl
    _ = ∑ scope ∈ (m.entries.map (·.1)).toFinset, bound scope :=
        (List.sum_toFinset bound h.distinct).symm
    _ ≤ ∑ scope ∈ scopes, bound scope := Finset.sum_le_sum_of_subset hsubset
    _ ≤ m.capacity := h.room

theorem filter (h : m.Roomy scopes bound) (stays : Bytes × Record → Bool) :
    ({ m with entries := m.entries.filter stays } : Memory).Roomy scopes bound :=
  ⟨h.room, (List.filter_sublist.map _).nodup h.distinct,
    fun e he => h.within e (List.mem_filter.1 he).1⟩

theorem evict (h : m.Roomy scopes bound) (key : Key) : (m.evict key).Roomy scopes bound :=
  h.filter fun e => e.1 ≠ key.scope

theorem forget (h : m.Roomy scopes bound) (gone : Bytes → Bool) :
    (m.forget gone).Roomy scopes bound :=
  h.filter fun e => !gone e.1

theorem insert (h : m.Roomy scopes bound) (hscope : key.scope ∈ scopes)
    (hsize : r.size ≤ bound key.scope) : (m.insert key.scope r).Roomy scopes bound := by
  refine ⟨h.room, List.nodup_cons.2 ⟨?_, (h.evict key).distinct⟩, fun e he => ?_⟩
  · simp [erase]
  · rcases List.mem_cons.1 he with rfl | hold
    · exact ⟨hscope, hsize⟩
    · exact (h.evict key).within e hold

/-- So nothing is dropped for the record. -/
theorem hasRoom (h : m.Roomy scopes bound) (hscope : key.scope ∈ scopes)
    (hsize : r.size ≤ bound key.scope) : m.HasRoom key.scope r.size := by
  have hbytes := (h.insert hscope hsize).bytes_le
  simpa [HasRoom, bytesIn, Memory.insert, erase, Nat.add_comm] using hbytes

theorem put (h : m.Roomy scopes bound) (hscope : key.scope ∈ scopes)
    (hsize : r.size ≤ bound key.scope) : (m.put key r).Roomy scopes bound := by
  rw [put_of_room (h.hasRoom hscope hsize)]
  exact h.insert hscope hsize

end Roomy

end Memory

/-! ## What a record file can come to hold -/

namespace Directory

variable {d : Disk} {here : Location} {bytes : Bytes}

/-- Whether filing succeeds or not, the record file holds the record, or what it held before. -/
theorem put_file {s : Directory} {key : Key} {r : Record} {now : UInt64}
    (hin : d.enter s.path = .ok here)
    (h : ((s.put key r now).run d).2.get? (here ++ [binName key]) = some (.file bytes)) :
    bytes = r.toBytes ∨ d.get? (here ++ [binName key]) = some (.file bytes) := by
  obtain ⟨hbm, hbt, -⟩ := names_apart key
  have hdraft : here ++ [binName key] ≠ here ++ [tmpName key] := by simpa using hbt
  have hnote : here ++ [binName key] ≠ here ++ [metaName key] := by simpa using hbm
  rw [put_eq hin] at h
  split at h
  · exact .inr h
  · split at h
    · rw [Disk.get?_erase_ne d hdraft] at h
      exact .inr h
    · split at h
      · rw [Disk.get?_erase_self _ (by simp)] at h
        cases h
      · rw [Disk.get?_put_ne _ _ hnote, Disk.get?_put_self _ _ (by simp)] at h
        cases h
        exact .inl rfl

end Directory

/-- A record that is filed joins those that are held, whether filing it succeeds or not. -/
theorem Opened.put_holds_joined {A : Record → Prop} {k key : Key} {s : Opened} {d : Disk} {r : Record}
    (h : Holds A k s d) (hk : key.scope = k.scope) (hr : A r) (now : UInt64) :
    Holds A k ((s.put key r now).run d).1.2 ((s.put key r now).run d).2 := by
  have hmemory : Holds A k (s.onMemory (·.put key r)) d := by
    refine h.onMemory fun m r' hm hr' => ?_
    rcases Memory.of_filed?_put hr' with ⟨-, rfl⟩ | ⟨-, hold⟩
    · exact hr
    · exact h.memory m r' hm hold
  rw [put_run]
  cases hdir : s.directory? with
  | none => exact hmemory
  | some dir =>
    dsimp only
    refine ⟨hmemory.memory, fun dir' here bytes r' hdir' hin hfile hr' => ?_⟩
    obtain rfl : dir = dir' := by simpa [hdir] using hdir'
    have hbefore := Plan.enter_of_run (fun _ => Directory.isName_of_mem_names)
      (Directory.put_within r now) hin
    rw [Directory.binName, ← Directory.nameFor_congr hk] at hfile
    rcases Directory.put_file hbefore hfile with rfl | hold
    · rw [Record.ofBytes_toBytes] at hr'
      cases hr'
      exact hr
    · rw [Directory.binName, Directory.nameFor_congr hk, ← Directory.binName] at hold
      exact h.directory dir here bytes r' hdir hbefore hold hr'

namespace Mounted

/-! ## Room for whatever is filed -/

/-- There is room in memory for all records, also for those that lookups under these keys can
    bring into it. -/
structure Ample (scopes : Finset Bytes) (bound : Bytes → Nat) (keys : Key → Prop) (m : Mounted) :
    Prop where
  memory : ∀ x, m.store.memory? = some x → x.Roomy scopes bound
  holds : ∀ key, keys key → m.store.Holds (fun r => r.size ≤ bound key.scope) key m.disk

section Ample

variable {scopes : Finset Bytes} {bound : Bytes → Nat} {keys : Key → Prop} {m m' a s : Mounted}
  {j k : Key} {r : Record} {capacity : Option Nat}

/-- In memory alone, there is nothing to move up. -/
theorem ample_of_roomy {x : Memory} (hm : m.store = .memory x) (h : x.Roomy scopes bound)
    (keys : Key → Prop) : m.Ample scopes bound keys := by
  refine ⟨fun y hy => ?_, fun key _ => ⟨fun y r hy hr => ?_, fun dir here bytes r hdir => ?_⟩⟩
  · rw [hm] at hy
    cases hy
    exact h
  · rw [hm] at hy
    cases hy
    obtain ⟨before, after, hentries, -⟩ := List.lookup_eq_some_iff.1 hr
    exact (h.within (key.scope, r) (by simp [hentries])).2
  · rw [hm] at hdir
    cases hdir

/-- No operation makes memory drop anything. -/
theorem Used.roomy {A : Record → Prop} (h : Used j A m m')
    (hm : ∀ x, m.store.memory? = some x → x.Roomy scopes bound) (hscope : j.scope ∈ scopes)
    (hA : ∀ r, A r → r.size ≤ bound j.scope) :
    (∀ x, m'.store.memory? = some x → x.Roomy scopes bound) ∧
      ∀ scope, scope ≠ j.scope → m'.store.filed? scope = m.store.filed? scope := by
  have hall : ∀ f : Memory → Memory, m'.store = m.store.onMemory f →
      (∀ x : Memory, x.Roomy scopes bound → (f x).Roomy scopes bound ∧
        ∀ scope, scope ≠ j.scope → (f x).filed? scope = x.filed? scope) →
      (∀ x, m'.store.memory? = some x → x.Roomy scopes bound) ∧
        ∀ scope, scope ≠ j.scope → m'.store.filed? scope = m.store.filed? scope := by
    intro f hstore hf
    rw [hstore]
    refine ⟨fun x hx => ?_, fun scope hne => ?_⟩
    · rw [Opened.memory?_onMemory] at hx
      obtain ⟨x₀, hx₀, rfl⟩ := Option.map_eq_some_iff.1 hx
      exact (hf x₀ (hm x₀ hx₀)).1
    · rw [Opened.filed?_onMemory, Opened.filed?]
      cases hx : m.store.memory? with
      | none => rfl
      | some x => exact (hf x (hm x hx)).2 scope hne
  rcases h.store with hidle | hevict | ⟨r, hr, hput⟩
  · rw [hidle]
    exact ⟨hm, fun _ _ => rfl⟩
  · refine hall (·.evict j) hevict fun x hx => ⟨hx.evict j, fun scope hne => ?_⟩
    rw [Memory.filed?_evict, if_neg hne]
  · refine hall (·.put j r) hput fun x hx => ⟨hx.put hscope (hA r hr), fun scope hne => ?_⟩
    rw [Memory.filed?_put_of_room (hx.hasRoom hscope (hA r hr)), Memory.intended_elsewhere r hne]

/-- A record that was reckoned with is in memory once it was put there. -/
theorem Ample.filed_put (h : m.Ample scopes bound keys) (hscope : k.scope ∈ scopes)
    (hsize : r.size ≤ bound k.scope) :
    (m.store.onMemory (·.put k r)).filed? k.scope = m.store.intended k r := by
  rw [Opened.filed?_onMemory, Opened.intended]
  cases hx : m.store.memory? with
  | none => rfl
  | some x => exact Memory.filed?_put_of_room ((h.memory x hx).hasRoom hscope hsize) k.scope

/-- There is still room for all records, and other scopes are left alone. -/
def Keeps (scopes : Finset Bytes) (bound : Bytes → Nat) (keys : Key → Prop) (j : Key)
    (m m' : Mounted) : Prop :=
  m'.Ample scopes bound keys ∧
    ∀ scope, scope ≠ j.scope → m'.store.filed? scope = m.store.filed? scope

theorem Ample.get (h : m.Ample scopes bound keys) (hj : keys j) (hscope : j.scope ∈ scopes) :
    Keeps scopes bound keys j m (Store.get m j).2 := by
  obtain ⟨hroomy, hfiled⟩ := (used_get m j).roomy h.memory hscope fun r hr =>
    (Opened.get_answer (h.holds j hj) rfl hr).1
  exact ⟨⟨hroomy, fun key hkey => Opened.get_holds (h.holds key hkey) j⟩, hfiled⟩

theorem Ample.evict (h : m.Ample scopes bound keys) (hscope : j.scope ∈ scopes) :
    Keeps scopes bound keys j m (Store.evict m j).2 := by
  obtain ⟨hroomy, hfiled⟩ := (used_evict m j).roomy h.memory hscope fun r hr => hr.elim
  exact ⟨⟨hroomy, fun key hkey => Opened.evict_holds (h.holds key hkey) j⟩, hfiled⟩

theorem Ample.put (h : m.Ample scopes bound keys) (hapart : ∀ key, keys key → Apart j key)
    (hscope : j.scope ∈ scopes) (hsize : r.size ≤ bound j.scope) (now : UInt64) :
    Keeps scopes bound keys j m (Store.put m j r now).2 := by
  obtain ⟨hroomy, hfiled⟩ := (used_put m j r now).roomy h.memory hscope fun r' hr => hr ▸ hsize
  refine ⟨⟨hroomy, fun key hkey => ?_⟩, hfiled⟩
  by_cases hsame : j.scope = key.scope
  · exact Opened.put_holds_joined (h.holds key hkey) hsame (hsame ▸ hsize) now
  · exact Opened.put_holds (h.holds key hkey) hsame (hapart key hkey) r now

theorem Ample.forget (h : m.Ample scopes bound keys) (gone : Bytes → Bool) :
    (m.forget gone).Ample scopes bound keys := by
  refine ⟨fun x hx => ?_, fun key hkey => Opened.holds_onMemory (h.holds key hkey) fun _ _ =>
    Memory.filed?_forget gone⟩
  rw [Mounted.forget, Opened.memory?_onMemory] at hx
  obtain ⟨x₀, hx₀, rfl⟩ := Option.map_eq_some_iff.1 hx
  exact (h.memory x₀ hx₀).forget gone

/-- Two stores with room for everything that have the same under one key. -/
structure AmplyLevel (scopes : Finset Bytes) (bound : Bytes → Nat) (keys : Key → Prop) (k : Key)
    (capacity : Option Nat) (a s : Mounted) : Prop where
  level : Level k capacity a s
  left : a.Ample scopes bound keys
  right : s.Ample scopes bound keys

/-- The second one was used under another key. -/
theorem AmplyLevel.used {A : Record → Prop} {s' : Mounted}
    (h : AmplyLevel scopes bound keys k capacity a s) (hused : Used j A s s') (hforeign : Foreign k j)
    (hkeeps : Keeps scopes bound keys j s s') : AmplyLevel scopes bound keys k capacity a s' :=
  ⟨⟨h.level.toTwins.used hused hforeign.2, (hkeeps.2 k.scope hforeign.1).trans h.level.filed⟩,
    h.left, hkeeps.1⟩

/-- A record was put into both. -/
theorem AmplyLevel.filed_put (h : AmplyLevel scopes bound keys k capacity a s)
    (hscope : k.scope ∈ scopes) (hsize : r.size ≤ bound k.scope) :
    (s.store.onMemory (·.put k r)).filed? k.scope =
      (a.store.onMemory (·.put k r)).filed? k.scope := by
  rw [h.left.filed_put hscope hsize, h.right.filed_put hscope hsize, Opened.intended_eq,
    Opened.intended_eq, h.level.room, h.level.room', h.level.filed]

theorem AmplyLevel.get (h : AmplyLevel scopes bound keys k capacity a s) (hk : keys k)
    (hscope : k.scope ∈ scopes) : (Store.get s k).1 = (Store.get a k).1 ∧
      AmplyLevel scopes bound keys k capacity (Store.get a k).2 (Store.get s k).2 := by
  obtain ⟨hanswer, htwins, hmoved⟩ := h.level.get
  refine ⟨hanswer, ⟨htwins, ?_⟩, (h.left.get hk hscope).1, (h.right.get hk hscope).1⟩
  rcases hmoved with ⟨ha, hs⟩ | ⟨r, hfound, ha, hs⟩
  · rw [ha, hs]
    exact h.level.filed
  · have hsize : r.size ≤ bound k.scope := (Opened.get_answer (h.left.holds k hk) rfl hfound).1
    rw [ha, hs]
    exact h.filed_put hscope hsize

theorem AmplyLevel.put (h : AmplyLevel scopes bound keys k capacity a s)
    (hapart : ∀ key, keys key → Apart k key) (hscope : k.scope ∈ scopes)
    (hsize : r.size ≤ bound k.scope) (now : UInt64) :
    (Store.put s k r now).1 = (Store.put a k r now).1 ∧
      AmplyLevel scopes bound keys k capacity (Store.put a k r now).2 (Store.put s k r now).2 := by
  obtain ⟨hanswer, htwins⟩ := h.level.toTwins.put r now
  refine ⟨hanswer, ⟨htwins, ?_⟩, (h.left.put hapart hscope hsize now).1,
    (h.right.put hapart hscope hsize now).1⟩
  rw [store_put, store_put]
  exact h.filed_put hscope hsize

theorem shielded_ample (hapart : ∀ a b, keys a → keys b → Apart a b)
    (hscopes : ∀ key, keys key → key.scope ∈ scopes) (hk : keys k) (capacity : Option Nat) :
    Shielded k (fun j => Foreign k j ∧ keys j) (fun j r => r.size ≤ bound j.scope) False
      (AmplyLevel scopes bound keys k capacity) (AmplyLevel scopes bound keys k capacity) where
  caughtUp h := .inl h
  behind h := h
  get h := h.get hk (hscopes k hk)
  evict h :=
    ⟨h.level.evict.1, h.level.evict.2, (h.left.evict (hscopes k hk)).1, (h.right.evict (hscopes k hk)).1⟩
  put r now hsize h := h.put (fun key => hapart k key hk) (hscopes k hk) hsize now
  others_get hj h := h.used (used_get _ _) hj.1 (h.right.get hj.2 (hscopes _ hj.2))
  others_evict hj h := h.used (used_evict _ _) hj.1 (h.right.evict (hscopes _ hj.2))
  others_put r now hj hsize h := h.used (used_put _ _ r now) hj.1
    (h.right.put (fun key => hapart _ key hj.2) (hscopes _ hj.2) hsize now)
  forget gone h := by
    refine ⟨⟨h.level.toTwins.forget gone gone, ?_⟩, h.left.forget gone, h.right.forget gone⟩
    simp only [Mounted.forget, Opened.filed?_forget, h.level.filed]

end Ample

/-! ## A directory that nobody else touches -/

/-- The directory shows the shelf, and the store backs it. -/
structure StandsFor (scopes : Bytes → Prop) (fits : Record → Prop) (dir : Directory)
    (here : Location) (shelf : Shelf) (m : Mounted) : Prop where
  shows : dir.Shows here shelf m.disk
  under : shelf.Under scopes
  backs : m.store.Backs shelf fits dir

namespace StandsFor

variable {scopes : Bytes → Prop} {fits : Record → Prop} {dir : Directory} {here : Location}
  {shelf : Shelf} {m : Mounted} {key : Key}

theorem get (h : m.StandsFor scopes fits dir here shelf) (hnames : NamesApart scopes)
    (hkey : scopes key.scope) : (Store.get m key).1 = .ok (shelf.get key) ∧
      (Store.get m key).2.StandsFor scopes fits dir here shelf := by
  obtain ⟨hanswer, hdisk, hbacks⟩ := h.backs.get h.shows hnames h.under hkey
  have hsame : (Store.get m key).2.disk = m.disk := hdisk
  exact ⟨hanswer, by rw [hsame]; exact h.shows, h.under, hbacks⟩

theorem evict (h : m.StandsFor scopes fits dir here shelf) (hnames : NamesApart scopes)
    (hkey : scopes key.scope) : (Store.evict m key).1 = .ok () ∧
      (Store.evict m key).2.StandsFor scopes fits dir here (shelf.set key.scope none) := by
  obtain ⟨hanswer, hshows, hbacks⟩ := h.backs.evict h.shows hnames h.under hkey
  exact ⟨hanswer, hshows, h.under.set hkey none, hbacks⟩

theorem put (h : m.StandsFor scopes fits dir here shelf) (hnames : NamesApart scopes)
    (hkey : scopes key.scope) {r : Record} (hfits : fits r) (now : UInt64) :
    (Store.put m key r now).1 = .ok () ∧
      (Store.put m key r now).2.StandsFor scopes fits dir here (shelf.set key.scope (some r)) := by
  obtain ⟨hanswer, hshows, hbacks⟩ := h.backs.put h.shows hnames h.under hkey hfits now
  exact ⟨hanswer, hshows, h.under.set hkey (some r), hbacks⟩

theorem forget (h : m.StandsFor scopes fits dir here shelf) (gone : Bytes → Bool) :
    (m.forget gone).StandsFor scopes fits dir here shelf :=
  ⟨h.shows, h.under, h.backs.forget gone⟩

end StandsFor

/-- Two stores that stand for shelves which have the same under one scope. -/
def ShelfLevel (scopes : Bytes → Prop) (fits : Record → Prop) (dir : Directory) (here : Location)
    (k : Key) (a s : Mounted) : Prop :=
  ∃ shelf shelf' : Shelf, a.StandsFor scopes fits dir here shelf ∧
    s.StandsFor scopes fits dir here shelf' ∧ shelf' k.scope = shelf k.scope

theorem shielded_shelf {k : Key} {scopes : Bytes → Prop} (fits : Record → Prop) (dir : Directory)
    (here : Location) (hnames : NamesApart scopes) (hkey : scopes k.scope) :
    Shielded k (fun j => k.scope ≠ j.scope ∧ scopes j.scope) (fun _ r => fits r) False
      (ShelfLevel scopes fits dir here k) (ShelfLevel scopes fits dir here k) where
  caughtUp h := .inl h
  behind h := h
  get := by
    rintro a s ⟨shelf, shelf', ha, hs, hsame⟩
    obtain ⟨hanswer, ha'⟩ := ha.get hnames hkey
    obtain ⟨hanswer', hs'⟩ := hs.get hnames hkey
    exact ⟨by rw [hanswer, hanswer', Shelf.get, Shelf.get, hsame], shelf, shelf', ha', hs', hsame⟩
  evict := by
    rintro a s ⟨shelf, shelf', ha, hs, -⟩
    obtain ⟨hanswer, ha'⟩ := ha.evict hnames hkey
    obtain ⟨hanswer', hs'⟩ := hs.evict hnames hkey
    exact ⟨hanswer'.trans hanswer.symm, _, _, ha', hs', by rw [Shelf.set_self, Shelf.set_self]⟩
  put := by
    rintro a s r now hfits ⟨shelf, shelf', ha, hs, -⟩
    obtain ⟨hanswer, ha'⟩ := ha.put hnames hkey hfits now
    obtain ⟨hanswer', hs'⟩ := hs.put hnames hkey hfits now
    exact ⟨hanswer'.trans hanswer.symm, _, _, ha', hs', by rw [Shelf.set_self, Shelf.set_self]⟩
  others_get := by
    rintro a s j hj ⟨shelf, shelf', ha, hs, hsame⟩
    exact ⟨shelf, shelf', ha, (hs.get hnames hj.2).2, hsame⟩
  others_evict := by
    rintro a s j hj ⟨shelf, shelf', ha, hs, hsame⟩
    exact ⟨shelf, _, ha, (hs.evict hnames hj.2).2, by rw [Shelf.set_ne _ _ hj.1, hsame]⟩
  others_put := by
    rintro a s j r now hj hfits ⟨shelf, shelf', ha, hs, hsame⟩
    exact ⟨shelf, _, ha, (hs.put hnames hj.2 hfits now).2, by rw [Shelf.set_ne _ _ hj.1, hsame]⟩
  forget := by
    rintro a s gone ⟨shelf, shelf', ha, hs, hsame⟩
    exact ⟨shelf, shelf', ha.forget gone, hs.forget gone, hsame⟩

/-! ## Keeping everything -/

/-- The store keeps what is filed, if it is used under these keys and `files` says which records
    are filed. -/
inductive Retains (keys : Key → Prop) (files : Key → Record → Prop) (s : Mounted) : Prop
  /-- There is no memory, only a directory, whatever else is there. -/
  | directory : s.store.memory? = none → Retains keys files s
  /-- There is memory, with room for all records, over a directory or not. -/
  | room (scopes : Finset Bytes) (bound : Bytes → Nat) : s.Ample scopes bound keys →
      (∀ key, keys key → key.scope ∈ scopes) → (∀ key r, files key r → r.size ≤ bound key.scope) →
      Retains keys files s
  /-- There is a directory that nobody else touches, and memory over it, if there is any, has room
      for each of the records. -/
  | shelf (scopes : Bytes → Prop) (fits : Record → Prop) (dir : Directory) (here : Location)
      (shelf : Shelf) : s.StandsFor scopes fits dir here shelf → NamesApart scopes →
      (∀ key, keys key → scopes key.scope) → (∀ key r, files key r → fits r) → Retains keys files s

end Mounted

theorem Shielded.mono {k : Key} {others others' : Key → Prop} {fits fits' : Key → Record → Prop}
    {drops drops' : Prop} {lags level : Mounted → Mounted → Prop}
    (h : Shielded k others fits drops lags level) (hothers : ∀ j, others' j → others j)
    (hfits : ∀ j r, fits' j r → fits j r) (hdrops : drops → drops') :
    Shielded k others' fits' drops' lags level where
  caughtUp hlags := (h.caughtUp hlags).imp_right fun hdropped => ⟨hdrops hdropped.1, hdropped.2⟩
  behind := h.behind
  get := h.get
  evict := h.evict
  put r now hfit := h.put r now (hfits k r hfit)
  others_get hj := h.others_get (hothers _ hj)
  others_evict hj := h.others_evict (hothers _ hj)
  others_put r now hj hfit := h.others_put r now (hothers _ hj) (hfits _ r hfit)
  forget := h.forget

/-- A store that keeps everything shields the user of a key altogether. -/
theorem Mounted.Retains.shielded {keys : Key → Prop} {files : Key → Record → Prop} {s : Mounted}
    (h : s.Retains keys files)
    (hapart : ∀ a b, keys a → keys b → Apart a b) {k : Key} (hk : keys k) :
    ∃ lags level, level s s ∧ Shielded k (fun j => Foreign k j ∧ keys j) files False lags level := by
  have hlevel := level_refl k s
  cases h with
  | directory hmemory =>
    have hcapacity : s.store.capacity? = none := by rw [Opened.capacity?, hmemory, Option.map_none]
    have hnewest : s.store.KeepsNewest := fun m hm => by
      rw [hmemory] at hm
      cases hm
    rw [hcapacity] at hlevel
    exact ⟨_, _, ⟨⟨hlevel.lags, hnewest⟩, hlevel⟩,
      (shielded_lags k none).mono (fun j hj => hj.1) (fun _ _ _ => trivial) fun hne => hne rfl⟩
  | room scopes bound hample hscopes hfiles =>
    exact ⟨_, _, ⟨hlevel, hample, hample⟩,
      (shielded_ample hapart hscopes hk _).mono (fun j hj => hj) hfiles id⟩
  | shelf scopes fits dir here shelf hstands hnames hscopes hfiles =>
    exact ⟨_, _, ⟨shelf, shelf, hstands, hstands, rfl⟩,
      (shielded_shelf fits dir here hnames (hscopes k hk)).mono
        (fun j hj => ⟨hj.1.1, hscopes j hj.2⟩) (fun key r hfile => hfiles key r hfile) id⟩

end CompileCache.Store
