/-
  CompileCache.Proofs.Store.Sharing — a store that is used under several keys.

  Two copies of a store are compared: one that is used under one key alone, and one that is
  used in the same way under that key and under others besides. Each operation under another
  key (`Used`) leaves the files of the key as they are, and what memory has under its scope,
  unless memory drops that for want of room. So the two copies stay alike (`Twins`), and the
  shared one, however its memory is kept, is behind there at most (`Lags`), if the other one
  keeps what was filed last: filing under the key is answered the same by both, and so are
  lookups and evictions once the copy that is used alone has dropped what the other one has
  dropped (`Level`).

  What a user of the key relies on is said once (`Shielded`), for stores of any kind. A store
  with memory shields the key up to what memory drops, and one without memory altogether
  (`shielded_lags`).
-/

import CompileCache.Proofs.Disk.Agreement
import CompileCache.Proofs.Store.Room

namespace CompileCache.Store

/-! ## An entry of a directory -/

namespace Directory

variable {s : Directory} {key : Key}

theorem discard_local {name : String} (hname : name ∈ names key) :
    (discard (s.path.child name)).Local s.path (names key) := by
  refine Plan.local_bind (Plan.local_change (fun _ => isName_of_mem_names) ⟨name, hname, rfl⟩)
    fun outcome => ?_
  rcases outcome with (_ | _ | _ | _) | _ <;> exact Plan.local_pure _

theorem evict_local : (s.evict key).Local s.path (names key) := by
  refine Plan.local_bind (discard_local (binName_mem key)) fun done => ?_
  cases done with
  | error e => exact Plan.local_pure _
  | ok _ => exact discard_local (metaName_mem key)

theorem missAfterClearing_local : (s.missAfterClearing key).Local s.path (names key) := by
  refine Plan.local_bind evict_local fun done => ?_
  cases done with
  | error e => exact Plan.local_pure _
  | ok _ => exact Plan.local_pure _

theorem readRecord_local : (s.readRecord key).Local s.path (names key) := by
  refine Plan.local_bind (Plan.local_read (fun _ => isName_of_mem_names) (binName_mem key))
    fun answer => ?_
  cases answer with
  | error e => exact missAfterClearing_local
  | ok bytes =>
    dsimp only
    split
    · exact missAfterClearing_local
    · split
      · exact Plan.local_pure _
      · exact missAfterClearing_local

theorem get_local : (s.get key).Local s.path (names key) := by
  refine Plan.local_bind (Plan.local_read (fun _ => isName_of_mem_names) (metaName_mem key))
    fun answer => ?_
  split
  · exact Plan.local_pure _
  · exact missAfterClearing_local
  · split
    · exact missAfterClearing_local
    · split
      · exact readRecord_local
      · exact Plan.local_pure _

theorem replaceFile_local {a b : String} (ha : a ∈ names key) (hb : b ∈ names key) (content : Bytes) :
    (replaceFile (s.path.child a) (s.path.child b) content).Local s.path (names key) := by
  refine Plan.local_bind (Plan.local_change (fun _ => isName_of_mem_names) ⟨a, ha, rfl⟩)
    fun written => ?_
  cases written with
  | error e => exact Plan.local_pure _
  | ok _ =>
    refine Plan.local_bind
      (Plan.local_change (fun _ => isName_of_mem_names) ⟨a, ha, b, hb, rfl, rfl⟩) fun renamed => ?_
    cases renamed with
    | ok _ => exact Plan.local_pure _
    | error e =>
      exact Plan.local_bind (Plan.local_change (fun _ => isName_of_mem_names) ⟨a, ha, rfl⟩)
        fun _ => Plan.local_pure _

theorem put_local (r : Record) (now : UInt64) : (s.put key r now).Local s.path (names key) := by
  refine Plan.local_bind (replaceFile_local (tmpName_mem key) (binName_mem key) _) fun filed => ?_
  cases filed with
  | error e => exact Plan.local_pure _
  | ok _ =>
    refine Plan.local_bind (replaceFile_local (tmpName_mem key) (metaName_mem key) _) fun noted => ?_
    cases noted with
    | ok _ => exact Plan.local_pure _
    | error e =>
      exact Plan.local_bind
        (Plan.local_change (fun _ => isName_of_mem_names) ⟨binName key, binName_mem key, rfl⟩)
        fun _ => Plan.local_pure _

end Directory

/-! ## What memory has under a scope -/

namespace Opened

/-- What memory has under a scope, if there is memory. -/
def filed? (s : Opened) (scope : Bytes) : Option Record := s.memory?.bind (·.filed? scope)

def capacity? (s : Opened) : Option Nat := s.memory?.map (·.capacity)

/-- Memory, if there is any, keeps what was filed last. -/
def KeepsNewest (s : Opened) : Prop := ∀ m, s.memory? = some m → m.upkeep.KeepsNewest

variable {s : Opened} {key : Key} {scope : Bytes} {d : Disk} {f : Memory → Memory} {r : Record}

theorem capacity?_onMemory (s : Opened) (hf : ∀ m : Memory, (f m).capacity = m.capacity) :
    (s.onMemory f).capacity? = s.capacity? := by
  simp [capacity?, Function.comp_def, hf]

theorem KeepsNewest.onMemory (h : s.KeepsNewest) (hf : ∀ m : Memory, (f m).upkeep = m.upkeep) :
    (s.onMemory f).KeepsNewest := by
  intro m hm
  rw [memory?_onMemory] at hm
  obtain ⟨m₀, hm₀, rfl⟩ := Option.map_eq_some_iff.1 hm
  rw [hf]
  exact h m₀ hm₀

theorem filed?_onMemory (s : Opened) (f : Memory → Memory) (scope : Bytes) :
    (s.onMemory f).filed? scope = s.memory?.bind fun m => (f m).filed? scope := by
  rw [filed?, memory?_onMemory]
  cases s.memory? <;> rfl

/-- What memory leaves alone or drops. -/
theorem filed?_onMemory_of_rest (s : Opened)
    (hf : ∀ m : Memory, (f m).filed? scope = none ∨ (f m).filed? scope = m.filed? scope) :
    (s.onMemory f).filed? scope = none ∨ (s.onMemory f).filed? scope = s.filed? scope := by
  rw [filed?_onMemory, filed?]
  cases s.memory? with
  | none => exact .inl rfl
  | some m => exact hf m

/-- What is meant to be filed once a record was put, if there is memory. -/
def intended (s : Opened) (key : Key) (r : Record) : Option Record :=
  s.memory?.bind (·.intended key r key.scope)

theorem intended_eq (s : Opened) (key : Key) (r : Record) : s.intended key r =
    if s.capacity?.any (r.size ≤ ·) then some r else s.filed? key.scope := by
  rw [intended, capacity?, filed?]
  cases s.memory? with
  | none => rfl
  | some m => simp [Memory.intended]

theorem filed?_put (s : Opened) (key : Key) (r : Record) :
    (s.onMemory (·.put key r)).filed? key.scope = s.intended key r ∨
      (s.onMemory (·.put key r)).filed? key.scope = none := by
  rw [filed?_onMemory, intended]
  cases s.memory? with
  | none => exact .inr rfl
  | some m => exact m.filed?_put key r key.scope

theorem filed?_put_newest (h : s.KeepsNewest) (key : Key) (r : Record) :
    (s.onMemory (·.put key r)).filed? key.scope = s.intended key r := by
  rw [filed?_onMemory, intended]
  cases hm : s.memory? with
  | none => rfl
  | some m => exact Memory.filed?_put_newest (h m hm) key r

theorem filed?_evict (s : Opened) (key : Key) :
    (s.onMemory (·.evict key)).filed? key.scope = none := by
  rw [filed?_onMemory]
  cases s.memory? with
  | none => rfl
  | some m => exact (Memory.filed?_evict m key key.scope).trans (if_pos rfl)

theorem filed?_forget (s : Opened) (gone : Bytes → Bool) (scope : Bytes) :
    (s.onMemory (·.forget gone)).filed? scope = if gone scope then none else s.filed? scope := by
  rw [filed?_onMemory, filed?]
  cases s.memory? with
  | none => simp
  | some m => exact Memory.filed?_forget_eq m gone scope

/-- What memory answers, if there is memory. -/
def remembered? (s : Opened) (key : Key) : Option Record := s.memory?.bind (·.get key)

theorem remembered?_eq (s : Opened) (key : Key) :
    s.remembered? key = (s.filed? key.scope).filter (·.tag == key.tag) := by
  rw [remembered?, filed?]
  cases s.memory? <;> rfl

/-- What a lookup that had to go to the directory makes of memory. -/
def moveUp (key : Key) (found : Store.Found) (m : Memory) : Memory :=
  match found with
  | .ok (some r) => m.put key r
  | _ => m

theorem onMemory_moveUp (s : Opened) (key : Key) (found : Store.Found) :
    s.onMemory (moveUp key found) = s ∨
      ∃ r, found = .ok (some r) ∧ s.onMemory (moveUp key found) = s.onMemory (·.put key r) := by
  rcases found with e | _ | r
  · exact .inl s.onMemory_id
  · exact .inl s.onMemory_id
  · exact .inr ⟨r, rfl, rfl⟩

/-- A lookup, by what memory has and what the directory answers. -/
theorem get_run (s : Opened) (key : Key) (d : Disk) : (s.get key).run d =
    match s.remembered? key, s.directory? with
    | some r, _ => ((.ok (some r), s), d)
    | none, none => ((.ok none, s), d)
    | none, some dir =>
      ((((dir.get key).run d).1, s.onMemory (moveUp key ((dir.get key).run d).1)),
        ((dir.get key).run d).2) := by
  cases s with
  | memory m =>
    have hm : (memory m).remembered? key = m.get key := rfl
    rw [hm]
    cases hget : m.get key <;> simp [get, hget, directory?]
  | directory dir =>
    simp only [get, Plan.run_bind, Plan.run_pure]
    rfl
  | layered l =>
    have hm : (layered l).remembered? key = l.memory.get key := rfl
    simp only [get, Plan.run_bind, Plan.run_pure, layered_get_run, hm, directory?]
    cases l.memory.get key with
    | some r => rfl
    | none =>
      dsimp only
      generalize (l.directory.get key).run d = answer
      obtain ⟨(e | _ | r), d'⟩ := answer <;> rfl

end Opened

/-! ## Two copies of a store -/

namespace Mounted

variable {k j : Key} {capacity : Option Nat} {a s s' : Mounted} {r : Record}

/-- Memory drops the records of some scopes of its own accord. -/
def forget (m : Mounted) (gone : Bytes → Bool) : Mounted :=
  { m with store := m.store.onMemory (·.forget gone) }

theorem get_eq (m : Mounted) (key : Key) : Store.get m key =
    match m.store.remembered? key, m.store.directory? with
    | some r, _ => (.ok (some r), m)
    | none, none => (.ok none, m)
    | none, some dir =>
      (((dir.get key).run m.disk).1,
        ⟨m.store.onMemory (Opened.moveUp key ((dir.get key).run m.disk).1),
          ((dir.get key).run m.disk).2⟩) := by
  show m.perform (Opened.get key) = _
  simp only [perform, Opened.get_run]
  cases m.store.remembered? key with
  | some r => dsimp only
  | none => cases m.store.directory? <;> dsimp only

theorem evict_eq (m : Mounted) (key : Key) : Store.evict m key =
    match m.store.directory? with
    | none => (.ok (), ⟨m.store.onMemory (·.evict key), m.disk⟩)
    | some dir =>
      (((dir.evict key).run m.disk).1,
        ⟨m.store.onMemory (·.evict key), ((dir.evict key).run m.disk).2⟩) := by
  show m.perform (Opened.evict key) = _
  simp only [perform, Opened.evict_run]
  cases m.store.directory? <;> dsimp only

theorem put_eq (m : Mounted) (key : Key) (r : Record) (now : UInt64) : Store.put m key r now =
    match m.store.directory? with
    | none => (.ok (), ⟨m.store.onMemory (·.put key r), m.disk⟩)
    | some dir =>
      (((dir.put key r now).run m.disk).1,
        ⟨m.store.onMemory (·.put key r), ((dir.put key r now).run m.disk).2⟩) := by
  show m.perform (Opened.put key r now) = _
  simp only [perform, Opened.put_run]
  cases m.store.directory? <;> dsimp only

theorem store_put (m : Mounted) (key : Key) (r : Record) (now : UInt64) :
    (Store.put m key r now).2.store = m.store.onMemory (·.put key r) := by
  rw [put_eq]
  cases m.store.directory? <;> rfl

/-! ### What is done under other keys -/

/-- What an operation under the key `j` can make of a store, if it can bring only such records
    into memory as `A` says. -/
structure Used (j : Key) (A : Record → Prop) (m m' : Mounted) : Prop where
  store : m'.store = m.store ∨ m'.store = m.store.onMemory (·.evict j) ∨
    ∃ r, A r ∧ m'.store = m.store.onMemory (·.put j r)
  files : ∀ dir, m.store.directory? = some dir → ∀ k : Key, k.fileName ≠ j.fileName →
    Disk.Agree dir.path (Directory.names k) m.disk m'.disk

/-- Among the files of one entry, those of another are not touched. -/
theorem agree_of_among {α : Type} {plan : Plan α} {dir : Directory}
    (hplan : plan.Within (Disk.Change.Among dir.path (Directory.names j)))
    (hname : k.fileName ≠ j.fileName) (d : Disk) :
    Disk.Agree dir.path (Directory.names k) d (plan.run d).2 :=
  (Disk.agree_refl ..).others (fun _ => Directory.isName_of_mem_names)
    (fun _ hmem => Directory.not_mem_names hname hmem) hplan

/-- A lookup moves up what it answers. -/
theorem used_get (m : Mounted) (j : Key) :
    Used j (fun r => (Store.get m j).1 = .ok (some r)) m (Store.get m j).2 := by
  rw [get_eq]
  cases m.store.remembered? j with
  | some r => exact ⟨.inl rfl, fun _ _ _ _ => Disk.agree_refl ..⟩
  | none =>
    cases hdir : m.store.directory? with
    | none => exact ⟨.inl rfl, fun _ _ _ _ => Disk.agree_refl ..⟩
    | some dir =>
      dsimp only
      refine ⟨?_, ?_⟩
      · rcases m.store.onMemory_moveUp j ((dir.get j).run m.disk).1 with hidle | ⟨r, hfound, hput⟩
        · exact .inl hidle
        · exact .inr (.inr ⟨r, hfound, hput⟩)
      · intro dir' hdir' k hname
        dsimp only
        obtain rfl : dir = dir' := by simpa [hdir] using hdir'
        have hwithin : (dir.get j).Within (Directory.Clears dir j) := Directory.get_within
        exact agree_of_among (Plan.within_mono hwithin fun _ hc => hc.1) hname m.disk

theorem used_evict (m : Mounted) (j : Key) : Used j (fun _ => False) m (Store.evict m j).2 := by
  rw [evict_eq]
  cases hdir : m.store.directory? with
  | none => exact ⟨.inr (.inl rfl), fun dir hdir' => by simp [hdir] at hdir'⟩
  | some dir =>
    dsimp only
    refine ⟨.inr (.inl rfl), fun dir' hdir' k hname => ?_⟩
    dsimp only
    obtain rfl : dir = dir' := by simpa [hdir] using hdir'
    have hwithin : (dir.evict j).Within (Directory.Clears dir j) := Directory.evict_within
    exact agree_of_among (Plan.within_mono hwithin fun _ hc => hc.1) hname m.disk

theorem used_put (m : Mounted) (j : Key) (r : Record) (now : UInt64) :
    Used j (· = r) m (Store.put m j r now).2 := by
  rw [put_eq]
  cases hdir : m.store.directory? with
  | none => exact ⟨.inr (.inr ⟨r, rfl, rfl⟩), fun dir hdir' => by simp [hdir] at hdir'⟩
  | some dir =>
    dsimp only
    refine ⟨.inr (.inr ⟨r, rfl, rfl⟩), fun dir' hdir' k hname => ?_⟩
    dsimp only
    obtain rfl : dir = dir' := by simpa [hdir] using hdir'
    exact agree_of_among (Directory.put_within r now) hname m.disk

/-- Whatever the operation does to memory, under other scopes it drops records at most. -/
theorem Used.exists_change {A : Record → Prop} (h : Used j A s s') :
    ∃ f : Memory → Memory, (∀ x, (f x).capacity = x.capacity) ∧
      (∀ x scope, scope ≠ j.scope →
        (f x).filed? scope = none ∨ (f x).filed? scope = x.filed? scope) ∧
      s'.store = s.store.onMemory f := by
  rcases h.store with hidle | hevict | ⟨r, -, hput⟩
  · exact ⟨id, fun _ => rfl, fun _ _ _ => .inr rfl, hidle.trans s.store.onMemory_id.symm⟩
  · refine ⟨(·.evict j), fun _ => rfl, fun x scope hne => ?_, hevict⟩
    exact .inr ((Memory.filed?_evict x j scope).trans (if_neg hne))
  · exact ⟨(·.put j r), fun x => Memory.capacity_put x j r,
      fun x scope hne => (x.filed?_put j r scope).symm.imp_right
        fun h => h.trans (Memory.intended_elsewhere r hne), hput⟩

/-! ### Staying alike -/

/-- Stores of one kind, with the same files for the key. -/
structure Twins (k : Key) (capacity : Option Nat) (a s : Mounted) : Prop where
  directory : s.store.directory? = a.store.directory?
  files : ∀ dir, a.store.directory? = some dir →
    Disk.Agree dir.path (Directory.names k) a.disk s.disk
  room : a.store.capacity? = capacity
  room' : s.store.capacity? = capacity

/-- The second one has the same in memory under the key's scope. -/
structure Level (k : Key) (capacity : Option Nat) (a s : Mounted) : Prop
    extends Twins k capacity a s where
  filed : s.store.filed? k.scope = a.store.filed? k.scope

/-- The second one has the same in memory under the key's scope, or nothing. -/
structure Lags (k : Key) (capacity : Option Nat) (a s : Mounted) : Prop
    extends Twins k capacity a s where
  filed : s.store.filed? k.scope = none ∨ s.store.filed? k.scope = a.store.filed? k.scope

theorem level_refl (k : Key) (s : Mounted) : Level k s.store.capacity? s s :=
  ⟨⟨rfl, fun _ _ => Disk.agree_refl .., rfl, rfl⟩, rfl⟩

theorem Level.lags (h : Level k capacity a s) : Lags k capacity a s := ⟨h.toTwins, .inr h.filed⟩

/-- Something was done to both in memory, and to both disks. -/
theorem Twins.onMemory (h : Twins k capacity a s) {f g : Memory → Memory}
    (hf : ∀ m : Memory, (f m).capacity = m.capacity) (hg : ∀ m : Memory, (g m).capacity = m.capacity)
    {d d' : Disk} (hfiles : ∀ dir, a.store.directory? = some dir →
      Disk.Agree dir.path (Directory.names k) d d') :
    Twins k capacity ⟨a.store.onMemory f, d⟩ ⟨s.store.onMemory g, d'⟩ where
  directory := by simp [h.directory]
  files := by simpa using hfiles
  room := (Opened.capacity?_onMemory _ hf).trans h.room
  room' := (Opened.capacity?_onMemory _ hg).trans h.room'

/-- What is done under another key makes no difference but in memory. -/
theorem Twins.used {A : Record → Prop} (h : Twins k capacity a s) (hused : Used j A s s')
    (hname : k.fileName ≠ j.fileName) : Twins k capacity a s' := by
  obtain ⟨f, hcapacity, -, hstore⟩ := hused.exists_change
  refine ⟨?_, fun dir hdir => ?_, h.room, ?_⟩
  · rw [hstore, Opened.directory?_onMemory, h.directory]
  · exact (h.files dir hdir).trans (hused.files dir (h.directory.trans hdir) k hname)
  · rw [hstore, Opened.capacity?_onMemory _ hcapacity, h.room']

theorem Lags.used {A : Record → Prop} (h : Lags k capacity a s) (hused : Used j A s s')
    (hscope : k.scope ≠ j.scope) (hname : k.fileName ≠ j.fileName) : Lags k capacity a s' := by
  obtain ⟨f, -, hfiled, hstore⟩ := hused.exists_change
  refine ⟨h.toTwins.used hused hname, ?_⟩
  rw [hstore]
  rcases s.store.filed?_onMemory_of_rest fun m => hfiled m k.scope hscope with hnone | hsame
  · exact .inl hnone
  · rw [hsame]
    exact h.filed

/-- Both look the key up with the same answer, and move the same record up, if any. -/
theorem Level.get (h : Level k capacity a s) : (Store.get s k).1 = (Store.get a k).1 ∧
    Twins k capacity (Store.get a k).2 (Store.get s k).2 ∧
      ((Store.get a k).2.store = a.store ∧ (Store.get s k).2.store = s.store ∨
        ∃ r, (Store.get a k).1 = .ok (some r) ∧
          (Store.get a k).2.store = a.store.onMemory (·.put k r) ∧
          (Store.get s k).2.store = s.store.onMemory (·.put k r)) := by
  have hremembered : s.store.remembered? k = a.store.remembered? k := by
    rw [Opened.remembered?_eq, Opened.remembered?_eq, h.filed]
  have hidle := h.toTwins
  rw [get_eq, get_eq, hremembered, h.directory]
  cases a.store.remembered? k with
  | some r => exact ⟨rfl, hidle, .inl ⟨rfl, rfl⟩⟩
  | none =>
    cases hdir : a.store.directory? with
    | none => exact ⟨rfl, hidle, .inl ⟨rfl, rfl⟩⟩
    | some dir =>
      obtain ⟨hanswer, hagree⟩ := Directory.get_local _ _ (h.files dir hdir)
      have hfiles : ∀ dir', a.store.directory? = some dir' → Disk.Agree dir'.path
          (Directory.names k) ((dir.get k).run a.disk).2 ((dir.get k).run s.disk).2 := by
        intro dir' hdir'
        obtain rfl : dir = dir' := by simpa [hdir] using hdir'
        exact hagree
      dsimp only
      rw [hanswer]
      generalize ((dir.get k).run a.disk).1 = found
      have hcapacity : ∀ m : Memory, (Opened.moveUp k found m).capacity = m.capacity := by
        intro m
        rcases found with e | _ | r
        · rfl
        · rfl
        · exact Memory.capacity_put m k r
      refine ⟨rfl, hidle.onMemory hcapacity hcapacity hfiles, ?_⟩
      rcases found with e | _ | r
      · exact .inl ⟨a.store.onMemory_id, s.store.onMemory_id⟩
      · exact .inl ⟨a.store.onMemory_id, s.store.onMemory_id⟩
      · exact .inr ⟨r, rfl, rfl, rfl⟩

theorem Twins.evict (h : Twins k capacity a s) : (Store.evict s k).1 = (Store.evict a k).1 ∧
    Level k capacity (Store.evict a k).2 (Store.evict s k).2 := by
  have hcapacity : ∀ m : Memory, (m.evict k).capacity = m.capacity := fun _ => rfl
  have hfiled : (s.store.onMemory (·.evict k)).filed? k.scope =
      (a.store.onMemory (·.evict k)).filed? k.scope := by
    rw [Opened.filed?_evict, Opened.filed?_evict]
  rw [evict_eq, evict_eq, h.directory]
  cases hdir : a.store.directory? with
  | none =>
    dsimp only
    refine ⟨rfl, h.onMemory hcapacity hcapacity fun dir hdir' => ?_, hfiled⟩
    simp [hdir] at hdir'
  | some dir =>
    obtain ⟨hanswer, hagree⟩ := Directory.evict_local _ _ (h.files dir hdir)
    dsimp only
    refine ⟨hanswer, h.onMemory hcapacity hcapacity fun dir' hdir' => ?_, hfiled⟩
    obtain rfl : dir = dir' := by simpa [hdir] using hdir'
    exact hagree

theorem Twins.put (h : Twins k capacity a s) (r : Record) (now : UInt64) :
    (Store.put s k r now).1 = (Store.put a k r now).1 ∧
      Twins k capacity (Store.put a k r now).2 (Store.put s k r now).2 := by
  have hcapacity : ∀ m : Memory, (m.put k r).capacity = m.capacity := fun m =>
    Memory.capacity_put m k r
  rw [put_eq, put_eq, h.directory]
  cases hdir : a.store.directory? with
  | none =>
    dsimp only
    refine ⟨rfl, h.onMemory hcapacity hcapacity fun dir hdir' => ?_⟩
    simp [hdir] at hdir'
  | some dir =>
    obtain ⟨hanswer, hagree⟩ := Directory.put_local r now _ _ (h.files dir hdir)
    dsimp only
    refine ⟨hanswer, h.onMemory hcapacity hcapacity fun dir' hdir' => ?_⟩
    obtain rfl : dir = dir' := by simpa [hdir] using hdir'
    exact hagree

/-- A record was put into both. The first one keeps it if it fits, the second one may not. -/
theorem Lags.filed_put (h : Lags k capacity a s) (hnewest : a.store.KeepsNewest) (r : Record) :
    (s.store.onMemory (·.put k r)).filed? k.scope = none ∨
      (s.store.onMemory (·.put k r)).filed? k.scope =
        (a.store.onMemory (·.put k r)).filed? k.scope := by
  rw [Opened.filed?_put_newest hnewest]
  rcases s.store.filed?_put k r with hintended | hnone
  · rw [hintended, Opened.intended_eq, Opened.intended_eq, h.room, h.room']
    split
    · exact .inr rfl
    · exact h.filed
  · exact .inl hnone

theorem Twins.forget (h : Twins k capacity a s) (gone gone' : Bytes → Bool) :
    Twins k capacity (a.forget gone) (s.forget gone') where
  directory := by simp [Mounted.forget, h.directory]
  files := by simpa [Mounted.forget] using h.files
  room := by simpa [Mounted.forget, Opened.capacity?, Function.comp_def, Memory.forget] using h.room
  room' := by simpa [Mounted.forget, Opened.capacity?, Function.comp_def, Memory.forget] using h.room'

theorem Lags.forget (h : Lags k capacity a s) (gone : Bytes → Bool) :
    Lags k capacity (a.forget gone) (s.forget gone) := by
  refine ⟨h.toTwins.forget gone gone, ?_⟩
  simp only [Mounted.forget, Opened.filed?_forget]
  cases gone k.scope with
  | true => exact .inl rfl
  | false => exact h.filed

theorem forget_none (m : Mounted) : m.forget (fun _ => false) = m := by
  have hsame : ∀ x : Memory, x.forget (fun _ => false) = x := by
    intro x
    have hall : x.entries.filter (fun _ => !false) = x.entries :=
      List.filter_eq_self.2 fun _ _ => rfl
    rw [Memory.forget, hall]
  obtain ⟨s, d⟩ := m
  cases s <;> simp [forget, Opened.onMemory, hsame]

/-- What lags behind in memory is level once the other one drops the same. Without memory nothing
    ever lags. -/
theorem Lags.caughtUp (h : Lags k capacity a s) :
    Level k capacity a s ∨ capacity ≠ none ∧ Level k capacity (a.forget (· == k.scope)) s := by
  rcases h.filed with hnone | hsame
  · by_cases hcapacity : capacity = none
    · have hmemory : a.store.memory? = none := by simpa [Opened.capacity?, hcapacity] using h.room
      exact .inl ⟨h.toTwins, by rw [hnone, Opened.filed?, hmemory, Option.bind_none]⟩
    · have htwins := h.toTwins.forget (· == k.scope) fun _ => false
      rw [forget_none] at htwins
      refine .inr ⟨hcapacity, htwins, ?_⟩
      simp only [Mounted.forget, Opened.filed?_forget, beq_self_eq_true, if_true, hnone]
  · exact .inl ⟨h.toTwins, hsame⟩

/-! ### With a copy that keeps what was filed last -/

/-- The same store, with memory kept as `upkeep` says from now on. -/
def keptBy (m : Mounted) (upkeep : Upkeep) : Mounted :=
  { m with store := m.store.onMemory ({ · with upkeep }) }

/-- The first one keeps what was filed last, so the second one can have less only. -/
structure LagsLone (k : Key) (capacity : Option Nat) (a s : Mounted) : Prop
    extends Lags k capacity a s where
  newest : a.store.KeepsNewest

theorem lagsLone_keptBy (k : Key) (s : Mounted) {upkeep : Upkeep} (h : upkeep.KeepsNewest) :
    LagsLone k s.store.capacity? (s.keptBy upkeep) s := by
  have hfiled : (s.keptBy upkeep).store.filed? k.scope = s.store.filed? k.scope :=
    Opened.filed?_onMemory ..
  refine ⟨⟨⟨?_, fun _ _ => Disk.agree_refl .., ?_, rfl⟩, .inr hfiled.symm⟩, fun m hm => ?_⟩
  · exact (Opened.directory?_onMemory ..).symm
  · exact Opened.capacity?_onMemory _ fun _ => rfl
  · rw [keptBy, Opened.memory?_onMemory] at hm
    obtain ⟨_, -, rfl⟩ := Option.map_eq_some_iff.1 hm
    exact h

theorem LagsLone.used {A : Record → Prop} (h : LagsLone k capacity a s) (hused : Used j A s s')
    (hforeign : k.scope ≠ j.scope ∧ k.fileName ≠ j.fileName) : LagsLone k capacity a s' :=
  ⟨h.toLags.used hused hforeign.1 hforeign.2, h.newest⟩

theorem LagsLone.get (h : LagsLone k capacity a s) (hlevel : Level k capacity a s) :
    (Store.get s k).1 = (Store.get a k).1 ∧
      LagsLone k capacity (Store.get a k).2 (Store.get s k).2 := by
  obtain ⟨hanswer, htwins, hmoved⟩ := hlevel.get
  refine ⟨hanswer, ⟨htwins, ?_⟩, ?_⟩
  · rcases hmoved with ⟨ha, hs⟩ | ⟨r, -, ha, hs⟩
    · rw [ha, hs]
      exact h.filed
    · rw [ha, hs]
      exact h.toLags.filed_put h.newest r
  · rcases hmoved with ⟨ha, -⟩ | ⟨r, -, ha, -⟩
    · rw [ha]
      exact h.newest
    · rw [ha]
      exact h.newest.onMemory fun m => Memory.upkeep_put m k r

theorem LagsLone.evict (h : LagsLone k capacity a s) : (Store.evict s k).1 = (Store.evict a k).1 ∧
    LagsLone k capacity (Store.evict a k).2 (Store.evict s k).2 := by
  obtain ⟨hanswer, hlevel⟩ := h.toTwins.evict
  refine ⟨hanswer, hlevel.lags, ?_⟩
  have hstore : (Store.evict a k).2.store = a.store.onMemory (·.evict k) := by
    rw [evict_eq]
    cases a.store.directory? <;> rfl
  rw [hstore]
  exact h.newest.onMemory fun _ => rfl

theorem LagsLone.put (h : LagsLone k capacity a s) (r : Record) (now : UInt64) :
    (Store.put s k r now).1 = (Store.put a k r now).1 ∧
      LagsLone k capacity (Store.put a k r now).2 (Store.put s k r now).2 := by
  obtain ⟨hanswer, htwins⟩ := h.toTwins.put r now
  refine ⟨hanswer, ⟨htwins, ?_⟩, ?_⟩
  · rw [store_put, store_put]
    exact h.toLags.filed_put h.newest r
  · rw [store_put]
    exact h.newest.onMemory fun m => Memory.upkeep_put m k r

theorem LagsLone.forget (h : LagsLone k capacity a s) (gone : Bytes → Bool) :
    LagsLone k capacity (a.forget gone) (s.forget gone) :=
  ⟨h.toLags.forget gone, h.newest.onMemory fun _ => rfl⟩

end Mounted

/-! ## What a user of a key relies on -/

/-- Neither the scope nor the file names of `j` are those of `k`. -/
def Foreign (k j : Key) : Prop := k.scope ≠ j.scope ∧ k.fileName ≠ j.fileName

/-- The store shields the user of the key `k` from those who use it under `others` and file what
    `fits`. A store that is used under `k` alone, and one that is used under the other keys too,
    stay related: operations under `k` are answered the same by both, if only, where the store
    `drops` records, the first one drops now and then what it has under the scope. -/
structure Shielded (k : Key) (others : Key → Prop) (fits : Key → Record → Prop) (drops : Prop)
    (lags level : Mounted → Mounted → Prop) : Prop where
  caughtUp : ∀ {a s}, lags a s → level a s ∨ drops ∧ level (a.forget (· == k.scope)) s
  behind : ∀ {a s}, level a s → lags a s
  get : ∀ {a s}, level a s → (Store.get s k).1 = (Store.get a k).1 ∧
    lags (Store.get a k).2 (Store.get s k).2
  evict : ∀ {a s}, lags a s → (Store.evict s k).1 = (Store.evict a k).1 ∧
    lags (Store.evict a k).2 (Store.evict s k).2
  put : ∀ {a s} r now, fits k r → lags a s → (Store.put s k r now).1 = (Store.put a k r now).1 ∧
    lags (Store.put a k r now).2 (Store.put s k r now).2
  others_get : ∀ {a s j}, others j → lags a s → lags a (Store.get s j).2
  others_evict : ∀ {a s j}, others j → lags a s → lags a (Store.evict s j).2
  others_put : ∀ {a s j} r now, others j → fits j r → lags a s → lags a (Store.put s j r now).2
  forget : ∀ {a s} gone, lags a s → lags (a.forget gone) (s.forget gone)

/-- Any store shields the user of a key, up to what memory drops, if there is memory. -/
theorem shielded_lags (k : Key) (capacity : Option Nat) :
    Shielded k (Foreign k) (fun _ _ => True) (capacity ≠ none) (Mounted.LagsLone k capacity)
      (fun a s => Mounted.LagsLone k capacity a s ∧ Mounted.Level k capacity a s) where
  caughtUp h := by
    rcases h.toLags.caughtUp with hlevel | ⟨hmemory, hlevel⟩
    · exact .inl ⟨h, hlevel⟩
    · exact .inr ⟨hmemory, ⟨hlevel.lags, h.newest.onMemory fun _ => rfl⟩, hlevel⟩
  behind h := h.1
  get h := h.1.get h.2
  evict h := h.evict
  put r now _ h := h.put r now
  others_get hj h := h.used (Mounted.used_get _ _) hj
  others_evict hj h := h.used (Mounted.used_evict _ _) hj
  others_put r now hj _ h := h.used (Mounted.used_put _ _ r now) hj
  forget gone h := h.forget gone

end CompileCache.Store
