/-
  CompileCache.Proofs.Store.HalfFiled — records that reached memory, and no file.

  A layered store files a record in both layers and reports how that went in the directory.
  When it went wrong there, memory may have the record all the same. The directory answers as
  if nothing had been tried: the disks before and after give the same answers
  (`sameAnswers_put`), and so do disks that were only looked up in (`sameAnswers_get`). Since a
  store that is opened again goes by the directory alone (`get_reopened`), it does not tell
  whether there was an attempt.

  The rule that a failed attempt goes unnoticed does not hold before that: the record that
  could not be filed is found (`failed_put_is_found`).

  Proved: what is left of a failed attempt is a record in memory, if it fits and is kept there,
  and what memory has dropped for it (`failed_put_stays_in_memory`).
-/

import CompileCache.Proofs.Store.Obstacles
import CompileCache.Proofs.Store.Replacement
import CompileCache.Proofs.Store.Sharing

namespace CompileCache.Store

/-! ## Filing in memory -/

namespace Memory

variable {m : Memory} {k key : Key} {r : Record}

/-- Memory has what is meant to be filed under a scope, or has dropped it. -/
theorem filed?_put_forget (m : Memory) (k : Key) (r : Record) (gone : Bytes → Bool) (scope : Bytes) :
    ((m.put k r).forget gone).filed? scope = m.intended k r scope ∨
      ((m.put k r).forget gone).filed? scope = none := by
  rw [filed?_forget_eq]
  split
  · exact .inr rfl
  · exact m.filed?_put k r scope

/-- It drops nothing of its own accord if everything fits, or what was filed last if it keeps
    that. -/
theorem filed?_put_kept {scope : Bytes} (h : m.capacity < r.size ∨ m.HasRoom k.scope r.size ∨
      m.upkeep.KeepsNewest ∧ scope = k.scope) {gone : Bytes → Bool} (hgone : gone scope = false) :
    ((m.put k r).forget gone).filed? scope = m.intended k r scope := by
  rw [filed?_forget_eq, hgone]
  rcases h with hlarge | hroom | ⟨hnewest, rfl⟩
  · exact filed?_put_of_large hlarge scope
  · exact filed?_put_of_room hroom scope
  · exact filed?_put_newest hnewest k r

theorem get_eq_none_of_filed? (h : m.filed? key.scope = none) : m.get key = none := by
  rw [get, h]
  rfl

theorem get_of_filed? (h : m.filed? key.scope = some r) :
    m.get key = if r.tag = key.tag then some r else none := by
  rw [get, h]
  by_cases htag : r.tag = key.tag <;> simp [Option.filter, htag]

end Memory

/-! ## Disks that answer the same -/

namespace Directory

/-- The directory is entered on the second disk as on the first. -/
structure SameAccess (s : Directory) (d d' : Disk) : Prop where
  entered : ∀ here, d.enter s.path = .ok here → d'.enter s.path = .ok here
  /-- Where there is no directory to enter, nothing has changed. -/
  closed : ∀ e, d.enter s.path = .error e → d' = d

/-- Every lookup in the directory answers the same on the second disk as on the first. -/
structure SameAnswers (s : Directory) (d d' : Disk) : Prop extends s.SameAccess d d' where
  answers : ∀ key, ((s.get key).run d').1 = ((s.get key).run d).1

variable {s : Directory} {key : Key} {d d' d'' : Disk}

theorem sameAnswers_refl (s : Directory) (d : Disk) : s.SameAnswers d d :=
  ⟨⟨fun _ hin => hin, fun _ _ => rfl⟩, fun _ => rfl⟩

theorem SameAccess.trans (h : s.SameAccess d d') (h' : s.SameAccess d' d'') : s.SameAccess d d'' := by
  refine ⟨fun here hin => h'.entered here (h.entered here hin), fun e hin => ?_⟩
  obtain rfl := h.closed e hin
  exact h'.closed e hin

theorem SameAnswers.trans (h : s.SameAnswers d d') (h' : s.SameAnswers d' d'') :
    s.SameAnswers d d'' :=
  ⟨h.toSameAccess.trans h'.toSameAccess, fun key => (h'.answers key).trans (h.answers key)⟩

theorem sameAccess_of_within {α : Type} {plan : Plan α}
    (hplan : plan.Within (Disk.Change.Among s.path (names key))) (d : Disk) :
    s.SameAccess d (plan.run d).2 := by
  refine ⟨fun here hin => ?_, fun e hin => ?_⟩
  · exact Disk.enter_of_same (Plan.run_sameDirectories (fun _ => isName_of_mem_names) hplan) hin
  · rw [Plan.run_of_not_entered (fun _ => isName_of_mem_names) hplan hin]

theorem sameAnswers_get (s : Directory) (key : Key) (d : Disk) :
    s.SameAnswers d ((s.get key).run d).2 :=
  ⟨sameAccess_of_within (Plan.within_mono get_within fun _ hc => hc.1) d,
    fun k => get_after_get s key k d⟩

theorem sameAnswers_put {r : Record} {now : UInt64} {e : Store.Error}
    (h : ((s.put key r now).run d).1 = .error e) : s.SameAnswers d ((s.put key r now).run d).2 :=
  ⟨sameAccess_of_within (put_within r now) d, get_after_failed_put h⟩

end Directory

/-! ## Opening the store again -/

/-- A store that has just been opened answers what its directory answers. -/
theorem Opened.Fresh.get {s : Opened} {dir : Directory} (h : s.Fresh (some dir.path)) (key : Key)
    (d : Disk) : ((s.get key).run d).1.1 = ((dir.get key).run d).1 := by
  obtain ⟨hplace, hempty⟩ := h
  obtain ⟨dir', hdir, hpath⟩ := Option.map_eq_some_iff.1 hplace
  obtain rfl : dir' = dir := congrArg Directory.mk hpath
  have hforgot : s.remembered? key = none := by
    rw [Opened.remembered?_eq, Opened.filed?]
    cases hm : s.memory? with
    | none => rfl
    | some m => simp [Memory.filed?, hempty m hm]
  rw [Opened.get_run, hforgot, hdir]

namespace Workspace

variable {w v : Workspace} {l : Layered} {dir : Directory}

theorem get_opened {s : Opened} (hs : w.opened = some s) (key : Key) :
    (w.get .whole key).1 = some ((s.get key).run w.disk).1.1 := by
  rw [Workspace.get, perform_whole hs (kind_get s key w.disk)]

theorem upkeep_use (w : Workspace) (u : Use) : (w.use u).upkeep = w.upkeep := by
  have hperform : ∀ {α : Type} (plan : Opened → Plan (α × Opened)),
      (w.perform .whole plan).2.upkeep = w.upkeep := by
    intro α plan
    unfold perform
    split <;> rfl
  cases u with
  | get key => exact hperform _
  | evict key => exact hperform _
  | put key r => exact hperform _
  | reopen spec =>
    simp only [use, reopen]
    split <;> rfl
  | tick now => rfl
  | forget gone => rfl

theorem upkeep_usedBy (w : Workspace) (uses : List Use) : (w.usedBy uses).upkeep = w.upkeep := by
  induction uses generalizing w with
  | nil => rfl
  | cons u uses ih => exact (ih (w.use u)).trans (w.upkeep_use u)

/-- What the store answers first that is opened, if there is one. -/
theorem get_reopen (w : Workspace) (spec : Spec) (key : Key) :
    ((w.reopen spec).2.get .whole key).1 =
      match ((spec.openStore w.upkeep).run w.disk).1 with
      | .ok (some s) => some ((s.get key).run ((spec.openStore w.upkeep).run w.disk).2).1.1
      | _ => none := by
  unfold reopen
  generalize (spec.openStore w.upkeep).run w.disk = answer
  obtain ⟨(e | _ | s), d⟩ := answer
  · exact congrArg Prod.fst (perform_none rfl .whole _)
  · exact congrArg Prod.fst (perform_none rfl .whole _)
  · exact get_opened rfl key

/-- What the directory answers the same on two disks, a store that is opened again does, too. -/
theorem get_reopened_of_access (h : dir.SameAccess w.disk v.disk) (hupkeep : v.upkeep = w.upkeep)
    {spec : Spec} (hplace : spec.place = some dir.path) {key : Key}
    (hanswer : ((dir.get key).run v.disk).1 = ((dir.get key).run w.disk).1) :
    ((v.reopen spec).2.get .whole key).1 = ((w.reopen spec).2.get .whole key).1 := by
  rw [get_reopen, get_reopen, hupkeep]
  cases hin : w.disk.enter dir.path with
  | error e => rw [h.closed e hin]
  | ok here =>
    have hw : ∀ p, spec.place = some p → ∃ here, w.disk.enter p = .ok here := by
      intro p hp
      rw [hplace] at hp
      cases hp
      exact ⟨here, hin⟩
    have hv : ∀ p, spec.place = some p → ∃ here, v.disk.enter p = .ok here := by
      intro p hp
      rw [hplace] at hp
      cases hp
      exact ⟨here, h.entered here hin⟩
    obtain ⟨hdisk, hfresh⟩ := openStore_fresh w.upkeep spec hw
    rw [openStore_same w.upkeep spec hw hv, hdisk, (openStore_fresh w.upkeep spec hv).1]
    cases hopened : ((spec.openStore w.upkeep).run w.disk).1 with
    | error e => rfl
    | ok opened =>
      cases opened with
      | none => rfl
      | some s =>
        have hs := hfresh s hopened
        rw [hplace] at hs
        dsimp only
        rw [hs.get, hs.get, hanswer]

/-- On disks that answer the same, a store that is opened again answers the same. -/
theorem get_reopened (h : dir.SameAnswers w.disk v.disk) (hupkeep : v.upkeep = w.upkeep)
    {spec : Spec} (hplace : spec.place = some dir.path) (key : Key) :
    ((v.reopen spec).2.get .whole key).1 = ((w.reopen spec).2.get .whole key).1 :=
  get_reopened_of_access h.toSameAccess hupkeep hplace (h.answers key)

/-- A lookup leaves the store in its place, and the directory's answers as they are. -/
theorem opened_after_get {s : Opened} (hs : w.opened = some s) (hdir : s.directory? = some dir)
    (key : Key) : ∃ s', (w.get .whole key).2.opened = some s' ∧ s'.directory? = some dir ∧
      dir.SameAnswers w.disk (w.get .whole key).2.disk := by
  rw [Workspace.get, perform_whole hs (kind_get s key w.disk)]
  refine ⟨_, rfl, ?_, ?_⟩
  · obtain ⟨f, hf⟩ := kind_get s key w.disk
    rw [hf, Opened.directory?_onMemory, hdir]
  · rw [Opened.get_run, hdir]
    cases s.remembered? key with
    | some r => exact Directory.sameAnswers_refl dir w.disk
    | none =>
      dsimp only
      exact Directory.sameAnswers_get dir key w.disk

theorem sameAnswers_usedBy {s : Opened} (hs : w.opened = some s) (hdir : s.directory? = some dir)
    (asked : List Key) : dir.SameAnswers w.disk (w.usedBy (asked.map .get)).disk := by
  induction asked generalizing w s with
  | nil => exact Directory.sameAnswers_refl dir w.disk
  | cons key asked ih =>
    obtain ⟨s', hs', hdir', hsame⟩ := opened_after_get hs hdir key
    exact hsame.trans (ih hs' hdir')

/-! ## Layers -/

/-- What a store in layers answers: what memory has, or else what is in the directory. -/
theorem get_layered (hl : w.opened = some (.layered l)) (key : Key) :
    (w.get .whole key).1 = some (match l.memory.get key with
      | some r => .ok (some r)
      | none => ((l.directory.get key).run w.disk).1) := by
  have hremembered : (Opened.layered l).remembered? key = l.memory.get key := rfl
  rw [get_opened hl, Opened.get_run, hremembered]
  cases l.memory.get key <;> dsimp only [Opened.directory?]

/-- Filing reaches memory, and is reported from the directory. -/
theorem put_layered (hl : w.opened = some (.layered l)) (k : Key) (r : Record) :
    w.put .whole k r = (some ((l.directory.put k r w.clock).run w.disk).1,
      { w with
        disk := ((l.directory.put k r w.clock).run w.disk).2,
        opened := some (.layered { l with memory := l.memory.put k r }) }) := by
  rw [Workspace.put, perform_whole hl (kind_put _ k r w.clock w.disk), Opened.put_run]
  dsimp only [Opened.directory?, Opened.onMemory]

/-- After a failed attempt to file a record, the directory answers as before, and so does the
    store when it is opened again. Until then a record that fits in memory is found under its
    scope as long as memory keeps it; all other answers are as before, or what the directory
    answers if memory has dropped what it had. -/
theorem failed_put_stays_in_memory (hl : w.opened = some (.layered l)) (k : Key) (r : Record)
    {e : Store.Error} (hput : (w.put .whole k r).1 = some (.error e)) :
    let failed := (w.put .whole k r).2
    (∀ key, ((l.directory.get key).run failed.disk).1 = ((l.directory.get key).run w.disk).1) ∧
    -- opened again, at once or after some lookups
    (∀ (asked : List Key) (spec : Spec) (key : Key), spec.place = some l.directory.path →
      (((failed.usedBy (asked.map .get)).reopen spec).2.get .whole key).1 =
        (((w.usedBy (asked.map .get)).reopen spec).2.get .whole key).1) ∧
    -- still open
    ∀ (gone : Bytes → Bool) (key : Key),
      let later := failed.use (.forget gone)
      let found := (later.get .whole key).1
      let onDisk := ((l.directory.get key).run w.disk).1
      let intended := l.memory.intended k r key.scope
      ∃ m, later.inMemory = some m ∧
        (m.filed? key.scope = intended ∨ m.filed? key.scope = none) ∧
        (l.memory.capacity < r.size ∨ l.memory.HasRoom k.scope r.size ∨
            l.memory.upkeep.KeepsNewest ∧ key.scope = k.scope →
          gone key.scope = false → m.filed? key.scope = intended) ∧
        -- what memory has dropped, the directory answers
        (m.filed? key.scope = none → found = some onDisk) ∧
        -- memory has what it is meant to have
        (m.filed? key.scope = intended → key.scope = k.scope ∧ r.size ≤ l.memory.capacity →
          found = some (if r.tag = key.tag then .ok (some r) else onDisk)) ∧
        (m.filed? key.scope = intended → ¬ (key.scope = k.scope ∧ r.size ≤ l.memory.capacity) →
          found = (w.get .whole key).1) := by
  have hrun := put_layered hl k r
  rw [hrun] at hput
  have hfailed : ((l.directory.put k r w.clock).run w.disk).1 = .error e := Option.some.inj hput
  have hsame := Directory.sameAnswers_put hfailed
  rw [hrun]
  generalize ((l.directory.put k r w.clock).run w.disk).2 = d at hsame
  intro failed
  have hl' : failed.opened = some (.layered { l with memory := l.memory.put k r }) := rfl
  refine ⟨hsame.answers, fun asked spec key hplace => ?_, fun gone key => ?_⟩
  · have hasked := sameAnswers_usedBy hl rfl asked
    have hasked' := hsame.trans (sameAnswers_usedBy hl' rfl asked)
    exact (get_reopened hasked' (upkeep_usedBy ..) hplace key).trans
      (get_reopened hasked (upkeep_usedBy ..) hplace key).symm
  · intro later found onDisk intended
    have hlater : later.opened = some (.layered { l with memory := (l.memory.put k r).forget gone }) :=
      rfl
    have hdisk : ((l.directory.get key).run later.disk).1 = onDisk := hsame.answers key
    have hfound : found = some (match ((l.memory.put k r).forget gone).get key with
        | some r => .ok (some r)
        | none => onDisk) := by
      rw [← hdisk]
      exact get_layered hlater key
    refine ⟨(l.memory.put k r).forget gone, rfl, l.memory.filed?_put_forget k r gone key.scope,
      fun hroom hgone => Memory.filed?_put_kept hroom hgone, fun hnone => ?_,
      fun hkept hnew => ?_, fun hkept hold => ?_⟩
    · rw [hfound, Memory.get_eq_none_of_filed? hnone]
    · have hfiled : ((l.memory.put k r).forget gone).filed? key.scope = some r :=
        hkept.trans (if_pos hnew)
      rw [hfound, Memory.get_of_filed? hfiled]
      by_cases htag : r.tag = key.tag
      · rw [if_pos htag, if_pos htag]
      · rw [if_neg htag, if_neg htag]
    · have hfiled : ((l.memory.put k r).forget gone).filed? key.scope = l.memory.filed? key.scope :=
        hkept.trans (if_neg hold)
      rw [hfound, get_layered hl, Memory.get, hfiled]
      rfl

/-- The directory was removed under the open store: the record is found as long as memory has
    it, and not when the store, and the directory with it, is opened again. -/
theorem failed_put_until_reopened :
    let key : Key := ⟨Record.moduleTag, [109]⟩
    let r : Record := ⟨Record.moduleTag, [1, 2, 3], by decide⟩
    let l : Layered := ⟨⟨64, by decide, .oldestFirst, []⟩, ⟨⟨["", "cache"]⟩⟩⟩
    let w : Workspace := ⟨Disk.empty, some (.layered l), true, 0, .oldestFirst⟩
    let failed := (w.put .whole key r).2
    let again : Spec := .layered l.directory.path 64
    (w.put .whole key r).1 = some (.error (.io (l.directory.draftFile key) .notFound)) ∧
      ((failed.use (.forget fun _ => false)).get .whole key).1 = some (.ok (some r)) ∧
      ((failed.reopen again).2.get .whole key).1 = ((w.reopen again).2.get .whole key).1 := by
  intro key r l w failed again
  have hl : w.opened = some (.layered l) := rfl
  have hclosed : w.disk.enter l.directory.path = .error .notFound := rfl
  have hput : (w.put .whole key r).1 = some (.error (.io (l.directory.draftFile key) .notFound)) := by
    rw [put_layered hl, Directory.put_of_not_entered hclosed]
  obtain ⟨-, hreopened, hopen⟩ := failed_put_stays_in_memory hl key r hput
  obtain ⟨m, -, -, hkept, -, hfound, -⟩ := hopen (fun _ => false) key
  have hroom : l.memory.HasRoom key.scope r.size := by unfold Memory.HasRoom; decide
  exact ⟨hput, hfound (hkept (.inr (.inl hroom)) rfl) ⟨rfl, by decide⟩, hreopened [] again key rfl⟩

/-- With the directory gone, nothing is found under the key. Filing a record there fails, and
    then it is found. -/
theorem failed_put_is_found :
    let key : Key := ⟨Record.moduleTag, [109]⟩
    let r : Record := ⟨Record.moduleTag, [1, 2, 3], by decide⟩
    let l : Layered := ⟨⟨64, by decide, .oldestFirst, []⟩, ⟨⟨["", "cache"]⟩⟩⟩
    let w : Workspace := ⟨Disk.empty, some (.layered l), true, 0, .oldestFirst⟩
    (∃ e, (w.put .whole key r).1 = some (.error e)) ∧
      (w.get .whole key).1 = some (.ok none) ∧
      ((w.put .whole key r).2.get .whole key).1 = some (.ok (some r)) := by
  intro key r l w
  have hl : w.opened = some (.layered l) := rfl
  have hclosed : w.disk.enter l.directory.path = .error .notFound := rfl
  have hnothing : l.memory.get key = none := rfl
  have hremembered : (l.memory.put key r).get key = some r := rfl
  have hput := put_layered hl key r
  rw [Directory.put_of_not_entered hclosed] at hput
  have hl' : (w.put .whole key r).2.opened =
      some (.layered { l with memory := l.memory.put key r }) := by rw [hput]
  refine ⟨⟨_, congrArg Prod.fst hput⟩, ?_, ?_⟩
  · rw [get_layered hl, hnothing, Directory.get_of_not_entered hclosed]
    rfl
  · rw [get_layered hl', hremembered]

end Workspace

end CompileCache.Store
