/-
  CompileCache.Proofs.Store.Directory — a store in a directory, by the files of its entries.

  The files of an entry have names of their own (`nameFor_inj`), so an operation under one
  key touches its own names and no others (`put_within`), and looking up and evicting only
  ever unlink (`get_within`, `evict_within`). Clearing and filing go by what stands under
  these names, file, directory or nothing (`clear_eq`, `put_eq`).

  Proved: a record that is found is what its file holds, and nothing was changed
  (`get_found`); where no directory is in the way, a lookup answers a record or a miss
  (`get_intact`); a record that was filed without an error is in its file (`put_ok`); after
  an eviction, failed or not, there is no record file (`evict_gone`).
-/

import CompileCache.Proofs.Disk.Plan
import CompileCache.Store.Directory

namespace CompileCache.Store.Directory

/-! ## Names -/

/-- The name of one of an entry's files. -/
def nameFor (key : Key) (extension : String) : String := key.fileName ++ "." ++ extension

def extensions : List String := ["bin", "meta", "tmp"]

/-- The names of all of an entry's files. -/
def names (key : Key) : List String := extensions.map (nameFor key)

def binName (key : Key) : String := nameFor key "bin"

def metaName (key : Key) : String := nameFor key "meta"

def tmpName (key : Key) : String := nameFor key "tmp"

theorem isName_nameFor (key : Key) {extension : String} (h : 2 ≤ extension.length) :
    Path.isName (nameFor key extension) := by
  have hlen : 2 < (nameFor key extension).length := by
    simp only [nameFor, String.length_append]
    have : (".").length = 1 := rfl
    omega
  have hne : ∀ s : String, s.length ≤ 2 → nameFor key extension ≠ s := by
    rintro s hs rfl
    omega
  simp only [Path.isName, Bool.and_eq_true, decide_eq_true_eq]
  exact ⟨⟨hne "" (by decide), hne "." (by decide)⟩, hne ".." (by decide)⟩

theorem isName_of_mem_names {key : Key} {name : String} (h : name ∈ names key) :
    Path.isName name := by
  obtain ⟨extension, he, rfl⟩ := List.mem_map.1 h
  refine isName_nameFor key ?_
  have hall : ∀ e ∈ extensions, 2 ≤ e.length := by decide
  exact hall extension he

theorem getLast?_nameFor (key : Key) {extension : String} (h : extension ∈ extensions) :
    (nameFor key extension).toList.getLast? = extension.toList.getLast? := by
  simp only [extensions, List.mem_cons, List.not_mem_nil, or_false] at h
  rcases h with rfl | rfl | rfl <;> simp [nameFor]

/-- The files of all entries have different names. -/
theorem nameFor_inj {a b : Key} {e f : String} (he : e ∈ extensions) (hf : f ∈ extensions)
    (h : nameFor a e = nameFor b f) : a.fileName = b.fileName ∧ e = f := by
  have hlast : e.toList.getLast? = f.toList.getLast? := by
    rw [← getLast?_nameFor a he, h, getLast?_nameFor b hf]
  have hapart : ∀ e ∈ extensions, ∀ f ∈ extensions, e.toList.getLast? = f.toList.getLast? → e = f := by
    decide
  have hef := hapart e he f hf hlast
  subst hef
  exact ⟨String.append_left_inj "." |>.1 (String.append_left_inj e |>.1 h), rfl⟩

theorem nameFor_of_fileName {a b : Key} (h : a.fileName = b.fileName) (extension : String) :
    nameFor a extension = nameFor b extension := by
  rw [nameFor, nameFor, h]

theorem not_mem_names {a b : Key} (h : a.fileName ≠ b.fileName) {name : String}
    (hname : name ∈ names a) : name ∉ names b := by
  intro hb
  obtain ⟨e, he, rfl⟩ := List.mem_map.1 hname
  obtain ⟨f, hf, heq⟩ := List.mem_map.1 hb
  exact h (nameFor_inj hf he heq).1.symm

@[simp] theorem binName_mem (key : Key) : binName key ∈ names key := by
  simp [binName, names, extensions]

@[simp] theorem metaName_mem (key : Key) : metaName key ∈ names key := by
  simp [metaName, names, extensions]

@[simp] theorem tmpName_mem (key : Key) : tmpName key ∈ names key := by
  simp [tmpName, names, extensions]

theorem names_apart (key : Key) :
    binName key ≠ metaName key ∧ binName key ≠ tmpName key ∧ metaName key ≠ tmpName key := by
  refine ⟨fun h => ?_, fun h => ?_, fun h => ?_⟩ <;>
    exact absurd (nameFor_inj (by decide) (by decide) h).2 (by decide)

/-! ## What occurs in the plans -/

/-- The changes that clearing an entry can make. -/
def Clears (s : Directory) (key : Key) (c : Disk.Change) : Prop :=
  c.Among s.path (names key) ∧ c.IsUnlink

variable {s : Directory} {key : Key}

theorem clears_bin : Clears s key (.unlink (s.recordFile key)) :=
  ⟨⟨binName key, binName_mem key, rfl⟩, trivial⟩

theorem clears_meta : Clears s key (.unlink (s.sidecarFile key)) :=
  ⟨⟨metaName key, metaName_mem key, rfl⟩, trivial⟩

theorem discard_within {p : Path} {allowed : Disk.Change → Prop} (h : allowed (.unlink p)) :
    (discard p).Within allowed := by
  refine Plan.within_bind (Plan.within_unlink h) fun outcome => ?_
  rcases outcome with (_ | _ | _ | _) | _ <;> exact Plan.within_pure _

theorem clear_within : (s.clear key).Within (Clears s key) := by
  refine Plan.within_bind (discard_within clears_bin) fun done => ?_
  cases done with
  | error e => exact Plan.within_pure _
  | ok _ => exact discard_within clears_meta

theorem missAfterClearing_within : (s.missAfterClearing key).Within (Clears s key) := by
  refine Plan.within_bind clear_within fun done => ?_
  cases done with
  | error e => exact Plan.within_pure _
  | ok _ => exact Plan.within_pure _

theorem readRecord_within : (s.readRecord key).Within (Clears s key) := by
  refine Plan.within_bind (Plan.within_read _) fun answer => ?_
  cases answer with
  | error e => exact missAfterClearing_within
  | ok bytes =>
    dsimp only
    split
    · exact missAfterClearing_within
    · split
      · exact Plan.within_pure _
      · exact missAfterClearing_within

theorem get_within : (s.get key).Within (Clears s key) := by
  refine Plan.within_bind (Plan.within_read _) fun answer => ?_
  split
  · exact Plan.within_pure _
  · exact missAfterClearing_within
  · split
    · exact missAfterClearing_within
    · split
      · exact readRecord_within
      · exact Plan.within_pure _

theorem evict_within : (s.evict key).Within (Clears s key) := clear_within

theorem replaceFile_within {p : Path} {a b : String} {names : List String} (ha : a ∈ names)
    (hb : b ∈ names) (content : Bytes) :
    (replaceFile (p.child a) (p.child b) content).Within (Disk.Change.Among p names) := by
  refine Plan.within_bind (Plan.within_write ⟨a, ha, rfl⟩) fun written => ?_
  cases written with
  | error e => exact Plan.within_pure _
  | ok _ =>
    refine Plan.within_bind (Plan.within_rename ⟨a, ha, b, hb, rfl, rfl⟩) fun renamed => ?_
    cases renamed with
    | ok _ => exact Plan.within_pure _
    | error e =>
      exact Plan.within_bind (Plan.within_unlink ⟨a, ha, rfl⟩) fun _ => Plan.within_pure _

theorem put_within (r : Record) (now : UInt64) :
    (s.put key r now).Within (Disk.Change.Among s.path (names key)) := by
  refine Plan.within_bind (replaceFile_within (tmpName_mem key) (binName_mem key) _) fun filed => ?_
  cases filed with
  | error e => exact Plan.within_pure _
  | ok _ =>
    refine Plan.within_bind (replaceFile_within (tmpName_mem key) (metaName_mem key) _) fun noted => ?_
    cases noted with
    | ok _ => exact Plan.within_pure _
    | error e =>
      exact Plan.within_bind (Plan.within_unlink ⟨binName key, binName_mem key, rfl⟩) fun _ =>
        Plan.within_pure _

/-! ## Clearing -/

section Entered

variable {d : Disk} {here : Location}

theorem discard_run {p : Path} (h : d.enter p = .ok here) {name : String} (hname : Path.isName name) :
    (discard (p.child name)).run d =
      if d.get? (here ++ [name]) = some .directory then (.error (.io (p.child name) .isADirectory), d)
      else (.ok (), d.erase (here ++ [name])) := by
  simp only [discard, Plan.run_bind, Plan.unlink, Plan.run, Disk.change, Disk.unlink_child h hname]
  cases hn : d.get? (here ++ [name]) with
  | none => simp [Plan.outcome, Plan.after, Disk.erase_of_none hn]
  | some n =>
    cases n with
    | directory => simp [Plan.outcome, Plan.after]
    | file content => simp [Plan.outcome, Plan.after]

/-- The record goes first and then its sidecar; a directory in the place of one of them stops it. -/
theorem clear_eq (h : d.enter s.path = .ok here) :
    (s.clear key).run d =
      if d.get? (here ++ [binName key]) = some .directory then
        (.error (.io (s.recordFile key) .isADirectory), d)
      else if d.get? (here ++ [metaName key]) = some .directory then
        (.error (.io (s.sidecarFile key) .isADirectory), d.erase (here ++ [binName key]))
      else (.ok (), (d.erase (here ++ [binName key])).erase (here ++ [metaName key])) := by
  have hbin := isName_of_mem_names (binName_mem key)
  have hmeta := isName_of_mem_names (metaName_mem key)
  have hne : here ++ [metaName key] ≠ here ++ [binName key] := by simpa using (names_apart key).1.symm
  simp only [clear, Plan.run_bind]
  rw [show s.recordFile key = s.path.child (binName key) from rfl,
    show s.sidecarFile key = s.path.child (metaName key) from rfl, discard_run h hbin]
  by_cases hdir : d.get? (here ++ [binName key]) = some .directory
  · simp only [hdir, if_true, Plan.run_pure]
  · have herased := (Disk.onlyAt_erase (List.mem_singleton_self _) hdir).directories
    simp only [hdir, if_false]
    rw [discard_run (Disk.enter_of_same herased h) hmeta, Disk.get?_erase_ne d hne]

/-- Once an entry was cleared, or clearing it was given up, its record cannot be read. -/
theorem clear_gone (h : d.enter s.path = .ok here) (bytes : Bytes) :
    ((s.clear key).run d).2.get? (here ++ [binName key]) ≠ some (.file bytes) := by
  have hne : here ++ [binName key] ≠ here ++ [metaName key] := by simpa using (names_apart key).1
  rw [clear_eq h]
  split
  · next hdir => simp [hdir]
  · split
    · simp [Disk.get?_erase_self]
    · simp [Disk.get?_erase_ne _ hne, Disk.get?_erase_self]

/-- Nothing but a directory can be in the way of clearing an entry. -/
theorem clear_ok (h : d.enter s.path = .ok here)
    (hbin : d.get? (here ++ [binName key]) ≠ some .directory)
    (hmeta : d.get? (here ++ [metaName key]) ≠ some .directory) :
    ((s.clear key).run d).1 = .ok () := by
  rw [clear_eq h, if_neg hbin, if_neg hmeta]

end Entered

/-! ## Looking up -/

theorem missAfterClearing_miss (d : Disk) (r : Record) :
    ((s.missAfterClearing key).run d).1 ≠ .ok (some r) := by
  simp only [missAfterClearing, Plan.run_bind]
  cases ((s.clear key).run d).1 <;> simp

theorem readRecord_found {d : Disk} {r : Record} (h : ((s.readRecord key).run d).1 = .ok (some r)) :
    ∃ bytes, d.read (s.recordFile key) = .ok bytes ∧ Record.ofBytes bytes = .ok r ∧
      r.tag = key.tag ∧ ((s.readRecord key).run d).2 = d := by
  simp only [readRecord, Plan.run_bind, Plan.read, Plan.run] at h ⊢
  cases hread : d.read (s.recordFile key) with
  | error e =>
    rw [hread] at h
    exact absurd h (missAfterClearing_miss d r)
  | ok bytes =>
    simp only [hread] at h ⊢
    cases hof : Record.ofBytes bytes with
    | error e =>
      simp only [hof] at h
      exact absurd h (missAfterClearing_miss d r)
    | ok stored =>
      simp only [hof] at h ⊢
      by_cases htag : stored.tag = key.tag
      · rw [if_pos htag] at h ⊢
        cases h
        exact ⟨bytes, rfl, hof, htag, rfl⟩
      · rw [if_neg htag] at h
        exact absurd h (missAfterClearing_miss d r)

/-- A record that is found is the one in its file, and nothing was changed. -/
theorem get_found {d : Disk} {r : Record} (h : ((s.get key).run d).1 = .ok (some r)) :
    (∃ here bytes, d.enter s.path = .ok here ∧ d.get? (here ++ [binName key]) = some (.file bytes) ∧
      Record.ofBytes bytes = .ok r) ∧ r.tag = key.tag ∧ ((s.get key).run d).2 = d := by
  have hfound : ((s.readRecord key).run d).1 = .ok (some r) ∧
      ((s.get key).run d).2 = ((s.readRecord key).run d).2 := by
    simp only [get, Plan.run_bind, Plan.read, Plan.run] at h ⊢
    split at h
    · cases h
    · exact absurd h (missAfterClearing_miss d r)
    · split at h
      · exact absurd h (missAfterClearing_miss d r)
      · split at h
        · next htag =>
          exact ⟨h, by simp_all⟩
        · cases h
  obtain ⟨bytes, hread, hof, htag, hsame⟩ := readRecord_found hfound.1
  obtain ⟨here, hin, hfile⟩ :=
    Disk.exists_of_read_child (isName_of_mem_names (binName_mem key)) hread
  exact ⟨⟨here, bytes, hin, hfile, hof⟩, htag, hfound.2.trans hsame⟩

/-- Where no directory is in the way, a lookup answers a record or a miss. -/
theorem get_intact {d : Disk} {here : Location} (h : d.enter s.path = .ok here)
    (hbin : d.get? (here ++ [binName key]) ≠ some .directory)
    (hmeta : d.get? (here ++ [metaName key]) ≠ some .directory) :
    ((s.get key).run d).1 = .ok none ∨ ∃ r, ((s.get key).run d).1 = .ok (some r) := by
  have hmiss : ((s.missAfterClearing key).run d).1 = .ok none := by
    simp only [missAfterClearing, Plan.run_bind, clear_ok h hbin hmeta]
    rfl
  have hrecord : ((s.readRecord key).run d).1 = .ok none ∨
      ∃ r, ((s.readRecord key).run d).1 = .ok (some r) := by
    simp only [readRecord, Plan.run_bind, Plan.read, Plan.run]
    split
    · exact .inl hmiss
    · split
      · exact .inl hmiss
      · split
        · exact .inr ⟨_, rfl⟩
        · exact .inl hmiss
  simp only [get, Plan.run_bind, Plan.read, Plan.run]
  split
  · exact .inl rfl
  · exact .inl hmiss
  · split
    · exact .inl hmiss
    · split
      · exact hrecord
      · exact .inl rfl

/-- Nothing is found in a directory that is not there; one that cannot be entered for another
    reason cannot be cleared either. -/
theorem get_of_not_entered {d : Disk} {e : OsError} (h : d.enter s.path = .error e) :
    (s.get key).run d = (if e = .notFound then .ok none else .error (.io (s.recordFile key) e), d) := by
  have hread : d.read (s.sidecarFile key) = .error e := by
    rw [Disk.read, Disk.fileAt, show s.sidecarFile key = s.path.child (metaName key) from rfl,
      Disk.target_child d _ (isName_of_mem_names (metaName_mem key)), h]
    rfl
  have hamong : (Disk.Change.unlink (s.recordFile key)).Among s.path (names key) :=
    ⟨binName key, binName_mem key, rfl⟩
  have hunlink := Disk.change_of_not_entered (fun _ => isName_of_mem_names) hamong h
  simp only [get, Plan.run_bind, Plan.read, Plan.run, hread]
  cases e with
  | notFound => rfl
  | _ => simp [missAfterClearing, clear, discard, Plan.unlink, Plan.run, hunlink, Plan.outcome, Plan.after]

/-! ## Filing -/

/-- The draft takes the place of a file, and is removed if a directory is in that place; a
    directory in the place of the draft stops it before. -/
theorem replaceFile_eq {d : Disk} {p : Path} {here : Location} (h : d.enter p = .ok here) {a b : String}
    (ha : Path.isName a) (hb : Path.isName b) (hab : a ≠ b) (content : Bytes) :
    (replaceFile (p.child a) (p.child b) content).run d =
      if d.get? (here ++ [a]) = some .directory then (.error (.io (p.child a) .isADirectory), d)
      else if d.get? (here ++ [b]) = some .directory then
        (.error (.io (p.child b) .isADirectory), d.erase (here ++ [a]))
      else (.ok (), (d.erase (here ++ [a])).put (here ++ [b]) (.file content)) := by
  have hne : here ++ [b] ≠ here ++ [a] := by simpa using hab.symm
  simp only [replaceFile, Plan.run_bind, Plan.write, Plan.run, Disk.change, Disk.write_child h ha]
  by_cases hdraft : d.get? (here ++ [a]) = some .directory
  · simp only [hdraft, if_true]
    rfl
  · have hdrafted := (Disk.onlyAt_put (List.mem_singleton_self a) hdraft content).directories
    have hin := Disk.enter_of_same hdrafted h
    have hthere : (d.put (here ++ [a]) (.file content)).get? (here ++ [a]) = some (.file content) :=
      Disk.get?_put_self d _ (by simp)
    simp only [hdraft, if_false, Plan.outcome, Plan.after, Plan.run_bind, Plan.rename, Plan.run,
      Disk.change, Disk.rename_child hin ha hb, hthere, Disk.get?_put_ne d _ hne, Disk.erase_put_self]
    by_cases hto : d.get? (here ++ [b]) = some .directory
    · simp only [hto, if_true, Plan.run_bind, Plan.unlink, Plan.run, Disk.change,
        Disk.unlink_child hin ha, hthere, Plan.after, Disk.erase_put_self, Plan.run_pure]
    · simp only [hto, if_false, Plan.run_pure]

/-- Nothing is filed in a directory that cannot be entered. -/
theorem put_of_not_entered {d : Disk} {e : OsError} (h : d.enter s.path = .error e) (r : Record)
    (now : UInt64) : (s.put key r now).run d = (.error (.io (s.draftFile key) e), d) := by
  have hamong : (Disk.Change.write (s.draftFile key) r.toBytes).Among s.path (names key) :=
    ⟨tmpName key, tmpName_mem key, rfl⟩
  simp only [put, replaceFile, Plan.run_bind, Plan.write, Plan.run,
    Disk.change_of_not_entered (fun _ => isName_of_mem_names) hamong h]
  rfl

/-- A record is filed if no directory stands in the place of one of the three files. If one does,
    the error names the first of them, in the order draft, record, sidecar; the draft is gone by
    then, and in the last case the record, too. -/
theorem put_eq {d : Disk} {here : Location} (h : d.enter s.path = .ok here) (r : Record)
    (now : UInt64) :
    (s.put key r now).run d =
      if d.get? (here ++ [tmpName key]) = some .directory then
        (.error (.io (s.draftFile key) .isADirectory), d)
      else if d.get? (here ++ [binName key]) = some .directory then
        (.error (.io (s.recordFile key) .isADirectory), d.erase (here ++ [tmpName key]))
      else if d.get? (here ++ [metaName key]) = some .directory then
        (.error (.io (s.sidecarFile key) .isADirectory),
          (d.erase (here ++ [tmpName key])).erase (here ++ [binName key]))
      else
        (.ok (), ((d.erase (here ++ [tmpName key])).put (here ++ [binName key]) (.file r.toBytes)).put
          (here ++ [metaName key]) (.file (Bytes.ofString (sidecarOf r now).render))) := by
  obtain ⟨hbm, hbt, hmt⟩ := names_apart key
  have hbin := isName_of_mem_names (binName_mem key)
  have hmeta := isName_of_mem_names (metaName_mem key)
  have htmp := isName_of_mem_names (tmpName_mem key)
  simp only [put, Plan.run_bind]
  rw [show s.draftFile key = s.path.child (tmpName key) from rfl,
    show s.recordFile key = s.path.child (binName key) from rfl,
    show s.sidecarFile key = s.path.child (metaName key) from rfl,
    replaceFile_eq h htmp hbin hbt.symm]
  by_cases hdraft : d.get? (here ++ [tmpName key]) = some .directory
  · simp only [hdraft, if_true, Plan.run_pure]
  · by_cases hrecord : d.get? (here ++ [binName key]) = some .directory
    · simp only [hdraft, hrecord, if_true, if_false, Plan.run_pure]
    · -- The record is in its place and the draft is gone when the sidecar is written.
      have herased := Disk.onlyAt_erase (tmpName_mem key) hdraft
      have hplaced := Disk.onlyAt_put (d := d.erase (here ++ [tmpName key])) (binName_mem key)
        (by rwa [ne_eq, herased.directories]) r.toBytes
      have hin := Disk.enter_of_same (herased.trans hplaced).directories h
      simp only [hdraft, hrecord, if_false, Plan.run_bind]
      generalize hfiled : (d.erase (here ++ [tmpName key])).put (here ++ [binName key])
        (.file r.toBytes) = filed at hin
      have hgone : filed.get? (here ++ [tmpName key]) = none := by
        rw [← hfiled, Disk.get?_put_ne _ _ (by simpa using hbt.symm), Disk.get?_erase_self d (by simp)]
      have hthere : filed.get? (here ++ [binName key]) = some (.file r.toBytes) := by
        rw [← hfiled, Disk.get?_put_self _ _ (by simp)]
      have hsidecar : filed.get? (here ++ [metaName key]) = d.get? (here ++ [metaName key]) := by
        rw [← hfiled, Disk.get?_put_ne _ _ (by simpa using hbm.symm),
          Disk.get?_erase_ne d (by simpa using hmt)]
      rw [replaceFile_eq hin htmp hmeta hmt.symm, hgone, hsidecar, Disk.erase_of_none hgone]
      by_cases hnote : d.get? (here ++ [metaName key]) = some .directory
      · simp only [hnote, reduceCtorEq, if_true, if_false, Plan.run_bind, Plan.unlink, Plan.run,
          Disk.change, Disk.unlink_child hin hbin, hthere, Plan.after, Plan.run_pure]
        rw [← hfiled, Disk.erase_put_self]
      · simp only [hnote, reduceCtorEq, if_false, Plan.run_pure]

/-- A record that was filed without an error is in its file, with a sidecar beside it. -/
theorem put_ok {d : Disk} {r : Record} {now : UInt64} (h : ((s.put key r now).run d).1 = .ok ()) :
    ∃ here, d.enter s.path = .ok here ∧
      ((s.put key r now).run d).2.get? (here ++ [binName key]) = some (.file r.toBytes) ∧
      ((s.put key r now).run d).2.get? (here ++ [metaName key]) =
        some (.file (Bytes.ofString (sidecarOf r now).render)) := by
  have hne : ∀ here : Location, here ++ [binName key] ≠ here ++ [metaName key] := by
    intro here
    simpa using (names_apart key).1
  cases hin : d.enter s.path with
  | error e =>
    rw [put_of_not_entered hin] at h
    cases h
  | ok here =>
    refine ⟨here, rfl, ?_⟩
    rw [put_eq hin] at h ⊢
    split at h
    · cases h
    · next hdraft =>
      split at h
      · cases h
      · next hrecord =>
        split at h
        · cases h
        · next hnote =>
          rw [if_neg hdraft, if_neg hrecord, if_neg hnote]
          refine ⟨?_, Disk.get?_put_self _ _ (by simp)⟩
          rw [Disk.get?_put_ne _ _ (hne here), Disk.get?_put_self _ _ (by simp)]

/-- After an eviction, failed or not, there is no record file. -/
theorem evict_gone {d : Disk} {here : Location}
    (h : ((s.evict key).run d).2.enter s.path = .ok here) (bytes : Bytes) :
    ((s.evict key).run d).2.get? (here ++ [binName key]) ≠ some (.file bytes) :=
  clear_gone (Plan.enter_of_run (fun _ => isName_of_mem_names)
    (Plan.within_mono evict_within fun _ hc => hc.1) h) bytes

end CompileCache.Store.Directory
