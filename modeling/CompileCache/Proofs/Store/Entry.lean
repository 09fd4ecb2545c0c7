/-
  CompileCache.Proofs.Store.Entry — an entry of a directory, by what its files hold.

  If the directory can be entered and nothing but files has the names of an entry (`Free`),
  the operations on the entry are determined by what is in its sidecar and its record file.
  A lookup comes to one of three readings of the two (`Reading.of`, `get_run`); so it does with
  a directory in the way, which makes the entry unreadable (`reading`, `get_reading`). Clearing
  removes both files (`clear_run`), filing makes both anew and leaves no draft (`put_run`).

  Proved: a lookup does not fail, and answers what the two files say (`get_answer`); of an
  entry just filed they say the record, to those who ask for its tag (`answer_filed`).
-/

import CompileCache.Proofs.Record
import CompileCache.Proofs.Sidecar
import CompileCache.Proofs.Store.Directory

namespace CompileCache

/-! ## Files at a location -/

namespace Disk

/-- What the file at a location holds. -/
def content? (d : Disk) (l : Location) : Option Bytes :=
  match d.get? l with
  | some (.file content) => some content
  | _ => none

theorem content?_congr {d d' : Disk} {l : Location} (h : d'.get? l = d.get? l) :
    d'.content? l = d.content? l := by
  simp only [content?, h]

theorem content?_file {d : Disk} {l : Location} {content : Bytes} (h : d.get? l = some (.file content)) :
    d.content? l = some content := by
  simp only [content?, h]

theorem content?_none {d : Disk} {l : Location} (h : d.get? l = none) : d.content? l = none := by
  simp only [content?, h]

theorem content?_eq_some_iff {d : Disk} {l : Location} {content : Bytes} :
    d.content? l = some content ↔ d.get? l = some (.file content) := by
  unfold content?
  cases d.get? l with
  | none => simp
  | some n => cases n <;> simp

/-- Nothing is below a directory that is all there is. -/
theorem get?_below_only (name : String) (below : Location) (h : below ≠ []) :
    (⟨[([name], .directory)]⟩ : Disk).get? ([name] ++ below) = none := by
  cases below with
  | nil => exact absurd rfl h
  | cons part rest => simp [get?, List.lookup_cons]

end Disk

namespace Store.Directory

/-! ## Readings -/

/-- What a lookup makes of the files of an entry. -/
inductive Reading where
  | found (r : Record)
  | miss
  /-- The entry is cleared, and counts as a miss. -/
  | unreadable
  deriving DecidableEq

namespace Reading

/-- The record of an entry whose sidecar carries the key's tag. -/
def ofRecord (key : Key) : Option Bytes → Reading
  | none => unreadable
  | some bytes =>
    match Record.ofBytes bytes with
    | .error _ => unreadable
    | .ok r => if r.tag = key.tag then found r else unreadable

/-- The sidecar is read first. -/
def of (key : Key) (sidecar record : Option Bytes) : Reading :=
  match sidecar with
  | none => miss
  | some bytes =>
    match Sidecar.parse? bytes with
    | none => unreadable
    | some sidecar => if sidecar.tag = key.tag then ofRecord key record else miss

def record? : Reading → Option Record
  | found r => some r
  | miss => none
  | unreadable => none

end Reading

/-- The record that the files of an entry say is there under the key. -/
def answer (key : Key) (sidecar record : Option Bytes) : Option Record :=
  (Reading.of key sidecar record).record?

/-- Without its record, an entry answers nothing. -/
theorem answer_no_record (key : Key) (sidecar : Option Bytes) : answer key sidecar none = none := by
  unfold answer Reading.of
  cases sidecar with
  | none => rfl
  | some bytes =>
    dsimp only
    cases Sidecar.parse? bytes with
    | none => rfl
    | some note =>
      dsimp only
      split <;> rfl

/-- What is answered is what the record file holds, under the key's tag. -/
theorem of_answer {key : Key} {sidecar record : Option Bytes} {r : Record}
    (h : answer key sidecar record = some r) :
    ∃ bytes, record = some bytes ∧ Record.ofBytes bytes = .ok r ∧ r.tag = key.tag := by
  cases record with
  | none =>
    rw [answer_no_record] at h
    cases h
  | some bytes =>
    refine ⟨bytes, rfl, ?_⟩
    have hrecord : (Reading.ofRecord key (some bytes)).record? = some r := by
      unfold answer Reading.of at h
      split at h
      · cases h
      · split at h
        · cases h
        · split at h
          · exact h
          · cases h
    unfold Reading.ofRecord at hrecord
    dsimp only at hrecord
    split at hrecord
    · cases hrecord
    · next stored hstored =>
      split at hrecord
      · next htag =>
        cases hrecord
        exact ⟨hstored, htag⟩
      · cases hrecord

section Filed

variable (key : Key) (r : Record)

theorem ofRecord_toBytes :
    Reading.ofRecord key (some r.toBytes) = if r.tag = key.tag then .found r else .unreadable := by
  simp only [Reading.ofRecord, Record.ofBytes_toBytes]

/-- A record and the sidecar that was filed with it are found under their tag. -/
theorem reading_filed (now : UInt64) :
    Reading.of key (some (Bytes.ofString (sidecarOf r now).render)) (some r.toBytes) =
      if r.tag = key.tag then .found r else .miss := by
  simp only [Reading.of, Sidecar.parse?_render, ofRecord_toBytes]
  by_cases htag : r.tag = key.tag <;> simp [sidecarOf, htag]

theorem answer_filed (now : UInt64) :
    answer key (some (Bytes.ofString (sidecarOf r now).render)) (some r.toBytes) =
      (some r).filter fun r => r.tag == key.tag := by
  rw [answer, reading_filed]
  by_cases htag : r.tag = key.tag <;> simp [Reading.record?, Option.filter, htag]

end Filed

/-! ## Entries with nothing in the way -/

/-- What the sidecar of an entry holds. -/
def sidecarAt (d : Disk) (here : Location) (key : Key) : Option Bytes :=
  d.content? (here ++ [metaName key])

/-- What the record file of an entry holds. -/
def recordAt (d : Disk) (here : Location) (key : Key) : Option Bytes :=
  d.content? (here ++ [binName key])

/-- The directory can be entered, and no directory has the name of one of the entry's files. -/
structure Free (s : Directory) (key : Key) (here : Location) (d : Disk) : Prop where
  entered : d.enter s.path = .ok here
  files : ∀ name ∈ names key, d.get? (here ++ [name]) ≠ some .directory

variable {s : Directory} {key : Key} {here : Location} {d d' : Disk}

theorem Free.of_same (h : Free s key here d) (hsame : Disk.SameDirectories d d') :
    Free s key here d' :=
  ⟨Disk.enter_of_same hsame h.entered, fun name hname => by
    rw [ne_eq, hsame]
    exact h.files name hname⟩

/-- Clearing an entry removes no directory. -/
theorem clears_same {α : Type} {plan : Plan α} (hplan : plan.Within (Clears s key)) (d : Disk) :
    Disk.SameDirectories d (plan.run d).2 :=
  Plan.run_sameDirectories (fun _ => isName_of_mem_names) (Plan.within_mono hplan fun _ hc => hc.1)

/-! ## Looking up -/

/-- What a lookup makes of an entry, whatever stands in the places of its files. -/
def reading (d : Disk) (here : Location) (key : Key) : Reading :=
  if d.get? (here ++ [metaName key]) = some .directory then .unreadable
  else .of key (sidecarAt d here key) (recordAt d here key)

theorem readRecord_run (hin : d.enter s.path = .ok here) :
    (s.readRecord key).run d =
      match Reading.ofRecord key (recordAt d here key) with
      | .found r => (.ok (some r), d)
      | .miss => (.ok none, d)
      | .unreadable => (s.missAfterClearing key).run d := by
  have hread := Disk.read_child hin (isName_of_mem_names (binName_mem key))
  simp only [readRecord, Plan.run_bind, Plan.read, Plan.run]
  rw [show s.recordFile key = s.path.child (binName key) from rfl, hread, recordAt, Disk.content?]
  cases d.get? (here ++ [binName key]) with
  | none => rfl
  | some n =>
    cases n with
    | directory => rfl
    | file bytes =>
      simp only [Reading.ofRecord]
      cases Record.ofBytes bytes with
      | error e => rfl
      | ok r =>
        dsimp only
        by_cases htag : r.tag = key.tag
        · simp only [htag, if_true, Plan.run_pure]
        · simp only [htag, if_false]

/-- A lookup by its reading of the two files: only an unreadable entry is touched. -/
theorem get_reading (hin : d.enter s.path = .ok here) :
    (s.get key).run d =
      match reading d here key with
      | .found r => (.ok (some r), d)
      | .miss => (.ok none, d)
      | .unreadable => (s.missAfterClearing key).run d := by
  have hread := Disk.read_child hin (isName_of_mem_names (metaName_mem key))
  have hrecord : (s.readRecord key).run d = _ := readRecord_run hin
  simp only [get, Plan.run_bind, Plan.read, Plan.run]
  rw [show s.sidecarFile key = s.path.child (metaName key) from rfl, hread, reading, sidecarAt,
    Disk.content?]
  cases d.get? (here ++ [metaName key]) with
  | none => rfl
  | some n =>
    cases n with
    | directory => rfl
    | file bytes =>
      simp only [Reading.of, reduceCtorEq, Option.some.injEq, if_false]
      cases Sidecar.parse? bytes with
      | none => rfl
      | some sidecar =>
        dsimp only
        by_cases htag : sidecar.tag = key.tag
        · simp only [htag, if_true, hrecord]
        · simp only [htag, if_false, Plan.run_pure]

theorem get_run (h : Free s key here d) :
    (s.get key).run d =
      match Reading.of key (sidecarAt d here key) (recordAt d here key) with
      | .found r => (.ok (some r), d)
      | .miss => (.ok none, d)
      | .unreadable => (s.missAfterClearing key).run d := by
  rw [get_reading h.entered, reading, if_neg (h.files _ (metaName_mem key))]

/-! ## Clearing -/

theorem discard_get? (h : Free s key here d) {name : String} (hname : name ∈ names key) :
    ((discard (s.path.child name)).run d).1 = .ok () ∧
      ∀ l, ((discard (s.path.child name)).run d).2.get? l =
        if l = here ++ [name] then none else d.get? l := by
  rw [discard_run h.entered (isName_of_mem_names hname), if_neg (h.files name hname)]
  exact ⟨rfl, Disk.get?_erase d (by simp)⟩

/-- Both files are gone, and nothing else. -/
theorem clear_run (h : Free s key here d) :
    ((s.clear key).run d).1 = .ok () ∧ ∀ l, ((s.clear key).run d).2.get? l =
      if l = here ++ [binName key] ∨ l = here ++ [metaName key] then none else d.get? l := by
  rw [clear_eq h.entered, if_neg (h.files _ (binName_mem key)), if_neg (h.files _ (metaName_mem key))]
  refine ⟨rfl, fun l => ?_⟩
  rw [Disk.get?_erase _ (by simp), Disk.get?_erase d (by simp)]
  by_cases hl : l = here ++ [binName key] <;> simp [hl]

theorem evict_run (h : Free s key here d) :
    ((s.evict key).run d).1 = .ok () ∧ ∀ l, ((s.evict key).run d).2.get? l =
      if l = here ++ [binName key] ∨ l = here ++ [metaName key] then none else d.get? l :=
  clear_run h

theorem missAfterClearing_run (h : Free s key here d) :
    (s.missAfterClearing key).run d = (.ok none, ((s.clear key).run d).2) := by
  simp only [missAfterClearing, Plan.run_bind, (clear_run h).1, Plan.run_pure]

/-- A lookup answers what the files of the entry say. -/
theorem get_answer (h : Free s key here d) : ((s.get key).run d).1 =
    .ok (answer key (sidecarAt d here key) (recordAt d here key)) := by
  rw [get_run h, answer]
  cases Reading.of key (sidecarAt d here key) (recordAt d here key) with
  | found r => rfl
  | miss => rfl
  | unreadable =>
    dsimp only
    rw [missAfterClearing_run h]
    rfl

/-! ## Filing -/

/-- The file is replaced, the draft is gone, and nothing else has changed. -/
theorem replaceFile_run (h : Free s key here d) {a b : String} (ha : a ∈ names key)
    (hb : b ∈ names key) (hab : a ≠ b) (content : Bytes) :
    ((replaceFile (s.path.child a) (s.path.child b) content).run d).1 = .ok () ∧
      ∀ l, ((replaceFile (s.path.child a) (s.path.child b) content).run d).2.get? l =
        if l = here ++ [b] then some (.file content)
        else if l = here ++ [a] then none else d.get? l := by
  rw [replaceFile_eq h.entered (isName_of_mem_names ha) (isName_of_mem_names hb) hab,
    if_neg (h.files a ha), if_neg (h.files b hb)]
  refine ⟨rfl, fun l => ?_⟩
  rw [Disk.get?_put _ _ (by simp), Disk.get?_erase d (by simp)]

theorem replaceFile_same (s : Directory) (d : Disk) {a b : String} (ha : a ∈ names key)
    (hb : b ∈ names key) (content : Bytes) :
    Disk.SameDirectories d ((replaceFile (s.path.child a) (s.path.child b) content).run d).2 :=
  Plan.run_sameDirectories (fun _ => isName_of_mem_names) (replaceFile_within ha hb content)

/-- What stands where, once the files of an entry are those of a record filed at that time, or
    gone, and there is no draft. -/
def withEntry (filed : Option Record) (now : UInt64) (key : Key) (here : Location) (d : Disk)
    (l : Location) : Option Node :=
  if l = here ++ [binName key] then filed.map fun r => .file r.toBytes
  else if l = here ++ [metaName key] then
    filed.map fun r => .file (Bytes.ofString (sidecarOf r now).render)
  else if l = here ++ [tmpName key] then none
  else d.get? l

theorem withEntry_elsewhere (filed : Option Record) (now : UInt64) {l : Location}
    (hl : ∀ name ∈ names key, l ≠ here ++ [name]) : withEntry filed now key here d l = d.get? l := by
  rw [withEntry, if_neg (hl _ (binName_mem key)), if_neg (hl _ (metaName_mem key)),
    if_neg (hl _ (tmpName_mem key))]

theorem put_run (h : Free s key here d) (r : Record) (now : UInt64) :
    ((s.put key r now).run d).1 = .ok () ∧
      ∀ l, ((s.put key r now).run d).2.get? l = withEntry (some r) now key here d l := by
  obtain ⟨hbm, -, -⟩ := names_apart key
  rw [put_eq h.entered, if_neg (h.files _ (tmpName_mem key)), if_neg (h.files _ (binName_mem key)),
    if_neg (h.files _ (metaName_mem key))]
  refine ⟨rfl, fun l => ?_⟩
  rw [Disk.get?_put _ _ (by simp), Disk.get?_put _ _ (by simp), Disk.get?_erase d (by simp), withEntry]
  by_cases hb : l = here ++ [binName key]
  · simp [hb, hbm]
  · by_cases hm : l = here ++ [metaName key]
    · simp [hm, hbm.symm]
    · simp [hb, hm]

/-- A record that was filed is in the files of its entry. -/
theorem contents_put (h : Free s key here d) (r : Record) (now : UInt64) :
    sidecarAt ((s.put key r now).run d).2 here key =
        some (Bytes.ofString (sidecarOf r now).render) ∧
      recordAt ((s.put key r now).run d).2 here key = some r.toBytes := by
  obtain ⟨hbm, -, -⟩ := names_apart key
  obtain ⟨-, hfiled⟩ := put_run h r now
  refine ⟨Disk.content?_file ((hfiled _).trans ?_), Disk.content?_file ((hfiled _).trans (if_pos rfl))⟩
  rw [withEntry, if_neg (by simpa using hbm.symm), if_pos rfl]
  rfl

theorem put_same (s : Directory) (key : Key) (r : Record) (now : UInt64) (d : Disk) :
    Disk.SameDirectories d ((s.put key r now).run d).2 :=
  Plan.run_sameDirectories (fun _ => isName_of_mem_names) (put_within r now)

/-- A record that was put is found under its key, if that has its tag. -/
theorem get_put (h : Free s key here d) (r : Record) (now : UInt64) :
    ((s.get key).run ((s.put key r now).run d).2).1 =
      .ok ((some r).filter fun r => r.tag == key.tag) := by
  obtain ⟨hsidecar, hrecord⟩ := contents_put h r now
  rw [get_answer (h.of_same (put_same s key r now d)), hsidecar, hrecord, answer_filed]

end Store.Directory

end CompileCache
