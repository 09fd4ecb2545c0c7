/-
  CompileCache.Proofs.Store.Crash — a store in a directory whose operations are cut off.

  Operations run to their end or are cut off after any of their calls to the disk, with a
  write under way; then the store is opened again (`Event`). Two files are replaced through one
  draft and removed one after the other, so that a cut-off operation leaves an entry in one
  of a few states (`Leaves`, `cutOff_leaves`): as it was, without its record, without both
  files, with a new record under an old sidecar, or filed. Wherever it was cut off, a lookup
  answers as before, as after the whole operation, or a miss (`answer_of_leaves`): a new
  record under an old sidecar is found only by those who ask for the tag of both.

  That record files hold whole records that were put under their scope, and that no directory
  is in the way, holds after every event (`step_sound`, `history_sound`).

  Proved: a store survives being cut off at any point, any number of times (`cut_safe`).
-/

import CompileCache.Proofs.Disk.Cut
import CompileCache.Proofs.Store.Opening
import CompileCache.Proofs.Store.Shelf

namespace CompileCache.Store

/-! ## Operations that are cut off -/

/-- The key that is asked about. -/
def Request.key? : Request → Option Key
  | get key | evict key | put key _ => some key
  | reopen => none

/-- The request uses keys of these scopes only. -/
def Request.Under (scopes : Bytes → Prop) (request : Request) : Prop :=
  ∀ key, request.key? = some key → scopes key.scope

/-- Whether the request is about a scope. -/
def Request.About (request : Request) (scope : Bytes) : Prop :=
  ∃ key, request.key? = some key ∧ key.scope = scope

/-- Requests that may clear an entry. -/
def Request.Clears : Request → Prop
  | get _ | evict _ => True
  | put _ _ | reopen => False

/-- Whether the request puts this record under a scope. -/
def Request.Puts (request : Request) (scope : Bytes) (r : Record) : Prop :=
  ∃ key, request = .put key r ∧ key.scope = scope

namespace Directory

/-- The calls to the disk that answer a request. -/
def plan (s : Directory) (now : UInt64) : Request → Plan Unit
  | .get key => do
    let _ ← s.get key
    return ()
  | .evict key => do
    let _ ← s.evict key
    return ()
  | .put key r => do
    let _ ← s.put key r now
    return ()
  | .reopen => do
    let _ ← create s.path
    return ()

/-- What happens to a store. -/
inductive Event where
  | whole (request : Request) (now : UInt64)
  /-- The request is cut off after so many calls, and the store is opened again. -/
  | cut (request : Request) (now : UInt64) (calls : Nat) (torn : Option Bytes)

def Event.request : Event → Request
  | whole request _ | cut request _ _ _ => request

/-- The disk when a request was cut off. -/
def cutOff (s : Directory) (d : Disk) (request : Request) (now : UInt64) (calls : Nat)
    (torn : Option Bytes) : Disk := (s.plan now request).cutOff calls torn d

def step (s : Directory) (d : Disk) : Event → Disk
  | .whole request now => ((s.plan now request).run d).2
  | .cut request now calls torn =>
    ((create s.path).run (s.cutOff d request now calls torn)).2

def history (s : Directory) (d : Disk) (events : List Event) : Disk := events.foldl s.step d

/-! ## Single calls -/

theorem cutOff_read (p : Path) (calls : Nat) (torn : Option Bytes) (d : Disk) :
    (Plan.read p).cutOff calls torn d = d := by
  cases calls <;> rfl

theorem cutOff_unlink (p : Path) (calls : Nat) (torn : Option Bytes) (d : Disk) :
    (Plan.unlink p).cutOff calls torn d = d ∨
      (Plan.unlink p).cutOff calls torn d = ((Plan.unlink p).run d).2 := by
  cases calls with
  | zero => exact .inl rfl
  | succ calls => exact .inr rfl

theorem cutOff_rename (p q : Path) (calls : Nat) (torn : Option Bytes) (d : Disk) :
    (Plan.rename p q).cutOff calls torn d = d ∨
      (Plan.rename p q).cutOff calls torn d = ((Plan.rename p q).run d).2 := by
  cases calls with
  | zero => exact .inl rfl
  | succ calls => exact .inr rfl

/-! ## Clearing -/

section Clearing

variable {s : Directory} {key : Key} {d : Disk}

theorem run_discard (p : Path) (d : Disk) :
    ((discard p).run d).2 = ((Plan.unlink p).run d).2 := by
  simp only [discard, Plan.run_bind]
  split <;> rfl

theorem cutOff_discard (p : Path) (calls : Nat) (torn : Option Bytes) (d : Disk) :
    (discard p).cutOff calls torn d = d ∨
      (discard p).cutOff calls torn d = ((discard p).run d).2 := by
  rw [run_discard, discard]
  rcases Plan.cutOff_bind (Plan.unlink p) _ calls torn d with ⟨n, hn⟩ | ⟨n, hn⟩
  · rw [hn]
    exact cutOff_unlink p n torn d
  · rw [hn]
    right
    split <;> rfl

/-- What clearing an entry comes to, if it is cut off: nothing, the record file gone, or both. -/
def Clearing (s : Directory) (key : Key) (d d' : Disk) : Prop :=
  d' = d ∨ d' = ((discard (s.recordFile key)).run d).2 ∨ d' = ((s.clear key).run d).2

theorem cutOff_clear (hok : ((discard (s.recordFile key)).run d).1 = .ok ()) (calls : Nat)
    (torn : Option Bytes) : Clearing s key d ((s.clear key).cutOff calls torn d) := by
  have hrun : ((s.clear key).run d).2 = ((discard (s.sidecarFile key)).run
      ((discard (s.recordFile key)).run d).2).2 := by
    simp only [clear, Plan.run_bind, hok]
  rw [Clearing, hrun, clear]
  rcases Plan.cutOff_bind (discard (s.recordFile key)) _ calls torn d with ⟨n, hn⟩ | ⟨n, hn⟩
  · rw [hn]
    rcases cutOff_discard (s.recordFile key) n torn d with h | h
    · exact .inl h
    · exact .inr (.inl h)
  · rw [hn, hok]
    rcases cutOff_discard (s.sidecarFile key) n torn ((discard (s.recordFile key)).run d).2 with h | h
    · exact .inr (.inl h)
    · exact .inr (.inr h)

theorem cutOff_missAfterClearing (hok : ((discard (s.recordFile key)).run d).1 = .ok ())
    (calls : Nat) (torn : Option Bytes) :
    Clearing s key d ((s.missAfterClearing key).cutOff calls torn d) := by
  rw [missAfterClearing]
  rcases Plan.cutOff_bind (s.clear key) _ calls torn d with ⟨n, hn⟩ | ⟨n, hn⟩
  · rw [hn]
    exact cutOff_clear hok n torn
  · rw [hn]
    right
    right
    split <;> rfl

theorem cutOff_readRecord (hok : ((discard (s.recordFile key)).run d).1 = .ok ()) (calls : Nat)
    (torn : Option Bytes) : Clearing s key d ((s.readRecord key).cutOff calls torn d) := by
  rw [readRecord]
  rcases Plan.cutOff_bind (Plan.read (s.recordFile key)) _ calls torn d with ⟨n, hn⟩ | ⟨n, hn⟩
  · rw [hn, cutOff_read]
    exact .inl rfl
  · rw [hn, show ((Plan.read (s.recordFile key)).run d).2 = d from rfl]
    split
    · exact cutOff_missAfterClearing hok n torn
    · split
      · exact cutOff_missAfterClearing hok n torn
      · split
        · exact .inl rfl
        · exact cutOff_missAfterClearing hok n torn

theorem cutOff_get (hok : ((discard (s.recordFile key)).run d).1 = .ok ()) (calls : Nat)
    (torn : Option Bytes) : Clearing s key d ((s.get key).cutOff calls torn d) := by
  rw [get]
  rcases Plan.cutOff_bind (Plan.read (s.sidecarFile key)) _ calls torn d with ⟨n, hn⟩ | ⟨n, hn⟩
  · rw [hn, cutOff_read]
    exact .inl rfl
  · rw [hn, show ((Plan.read (s.sidecarFile key)).run d).2 = d from rfl]
    split
    · exact .inl rfl
    · exact cutOff_missAfterClearing hok n torn
    · split
      · exact cutOff_missAfterClearing hok n torn
      · split
        · exact cutOff_readRecord hok n torn
        · exact .inl rfl

end Clearing

/-! ## Filing -/

/-- Nothing has changed but what stands at one location. -/
def OnlyDraft (draft : Location) (d d' : Disk) : Prop := ∀ l, l ≠ draft → d'.get? l = d.get? l

section Filing

variable {s : Directory} {key : Key} {here : Location} {d : Disk}

theorem cutOff_write (h : Free s key here d) {a : String} (ha : a ∈ names key) (content : Bytes)
    (calls : Nat) (torn : Option Bytes) :
    OnlyDraft (here ++ [a]) d ((Plan.write (s.path.child a) content).cutOff calls torn d) := by
  have hwithin : (Plan.write (s.path.child a) content).Within (Disk.Change.Among s.path [a]) :=
    Plan.within_write ⟨a, List.mem_singleton_self a, rfl⟩
  have hname : ∀ x ∈ [a], Path.isName x := by simpa using isName_of_mem_names ha
  intro l hl
  exact (Plan.cutOff_onlyAt hname hwithin h.entered calls torn).elsewhere l (by simpa using hl)

/-- A file that is replaced is the old one or the new one; only the draft may be anything. -/
theorem cutOff_replaceFile (h : Free s key here d) {a b : String} (ha : a ∈ names key)
    (hb : b ∈ names key) (content : Bytes) (calls : Nat) (torn : Option Bytes) :
    OnlyDraft (here ++ [a]) d
        ((replaceFile (s.path.child a) (s.path.child b) content).cutOff calls torn d) ∨
      (replaceFile (s.path.child a) (s.path.child b) content).cutOff calls torn d =
        ((replaceFile (s.path.child a) (s.path.child b) content).run d).2 := by
  have hwrite : (Plan.write (s.path.child a) content).run d =
      (.ok (), d.put (here ++ [a]) (.file content)) := by
    simp only [Plan.write, Plan.run, Disk.change,
      Disk.write_child h.entered (isName_of_mem_names ha), h.files a ha, if_false]
    rfl
  have hdraft : OnlyDraft (here ++ [a]) d (d.put (here ++ [a]) (.file content)) :=
    fun l hl => Disk.get?_put_ne d _ hl
  have hput := Disk.onlyAt_put (List.mem_singleton_self a) (h.files a ha) content
  have hdrafted := h.of_same hput.directories
  have hheld : (d.put (here ++ [a]) (.file content)).get? (here ++ [a]) = some (.file content) :=
    Disk.get?_put_self d _ (by simp)
  generalize d.put (here ++ [a]) (.file content) = drafted at hwrite hdraft hdrafted hheld
  have hrename : ((Plan.rename (s.path.child a) (s.path.child b)).run drafted).1 = .ok () := by
    simp only [Plan.rename, Plan.run, Disk.change, Disk.rename_child hdrafted.entered
      (isName_of_mem_names ha) (isName_of_mem_names hb), hheld, hdrafted.files b hb, if_false]
    rfl
  have hrun : ((replaceFile (s.path.child a) (s.path.child b) content).run d).2 =
      ((Plan.rename (s.path.child a) (s.path.child b)).run drafted).2 := by
    simp only [replaceFile, Plan.run_bind, hwrite, hrename, Plan.run_pure]
  rw [hrun, replaceFile]
  rcases Plan.cutOff_bind (Plan.write (s.path.child a) content) _ calls torn d with ⟨n, hn⟩ | ⟨n, hn⟩
  · rw [hn]
    exact .inl (cutOff_write h ha content n torn)
  · rw [hn, hwrite]
    dsimp only
    rcases Plan.cutOff_bind (Plan.rename (s.path.child a) (s.path.child b)) _ n torn drafted with
      ⟨m, hm⟩ | ⟨m, hm⟩
    · rw [hm]
      rcases cutOff_rename (s.path.child a) (s.path.child b) m torn drafted with hr | hr
      · exact .inl (hr.symm ▸ hdraft)
      · exact .inr hr
    · rw [hm, hrename]
      exact .inr rfl

/-- What filing a record comes to, if it is cut off: the draft may be anything, and the files of
    the entry are both old, the record new, or both new. -/
def FiledPartly (s : Directory) (key : Key) (here : Location) (r : Record) (now : UInt64)
    (d d' : Disk) : Prop :=
  OnlyDraft (here ++ [tmpName key]) d d' ∨
    OnlyDraft (here ++ [tmpName key])
      ((replaceFile (s.draftFile key) (s.recordFile key) r.toBytes).run d).2 d' ∨
    d' = ((s.put key r now).run d).2

theorem cutOff_put (h : Free s key here d) (r : Record) (now : UInt64) (calls : Nat)
    (torn : Option Bytes) :
    FiledPartly s key here r now d ((s.put key r now).cutOff calls torn d) := by
  obtain ⟨-, hbt, hmt⟩ := names_apart key
  have hrecord : s.recordFile key = s.path.child (binName key) := rfl
  have hsidecar : s.sidecarFile key = s.path.child (metaName key) := rfl
  have hdraft : s.draftFile key = s.path.child (tmpName key) := rfl
  obtain ⟨hfiled, -⟩ := replaceFile_run h (tmpName_mem key) (binName_mem key) hbt.symm r.toBytes
  have hfree := h.of_same (replaceFile_same s d (tmpName_mem key) (binName_mem key) r.toBytes)
  have hfirst := cutOff_replaceFile h (tmpName_mem key) (binName_mem key) r.toBytes
  rw [← hdraft, ← hrecord] at hfiled hfree hfirst
  have hself : OnlyDraft (here ++ [tmpName key])
      ((replaceFile (s.draftFile key) (s.recordFile key) r.toBytes).run d).2
      ((replaceFile (s.draftFile key) (s.recordFile key) r.toBytes).run d).2 := fun _ _ => rfl
  rw [FiledPartly]
  generalize hnew : (replaceFile (s.draftFile key) (s.recordFile key) r.toBytes).run d = filed
    at hfiled hfree hfirst hself ⊢
  have hnoted := (replaceFile_run hfree (tmpName_mem key) (metaName_mem key) hmt.symm
    (Bytes.ofString (sidecarOf r now).render)).1
  have hsecond := cutOff_replaceFile hfree (tmpName_mem key) (metaName_mem key)
    (Bytes.ofString (sidecarOf r now).render)
  rw [← hdraft, ← hsidecar] at hnoted hsecond
  have hrun : ((s.put key r now).run d).2 = ((replaceFile (s.draftFile key) (s.sidecarFile key)
      (Bytes.ofString (sidecarOf r now).render)).run filed.2).2 := by
    simp only [put, Plan.run_bind, hnew, hfiled, hnoted, Plan.run_pure]
  rw [hrun, put]
  rcases Plan.cutOff_bind (replaceFile (s.draftFile key) (s.recordFile key) r.toBytes) _ calls torn d
    with ⟨n, hn⟩ | ⟨n, hn⟩
  · rw [hn]
    rcases hfirst n torn with hcut | hcut
    · exact .inl hcut
    · exact .inr (.inl (hcut.symm ▸ hself))
  · rw [hn, hnew, hfiled]
    dsimp only
    rcases Plan.cutOff_bind (replaceFile (s.draftFile key) (s.sidecarFile key)
      (Bytes.ofString (sidecarOf r now).render)) _ n torn filed.2 with ⟨m, hm⟩ | ⟨m, hm⟩
    · rw [hm]
      rcases hsecond m torn with hcut | hcut
      · exact .inr (.inl hcut)
      · exact .inr (.inr hcut)
    · rw [hm, hnoted]
      exact .inr (.inr rfl)

end Filing

/-! ## Entries after a cut -/

/-- What a request, cut off or not, makes of the sidecar and the record of its entry. -/
inductive Leaves (sidecar record : Option Bytes) : Request → (now : UInt64) →
    Option Bytes → Option Bytes → Prop
  | untouched {request : Request} {now : UInt64} : Leaves sidecar record request now sidecar record
  | noRecord {request : Request} {now : UInt64} (h : request.Clears) :
      Leaves sidecar record request now sidecar none
  | cleared {request : Request} {now : UInt64} (h : request.Clears) :
      Leaves sidecar record request now none none
  | newRecord {key : Key} {r : Record} {now : UInt64} :
      Leaves sidecar record (.put key r) now sidecar (some r.toBytes)
  | filed {key : Key} {r : Record} {now : UInt64} :
      Leaves sidecar record (.put key r) now (some (Bytes.ofString (sidecarOf r now).render))
        (some r.toBytes)

section Leaves

variable {s : Directory} {key : Key} {here : Location} {d : Disk}

theorem leaves_of_clearing (h : Free s key here d) {d' : Disk} (hcut : Clearing s key d d')
    {request : Request} (hclears : request.Clears) (now : UInt64) :
    Leaves (sidecarAt d here key) (recordAt d here key) request now (sidecarAt d' here key)
      (recordAt d' here key) := by
  obtain ⟨hbm, -, -⟩ := names_apart key
  rcases hcut with hcut | hcut | hcut
  · rw [hcut]
    exact .untouched
  · obtain ⟨-, hgone⟩ := discard_get? h (binName_mem key)
    have hrecord : recordAt ((discard (s.recordFile key)).run d).2 here key = none :=
      Disk.content?_none ((hgone _).trans (if_pos rfl))
    have hsidecar : sidecarAt ((discard (s.recordFile key)).run d).2 here key =
        sidecarAt d here key :=
      Disk.content?_congr ((hgone _).trans (if_neg (by simpa using hbm.symm)))
    rw [hcut, hrecord, hsidecar]
    exact .noRecord hclears
  · obtain ⟨-, hgone⟩ := clear_run h
    have hrecord : recordAt ((s.clear key).run d).2 here key = none :=
      Disk.content?_none ((hgone _).trans (if_pos (.inl rfl)))
    have hsidecar : sidecarAt ((s.clear key).run d).2 here key = none :=
      Disk.content?_none ((hgone _).trans (if_pos (.inr rfl)))
    rw [hcut, hrecord, hsidecar]
    exact .cleared hclears

theorem contents_of_onlyDraft {d' : Disk} (h : OnlyDraft (here ++ [tmpName key]) d d') :
    sidecarAt d' here key = sidecarAt d here key ∧ recordAt d' here key = recordAt d here key := by
  obtain ⟨-, hbt, hmt⟩ := names_apart key
  exact ⟨Disk.content?_congr (h _ (by simpa using hmt)), Disk.content?_congr (h _ (by simpa using hbt))⟩

theorem leaves_of_filedPartly (h : Free s key here d) {d' : Disk} {r : Record} {now : UInt64}
    (hcut : FiledPartly s key here r now d d') :
    Leaves (sidecarAt d here key) (recordAt d here key) (.put key r) now (sidecarAt d' here key)
      (recordAt d' here key) := by
  obtain ⟨hbm, hbt, hmt⟩ := names_apart key
  rcases hcut with hold | hnew | hwhole
  · obtain ⟨hsidecar, hrecord⟩ := contents_of_onlyDraft hold
    rw [hsidecar, hrecord]
    exact .untouched
  · obtain ⟨-, hfiled⟩ := replaceFile_run h (tmpName_mem key) (binName_mem key) hbt.symm r.toBytes
    obtain ⟨hsidecar, hrecord⟩ := contents_of_onlyDraft hnew
    have hrecordNew : recordAt ((replaceFile (s.draftFile key) (s.recordFile key) r.toBytes).run d).2
        here key = some r.toBytes :=
      Disk.content?_file ((hfiled _).trans (if_pos rfl))
    have hsidecarOld : sidecarAt ((replaceFile (s.draftFile key) (s.recordFile key)
        r.toBytes).run d).2 here key = sidecarAt d here key := by
      refine Disk.content?_congr ((hfiled _).trans ?_)
      rw [if_neg (by simpa using hbm.symm), if_neg (by simpa using hmt)]
    rw [hsidecar, hrecord, hrecordNew, hsidecarOld]
    exact .newRecord
  · obtain ⟨hsidecar, hrecord⟩ := contents_put h r now
    rw [hwhole, hsidecar, hrecord]
    exact .filed

/-- Forgetting what a plan answers makes no calls. -/
theorem cutOff_forgetting {α : Type} (p : Plan α) (calls : Nat) (torn : Option Bytes) (d : Disk) :
    ∃ n, (p >>= fun _ => pure ()).cutOff calls torn d = p.cutOff n torn d := by
  rcases Plan.cutOff_bind p (fun _ => pure ()) calls torn d with hcut | ⟨n, hn⟩
  · exact hcut
  · obtain ⟨m, hm⟩ := Plan.exists_cutOff_eq_run p torn d
    exact ⟨m, hn.trans hm.symm⟩

/-- Wherever a request is cut off, its entry is in one of these states. -/
theorem cutOff_leaves (h : Free s key here d) {request : Request} (hkey : request.key? = some key)
    (now : UInt64) (calls : Nat) (torn : Option Bytes) :
    Leaves (sidecarAt d here key) (recordAt d here key) request now
      (sidecarAt (s.cutOff d request now calls torn) here key)
      (recordAt (s.cutOff d request now calls torn) here key) := by
  have hrecordFree : ((discard (s.recordFile key)).run d).1 = .ok () :=
    (discard_get? h (binName_mem key)).1
  cases request with
  | reopen => cases hkey
  | get k =>
    cases hkey
    have hclears : (Request.get key).Clears := trivial
    obtain ⟨n, hn⟩ := cutOff_forgetting (s.get key) calls torn d
    have hcut : s.cutOff d (.get key) now calls torn = (s.get key).cutOff n torn d := hn
    rw [hcut]
    exact leaves_of_clearing h (cutOff_get hrecordFree n torn) hclears now
  | evict k =>
    cases hkey
    have hclears : (Request.evict key).Clears := trivial
    obtain ⟨n, hn⟩ := cutOff_forgetting (s.evict key) calls torn d
    have hcut : s.cutOff d (.evict key) now calls torn = (s.evict key).cutOff n torn d := hn
    rw [hcut]
    exact leaves_of_clearing h (cutOff_clear hrecordFree n torn) hclears now
  | put k r =>
    cases hkey
    obtain ⟨n, hn⟩ := cutOff_forgetting (s.put key r now) calls torn d
    have hcut : s.cutOff d (.put key r) now calls torn = (s.put key r now).cutOff n torn d := hn
    rw [hcut]
    exact leaves_of_filedPartly h (cutOff_put h r now n torn)

end Leaves

/-! ## Answers after a cut -/

/-- Under any sidecar, a record is found by those who ask for its tag, or missed. -/
theorem answer_toBytes (key : Key) (sidecar : Option Bytes) (r : Record) :
    answer key sidecar (some r.toBytes) = none ∨
      answer key sidecar (some r.toBytes) = (some r).filter fun r => r.tag == key.tag := by
  cases h : answer key sidecar (some r.toBytes) with
  | none => exact .inl rfl
  | some found =>
    obtain ⟨bytes, hbytes, hof, htag⟩ := of_answer h
    cases hbytes
    rw [Record.ofBytes_toBytes] at hof
    cases hof
    exact .inr (by simp [Option.filter, htag])

/-- What a cut-off request leaves is answered as before, as the record that was put, or with a
    miss. -/
theorem answer_of_leaves {sidecar record sidecar' record' : Option Bytes} {request : Request}
    {now : UInt64} (h : Leaves sidecar record request now sidecar' record') (key : Key) :
    answer key sidecar' record' = answer key sidecar record ∨
      (∃ k r, request = .put k r ∧
        answer key sidecar' record' = (some r).filter fun r => r.tag == key.tag) ∨
      answer key sidecar' record' = none := by
  cases h with
  | untouched => exact .inl rfl
  | noRecord => exact .inr (.inr (answer_no_record key _))
  | cleared => exact .inr (.inr (answer_no_record key _))
  | @newRecord k r =>
    rcases answer_toBytes key sidecar r with hmiss | hfound
    · exact .inr (.inr hmiss)
    · exact .inr (.inl ⟨k, r, rfl, hfound⟩)
  | @filed k r => exact .inr (.inl ⟨k, r, rfl, answer_filed key r now⟩)

/-- A record file after a cut is the old one, or has the record that was put. -/
theorem record_of_leaves {sidecar record sidecar' : Option Bytes} {bytes : Bytes} {request : Request}
    {now : UInt64} (h : Leaves sidecar record request now sidecar' (some bytes)) :
    record = some bytes ∨ ∃ k r, request = .put k r ∧ bytes = r.toBytes := by
  cases h with
  | untouched => exact .inl rfl
  | @newRecord k r => exact .inr ⟨k, r, rfl, rfl⟩
  | @filed k r => exact .inr ⟨k, r, rfl, rfl⟩

/-! ## What holds after every event -/

/-- Nothing is in the way of any entry, and every record file holds a record that was put under
    its scope. -/
structure Sound (s : Directory) (scopes : Bytes → Prop) (wasPut : Bytes → Record → Prop)
    (here : Location) (d : Disk) : Prop where
  entered : d.enter s.path = .ok here
  noDirectory : ∀ name, d.get? (here ++ [name]) ≠ some .directory
  records : ∀ key bytes, scopes key.scope → recordAt d here key = some bytes →
    ∃ r : Record, bytes = r.toBytes ∧ wasPut key.scope r

section Sound

variable {s : Directory} {scopes : Bytes → Prop} {wasPut : Bytes → Record → Prop} {here : Location}
  {d : Disk}

theorem Sound.free (h : Sound s scopes wasPut here d) (key : Key) : Free s key here d :=
  ⟨h.entered, fun name _ => h.noDirectory name⟩

theorem Sound.mono (h : Sound s scopes wasPut here d) {wasPut' : Bytes → Record → Prop}
    (hput : ∀ scope r, wasPut scope r → wasPut' scope r) : Sound s scopes wasPut' here d := by
  refine ⟨h.entered, h.noDirectory, fun key bytes hkey hbytes => ?_⟩
  obtain ⟨r, hr, hwas⟩ := h.records key bytes hkey hbytes
  exact ⟨r, hr, hput key.scope r hwas⟩

theorem sound_of_empty (hin : d.enter s.path = .ok here)
    (hempty : ∀ below, below ≠ [] → d.get? (here ++ below) = none) :
    Sound s scopes (fun _ _ => False) here d := by
  refine ⟨hin, fun name => by rw [hempty [name] (by simp)]; simp, fun key bytes _ hbytes => ?_⟩
  rw [recordAt, Disk.content?_none (hempty _ (by simp))] at hbytes
  cases hbytes

theorem plan_within {request : Request} {key : Key} (hkey : request.key? = some key) (now : UInt64) :
    (s.plan now request).Within (Disk.Change.Among s.path (names key)) := by
  cases request with
  | reopen => cases hkey
  | get k =>
    cases hkey
    exact Plan.within_bind (Plan.within_mono get_within fun _ hc => hc.1) fun _ => Plan.within_pure _
  | evict k =>
    cases hkey
    exact Plan.within_bind (Plan.within_mono evict_within fun _ hc => hc.1) fun _ =>
      Plan.within_pure _
  | put k r =>
    cases hkey
    exact Plan.within_bind (put_within r now) fun _ => Plan.within_pure _

theorem cutOff_reopen (hin : d.enter s.path = .ok here) (now : UInt64) (calls : Nat)
    (torn : Option Bytes) : s.cutOff d .reopen now calls torn = d := by
  have hmade := Plan.cutOff_makeDirectories hin
  have hcreate : ∀ n, (create s.path).cutOff n torn d = d := by
    intro n
    rw [create]
    rcases Plan.cutOff_bind (Plan.makeDirectories s.path) _ n torn d with ⟨m, hm⟩ | ⟨m, hm⟩
    · rw [hm, hmade]
    · rw [hm, Plan.run_makeDirectories hin]
      rfl
  obtain ⟨n, hn⟩ := cutOff_forgetting (create s.path) calls torn d
  exact Eq.trans hn (hcreate n)

/-- The files of an entry that a request is not about are as they were. -/
theorem cutOff_elsewhere (h : Sound s scopes wasPut here d) (hnames : NamesApart scopes)
    {request : Request} (hrequest : request.Under scopes) (now : UInt64) (calls : Nat)
    (torn : Option Bytes) {key : Key} (hkey : scopes key.scope) (hother : ¬ request.About key.scope) :
    sidecarAt (s.cutOff d request now calls torn) here key = sidecarAt d here key ∧
      recordAt (s.cutOff d request now calls torn) here key = recordAt d here key := by
  cases hasked : request.key? with
  | none =>
    cases request with
    | reopen =>
      rw [cutOff_reopen h.entered]
      exact ⟨rfl, rfl⟩
    | _ => cases hasked
  | some asked =>
    have honly : Disk.OnlyAt here (names asked) d (s.cutOff d request now calls torn) :=
      Plan.cutOff_onlyAt (fun _ => isName_of_mem_names) (plan_within hasked now) h.entered calls torn
    have hfile : key.fileName ≠ asked.fileName := fun heq =>
      hother ⟨asked, hasked, (hnames key asked hkey (hrequest asked hasked) heq).symm⟩
    have helse : ∀ name ∈ names key,
        (s.cutOff d request now calls torn).get? (here ++ [name]) = d.get? (here ++ [name]) := by
      intro name hname
      refine honly.elsewhere _ fun name' hname' heq => ?_
      obtain rfl : name = name' := by simpa using heq
      exact not_mem_names hfile hname hname'
    exact ⟨Disk.content?_congr (helse _ (metaName_mem key)),
      Disk.content?_congr (helse _ (binName_mem key))⟩

theorem cutOff_same (h : Sound s scopes wasPut here d) (request : Request) (now : UInt64)
    (calls : Nat) (torn : Option Bytes) :
    Disk.SameDirectories d (s.cutOff d request now calls torn) := by
  cases hasked : request.key? with
  | none =>
    cases request with
    | reopen =>
      rw [cutOff_reopen h.entered]
      exact fun _ => Iff.rfl
    | _ => cases hasked
  | some asked =>
    exact (Plan.cutOff_onlyAt (fun _ => isName_of_mem_names) (plan_within hasked now) h.entered calls
      torn).directories

/-- Keys of one scope have their files in common. -/
theorem contents_of_scope {a b : Key} (h : a.scope = b.scope) (d : Disk) (here : Location) :
    sidecarAt d here a = sidecarAt d here b ∧ recordAt d here a = recordAt d here b := by
  simp only [sidecarAt, recordAt, metaName, binName, nameFor_congr h, and_self]

theorem cutOff_sound (h : Sound s scopes wasPut here d) (hnames : NamesApart scopes)
    {request : Request} (hrequest : request.Under scopes) (now : UInt64) (calls : Nat)
    (torn : Option Bytes) :
    Sound s scopes (fun scope r => wasPut scope r ∨ request.Puts scope r) here
      (s.cutOff d request now calls torn) := by
  have hsame := cutOff_same h request now calls torn
  refine ⟨Disk.enter_of_same hsame h.entered, fun name => by rw [ne_eq, hsame]; exact h.noDirectory name,
    fun key bytes hkey hbytes => ?_⟩
  by_cases habout : request.About key.scope
  · obtain ⟨asked, hasked, hscope⟩ := habout
    have hleaves := cutOff_leaves (h.free asked) hasked now calls torn
    rw [(contents_of_scope hscope _ here).2, (contents_of_scope hscope _ here).2, hbytes] at hleaves
    rcases record_of_leaves hleaves with hold | ⟨k, r, rfl, rfl⟩
    · obtain ⟨r, hr, hwas⟩ := h.records key bytes hkey hold
      exact ⟨r, hr, .inl hwas⟩
    · cases hasked
      exact ⟨r, rfl, .inr ⟨asked, rfl, hscope⟩⟩
  · rw [(cutOff_elsewhere h hnames hrequest now calls torn hkey habout).2] at hbytes
    obtain ⟨r, hr, hwas⟩ := h.records key bytes hkey hbytes
    exact ⟨r, hr, .inl hwas⟩

/-- An event is a request cut off somewhere, perhaps at its end. -/
theorem exists_cutOff_eq_step (h : Sound s scopes wasPut here d) (e : Event) :
    ∃ now calls torn, s.step d e = s.cutOff d e.request now calls torn := by
  cases e with
  | whole request now =>
    obtain ⟨calls, hcalls⟩ := Plan.exists_cutOff_eq_run (s.plan now request) none d
    exact ⟨now, calls, none, hcalls.symm⟩
  | cut request now calls torn =>
    have hin := Disk.enter_of_same (cutOff_same h request now calls torn) h.entered
    refine ⟨now, calls, torn, ?_⟩
    rw [step, run_create hin]
    rfl

theorem step_sound (h : Sound s scopes wasPut here d) (hnames : NamesApart scopes) {e : Event}
    (he : e.request.Under scopes) :
    Sound s scopes (fun scope r => wasPut scope r ∨ e.request.Puts scope r) here (s.step d e) := by
  obtain ⟨now, calls, torn, hstep⟩ := exists_cutOff_eq_step h e
  rw [hstep]
  exact cutOff_sound h hnames he now calls torn

theorem history_sound (h : Sound s scopes wasPut here d) (hnames : NamesApart scopes)
    {events : List Event} (hevents : ∀ e ∈ events, e.request.Under scopes) :
    Sound s scopes (fun scope r => wasPut scope r ∨ ∃ e ∈ events, e.request.Puts scope r) here
      (s.history d events) := by
  induction events generalizing d wasPut with
  | nil => exact h.mono fun scope r hwas => .inl hwas
  | cons e events ih =>
    have hstep := step_sound h hnames (hevents e (List.mem_cons_self ..))
    refine (ih hstep fun e' he' => hevents e' (List.mem_cons_of_mem e he')).mono fun scope r hwas => ?_
    rcases hwas with (hwas | hputs) | ⟨e', he', hputs⟩
    · exact .inl hwas
    · exact .inr ⟨e, List.mem_cons_self .., hputs⟩
    · exact .inr ⟨e', List.mem_cons_of_mem e he', hputs⟩

/-- What a lookup answers. -/
theorem Sound.answer (h : Sound s scopes wasPut here d) (key : Key) : ((s.get key).run d).1 =
    .ok (Directory.answer key (sidecarAt d here key) (recordAt d here key)) :=
  get_answer (h.free key)

/-- A lookup does not fail, and answers a record of the key's tag that was put under its scope. -/
theorem Sound.get (h : Sound s scopes wasPut here d) {key : Key} (hkey : scopes key.scope) :
    ∃ found, ((s.get key).run d).1 = .ok found ∧
      ∀ r, found = some r → r.tag = key.tag ∧ wasPut key.scope r := by
  refine ⟨_, h.answer key, fun r hr => ?_⟩
  obtain ⟨bytes, hbytes, hof, htag⟩ := of_answer hr
  obtain ⟨stored, rfl, hwas⟩ := h.records key bytes hkey hbytes
  rw [Record.ofBytes_toBytes] at hof
  cases hof
  exact ⟨htag, hwas⟩

/-- A record that is put is found by those who ask for its tag. -/
theorem Sound.put (h : Sound s scopes wasPut here d) (key : Key) (r : Record) (now : UInt64) :
    ((s.put key r now).run d).1 = .ok () ∧ ∀ other : Key, other.scope = key.scope →
      ((s.get other).run ((s.put key r now).run d).2).1 =
        .ok ((some r).filter fun r => r.tag == other.tag) := by
  refine ⟨(put_run (h.free key) r now).1, fun other hscope => ?_⟩
  obtain ⟨hsidecar, hrecord⟩ := contents_put (h.free key) r now
  have hanswer := get_answer ((h.free other).of_same (put_same s key r now d))
  have hcontents := contents_of_scope hscope ((s.put key r now).run d).2 here
  rw [hsidecar, hrecord] at hcontents
  rw [hanswer, hcontents.1, hcontents.2, answer_filed]

theorem run_plan_put (s : Directory) (key : Key) (r : Record) (now : UInt64) (d : Disk) :
    ((s.plan now (.put key r)).run d).2 = ((s.put key r now).run d).2 := by
  simp only [plan, Plan.run_bind, Plan.run_pure]

/-- A request that is cut off is answered as if it had not begun, as if it had been finished, or
    with a miss. -/
theorem answer_cutOff (h : Sound s scopes wasPut here d) (hnames : NamesApart scopes)
    {request : Request} (hrequest : request.Under scopes) (now : UInt64) (calls : Nat)
    (torn : Option Bytes) {key : Key} (hkey : scopes key.scope) :
    ((s.get key).run (s.cutOff d request now calls torn)).1 = ((s.get key).run d).1 ∨
      ((s.get key).run (s.cutOff d request now calls torn)).1 =
        ((s.get key).run ((s.plan now request).run d).2).1 ∨
      ((s.get key).run (s.cutOff d request now calls torn)).1 = .ok none := by
  have hcut := cutOff_sound h hnames hrequest now calls torn
  rw [hcut.answer key, h.answer key]
  by_cases habout : request.About key.scope
  · obtain ⟨asked, hasked, hscope⟩ := habout
    have hleaves := cutOff_leaves (h.free asked) hasked now calls torn
    simp only [contents_of_scope hscope] at hleaves
    rcases answer_of_leaves hleaves key with hold | ⟨k, r, rfl, hput⟩ | hmiss
    · exact .inl (by rw [hold])
    · cases hasked
      obtain ⟨-, hfound⟩ := h.put asked r now
      exact .inr (.inl (by rw [hput, run_plan_put, hfound key hscope.symm]))
    · exact .inr (.inr (by rw [hmiss]))
  · obtain ⟨hsidecar, hrecord⟩ := cutOff_elsewhere h hnames hrequest now calls torn hkey habout
    exact .inl (by rw [hsidecar, hrecord])

/-- A request that is cut off is not noticed under other scopes. -/
theorem answer_elsewhere (h : Sound s scopes wasPut here d) (hnames : NamesApart scopes)
    {request : Request} (hrequest : request.Under scopes) (now : UInt64) (calls : Nat)
    (torn : Option Bytes) {key : Key} (hkey : scopes key.scope) (hother : ¬ request.About key.scope) :
    ((s.get key).run (s.cutOff d request now calls torn)).1 = ((s.get key).run d).1 := by
  have hcut := cutOff_sound h hnames hrequest now calls torn
  obtain ⟨hsidecar, hrecord⟩ := cutOff_elsewhere h hnames hrequest now calls torn hkey hother
  rw [hcut.answer key, h.answer key, hsidecar, hrecord]

end Sound

/-- A store that starts in an empty directory survives being cut off, after any history in which
    it was cut off before. A lookup never fails; it answers only records of the key's tag that
    were put under its scope. After a cut the store opens again, and lookups answer as before,
    as after the whole request, or a miss; under other scopes, as before. A record that is put
    later is filed without an error, and found. -/
theorem cut_safe {s : Directory} {d₀ : Disk} {here : Location} (hin : d₀.enter s.path = .ok here)
    (hempty : ∀ below, below ≠ [] → d₀.get? (here ++ below) = none) {scopes : Bytes → Prop}
    (hnames : NamesApart scopes) (events : List Event)
    (hevents : ∀ e ∈ events, e.request.Under scopes) :
    let d := s.history d₀ events
    (∀ key : Key, scopes key.scope → ∃ found, ((s.get key).run d).1 = .ok found ∧
      ∀ r, found = some r → r.tag = key.tag ∧ ∃ e ∈ events, e.request.Puts key.scope r) ∧
    (∀ request now calls torn, request.Under scopes →
      let cut := s.cutOff d request now calls torn
      (create s.path).run cut = (.ok s, cut) ∧
      ∀ key : Key, scopes key.scope →
        (((s.get key).run cut).1 = ((s.get key).run d).1 ∨
          ((s.get key).run cut).1 = ((s.get key).run ((s.plan now request).run d).2).1 ∨
          ((s.get key).run cut).1 = .ok none) ∧
        (¬ request.About key.scope → ((s.get key).run cut).1 = ((s.get key).run d).1)) ∧
    ∀ (key : Key) (r : Record) (now : UInt64), ((s.put key r now).run d).1 = .ok () ∧
      ∀ other : Key, other.scope = key.scope → other.tag = r.tag →
        ((s.get other).run ((s.put key r now).run d).2).1 = .ok (some r) := by
  intro d
  have hsound := history_sound (sound_of_empty hin hempty) hnames hevents
  refine ⟨fun key hkey => ?_, fun request now calls torn hrequest => ⟨?_, fun key hkey => ?_⟩,
    fun key r now => ?_⟩
  · obtain ⟨found, hfound, hput⟩ := hsound.get hkey
    refine ⟨found, hfound, fun r hr => ?_⟩
    obtain ⟨htag, hnever | hwas⟩ := hput r hr
    · exact absurd hnever id
    · exact ⟨htag, hwas⟩
  · exact run_create (Disk.enter_of_same (cutOff_same hsound request now calls torn) hsound.entered)
  · exact ⟨answer_cutOff hsound hnames hrequest now calls torn hkey,
      answer_elsewhere hsound hnames hrequest now calls torn hkey⟩
  · obtain ⟨hok, hfound⟩ := hsound.put key r now
    refine ⟨hok, fun other hscope htag => ?_⟩
    rw [hfound other hscope]
    simp [Option.filter, htag]

/-- A record takes the place of another and is cut off: the old one, the new one, or none. -/
theorem cut_safe_while_replacing :
    let s : Directory := ⟨⟨["", "cache"]⟩⟩
    let key : Key := ⟨Record.moduleTag, [109]⟩
    let old : Record := ⟨Record.moduleTag, [1], by decide⟩
    let new : Record := ⟨Record.moduleTag, [1, 2, 3], by decide⟩
    let d₀ : Disk := ⟨[(["cache"], .directory)]⟩
    let d := s.history d₀ [.whole (.put key old) 0]
    d₀.enter s.path = .ok ["cache"] ∧ (Request.put key new).Under (· = [109]) ∧
      ∀ calls torn, ∃ found ∈ [some old, some new, none],
        ((s.get key).run (s.cutOff d (.put key new) 1 calls torn)).1 = .ok found := by
  intro s key old new d₀ d
  have hin : d₀.enter s.path = .ok ["cache"] := rfl
  have hunder : ∀ r, (Request.put key r).Under (· = [109]) := by
    rintro r k hk
    cases hk
    rfl
  refine ⟨hin, hunder new, fun calls torn => ?_⟩
  have hempty := Disk.get?_below_only "cache"
  have hnames := namesApart_one [109]
  obtain ⟨-, -, hfirst⟩ := cut_safe hin hempty hnames [] (by simp)
  have hfiled : d = ((s.put key old 0).run (s.history d₀ [])).2 := by
    simp only [d, history, List.foldl_cons, List.foldl_nil, step, run_plan_put]
  have hbefore : ((s.get key).run d).1 = .ok (some old) := by
    rw [hfiled]
    exact (hfirst key old 0).2 key rfl rfl
  have hevents : ∀ e ∈ [Event.whole (.put key old) 0], e.request.Under (· = [109]) := by
    intro e he
    obtain rfl := List.mem_singleton.1 he
    exact hunder old
  obtain ⟨-, hcut, hsecond⟩ := cut_safe hin hempty hnames [.whole (.put key old) 0] hevents
  have hafter : ((s.get key).run ((s.plan 1 (.put key new)).run d).2).1 = .ok (some new) := by
    rw [run_plan_put]
    exact (hsecond key new 1).2 key rfl rfl
  obtain ⟨-, hanswer⟩ := hcut (.put key new) 1 calls torn (hunder new)
  rcases (hanswer key rfl).1 with hold | hnew | hmiss
  · exact ⟨some old, by simp, hold.trans hbefore⟩
  · exact ⟨some new, by simp, hnew.trans hafter⟩
  · exact ⟨none, by simp, hmiss⟩

end Directory

end CompileCache.Store
