/-
  CompileCache.Proofs.Store.Obstacles — an entry in a directory where anything may stand.

  In the places of an entry's files there may be nothing, a file that holds anything, or a
  directory. A lookup goes by what stands in two of them: a record and its sidecar are read
  (`reading_eq_found_iff`), an entry without a sidecar, or with one of another tag, is passed
  over (`reading_eq_miss_iff`), and whatever else there is, is cleared as far as that goes
  (`get_eq`). What is left after that is looked up with the same answer (`get_again`), and what
  was cleared under one key could not be found under another (`get_after_get`).

  Filing is given up at the first directory in its way. By then the draft is gone, and so is
  the record of an entry whose sidecar is a directory; but that one could not be looked up
  anyway, so no lookup notices (`get_after_failed_put`).

  Proved: what a lookup answers and leaves behind, in every state of the directory
  (`get_by_places`); a record that is filed without an error is found, and filing that fails
  goes unnoticed (`put_found_or_unnoticed`).
-/

import CompileCache.Proofs.Store.Entry

namespace CompileCache.Store.Directory

variable {s : Directory} {key : Key} {here : Location} {d d' : Disk}

/-! ## Readings -/

/-- A sidecar of this tag stands there. -/
def Notes (tag : UInt32) (place : Option Node) : Prop :=
  ∃ bytes sidecar, place = some (.file bytes) ∧ Sidecar.parse? bytes = some sidecar ∧ sidecar.tag = tag

/-- The files of the entry are this record, under the key's tag, and its sidecar. -/
def Readable (key : Key) (sidecar record : Option Node) (r : Record) : Prop :=
  Notes key.tag sidecar ∧
    ∃ bytes, record = some (.file bytes) ∧ Record.Headed key.tag bytes ∧ r.toBytes = bytes

/-- There is no sidecar, or one of another tag. -/
def PassedOver (key : Key) (sidecar : Option Node) : Prop :=
  sidecar = none ∨ ∃ tag, tag ≠ key.tag ∧ Notes tag sidecar

theorem ofRecord_eq_found_iff {record : Option Bytes} {r : Record} :
    Reading.ofRecord key record = .found r ↔
      ∃ bytes, record = some bytes ∧ Record.Headed key.tag bytes ∧ r.toBytes = bytes := by
  constructor
  · intro h
    unfold Reading.ofRecord at h
    split at h
    · cases h
    · next bytes =>
      split at h
      · cases h
      · next stored hstored =>
        split at h
        · next htag =>
          cases h
          have hbytes := Record.toBytes_of_ofBytes hstored
          exact ⟨bytes, rfl, htag ▸ hbytes ▸ Record.headed_toBytes r, hbytes⟩
        · cases h
  · rintro ⟨bytes, rfl, hheaded, rfl⟩
    obtain ⟨stored, hstored, htag⟩ := Record.headed_iff.1 hheaded
    have hsame : Record.ofBytes r.toBytes = .ok stored := Record.ofBytes_eq_ok_iff.2 hstored
    rw [Record.ofBytes_toBytes] at hsame
    cases hsame
    rw [ofRecord_toBytes, if_pos htag]

theorem ofRecord_ne_miss (key : Key) (record : Option Bytes) : Reading.ofRecord key record ≠ .miss := by
  unfold Reading.ofRecord
  split
  · simp
  · split
    · simp
    · split <;> simp

/-- With a sidecar in its place, a reading goes by its tag. -/
theorem reading_of_notes {tag : UInt32} (h : Notes tag (d.get? (here ++ [metaName key]))) :
    reading d here key = if tag = key.tag then .ofRecord key (recordAt d here key) else .miss := by
  obtain ⟨bytes, sidecar, hfile, hparse, rfl⟩ := h
  have hat : sidecarAt d here key = some bytes := Disk.content?_file hfile
  rw [reading, if_neg (by simp [hfile]), hat]
  simp only [Reading.of, hparse]

/-- Without one, the entry is not there, or unreadable. -/
theorem reading_of_no_notes (h : ∀ tag, ¬ Notes tag (d.get? (here ++ [metaName key]))) :
    reading d here key =
      if d.get? (here ++ [metaName key]) = none then .miss else .unreadable := by
  rw [reading]
  cases hn : d.get? (here ++ [metaName key]) with
  | none => simp [sidecarAt, Disk.content?_none hn, Reading.of]
  | some n =>
    cases n with
    | directory => simp
    | file bytes =>
      cases hparse : Sidecar.parse? bytes with
      | some sidecar => exact absurd ⟨bytes, sidecar, hn, hparse, rfl⟩ (h sidecar.tag)
      | none => simp [sidecarAt, Disk.content?_file hn, Reading.of, hparse]

/-- A record is read exactly if the files of the entry are the record and its sidecar. -/
theorem reading_eq_found_iff {r : Record} : reading d here key = .found r ↔
    Readable key (d.get? (here ++ [metaName key])) (d.get? (here ++ [binName key])) r := by
  constructor
  · intro h
    by_cases hnotes : ∃ tag, Notes tag (d.get? (here ++ [metaName key]))
    · obtain ⟨tag, hnotes⟩ := hnotes
      rw [reading_of_notes hnotes] at h
      split at h
      · next htag =>
        subst htag
        obtain ⟨bytes, hbytes, hheaded⟩ := ofRecord_eq_found_iff.1 h
        exact ⟨hnotes, bytes, Disk.content?_eq_some_iff.1 hbytes, hheaded⟩
      · cases h
    · rw [reading_of_no_notes (not_exists.1 hnotes)] at h
      split at h <;> cases h
  · rintro ⟨hnotes, bytes, hfile, hheaded⟩
    rw [reading_of_notes hnotes, if_pos rfl]
    exact ofRecord_eq_found_iff.2 ⟨bytes, Disk.content?_eq_some_iff.2 hfile, hheaded⟩

/-- An entry is passed over exactly if it has no sidecar, or one of another tag. -/
theorem reading_eq_miss_iff : reading d here key = .miss ↔
    PassedOver key (d.get? (here ++ [metaName key])) := by
  constructor
  · intro h
    by_cases hnotes : ∃ tag, Notes tag (d.get? (here ++ [metaName key]))
    · obtain ⟨tag, hnotes⟩ := hnotes
      rw [reading_of_notes hnotes] at h
      split at h
      · exact absurd h (ofRecord_ne_miss key _)
      · next htag => exact .inr ⟨tag, htag, hnotes⟩
    · rw [reading_of_no_notes (not_exists.1 hnotes)] at h
      split at h
      · next hnone => exact .inl hnone
      · cases h
  · rintro (hnone | ⟨tag, htag, hnotes⟩)
    · rw [reading, hnone, sidecarAt, Disk.content?_none hnone]
      simp [Reading.of]
    · rw [reading_of_notes hnotes, if_neg htag]

theorem reading_eq_unreadable_iff : reading d here key = .unreadable ↔
    (∀ r, ¬ Readable key (d.get? (here ++ [metaName key])) (d.get? (here ++ [binName key])) r) ∧
      ¬ PassedOver key (d.get? (here ++ [metaName key])) := by
  have hfound : ∀ r, reading d here key = .found r ↔ _ := fun r => reading_eq_found_iff
  simp only [← hfound, ← reading_eq_miss_iff]
  cases reading d here key <;> simp

/-- Files that cannot be read under one tag are not a record under another. -/
theorem not_found_of_unreadable {j k : Key} (hmeta : metaName k = metaName j)
    (hbin : binName k = binName j) (h : reading d here j = .unreadable) (r : Record) :
    reading d here k ≠ .found r := by
  intro hfound
  obtain ⟨hnotes, hfile⟩ := reading_eq_found_iff.1 hfound
  obtain ⟨hnone, hkept⟩ := reading_eq_unreadable_iff.1 h
  rw [hmeta] at hnotes
  rw [hbin] at hfile
  by_cases htag : k.tag = j.tag
  · exact hnone r ⟨htag ▸ hnotes, htag ▸ hfile⟩
  · exact hkept (.inr ⟨k.tag, htag, hnotes⟩)

/-! ## Looking up -/

/-- What a lookup answers and what it leaves, by the reading of the entry. -/
theorem get_eq (hin : d.enter s.path = .ok here) :
    (s.get key).run d =
      match reading d here key with
      | .found r => (.ok (some r), d)
      | .miss => (.ok none, d)
      | .unreadable =>
        if d.get? (here ++ [binName key]) = some .directory then
          (.error (.io (s.recordFile key) .isADirectory), d)
        else if d.get? (here ++ [metaName key]) = some .directory then
          (.error (.io (s.sidecarFile key) .isADirectory), d.erase (here ++ [binName key]))
        else (.ok none, (d.erase (here ++ [binName key])).erase (here ++ [metaName key])) := by
  rw [get_reading hin]
  cases reading d here key with
  | found r => rfl
  | miss => rfl
  | unreadable =>
    simp only [missAfterClearing, Plan.run_bind, clear_eq hin]
    by_cases hbin : d.get? (here ++ [binName key]) = some .directory
    · simp only [hbin, if_true, Plan.run_pure]
    · by_cases hmeta : d.get? (here ++ [metaName key]) = some .directory
      · simp only [hbin, hmeta, if_true, if_false, Plan.run_pure]
      · simp only [hbin, hmeta, if_false, Plan.run_pure]

theorem get_found_iff (hin : d.enter s.path = .ok here) {r : Record} :
    ((s.get key).run d).1 = .ok (some r) ↔ reading d here key = .found r := by
  rw [get_eq hin]
  cases reading d here key with
  | found stored => simp
  | miss => simp
  | unreadable =>
    dsimp only
    split
    · simp
    · split <;> simp

/-- A lookup can be repeated: it answers the same and changes nothing more. -/
theorem get_again (s : Directory) (key : Key) (d : Disk) :
    (s.get key).run ((s.get key).run d).2 = (s.get key).run d := by
  cases hin : d.enter s.path with
  | error e => rw [get_of_not_entered hin, get_of_not_entered hin]
  | ok here =>
    have hne : here ++ [metaName key] ≠ here ++ [binName key] := by simpa using (names_apart key).1.symm
    have hafter : ((s.get key).run d).2.enter s.path = .ok here :=
      Disk.enter_of_same (clears_same get_within d) hin
    have hrun : (s.get key).run d = _ := get_eq hin
    rw [hrun] at hafter ⊢
    cases hreading : reading d here key with
    | found r => exact hrun.trans (by rw [hreading])
    | miss => exact hrun.trans (by rw [hreading])
    | unreadable =>
      simp only [hreading] at hafter hrun ⊢
      by_cases hbin : d.get? (here ++ [binName key]) = some .directory
      · rw [if_pos hbin] at hrun ⊢
        exact hrun
      · rw [if_neg hbin] at hafter ⊢
        by_cases hmeta : d.get? (here ++ [metaName key]) = some .directory
        · -- The record is gone, and the directory is still in the place of the sidecar.
          rw [if_pos hmeta] at hafter ⊢
          have hgone : (d.erase (here ++ [binName key])).get? (here ++ [binName key]) = none :=
            Disk.get?_erase_self d (by simp)
          have hstays : (d.erase (here ++ [binName key])).get? (here ++ [metaName key]) = some .directory := by
            rw [Disk.get?_erase_ne d hne, hmeta]
          rw [get_eq hafter, reading, if_pos hstays]
          simp only [hgone, hstays, reduceCtorEq, if_true, if_false]
          rw [Disk.erase_of_none hgone]
        · -- Without a sidecar there is nothing left to read.
          rw [if_neg hmeta] at hafter ⊢
          have hgone : ((d.erase (here ++ [binName key])).erase (here ++ [metaName key])).get?
              (here ++ [metaName key]) = none := Disk.get?_erase_self _ (by simp)
          rw [get_eq hafter, reading_eq_miss_iff.2 (.inl hgone)]

/-- A lookup goes by what is in the places of the sidecar and of the record, and by nothing else. -/
theorem get_of_same_places {k : Key} (hin : d.enter s.path = .ok here)
    (hin' : d'.enter s.path = .ok here)
    (hbin : d'.get? (here ++ [binName k]) = d.get? (here ++ [binName k]))
    (hmeta : d'.get? (here ++ [metaName k]) = d.get? (here ++ [metaName k])) :
    ((s.get k).run d').1 = ((s.get k).run d).1 := by
  have hreading : reading d' here k = reading d here k := by
    simp only [reading, sidecarAt, recordAt, Disk.content?_congr hbin, Disk.content?_congr hmeta, hmeta]
  rw [get_eq hin, get_eq hin', hreading, hbin, hmeta]
  cases reading d here k with
  | found r => rfl
  | miss => rfl
  | unreadable =>
    dsimp only
    split
    · rfl
    · split <;> rfl

/-- With a directory in the place of the sidecar, and none in the place of the record, every lookup
    that goes by these names fails on the sidecar. -/
theorem get_of_sidecar_directory {j k : Key} (hfile : k.fileName = j.fileName)
    (hin : d.enter s.path = .ok here) (hrecord : d.get? (here ++ [binName j]) ≠ some .directory)
    (hsidecar : d.get? (here ++ [metaName j]) = some .directory) :
    ((s.get k).run d).1 = .error (.io (s.sidecarFile k) .isADirectory) := by
  have hbin : binName k = binName j := nameFor_of_fileName hfile "bin"
  have hmeta : metaName k = metaName j := nameFor_of_fileName hfile "meta"
  rw [get_eq hin, reading, hbin, hmeta, if_pos hsidecar]
  simp only [hrecord, hsidecar, if_true, if_false]

/-- So it does when the record is gone. -/
theorem get_of_record_gone {j k : Key} (hfile : k.fileName = j.fileName)
    (hin : (d.erase (here ++ [binName j])).enter s.path = .ok here)
    (hsidecar : d.get? (here ++ [metaName j]) = some .directory) :
    ((s.get k).run (d.erase (here ++ [binName j]))).1 =
      .error (.io (s.sidecarFile k) .isADirectory) := by
  refine get_of_sidecar_directory hfile hin ?_ ?_
  · rw [Disk.get?_erase_self d (by simp)]
    simp
  · rw [Disk.get?_erase_ne d (by simpa using (names_apart j).1.symm), hsidecar]

/-- What is done to the files of one name is not noticed by lookups under another. -/
theorem get_after_other {α : Type} {plan : Plan α} {j k : Key} (hfile : k.fileName ≠ j.fileName)
    (hplan : plan.Within (Disk.Change.Among s.path (names j))) (d : Disk) :
    ((s.get k).run (plan.run d).2).1 = ((s.get k).run d).1 := by
  cases hin : d.enter s.path with
  | error e => rw [Plan.run_of_not_entered (fun _ => isName_of_mem_names) hplan hin]
  | ok here =>
    have honly := Plan.run_onlyAt (fun _ => isName_of_mem_names) hplan hin
    have hapart : ∀ name ∈ names k, ∀ other ∈ names j, here ++ [name] ≠ here ++ [other] := by
      intro name hname other hother hl
      have hsame : name = other := by simpa using hl
      exact not_mem_names hfile hname (hsame ▸ hother)
    exact get_of_same_places hin (Disk.enter_of_same honly.directories hin)
      (honly.elsewhere _ (hapart _ (binName_mem k))) (honly.elsewhere _ (hapart _ (metaName_mem k)))

/-- Lookups do not change each other's answers, whatever they clear away. -/
theorem get_after_get (s : Directory) (j k : Key) (d : Disk) :
    ((s.get k).run ((s.get j).run d).2).1 = ((s.get k).run d).1 := by
  by_cases hfile : k.fileName = j.fileName
  · have hmeta : metaName k = metaName j := nameFor_of_fileName hfile "meta"
    have hbin : binName k = binName j := nameFor_of_fileName hfile "bin"
    cases hin : d.enter s.path with
    | error e =>
      have hrun : (s.get j).run d = _ := get_of_not_entered hin
      rw [hrun]
    | ok here =>
      have hrun : (s.get j).run d = _ := get_eq hin
      have hafter : ((s.get j).run d).2.enter s.path = .ok here :=
        Disk.enter_of_same (clears_same get_within d) hin
      cases hreading : reading d here j with
      | found r => rw [hrun, hreading]
      | miss => rw [hrun, hreading]
      | unreadable =>
        rw [hrun] at hafter ⊢
        simp only [hreading] at hafter ⊢
        by_cases hrecord : d.get? (here ++ [binName j]) = some .directory
        · rw [if_pos hrecord]
        · rw [if_neg hrecord] at hafter ⊢
          by_cases hsidecar : d.get? (here ++ [metaName j]) = some .directory
          · rw [if_pos hsidecar] at hafter ⊢
            exact (get_of_record_gone hfile hafter hsidecar).trans
              (get_of_sidecar_directory hfile hin hrecord hsidecar).symm
          · -- Both files go; the other lookup could make nothing of them, either.
            rw [if_neg hsidecar] at hafter ⊢
            have hgone : ((d.erase (here ++ [binName j])).erase (here ++ [metaName j])).get?
                (here ++ [metaName k]) = none := by
              rw [hmeta, Disk.get?_erase_self _ (by simp)]
            rw [get_eq hafter, reading_eq_miss_iff.2 (.inl hgone), get_eq hin]
            cases hother : reading d here k with
            | found r => exact absurd hother (not_found_of_unreadable hmeta hbin hreading r)
            | miss => rfl
            | unreadable =>
              rw [← hmeta] at hsidecar
              rw [← hbin] at hrecord
              simp only [hrecord, hsidecar, if_false]
  · exact get_after_other hfile (Plan.within_mono get_within fun _ hc => hc.1) d

/-- Every state of the directory: a lookup answers a record exactly if the entry's files are that
    record and its sidecar, passes over an entry without a sidecar or with another's, and clears
    whatever else is there, up to the first directory in the way. -/
theorem get_by_places (s : Directory) (key : Key) (d : Disk) :
    let found := ((s.get key).run d).1
    let after := ((s.get key).run d).2
    -- asking again
    (s.get key).run after = (found, after) ∧
    -- no directory to look in
    (∀ e, d.enter s.path = .error e →
      after = d ∧ found = if e = .notFound then .ok none else .error (.io (s.recordFile key) e)) ∧
    ∀ here, d.enter s.path = .ok here →
      let sidecar := d.get? (here ++ [metaName key])
      let record := d.get? (here ++ [binName key])
      -- a record, or none
      (∀ r, found = .ok (some r) ↔ Readable key sidecar record r) ∧
      (∀ r, Readable key sidecar record r → after = d) ∧
      (PassedOver key sidecar → found = .ok none ∧ after = d) ∧
      -- anything else
      ((∀ r, ¬ Readable key sidecar record r) → ¬ PassedOver key sidecar →
        (record = some .directory → found = .error (.io (s.recordFile key) .isADirectory) ∧ after = d) ∧
        (record ≠ some .directory → sidecar = some .directory →
          found = .error (.io (s.sidecarFile key) .isADirectory) ∧
          ∀ l, after.get? l = if l = here ++ [binName key] then none else d.get? l) ∧
        (record ≠ some .directory → sidecar ≠ some .directory →
          found = .ok none ∧
          ∀ l, after.get? l =
            if l = here ++ [binName key] ∨ l = here ++ [metaName key] then none else d.get? l)) := by
  have hagain := get_again s key d
  have hanswer : ∀ here r, d.enter s.path = .ok here →
      (((s.get key).run d).1 = .ok (some r) ↔ reading d here key = .found r) :=
    fun here r hin => get_found_iff hin
  generalize hrun : (s.get key).run d = result at hagain hanswer ⊢
  obtain ⟨found, after⟩ := result
  dsimp only at hagain hanswer ⊢
  refine ⟨hagain, fun e hin => ?_, fun here hin => ?_⟩
  · rw [get_of_not_entered hin] at hrun
    cases hrun
    exact ⟨rfl, rfl⟩
  · rw [get_eq hin] at hrun
    have hreadable : ∀ r, reading d here key = .found r ↔ _ := fun r => reading_eq_found_iff
    have hpassed : reading d here key = .miss ↔ _ := reading_eq_miss_iff
    have hcleared : reading d here key = .unreadable ↔ _ := reading_eq_unreadable_iff
    refine ⟨fun r => (hanswer here r hin).trans (hreadable r), fun r hr => ?_, fun hp => ?_,
      fun hnone hkept => ?_⟩
    · rw [(hreadable r).2 hr] at hrun
      cases hrun
      rfl
    · rw [hpassed.2 hp] at hrun
      cases hrun
      exact ⟨rfl, rfl⟩
    · simp only [hcleared.2 ⟨hnone, hkept⟩] at hrun
      refine ⟨fun hrecord => ?_, fun hrecord hsidecar => ?_, fun hrecord hsidecar => ?_⟩
      · rw [if_pos hrecord] at hrun
        cases hrun
        exact ⟨rfl, rfl⟩
      · rw [if_neg hrecord, if_pos hsidecar] at hrun
        cases hrun
        exact ⟨rfl, Disk.get?_erase d (by simp)⟩
      · rw [if_neg hrecord, if_neg hsidecar] at hrun
        cases hrun
        refine ⟨rfl, fun l => ?_⟩
        rw [Disk.get?_erase _ (by simp), Disk.get?_erase d (by simp)]
        by_cases hl : l = here ++ [binName key] <;> simp [hl]

/-- Of an entry whose sidecar is a directory, the record file goes, whatever it holds. -/
theorem get_with_sidecar_directory :
    let s : Directory := ⟨⟨["", "cache"]⟩⟩
    let key : Key := ⟨Record.moduleTag, [109]⟩
    let d : Disk := ⟨[(["cache"], .directory), (["cache", binName key], .file [1, 2, 3]),
      (["cache", metaName key], .directory)]⟩
    let after := ((s.get key).run d).2
    ((s.get key).run d).1 = .error (.io (s.sidecarFile key) .isADirectory) ∧
      d.get? ["cache", binName key] = some (.file [1, 2, 3]) ∧
      after.get? ["cache", binName key] = none ∧
      (s.get key).run after = (.error (.io (s.sidecarFile key) .isADirectory), after) := by
  intro s key d after
  have hin : d.enter s.path = .ok ["cache"] := rfl
  have hne : (metaName key == binName key) = false := by simpa using (names_apart key).1.symm
  have hrecord : d.get? (["cache"] ++ [binName key]) = some (.file [1, 2, 3]) := by
    simp [Disk.get?, d, List.lookup_cons]
  have hsidecar : d.get? (["cache"] ++ [metaName key]) = some .directory := by
    simp [Disk.get?, d, List.lookup_cons, hne]
  have hnotes : ∀ tag, ¬ Notes tag (d.get? (["cache"] ++ [metaName key])) := by
    rintro tag ⟨bytes, sidecar, hfile, -⟩
    rw [hsidecar] at hfile
    cases hfile
  have hkept : ¬ PassedOver key (d.get? (["cache"] ++ [metaName key])) := by
    rintro (hnone | ⟨tag, -, htag⟩)
    · rw [hsidecar] at hnone
      cases hnone
    · exact hnotes tag htag
  obtain ⟨hagain, -, hplaces⟩ := get_by_places s key d
  obtain ⟨-, -, -, hcleared⟩ := hplaces ["cache"] hin
  obtain ⟨-, hstopped, -⟩ := hcleared (fun r hr => hnotes _ hr.1) hkept
  obtain ⟨hfound, hafter⟩ := hstopped (by rw [hrecord]; simp) hsidecar
  exact ⟨hfound, hrecord, (hafter _).trans (if_pos rfl), hagain.trans (by rw [hfound])⟩

/-! ## Filing -/

theorem put_eq_ok_iff {r : Record} {now : UInt64} :
    ((s.put key r now).run d).1 = .ok () ↔ ∃ here, Free s key here d := by
  constructor
  · intro h
    cases hin : d.enter s.path with
    | error e =>
      rw [put_of_not_entered hin] at h
      cases h
    | ok here =>
      refine ⟨here, hin, ?_⟩
      rw [put_eq hin] at h
      split at h
      · cases h
      · next hdraft =>
        split at h
        · cases h
        · next hrecord =>
          split at h
          · cases h
          · next hnote =>
            intro name hname
            simp only [names, extensions, List.map_cons, List.map_nil, List.mem_cons,
              List.not_mem_nil, or_false] at hname
            obtain rfl | rfl | rfl := hname
            · exact hrecord
            · exact hnote
            · exact hdraft
  · rintro ⟨here, hfree⟩
    exact (put_run hfree r now).1

/-- No lookup, under any key, tells that a record could not be filed. -/
theorem get_after_failed_put {r : Record} {now : UInt64} {e : Store.Error}
    (h : ((s.put key r now).run d).1 = .error e) (k : Key) :
    ((s.get k).run ((s.put key r now).run d).2).1 = ((s.get k).run d).1 := by
  by_cases hfile : k.fileName = key.fileName
  · have hmeta : metaName k = metaName key := nameFor_of_fileName hfile "meta"
    have hbin : binName k = binName key := nameFor_of_fileName hfile "bin"
    obtain ⟨-, hbt, hmt⟩ := names_apart key
    cases hin : d.enter s.path with
    | error o => rw [put_of_not_entered hin]
    | ok here =>
      have hafter : ((s.put key r now).run d).2.enter s.path = .ok here :=
        Disk.enter_of_same (put_same s key r now d) hin
      rw [put_eq hin] at h hafter ⊢
      by_cases hdraft : d.get? (here ++ [tmpName key]) = some .directory
      · rw [if_pos hdraft]
      · rw [if_neg hdraft] at h hafter ⊢
        by_cases hrecord : d.get? (here ++ [binName key]) = some .directory
        · -- Only the draft is gone.
          rw [if_pos hrecord] at hafter ⊢
          have hbin' : here ++ [binName k] ≠ here ++ [tmpName key] := by simpa [hbin] using hbt
          have hmeta' : here ++ [metaName k] ≠ here ++ [tmpName key] := by simpa [hmeta] using hmt
          exact get_of_same_places hin hafter (Disk.get?_erase_ne d hbin') (Disk.get?_erase_ne d hmeta')
        · rw [if_neg hrecord] at h hafter ⊢
          by_cases hsidecar : d.get? (here ++ [metaName key]) = some .directory
          · -- The record is gone, too; it could not be read before.
            rw [if_pos hsidecar] at hafter ⊢
            dsimp only at hafter ⊢
            have hstays : (d.erase (here ++ [tmpName key])).get? (here ++ [metaName key]) = some .directory := by
              rw [Disk.get?_erase_ne d (by simpa using hmt), hsidecar]
            exact (get_of_record_gone hfile hafter hstays).trans
              (get_of_sidecar_directory hfile hin hrecord hsidecar).symm
          · rw [if_neg hsidecar] at h
            cases h
  · exact get_after_other hfile (put_within r now) d

/-- Filing leaves no draft, unless there was a directory in its place. -/
theorem draft_after_put (hin : d.enter s.path = .ok here) (r : Record) (now : UInt64) :
    ((s.put key r now).run d).2.get? (here ++ [tmpName key]) =
      if d.get? (here ++ [tmpName key]) = some .directory then some .directory else none := by
  obtain ⟨-, hbt, hmt⟩ := names_apart key
  have hgone : (d.erase (here ++ [tmpName key])).get? (here ++ [tmpName key]) = none :=
    Disk.get?_erase_self d (by simp)
  rw [put_eq hin]
  by_cases hdraft : d.get? (here ++ [tmpName key]) = some .directory
  · simp only [hdraft, if_true]
  · rw [if_neg hdraft, if_neg hdraft]
    split
    · exact hgone
    · split
      · rw [Disk.get?_erase_ne _ (by simpa using hbt.symm), hgone]
      · rw [Disk.get?_put_ne _ _ (by simpa using hmt.symm), Disk.get?_put_ne _ _ (by simpa using hbt.symm),
          hgone]

theorem read_draft_after_put (s : Directory) (key : Key) (r : Record) (now : UInt64) (d : Disk)
    (bytes : Bytes) : ((s.put key r now).run d).2.read (s.draftFile key) ≠ .ok bytes := by
  intro hread
  rw [show s.draftFile key = s.path.child (tmpName key) from rfl] at hread
  obtain ⟨there, hafter, hfile⟩ := Disk.exists_of_read_child (isName_of_mem_names (tmpName_mem key)) hread
  cases hin : d.enter s.path with
  | error e =>
    rw [put_of_not_entered hin, hin] at hafter
    cases hafter
  | ok here =>
    rw [Disk.enter_of_same (put_same s key r now d) hin] at hafter
    cases hafter
    rw [draft_after_put hin] at hfile
    split at hfile <;> cases hfile

/-- A record is filed for all keys of a scope at once. -/
theorem put_congr {k : Key} (h : k.scope = key.scope) (r : Record) (now : UInt64) :
    s.put k r now = s.put key r now := by
  simp only [put, draftFile, recordFile, sidecarFile, fileFor, Key.fileName, h]

/-- A record that is filed without an error is found; a failure to file one is noticed by no
    lookup. Either way, no draft is left. -/
theorem put_found_or_unnoticed (s : Directory) (key : Key) (r : Record) (now : UInt64) (d : Disk) :
    let done := ((s.put key r now).run d).1
    let after := ((s.put key r now).run d).2
    (done = .ok () ↔ ∃ here, Free s key here d) ∧
    (done = .ok () →
      (∀ k : Key, k.scope = key.scope → k.tag = r.tag → ((s.get k).run after).1 = .ok (some r)) ∧
      after.read (s.draftFile key) = .error .notFound) ∧
    ∀ e, done = .error e →
      (∀ k, ((s.get k).run after).1 = ((s.get k).run d).1) ∧
      ∀ bytes, after.read (s.draftFile key) ≠ .ok bytes := by
  intro done after
  have hok : ((s.put key r now).run d).1 = .ok () ↔ ∃ here, Free s key here d := put_eq_ok_iff
  refine ⟨hok, fun hdone => ?_, fun e hdone => ?_⟩
  · obtain ⟨here, hfree⟩ := hok.1 hdone
    refine ⟨fun k hscope htag => ?_, ?_⟩
    · have hdone' : ((s.put k r now).run d).1 = .ok () := by
        rw [put_congr hscope]
        exact hdone
      obtain ⟨there, hfree'⟩ := put_eq_ok_iff.1 hdone'
      have hfound := get_put hfree' r now
      rw [put_congr hscope, Option.filter_some, if_pos (by simp [htag])] at hfound
      exact hfound
    · have hafter : after.enter s.path = .ok here :=
        Disk.enter_of_same (put_same s key r now d) hfree.entered
      have hdraft : after.get? (here ++ [tmpName key]) = none :=
        (draft_after_put hfree.entered r now).trans (if_neg (hfree.files _ (tmpName_mem key)))
      rw [show s.draftFile key = s.path.child (tmpName key) from rfl,
        Disk.read_child hafter (isName_of_mem_names (tmpName_mem key)), hdraft]
  · exact ⟨get_after_failed_put hdone, read_draft_after_put s key r now d⟩

/-- In an empty directory the record is filed and found; with a directory in the place of its
    sidecar, another file of that name goes, and no lookup under any key notices. -/
theorem put_found_then_unnoticed :
    let s : Directory := ⟨⟨["", "cache"]⟩⟩
    let key : Key := ⟨Record.moduleTag, [109]⟩
    let r : Record := ⟨Record.moduleTag, [1, 2, 3], by decide⟩
    let d : Disk := ⟨[(["cache"], .directory)]⟩
    let d' : Disk := ⟨[(["cache"], .directory), (["cache", metaName key], .directory)]⟩
    ((s.get key).run ((s.put key r 0).run d).2).1 = .ok (some r) ∧
      (∃ e, ((s.put key r 0).run d').1 = .error e) ∧
      ∀ k, ((s.get k).run ((s.put key r 0).run d').2).1 = ((s.get k).run d').1 := by
  intro s key r d d'
  have hfree : Free s key ["cache"] d :=
    ⟨rfl, fun name _ hdir => by
      rw [Disk.get?_below_only "cache" [name] (by simp)] at hdir
      cases hdir⟩
  obtain ⟨hdone, hfound, -⟩ := put_found_or_unnoticed s key r 0 d
  obtain ⟨hdone', -, hunnoticed⟩ := put_found_or_unnoticed s key r 0 d'
  have hsidecar : d'.get? ["cache", metaName key] = some .directory := by
    simp [Disk.get?, d', List.lookup_cons]
  have hfailed : ((s.put key r 0).run d').1 ≠ .ok () := by
    intro hok
    obtain ⟨here, hblocked⟩ := hdone'.1 hok
    have hin : d'.enter s.path = .ok ["cache"] := rfl
    rw [hblocked.entered] at hin
    cases hin
    exact hblocked.files _ (metaName_mem key) hsidecar
  refine ⟨(hfound (hdone.2 ⟨_, hfree⟩)).1 key rfl rfl, ?_⟩
  cases hput : ((s.put key r 0).run d').1 with
  | ok _ => exact absurd hput hfailed
  | error e => exact ⟨⟨e, rfl⟩, (hunnoticed e hput).1⟩

end CompileCache.Store.Directory
