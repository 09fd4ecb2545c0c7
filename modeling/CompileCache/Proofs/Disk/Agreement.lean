/-
  CompileCache.Proofs.Disk.Agreement — plans that look at some files of one directory only.

  Two disks agree on files of a directory if it is entered the same way on both and the files
  are the same (`Disk.Agree`). A plan that asks for those files and changes no others answers
  the same on both, and leaves disks that agree (`Plan.Local`); so do its parts one after the
  other (`local_bind`), and every single call (`local_read`, `local_change`). What is done
  among other files of the directory is not noticed (`Agree.others`).
-/

import CompileCache.Proofs.Disk.Plan

namespace CompileCache

namespace Disk

/-- The files of these names, right below `here`, are the same. -/
def SameAt (here : Location) (names : List String) (d d' : Disk) : Prop :=
  ∀ name ∈ names, d'.get? (here ++ [name]) = d.get? (here ++ [name])

/-- The files of these names in the directory at `p` are the same. -/
structure Agree (p : Path) (names : List String) (d d' : Disk) : Prop where
  entered : d'.enter p = d.enter p
  files : ∀ here, d.enter p = .ok here → SameAt here names d d'

variable {p : Path} {here : Location} {names : List String} {d d' : Disk}

theorem agree_refl (p : Path) (names : List String) (d : Disk) : Agree p names d d :=
  ⟨rfl, fun _ _ _ _ => rfl⟩

theorem Agree.trans {d'' : Disk} (h : Agree p names d d') (h' : Agree p names d' d'') :
    Agree p names d d'' :=
  ⟨h'.entered.trans h.entered, fun here hin name hname =>
    (h'.files here (h.entered.trans hin) name hname).trans (h.files here hin name hname)⟩

theorem SameAt.put (h : SameAt here names d d') (a : String) (n : Node) :
    SameAt here names (d.put (here ++ [a]) n) (d'.put (here ++ [a]) n) := by
  intro name hname
  by_cases ha : name = a
  · rw [ha, get?_put_self d n (by simp), get?_put_self d' n (by simp)]
  · rw [get?_put_ne d n (by simpa using ha), get?_put_ne d' n (by simpa using ha), h name hname]

theorem SameAt.erase (h : SameAt here names d d') (a : String) :
    SameAt here names (d.erase (here ++ [a])) (d'.erase (here ++ [a])) := by
  intro name hname
  by_cases ha : name = a
  · rw [ha, get?_erase_self d (by simp), get?_erase_self d' (by simp)]
  · rw [get?_erase_ne d (by simpa using ha), get?_erase_ne d' (by simpa using ha), h name hname]

/-- A change of these files is answered the same, and leaves the same files. -/
theorem SameAt.change (h : SameAt here names d d') (hnames : ∀ a ∈ names, Path.isName a)
    {c : Change} (hc : c.Among p names) (hin : d.enter p = .ok here) (hin' : d'.enter p = .ok here) :
    (∃ e, d.change c = .error e ∧ d'.change c = .error e) ∨
      ∃ next next', d.change c = .ok next ∧ d'.change c = .ok next' ∧ SameAt here names next next' := by
  cases c with
  | write q content =>
    obtain ⟨a, ha, rfl⟩ := hc
    rw [Disk.change, Disk.change, write_child hin (hnames a ha), write_child hin' (hnames a ha), h a ha]
    split
    · exact .inl ⟨_, rfl, rfl⟩
    · exact .inr ⟨_, _, rfl, rfl, h.put a _⟩
  | unlink q =>
    obtain ⟨a, ha, rfl⟩ := hc
    rw [Disk.change, Disk.change, unlink_child hin (hnames a ha), unlink_child hin' (hnames a ha), h a ha]
    split
    · exact .inl ⟨_, rfl, rfl⟩
    · exact .inl ⟨_, rfl, rfl⟩
    · exact .inr ⟨_, _, rfl, rfl, h.erase a⟩
  | rename q q' =>
    obtain ⟨a, ha, b, hb, rfl, rfl⟩ := hc
    rw [Disk.change, Disk.change, rename_child hin (hnames a ha) (hnames b hb),
      rename_child hin' (hnames a ha) (hnames b hb), h a ha, h b hb]
    split
    · exact .inl ⟨_, rfl, rfl⟩
    · exact .inl ⟨_, rfl, rfl⟩
    · split
      · exact .inl ⟨_, rfl, rfl⟩
      · exact .inr ⟨_, _, rfl, rfl, (h.erase a).put b _⟩
  | makeDirectory q => exact absurd hc id
  | removeTree q => exact absurd hc id

end Disk

namespace Plan

variable {α β : Type} {p : Path} {names : List String}

/-- What the plan answers, and what it makes of these files, depends on them alone. -/
def Local (p : Path) (names : List String) (plan : Plan α) : Prop :=
  ∀ d d', Disk.Agree p names d d' →
    (plan.run d').1 = (plan.run d).1 ∧ Disk.Agree p names (plan.run d).2 (plan.run d').2

theorem local_pure (a : α) : (pure a : Plan α).Local p names := fun _ _ h => ⟨rfl, h⟩

theorem local_bind {plan : Plan α} {f : α → Plan β} (hplan : plan.Local p names)
    (hf : ∀ a, (f a).Local p names) : (plan >>= f).Local p names := by
  intro d d' h
  obtain ⟨hanswer, hafter⟩ := hplan d d' h
  rw [run_bind, run_bind, hanswer]
  exact hf _ _ _ hafter

theorem local_read (hnames : ∀ a ∈ names, Path.isName a) {a : String} (ha : a ∈ names) :
    (read (p.child a)).Local p names := by
  intro d d' h
  refine ⟨?_, h⟩
  show d'.read (p.child a) = d.read (p.child a)
  cases hin : d.enter p with
  | error e =>
    have hin' := h.entered.trans hin
    simp only [Disk.read, Disk.fileAt, Disk.target_child _ p (hnames a ha), hin, hin']
  | ok here =>
    rw [Disk.read_child hin (hnames a ha), Disk.read_child (h.entered.trans hin) (hnames a ha),
      h.files here hin a ha]

theorem local_change (hnames : ∀ a ∈ names, Path.isName a) {c : Disk.Change}
    (hc : c.Among p names) : (Plan.change c .done).Local p names := by
  intro d d' h
  show outcome (d'.change c) = outcome (d.change c) ∧
    Disk.Agree p names (after d (d.change c)) (after d' (d'.change c))
  cases hin : d.enter p with
  | error e =>
    rw [Disk.change_of_not_entered hnames hc hin,
      Disk.change_of_not_entered hnames hc (h.entered.trans hin)]
    exact ⟨rfl, h⟩
  | ok here =>
    have hin' := h.entered.trans hin
    rcases (h.files here hin).change hnames hc hin hin' with ⟨e, he, he'⟩ |
      ⟨next, next', hnext, hnext', hsame⟩
    · rw [he, he']
      exact ⟨rfl, h⟩
    · have hnow := Disk.enter_of_same (Disk.change_onlyAt hnames hc hin hnext).directories hin
      have hnow' := Disk.enter_of_same (Disk.change_onlyAt hnames hc hin' hnext').directories hin'
      rw [hnext, hnext']
      refine ⟨rfl, hnow'.trans hnow.symm, fun there hthere => ?_⟩
      obtain rfl : here = there := by simpa [after, hnow] using hthere
      exact hsame

end Plan

namespace Disk

/-- What is done among other files of the directory is not noticed. -/
theorem Agree.others {α : Type} {p : Path} {names others : List String} {d d' : Disk}
    (h : Agree p names d d') (hothers : ∀ a ∈ others, Path.isName a)
    (hapart : ∀ a ∈ names, a ∉ others) {plan : Plan α} (hplan : plan.Within (Change.Among p others)) :
    Agree p names d (plan.run d').2 := by
  cases hin : d'.enter p with
  | error e =>
    rw [Plan.run_of_not_entered hothers hplan hin]
    exact h
  | ok here =>
    have honly := Plan.run_onlyAt hothers hplan hin
    have hthere := h.entered.symm.trans hin
    refine ⟨(enter_of_same honly.directories hin).trans hthere.symm, fun there hwhere name hname => ?_⟩
    obtain rfl : here = there := by simpa [hthere] using hwhere
    rw [honly.elsewhere _ fun other hother heq => ?_]
    · exact h.files here hthere name hname
    · obtain rfl : name = other := by simpa using heq
      exact hapart name hname hother

end Disk

end CompileCache
