/-
  CompileCache.Proofs.Disk — what calls do to the files of one directory.

  A path names a directory if it can be entered (`enter`). Then the paths of its children
  lead to the locations right below (`target_child`), whether something stands there or not,
  so calls on them look at that one location and change nothing else (`read_child`,
  `write_child`, `unlink_child`, `rename_child`). Files come and go, directories stay, and a
  path that can be entered can still be entered (`change_onlyAt`, `enter_of_same`). In a
  directory that cannot be entered, nothing changes (`change_of_not_entered`).
-/

import CompileCache.Disk.Plan

namespace CompileCache

/-- What is left of an association list when some of its keys go. -/
theorem lookup_filter_fst {α β : Type} [BEq α] [LawfulBEq α] (stays : α → Bool)
    (entries : List (α × β)) (a : α) :
    (entries.filter fun e => stays e.1).lookup a = if stays a then entries.lookup a else none := by
  induction entries with
  | nil => simp
  | cons e rest ih =>
    obtain ⟨b, v⟩ := e
    by_cases hab : a = b
    · subst hab
      by_cases hs : stays a <;> simp [hs, ih]
    · have hne : (a == b) = false := by simpa using hab
      by_cases hs : stays b <;> simp [List.lookup_cons, hs, hne, ih]

namespace Disk

/-! ## Single locations -/

@[simp] theorem get?_root (d : Disk) : d.get? [] = some .directory := rfl

theorem get?_erase_ne (d : Disk) {there l : Location} (h : l ≠ there) :
    (d.erase there).get? l = d.get? l := by
  by_cases hl : l = []
  · rw [hl, get?_root, get?_root]
  · have hlookup := lookup_filter_fst (fun l => decide (l ≠ there)) d.nodes l
    simp only [get?, hl, if_false, erase, hlookup, h, ne_eq, not_false_eq_true, decide_true, if_true]

theorem get?_erase_self (d : Disk) {there : Location} (h : there ≠ []) :
    (d.erase there).get? there = none := by
  have hlookup := lookup_filter_fst (fun l => decide (l ≠ there)) d.nodes there
  simp only [get?, h, if_false, erase, hlookup]
  simp

theorem get?_erase (d : Disk) {there : Location} (h : there ≠ []) (l : Location) :
    (d.erase there).get? l = if l = there then none else d.get? l := by
  by_cases hl : l = there
  · rw [if_pos hl, hl, get?_erase_self d h]
  · rw [if_neg hl, get?_erase_ne d hl]

theorem get?_put_ne (d : Disk) {there l : Location} (n : Node) (h : l ≠ there) :
    (d.put there n).get? l = d.get? l := by
  rw [← get?_erase_ne d h]
  have hne : (l == there) = false := by simpa using h
  simp [get?, put, List.lookup_cons, hne]

theorem get?_put_self (d : Disk) {there : Location} (n : Node) (h : there ≠ []) :
    (d.put there n).get? there = some n := by
  simp [get?, put, h]

theorem get?_put (d : Disk) {there : Location} (n : Node) (h : there ≠ []) (l : Location) :
    (d.put there n).get? l = if l = there then some n else d.get? l := by
  by_cases hl : l = there
  · rw [if_pos hl, hl, get?_put_self d n h]
  · rw [if_neg hl, get?_put_ne d n hl]

/-- What is not there need not be removed. -/
theorem erase_of_none {d : Disk} {there : Location} (h : d.get? there = none) : d.erase there = d := by
  have hroot : there ≠ [] := by
    rintro rfl
    cases h
  have hlookup : d.nodes.lookup there = none := by rwa [get?, if_neg hroot] at h
  have hstays : ∀ n ∈ d.nodes, decide (n.1 ≠ there) = true := by
    intro n hn
    have hne := List.lookup_eq_none_iff.1 hlookup n hn
    rw [bne_iff_ne] at hne
    exact decide_eq_true hne.symm
  rw [erase, List.filter_eq_self.2 hstays]

theorem erase_put_self (d : Disk) (there : Location) (n : Node) :
    (d.put there n).erase there = d.erase there := by
  simp [put, erase]

/-! ## Entering a directory -/

/-- Follows all parts of a path, each of which must be a directory. -/
def walk (d : Disk) (here : Location) : List String → Except OsError Location
  | [] => .ok here
  | part :: rest =>
    match d.step here part with
    | .error e => .error e
    | .ok next => d.walk next rest

/-- Where the directory stands that the path names. -/
def enter (d : Disk) (p : Path) : Except OsError Location := d.walk [] p.parts

theorem walk_append (d : Disk) (here : Location) (parts more : List String) :
    d.walk here (parts ++ more) =
      match d.walk here parts with
      | .error e => .error e
      | .ok next => d.walk next more := by
  induction parts generalizing here with
  | nil => rfl
  | cons part parts ih =>
    simp only [List.cons_append, walk]
    cases d.step here part with
    | error e => rfl
    | ok next => exact ih next

theorem step_empty (d : Disk) (here : Location) : d.step here "" = .ok here := rfl

theorem walk_empty (d : Disk) (here : Location) {parts : List String} (h : parts.all (· == "")) :
    d.walk here parts = .ok here := by
  induction parts with
  | nil => rfl
  | cons part parts ih =>
    simp only [List.all_cons, Bool.and_eq_true, beq_iff_eq] at h
    simp only [walk, h.1, step_empty]
    exact ih h.2

/-- Every part of a path before a name is walked through. -/
theorem follow_name (d : Disk) (here : Location) (parts : List String) {name : String}
    (hname : Path.isName name) :
    d.follow here (parts ++ [name]) =
      match d.walk here parts with
      | .error e => .error e
      | .ok there => .ok (.entry (there ++ [name]) false) := by
  induction parts generalizing here with
  | nil => simp [follow, walk, hname]
  | cons part parts ih =>
    have hne : name ≠ "" := by
      rintro rfl
      exact absurd hname (by decide)
    have hall : (parts ++ [name]).all (· == "") = false := by simp [hne]
    simp only [List.cons_append, follow, walk, hall, Bool.and_false, Bool.false_eq_true, if_false]
    cases d.step here part with
    | error e => rfl
    | ok next => exact ih next

/-- The parts of a child's path, before its name. -/
theorem exists_child (p : Path) (name : String) :
    ∃ parts, p.child name = ⟨parts ++ [name]⟩ ∧ ∀ d : Disk, d.walk [] parts = d.enter p := by
  by_cases h : p.parts.getLast? = some ""
  · refine ⟨p.parts.dropLast, ?_, fun d => ?_⟩
    · simp [Path.child, Path.join, Path.isAbsolute, h]
    · obtain ⟨parts, hparts⟩ := List.getLast?_eq_some_iff.1 h
      have hwalk := walk_append d [] parts [""]
      simp only [enter, hparts, List.dropLast_concat, hwalk]
      cases d.walk [] parts with
      | error e => rfl
      | ok next => rfl
  · exact ⟨p.parts, by simp [Path.child, Path.join, Path.isAbsolute, h], fun d => rfl⟩

theorem target_child (d : Disk) (p : Path) {name : String} (hname : Path.isName name) :
    d.target (p.child name) =
      match d.enter p with
      | .error e => .error e
      | .ok here => .ok (.entry (here ++ [name]) false) := by
  obtain ⟨parts, hchild, hwalk⟩ := exists_child p name
  rw [target, hchild, follow_name d [] parts hname, hwalk d]

theorem follow_of_walk {d : Disk} {here there : Location} {parts : List String}
    (h : d.walk here parts = .ok there) :
    d.follow here parts = .ok (.directory there) ∨
      ∃ slashed, d.follow here parts = .ok (.entry there slashed) ∧ d.get? there = some .directory := by
  induction parts generalizing here with
  | nil =>
    cases h
    exact .inl rfl
  | cons part parts ih =>
    simp only [walk] at h
    cases hs : d.step here part with
    | error e =>
      rw [hs] at h
      cases h
    | ok next =>
      simp only [hs] at h
      by_cases hlast : Path.isName part && parts.all (· == "")
      · obtain ⟨hname, hrest⟩ := Bool.and_eq_true_iff.1 hlast
        rw [walk_empty d next hrest] at h
        cases h
        simp only [step, hname, Bool.not_true, Bool.false_eq_true, if_false] at hs
        split at hs
        · next hdir =>
          cases hs
          exact .inr ⟨!parts.isEmpty, by simp only [follow, hlast, if_true], hdir⟩
        · cases hs
        · cases hs
      · simp only [follow, hlast, hs]
        exact ih h

/-- A path that can be entered leads to a directory. -/
theorem target_of_enter {d : Disk} {p : Path} {here : Location} (h : d.enter p = .ok here) :
    d.target p = .ok (.directory here) ∨
      ∃ slashed, d.target p = .ok (.entry here slashed) ∧ d.get? here = some .directory :=
  follow_of_walk h

theorem makeDirectory_of_enter {d : Disk} {p : Path} {here : Location} (h : d.enter p = .ok here) :
    d.makeDirectory p = .error .alreadyExists := by
  rcases target_of_enter h with ht | ⟨slashed, ht, hdir⟩
  · simp only [makeDirectory, ht]
  · simp only [makeDirectory, ht, hdir, Option.isSome_some, if_true]

theorem read_of_enter {d : Disk} {p : Path} {here : Location} (h : d.enter p = .ok here) :
    d.read p = .error .isADirectory := by
  rcases target_of_enter h with ht | ⟨slashed, ht, hdir⟩
  · simp only [read, fileAt, ht]
    rfl
  · simp only [read, fileAt, ht, hdir]
    rfl

/-! ## Calls on a child -/

section Child

variable {d : Disk} {p : Path} {here : Location}

theorem fileAt_child (h : d.enter p = .ok here) {name : String} (hname : Path.isName name) :
    d.fileAt (p.child name) =
      match d.get? (here ++ [name]) with
      | none => .error .notFound
      | some .directory => .error .isADirectory
      | some (.file content) => .ok (here ++ [name], content) := by
  simp only [fileAt, target_child d p hname, h]
  cases d.get? (here ++ [name]) with
  | none => rfl
  | some n => cases n <;> rfl

theorem placeAt_child (h : d.enter p = .ok here) {name : String} (hname : Path.isName name) :
    d.placeAt (p.child name) =
      if d.get? (here ++ [name]) = some .directory then .error .isADirectory
      else .ok (here ++ [name]) := by
  simp only [placeAt, target_child d p hname, h, Bool.false_or, beq_iff_eq]

theorem read_child (h : d.enter p = .ok here) {name : String} (hname : Path.isName name) :
    d.read (p.child name) =
      match d.get? (here ++ [name]) with
      | none => .error .notFound
      | some .directory => .error .isADirectory
      | some (.file content) => .ok content := by
  rw [read, fileAt_child h hname]
  cases d.get? (here ++ [name]) with
  | none => rfl
  | some n => cases n <;> rfl

/-- What can be read from a child stands there. -/
theorem exists_of_read_child {name : String} (hname : Path.isName name) {bytes : Bytes}
    (hread : d.read (p.child name) = .ok bytes) :
    ∃ here, d.enter p = .ok here ∧ d.get? (here ++ [name]) = some (.file bytes) := by
  cases h : d.enter p with
  | error e =>
    simp only [read, fileAt, target_child d p hname, h] at hread
    cases hread
  | ok here =>
    rw [read_child h hname] at hread
    refine ⟨here, rfl, ?_⟩
    cases hn : d.get? (here ++ [name]) with
    | none =>
      rw [hn] at hread
      cases hread
    | some n =>
      rw [hn] at hread
      cases n with
      | directory => cases hread
      | file content =>
        cases hread
        rfl

theorem unlink_child (h : d.enter p = .ok here) {name : String} (hname : Path.isName name) :
    d.unlink (p.child name) =
      match d.get? (here ++ [name]) with
      | none => .error .notFound
      | some .directory => .error .isADirectory
      | some (.file _) => .ok (d.erase (here ++ [name])) := by
  rw [unlink, fileAt_child h hname]
  cases d.get? (here ++ [name]) with
  | none => rfl
  | some n => cases n <;> rfl

theorem write_child (h : d.enter p = .ok here) {name : String} (hname : Path.isName name)
    (content : Bytes) :
    d.write (p.child name) content =
      if d.get? (here ++ [name]) = some .directory then .error .isADirectory
      else .ok (d.put (here ++ [name]) (.file content)) := by
  rw [write, placeAt_child h hname]
  split <;> rfl

theorem rename_child (h : d.enter p = .ok here) {a b : String} (ha : Path.isName a)
    (hb : Path.isName b) :
    d.rename (p.child a) (p.child b) =
      match d.get? (here ++ [a]) with
      | none => .error .notFound
      | some .directory => .error .isADirectory
      | some (.file content) =>
        if d.get? (here ++ [b]) = some .directory then .error .isADirectory
        else .ok ((d.erase (here ++ [a])).put (here ++ [b]) (.file content)) := by
  rw [rename, fileAt_child h ha, placeAt_child h hb]
  cases d.get? (here ++ [a]) with
  | none => rfl
  | some n =>
    cases n with
    | directory => rfl
    | file content =>
      by_cases hdir : d.get? (here ++ [b]) = some .directory
      · simp only [hdir, if_true]
      · simp only [hdir, if_false]

end Child

/-! ## What stays -/

/-- Directories are where they were. -/
def SameDirectories (d d' : Disk) : Prop :=
  ∀ l, d'.get? l = some .directory ↔ d.get? l = some .directory

/-- Only the files of these names, right below `here`, may have changed. -/
structure OnlyAt (here : Location) (names : List String) (d d' : Disk) : Prop where
  elsewhere : ∀ l, (∀ name ∈ names, l ≠ here ++ [name]) → d'.get? l = d.get? l
  directories : SameDirectories d d'

theorem onlyAt_refl (here : Location) (names : List String) (d : Disk) : OnlyAt here names d d :=
  ⟨fun _ _ => rfl, fun _ => Iff.rfl⟩

theorem OnlyAt.trans {here : Location} {names : List String} {d d' d'' : Disk}
    (h : OnlyAt here names d d') (h' : OnlyAt here names d' d'') : OnlyAt here names d d'' :=
  ⟨fun l hl => (h'.elsewhere l hl).trans (h.elsewhere l hl),
    fun l => (h'.directories l).trans (h.directories l)⟩

/-- Every directory is still there. -/
def KeepsDirectories (d d' : Disk) : Prop :=
  ∀ l, d.get? l = some .directory → d'.get? l = some .directory

theorem walk_of_kept {d d' : Disk} (hkept : KeepsDirectories d d') {here there : Location}
    {parts : List String} (h : d.walk here parts = .ok there) : d'.walk here parts = .ok there := by
  induction parts generalizing here with
  | nil => exact h
  | cons part parts ih =>
    have hstep : ∀ next, d.step here part = .ok next → d'.step here part = .ok next := by
      intro next hnext
      unfold step at hnext ⊢
      split
      · next hpart => rwa [if_pos hpart] at hnext
      · next hpart =>
        rw [if_neg hpart] at hnext
        split at hnext
        · next hdir =>
          rw [hkept _ hdir]
          exact hnext
        · cases hnext
        · cases hnext
    simp only [walk] at h ⊢
    cases hs : d.step here part with
    | error e =>
      rw [hs] at h
      cases h
    | ok next =>
      rw [hs] at h
      rw [hstep next hs]
      exact ih h

theorem enter_of_same {d d' : Disk} (hsame : SameDirectories d d') {p : Path} {here : Location}
    (h : d.enter p = .ok here) : d'.enter p = .ok here :=
  walk_of_kept (fun l hl => (hsame l).2 hl) h

theorem onlyAt_of_file {here : Location} {names : List String} {name : String} (hname : name ∈ names)
    {d d' : Disk} (hother : ∀ l, l ≠ here ++ [name] → d'.get? l = d.get? l)
    (hfile : d.get? (here ++ [name]) ≠ some .directory)
    (hfile' : d'.get? (here ++ [name]) ≠ some .directory) : OnlyAt here names d d' := by
  refine ⟨fun l hl => hother l (hl name hname), fun l => ?_⟩
  by_cases hl : l = here ++ [name]
  · subst hl
    simp [hfile, hfile']
  · rw [hother l hl]

theorem onlyAt_put {here : Location} {names : List String} {name : String} (hname : name ∈ names)
    {d : Disk} (hfile : d.get? (here ++ [name]) ≠ some .directory) (content : Bytes) :
    OnlyAt here names d (d.put (here ++ [name]) (.file content)) := by
  refine onlyAt_of_file hname (fun l hl => get?_put_ne d _ hl) hfile ?_
  rw [get?_put_self d _ (by simp)]
  simp

theorem onlyAt_erase {here : Location} {names : List String} {name : String} (hname : name ∈ names)
    {d : Disk} (hfile : d.get? (here ++ [name]) ≠ some .directory) :
    OnlyAt here names d (d.erase (here ++ [name])) := by
  refine onlyAt_of_file hname (fun l hl => get?_erase_ne d hl) hfile ?_
  rw [get?_erase_self d (by simp)]
  simp

/-! ## Changes -/

/-- A change that writes, renames or unlinks children of `p` with these names. -/
def Change.Among (p : Path) (names : List String) : Change → Prop
  | .write q _ => ∃ a ∈ names, q = p.child a
  | .unlink q => ∃ a ∈ names, q = p.child a
  | .rename q q' => ∃ a ∈ names, ∃ b ∈ names, q = p.child a ∧ q' = p.child b
  | .makeDirectory _ | .removeTree _ => False

def Change.IsUnlink : Change → Prop
  | .unlink _ => True
  | _ => False

section Among

variable {d d' : Disk} {p : Path} {here : Location} {names : List String} {c : Change}

theorem change_onlyAt (hnames : ∀ a ∈ names, Path.isName a) (hc : c.Among p names)
    (h : d.enter p = .ok here) (hchange : d.change c = .ok d') : OnlyAt here names d d' := by
  cases c with
  | write q content =>
    obtain ⟨a, ha, rfl⟩ := hc
    rw [change, write_child h (hnames a ha)] at hchange
    split at hchange
    · cases hchange
    · next hfile =>
      cases hchange
      exact onlyAt_put ha hfile content
  | unlink q =>
    obtain ⟨a, ha, rfl⟩ := hc
    rw [change, unlink_child h (hnames a ha)] at hchange
    split at hchange
    · cases hchange
    · cases hchange
    · next content hfile =>
      cases hchange
      exact onlyAt_erase ha (by simp [hfile])
  | rename q q' =>
    obtain ⟨a, ha, b, hb, rfl, rfl⟩ := hc
    rw [change, rename_child h (hnames a ha) (hnames b hb)] at hchange
    split at hchange
    · cases hchange
    · cases hchange
    · next content hfile =>
      split at hchange
      · cases hchange
      · next hto =>
        cases hchange
        have herased : OnlyAt here names d (d.erase (here ++ [a])) := onlyAt_erase ha (by simp [hfile])
        exact herased.trans (onlyAt_put hb (by rwa [ne_eq, herased.directories]) content)
  | makeDirectory q => exact absurd hc id
  | removeTree q => exact absurd hc id

/-- Nothing can be changed in a directory that cannot be entered. -/
theorem change_of_not_entered (hnames : ∀ a ∈ names, Path.isName a) (hc : c.Among p names)
    {e : OsError} (h : d.enter p = .error e) : d.change c = .error e := by
  cases c with
  | write q content =>
    obtain ⟨a, ha, rfl⟩ := hc
    simp only [change, write, placeAt, target_child d p (hnames a ha), h]
    rfl
  | unlink q =>
    obtain ⟨a, ha, rfl⟩ := hc
    simp only [change, unlink, fileAt, target_child d p (hnames a ha), h]
    rfl
  | rename q q' =>
    obtain ⟨a, ha, b, hb, rfl, rfl⟩ := hc
    simp only [change, rename, fileAt, target_child d p (hnames a ha), h]
  | makeDirectory q => exact absurd hc id
  | removeTree q => exact absurd hc id

theorem change_unlink_fewer (hc : c.IsUnlink) (hchange : d.change c = .ok d') (l : Location)
    (content : Bytes) (hl : d'.get? l = some (.file content)) : d.get? l = some (.file content) := by
  cases c with
  | unlink q =>
    simp only [change, unlink] at hchange
    cases hfile : d.fileAt q with
    | error e =>
      rw [hfile] at hchange
      cases hchange
    | ok f =>
      rw [hfile] at hchange
      cases hchange
      by_cases hne : l = f.1
      · subst hne
        by_cases hroot : f.1 = []
        · rw [hroot] at hl
          cases hl
        · rw [get?_erase_self d hroot] at hl
          cases hl
      · rwa [get?_erase_ne d hne] at hl
  | write q content => exact absurd hc id
  | rename q q' => exact absurd hc id
  | makeDirectory q => exact absurd hc id
  | removeTree q => exact absurd hc id

end Among

end Disk

end CompileCache
