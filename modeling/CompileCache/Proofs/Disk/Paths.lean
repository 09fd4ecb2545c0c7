/-
  CompileCache.Proofs.Disk.Paths — where a path leads, before and after it is made.

  On a disk that is grounded everything stands in a directory (`Grounded`). Every call keeps
  that (`change_grounded`), so every plan does (`run_grounded`), and it holds of the empty disk.

  A path leads to a location if it can be entered as far as its directories are there, and the
  parts that are missing do not go up again (`Leads`). Then it leads nowhere else
  (`Leads.unique`), whatever directories are made meanwhile (`Leads.of_kept`): if the directory
  there can be entered, that is the one (`leads_of_enter`), and if there is anything in it, it
  can be entered (`Leads.enter`). With two dots behind a missing part it is another matter: what
  they lead to is there or not, and nobody can get to it until the missing part is made.

  Making the directories of a path paves the way to where it leads, and does nothing else
  (`run_makeDirectories_paved`).
-/

import CompileCache.Proofs.Disk.Plan

namespace CompileCache

namespace Disk

/-! ## Grounded disks -/

/-- What stands anywhere stands in a directory. -/
def Grounded (d : Disk) : Prop :=
  ∀ (l : Location) (name : String), d.get? (l ++ [name]) ≠ none → d.get? l = some .directory

/-- It is enough to look at what is there. -/
theorem grounded_of_nodes {d : Disk} (h : ∀ n ∈ d.nodes, d.get? n.1.dropLast = some .directory) :
    d.Grounded := by
  intro l name hname
  obtain ⟨n, hn⟩ := Option.ne_none_iff_exists'.1 hname
  rw [get?, if_neg (by simp)] at hn
  have hmem : (l ++ [name], n) ∈ d.nodes := by
    obtain ⟨before, after, hnodes, -⟩ := List.lookup_eq_some_iff.1 hn
    rw [hnodes]
    exact List.mem_append_right before (List.mem_cons_self ..)
  have hparent := h _ hmem
  rwa [List.dropLast_concat] at hparent

theorem grounded_empty : Grounded empty := grounded_of_nodes fun n hn => by cases hn

section Grounded

variable {d : Disk} {l below there : Location} {name : String}

theorem Grounded.above (h : d.Grounded) (hbelow : below ≠ [])
    (hthere : d.get? (l ++ below) ≠ none) : d.get? l = some .directory := by
  induction below generalizing l with
  | nil => exact absurd rfl hbelow
  | cons name rest ih =>
    by_cases hrest : rest = []
    · subst hrest
      exact h l name hthere
    · have hnext : d.get? (l ++ [name]) = some .directory := ih hrest (by simpa using hthere)
      exact h l name (by simp [hnext])

theorem Grounded.of_prefix (h : d.Grounded) (hup : l <+: there)
    (hthere : d.get? there = some .directory) : d.get? l = some .directory := by
  obtain ⟨below, rfl⟩ := hup
  by_cases hbelow : below = []
  · simpa [hbelow] using hthere
  · exact h.above hbelow (by simp [hthere])

theorem Grounded.put (h : d.Grounded) {n : Node} (hl : d.get? l = some .directory)
    (hn : n = .directory ∨ d.get? (l ++ [name]) ≠ some .directory) :
    (d.put (l ++ [name]) n).Grounded := by
  intro m x hx
  have hself : m ++ [x] ≠ m := by simp
  rw [get?_put d n (by simp)] at hx ⊢
  split
  · next hm =>
    rw [if_neg (hm ▸ hself)] at hx
    have hdir : d.get? (l ++ [name]) = some .directory := hm ▸ h m x hx
    rw [hn.resolve_right fun hne => hne hdir]
  · split at hx
    · next hmx =>
      rw [(List.append_inj' hmx rfl).1, hl]
    · exact h m x hx

theorem Grounded.erase (h : d.Grounded) (hthere : d.get? there ≠ some .directory) :
    (d.erase there).Grounded := by
  have hroot : there ≠ [] := by
    rintro rfl
    exact hthere rfl
  intro m x hx
  rw [get?_erase d hroot] at hx ⊢
  split at hx
  · exact absurd rfl hx
  · have hm := h m x hx
    have hne : m ≠ there := by
      rintro rfl
      exact hthere hm
    rw [if_neg hne, hm]

/-! ## What calls keep -/

theorem step_directory (h : d.Grounded) {here next : Location} {part : String}
    (hhere : d.get? here = some .directory) (hnext : d.step here part = .ok next) :
    d.get? next = some .directory := by
  unfold step at hnext
  split at hnext
  · split at hnext
    · cases hnext
      exact h.of_prefix (List.dropLast_prefix here) hhere
    · cases hnext
      exact hhere
  · split at hnext
    · next hdir =>
      cases hnext
      exact hdir
    · cases hnext
    · cases hnext

theorem walk_directory (h : d.Grounded) {here there : Location} {parts : List String}
    (hhere : d.get? here = some .directory) (hwalk : d.walk here parts = .ok there) :
    d.get? there = some .directory := by
  induction parts generalizing here with
  | nil =>
    cases hwalk
    exact hhere
  | cons part parts ih =>
    simp only [walk] at hwalk
    cases hs : d.step here part with
    | error e =>
      rw [hs] at hwalk
      cases hwalk
    | ok next =>
      rw [hs] at hwalk
      exact ih (step_directory h hhere hs) hwalk

/-- An entry that a path names stands in a directory, whether it is there or not. -/
theorem entry_in_directory (h : d.Grounded) {here : Location} {parts : List String} {slashed : Bool}
    (hhere : d.get? here = some .directory)
    (hentry : d.follow here parts = .ok (.entry there slashed)) :
    ∃ l name, there = l ++ [name] ∧ d.get? l = some .directory := by
  induction parts generalizing here with
  | nil => cases hentry
  | cons part parts ih =>
    unfold follow at hentry
    split at hentry
    · cases hentry
      exact ⟨here, part, rfl, hhere⟩
    · split at hentry
      · cases hentry
      · next next hs => exact ih (step_directory h hhere hs) hentry

theorem get?_of_fileAt {p : Path} {content : Bytes} (h : d.fileAt p = .ok (there, content)) :
    d.get? there = some (.file content) := by
  unfold fileAt at h
  split at h
  · cases h
  · cases h
  · split at h
    · cases h
    · cases h
    · next hfile =>
      split at h
      · cases h
      · cases h
        exact hfile

theorem entry_of_placeAt {p : Path} (h : d.placeAt p = .ok there) :
    (∃ slashed, d.target p = .ok (.entry there slashed)) ∧ d.get? there ≠ some .directory := by
  unfold placeAt at h
  split at h
  · cases h
  · cases h
  · next slashed htarget =>
    split at h
    · cases h
    · next hfree =>
      cases h
      exact ⟨⟨slashed, htarget⟩, by simpa using fun hdir => hfree (by simp [hdir])⟩

/-- A file can be put wherever a path has a place for it. -/
theorem grounded_write (h : d.Grounded) {p : Path} {content : Bytes}
    (hwrite : d.write p content = .ok d') : d'.Grounded := by
  unfold write at hwrite
  cases hplace : d.placeAt p with
  | error e =>
    rw [hplace] at hwrite
    cases hwrite
  | ok there =>
    rw [hplace] at hwrite
    cases hwrite
    obtain ⟨⟨slashed, htarget⟩, hfree⟩ := entry_of_placeAt hplace
    obtain ⟨l, name, rfl, hl⟩ := entry_in_directory h rfl htarget
    exact h.put hl (.inr hfree)

theorem grounded_unlink (h : d.Grounded) {p : Path} (hunlink : d.unlink p = .ok d') :
    d'.Grounded := by
  unfold unlink at hunlink
  cases hfile : d.fileAt p with
  | error e =>
    rw [hfile] at hunlink
    cases hunlink
  | ok f =>
    rw [hfile] at hunlink
    cases hunlink
    exact h.erase (by simp [get?_of_fileAt hfile])

/-- What is renamed is a file, so it was not the directory of its new place. -/
theorem grounded_rename (h : d.Grounded) {p q : Path} (hrename : d.rename p q = .ok d') :
    d'.Grounded := by
  unfold rename at hrename
  split at hrename
  · cases hrename
  · cases hrename
  · next here content there hfile hplace =>
    cases hrename
    obtain ⟨⟨slashed, htarget⟩, hfree⟩ := entry_of_placeAt hplace
    obtain ⟨l, name, rfl, hl⟩ := entry_in_directory h rfl htarget
    have hnode := get?_of_fileAt hfile
    have hne : l ≠ here := by
      rintro rfl
      rw [hl] at hnode
      cases hnode
    have herased : (d.erase here).Grounded := h.erase (by simp [hnode])
    refine herased.put (by rw [get?_erase_ne d hne, hl]) (.inr fun hdir => hfree ?_)
    by_cases hsame : l ++ [name] = here
    · rw [hsame, get?_erase_self d (by simp [← hsame])] at hdir
      cases hdir
    · rwa [get?_erase_ne d hsame] at hdir

theorem grounded_makeDirectory (h : d.Grounded) {p : Path} (hmake : d.makeDirectory p = .ok d') :
    d'.Grounded := by
  unfold makeDirectory at hmake
  split at hmake
  · cases hmake
  · cases hmake
  · next there slashed htarget =>
    split at hmake
    · cases hmake
    · cases hmake
      obtain ⟨l, name, rfl, hl⟩ := entry_in_directory h rfl htarget
      exact h.put hl (.inl rfl)

/-- Everything below a location can be taken away with it. -/
theorem Grounded.prune (h : d.Grounded) (top : Location) :
    Grounded ⟨d.nodes.filter fun n => !top.isPrefixOf n.1⟩ := by
  intro l name hname
  have hlookup := lookup_filter_fst (fun l => !top.isPrefixOf l) d.nodes
  have hroot : l ++ [name] ≠ [] := by simp
  simp only [get?, if_neg hroot, hlookup] at hname
  split at hname
  · next hstays =>
    have hl : d.get? l = some .directory := h l name (by rwa [get?, if_neg hroot])
    have hkept : (!top.isPrefixOf l) = true := by
      simp only [Bool.not_eq_true', ← Bool.not_eq_true, List.isPrefixOf_iff_prefix] at hstays ⊢
      exact fun hup => hstays (hup.trans (List.prefix_append l [name]))
    by_cases hempty : l = []
    · rw [hempty, get?_root]
    · rw [get?, if_neg hempty] at hl ⊢
      rw [hlookup, if_pos hkept, hl]
  · exact absurd rfl hname

theorem grounded_removeTree (h : d.Grounded) {p : Path} (hremove : d.removeTree p = .ok d') :
    d'.Grounded := by
  unfold removeTree at hremove
  split at hremove
  · next top _ =>
    cases hremove
    exact h.prune top
  · exact grounded_unlink h hremove

theorem change_grounded (h : d.Grounded) {c : Change} (hchange : d.change c = .ok d') :
    d'.Grounded := by
  cases c with
  | write p content => exact grounded_write h hchange
  | rename p q => exact grounded_rename h hchange
  | unlink p => exact grounded_unlink h hchange
  | makeDirectory p => exact grounded_makeDirectory h hchange
  | removeTree p => exact grounded_removeTree h hchange

end Grounded

end Disk

theorem Plan.run_grounded {α : Type} (plan : Plan α) {d : Disk} (h : d.Grounded) :
    (plan.run d).2.Grounded := by
  induction plan generalizing d with
  | done a => exact h
  | ask p next ih => exact ih (d.read p) h
  | change c next ih =>
    simp only [Plan.run]
    cases hc : d.change c with
    | error e => exact ih _ h
    | ok d' => exact ih _ (Disk.change_grounded h hc)

namespace Disk

/-! ## Where a path leads -/

/-- The path leads to `there` as soon as its missing directories are made, which do not go up. -/
def Leads (d : Disk) (p : Path) (there : Location) : Prop :=
  ∃ entered missing here, p.parts = entered ++ missing ∧ d.walk [] entered = .ok here ∧
    ".." ∉ missing ∧ there = here ++ missing.filter Path.isName

/-- No file stands on the way. -/
def Unblocked (d : Disk) (there : Location) : Prop :=
  ∀ l, l <+: there → ∀ content, d.get? l ≠ some (.file content)

section Walks

variable {d d' : Disk} {here there : Location} {name : String} {parts names : List String}

theorem step_of_name (hname : Path.isName name) :
    d.step here name =
      match d.get? (here ++ [name]) with
      | some .directory => .ok (here ++ [name])
      | some (.file _) => .error .notADirectory
      | none => .error .notFound := by
  unfold step
  exact if_neg (by simp [hname])

/-- Parts that stay where they are can be left out. -/
theorem walk_filter {goes : String → Bool}
    (hstays : ∀ part ∈ parts, goes part = false → Path.isName part = false ∧ part ≠ "..") :
    d.walk here (parts.filter goes) = d.walk here parts := by
  induction parts generalizing here with
  | nil => rfl
  | cons part parts ih =>
    have hrest := fun here => @ih here fun q hq => hstays q (List.mem_cons_of_mem part hq)
    cases hgoes : goes part with
    | true => simp only [List.filter_cons_of_pos hgoes, walk, hrest]
    | false =>
      obtain ⟨hname, hdots⟩ := hstays part (List.mem_cons_self ..) hgoes
      have hstep : d.step here part = .ok here := by simp [step, hname, hdots]
      simp only [List.filter_cons, hgoes, Bool.false_eq_true, if_false, walk, hstep, hrest]

/-- Without two dots, only names count. -/
theorem walk_names (hdots : ".." ∉ parts) :
    d.walk here (parts.filter Path.isName) = d.walk here parts :=
  walk_filter fun _ hpart hname => ⟨hname, fun hdot => hdots (hdot ▸ hpart)⟩

/-- By names, a walk goes down. -/
theorem walk_down (hnames : ∀ n ∈ names, Path.isName n) (h : d.walk here names = .ok there) :
    there = here ++ names := by
  induction names generalizing here with
  | nil =>
    cases h
    simp
  | cons n names ih =>
    obtain ⟨hname, hrest⟩ := List.forall_mem_cons.1 hnames
    simp only [walk, step_of_name hname] at h
    cases hnode : d.get? (here ++ [n]) with
    | none =>
      rw [hnode] at h
      cases h
    | some node =>
      cases node with
      | directory =>
        rw [hnode] at h
        simpa using ih hrest h
      | file content =>
        rw [hnode] at h
        cases h

/-- It can go down to any directory. -/
theorem walk_to_directory (hg : d.Grounded) (hnames : ∀ n ∈ names, Path.isName n)
    (hdir : d.get? (here ++ names) = some .directory) :
    d.walk here names = .ok (here ++ names) := by
  induction names generalizing here with
  | nil => simp [walk]
  | cons n names ih =>
    obtain ⟨hname, hrest⟩ := List.forall_mem_cons.1 hnames
    rw [List.append_cons] at hdir ⊢
    have hnext : d.get? (here ++ [n]) = some .directory :=
      hg.of_prefix (List.prefix_append _ _) hdir
    simp only [walk, step_of_name hname, hnext]
    exact ih hrest hdir

/-- With no file on the way, there can only be something missing. -/
theorem walk_unblocked (hnames : ∀ n ∈ names, Path.isName n) (hfree : d.Unblocked (here ++ names))
    {e : OsError} (h : d.walk here names = .error e) : e = .notFound := by
  induction names generalizing here with
  | nil => cases h
  | cons n names ih =>
    obtain ⟨hname, hrest⟩ := List.forall_mem_cons.1 hnames
    rw [List.append_cons] at hfree
    simp only [walk, step_of_name hname] at h
    cases hnode : d.get? (here ++ [n]) with
    | none =>
      rw [hnode] at h
      cases h
      rfl
    | some node =>
      cases node with
      | directory =>
        rw [hnode] at h
        exact ih hrest hfree h
      | file content => exact absurd hnode (hfree _ (List.prefix_append _ _) content)

theorem unblocked_of_directory (hg : d.Grounded) (hdir : d.get? there = some .directory) :
    d.Unblocked there := by
  intro l hl content hfile
  rw [hg.of_prefix hl hdir] at hfile
  cases hfile

/-- Where something is missing, there is no file behind it. -/
theorem unblocked_of_missing (hg : d.Grounded) (hhere : d.get? here = some .directory)
    (hnames : ∀ n ∈ names, Path.isName n) (h : d.walk here names = .error .notFound) :
    d.Unblocked (here ++ names) := by
  induction names generalizing here with
  | nil => cases h
  | cons n names ih =>
    obtain ⟨hname, hrest⟩ := List.forall_mem_cons.1 hnames
    rw [List.append_cons]
    simp only [walk, step_of_name hname] at h
    cases hnode : d.get? (here ++ [n]) with
    | none =>
      intro l hl content hfile
      rcases List.prefix_or_prefix_of_prefix hl (List.prefix_append _ _) with hup | ⟨below, rfl⟩
      · rcases List.prefix_concat_iff.1 hup with rfl | hup
        · rw [hnode] at hfile
          cases hfile
        · exact unblocked_of_directory hg hhere l hup content hfile
      · by_cases hbelow : below = []
        · rw [hbelow, List.append_nil, hnode] at hfile
          cases hfile
        · rw [hg.above hbelow (by rw [hfile]; simp)] at hnode
          cases hnode
    | some node =>
      cases node with
      | directory =>
        rw [hnode] at h
        exact ih hnode hrest h
      | file content =>
        rw [hnode] at h
        cases h

end Walks

section Leads

variable {d d' : Disk} {p : Path} {here there : Location}

theorem leads_of_enter (h : d.enter p = .ok here) : d.Leads p here :=
  ⟨p.parts, [], here, by simp, h, by simp, by simp⟩

/-- Directories that are made or stay do not lead the path elsewhere. -/
theorem Leads.of_kept (h : d.Leads p there) (hkept : KeepsDirectories d d') : d'.Leads p there := by
  obtain ⟨entered, missing, here, hparts, hwalk, hdots, rfl⟩ := h
  exact ⟨entered, missing, here, hparts, walk_of_kept hkept hwalk, hdots, rfl⟩

/-- The longer one has been entered, the better one knows where it leads; it is the same place. -/
theorem names_of_further {entered further missing : List String} {a b : Location}
    (ha : d.walk [] entered = .ok a) (hb : d.walk [] (entered ++ further) = .ok b)
    (hdots : ".." ∉ further ++ missing) :
    a ++ (further ++ missing).filter Path.isName = b ++ missing.filter Path.isName := by
  simp only [walk_append, ha] at hb
  rw [← walk_names fun hmem => hdots (List.mem_append_left missing hmem)] at hb
  rw [walk_down (fun _ hn => (List.mem_filter.1 hn).2) hb]
  simp

theorem Leads.unique {a b : Location} (ha : d.Leads p a) (hb : d.Leads p b) : a = b := by
  obtain ⟨entered, missing, here, hparts, hwalk, hdots, rfl⟩ := ha
  obtain ⟨entered', missing', here', hparts', hwalk', hdots', rfl⟩ := hb
  rw [hparts] at hparts'
  rcases List.append_eq_append_iff.1 hparts' with ⟨further, rfl, rfl⟩ | ⟨further, rfl, rfl⟩
  · exact names_of_further hwalk hwalk' hdots
  · exact (names_of_further hwalk' hwalk hdots').symm

/-- Behind the part that can be entered it goes down by names. -/
theorem Leads.enter_eq (h : d.Leads p there) :
    ∃ entered here names, d.walk [] entered = .ok here ∧ (∀ n ∈ names, Path.isName n) ∧
      there = here ++ names ∧ d.enter p = d.walk here names := by
  obtain ⟨entered, missing, here, hparts, hwalk, hdots, rfl⟩ := h
  refine ⟨entered, here, _, hwalk, fun _ hn => (List.mem_filter.1 hn).2, rfl, ?_⟩
  rw [Disk.enter, hparts, walk_append, hwalk, walk_names hdots]

/-- With something in the directory, it can be entered. -/
theorem Leads.enter (h : d.Leads p there) (hg : d.Grounded)
    (hdir : d.get? there = some .directory) : d.enter p = .ok there := by
  obtain ⟨_, here, names, -, hnames, rfl, henter⟩ := h.enter_eq
  rw [henter, walk_to_directory hg hnames hdir]

/-- With no file on the way, it can be entered or is missing. -/
theorem Leads.missing (h : d.Leads p there) (hfree : d.Unblocked there) {e : OsError}
    (he : d.enter p = .error e) : e = .notFound := by
  obtain ⟨_, here, names, -, hnames, rfl, henter⟩ := h.enter_eq
  exact walk_unblocked hnames hfree (henter ▸ he)

theorem Leads.unblocked (h : d.Leads p there) (hg : d.Grounded)
    (hmissing : ∀ e, d.enter p = .error e → e = .notFound) : d.Unblocked there := by
  cases hin : d.enter p with
  | ok here =>
    rw [h.unique (leads_of_enter hin)]
    exact unblocked_of_directory hg (walk_directory hg rfl hin)
  | error e =>
    obtain rfl := hmissing e hin
    obtain ⟨_, here, names, hwalk, hnames, rfl, henter⟩ := h.enter_eq
    exact unblocked_of_missing hg (walk_directory hg rfl hwalk) hnames (henter ▸ hin)

end Leads

/-! ## Making the directories of a path -/

/-- Directories were made on the way to `there`, and nothing else was done. -/
structure Paved (there : Location) (d d' : Disk) : Prop where
  kept : ∀ l, d.get? l ≠ none → d'.get? l = d.get? l
  made : ∀ l, d.get? l = none → d'.get? l = none ∨ l <+: there ∧ d'.get? l = some .directory

section Paved

variable {d d' d'' : Disk} {p q : Path} {there : Location}

theorem paved_refl (there : Location) (d : Disk) : Paved there d d :=
  ⟨fun _ _ => rfl, fun _ h => .inl h⟩

theorem Paved.trans (h : Paved there d d') (h' : Paved there d' d'') : Paved there d d'' := by
  refine ⟨fun l hl => ?_, fun l hl => ?_⟩
  · rw [h'.kept l (by rwa [h.kept l hl]), h.kept l hl]
  · rcases h.made l hl with hnone | ⟨hway, hdir⟩
    · exact h'.made l hnone
    · exact .inr ⟨hway, by rw [h'.kept l (by simp [hdir]), hdir]⟩

theorem Paved.mono {l : Location} (h : Paved l d d') (hway : l <+: there) : Paved there d d' :=
  ⟨h.kept, fun m hm => (h.made m hm).imp_right fun hmade => ⟨hmade.1.trans hway, hmade.2⟩⟩

theorem Paved.keeps (h : Paved there d d') : KeepsDirectories d d' := by
  intro l hl
  rw [h.kept l (by simp [hl]), hl]

/-- Off the way nothing was done. -/
theorem Paved.aside (h : Paved there d d') {l : Location} (hl : ¬ l <+: there) :
    d'.get? l = d.get? l := by
  cases hnode : d.get? l with
  | none => exact (h.made l hnode).resolve_right fun hway => hl hway.1
  | some n => rw [h.kept l (by simp [hnode]), hnode]

theorem Paved.file (h : Paved there d d') {l : Location} {content : Bytes}
    (hfile : d'.get? l = some (.file content)) : d.get? l = some (.file content) := by
  cases hnode : d.get? l with
  | none =>
    rcases h.made l hnode with hnone | ⟨-, hdir⟩
    · rw [hnone] at hfile
      cases hfile
    · rw [hdir] at hfile
      cases hfile
  | some n => rw [← hnode, ← h.kept l (by simp [hnode]), hfile]

/-- An entry is named by the last of its path's names. -/
theorem entry_of_follow {here : Location} {parts : List String} {slashed : Bool}
    (hdots : ".." ∉ parts) (hentry : d.follow here parts = .ok (.entry there slashed)) :
    there = here ++ parts.filter Path.isName := by
  induction parts generalizing here with
  | nil => cases hentry
  | cons part parts ih =>
    obtain ⟨hpart, hrest⟩ : part ≠ ".." ∧ ".." ∉ parts := by simpa [eq_comm] using hdots
    unfold follow at hentry
    split at hentry
    · next hlast =>
      cases hentry
      obtain ⟨hname, hslashes⟩ := Bool.and_eq_true_iff.1 hlast
      have hnone : parts.filter Path.isName = [] := by
        refine List.filter_eq_nil_iff.2 fun q hq => ?_
        rw [beq_iff_eq.1 (List.all_eq_true.1 hslashes q hq)]
        decide
      rw [List.filter_cons_of_pos hname, hnone]
    · cases hs : d.step here part with
      | error e =>
        rw [hs] at hentry
        cases hentry
      | ok next =>
        rw [hs] at hentry
        have hwalk : d.walk here [part] = .ok next := by simp only [walk, hs]
        rw [← walk_names (by simpa using hpart.symm)] at hwalk
        rw [ih hrest hentry, walk_down (fun _ hn => (List.mem_filter.1 hn).2) hwalk,
          List.append_assoc, ← List.filter_append]
        rfl

/-- An entry that is not there is named behind the part of its path that can be entered. -/
theorem entry_of_missing {start here : Location} {entered missing : List String} {slashed : Bool}
    (hentry : d.follow start (entered ++ missing) = .ok (.entry there slashed))
    (hnone : d.get? there = none) (hwalk : d.walk start entered = .ok here)
    (hdots : ".." ∉ missing) : there = here ++ missing.filter Path.isName := by
  induction entered generalizing start with
  | nil =>
    cases hwalk
    exact entry_of_follow hdots hentry
  | cons part entered ih =>
    simp only [walk] at hwalk
    cases hs : d.step start part with
    | error e =>
      rw [hs] at hwalk
      cases hwalk
    | ok next =>
      rw [hs] at hwalk
      rw [List.cons_append, follow] at hentry
      split at hentry
      · next hlast =>
        -- The last name would be a directory that was entered.
        cases hentry
        rw [step_of_name (Bool.and_eq_true_iff.1 hlast).1, hnone] at hs
        cases hs
      · rw [hs] at hentry
        exact ih hentry hwalk

/-- A directory that is made is made where its path leads. -/
theorem makeDirectory_paved (h : d.Leads p there) (hmade : d.makeDirectory p = .ok d') :
    Paved there d d' := by
  unfold makeDirectory at hmade
  split at hmade
  · cases hmade
  · cases hmade
  · next l slashed htarget =>
    split at hmade
    · cases hmade
    · next hnone =>
      cases hmade
      have hnew : d.get? l = none := by simpa using hnone
      obtain ⟨entered, missing, here, hparts, hwalk, hdots, rfl⟩ := h
      rw [target, hparts] at htarget
      obtain rfl := entry_of_missing htarget hnew hwalk hdots
      have hroot : here ++ missing.filter Path.isName ≠ [] := by
        intro hroot
        rw [hroot] at hnew
        cases hnew
      refine ⟨fun m hm => ?_, fun m hm => ?_⟩
      · have hne : m ≠ here ++ missing.filter Path.isName := by
          rintro rfl
          exact hm hnew
        rw [get?_put_ne d _ hne]
      · rw [get?_put d _ hroot]
        split
        · next heq => exact .inr ⟨heq ▸ List.prefix_refl _, rfl⟩
        · exact .inl hm

/-- Whether a part leads on, up or down. -/
def moves (part : String) : Bool := part ≠ "" && part ≠ "."

theorem walk_moves {start : Location} (parts : List String) :
    d.walk start (parts.filter moves) = d.walk start parts := by
  refine walk_filter fun part _ hmoves => ?_
  have hstays : part = "" ∨ part = "." := by
    simpa [moves, Classical.or_iff_not_imp_left] using hmoves
  rcases hstays with rfl | rfl <;> decide

theorem filter_isName_moves (parts : List String) :
    (parts.filter moves).filter Path.isName = parts.filter Path.isName := by
  rw [List.filter_filter]
  congr 1
  funext part
  simp only [Path.isName, moves]
  grind

theorem prefix_of_mem_properPrefixes {parts before : List String}
    (h : before ∈ Path.properPrefixes parts) : before <+: parts := by
  induction parts generalizing before with
  | nil => cases h
  | cons part rest ih =>
    rw [Path.properPrefixes, List.mem_cons, List.mem_map] at h
    rcases h with rfl | ⟨more, hmore, rfl⟩
    · exact List.nil_prefix
    · exact List.cons_prefix_cons.2 ⟨rfl, ih hmore⟩

theorem prefix_of_mem_above (h : q ∈ p.above) : q.parts <+: p.parts.filter moves := by
  obtain ⟨before, hbefore, rfl⟩ := List.mem_map.1 (List.mem_reverse.1 h)
  exact prefix_of_mem_properPrefixes hbefore

/-- A directory that the path leads through can be entered, or is on the way. -/
theorem leads_above (h : d.Leads p there) (hq : q ∈ p.above) :
    (∃ here, d.enter q = .ok here) ∨ ∃ l, d.Leads q l ∧ l <+: there := by
  obtain ⟨entered, missing, here, hparts, hwalk, hdots, rfl⟩ := h
  have hbefore := prefix_of_mem_above hq
  rw [hparts, List.filter_append] at hbefore
  rw [← walk_moves] at hwalk
  rcases List.prefix_or_prefix_of_prefix hbefore (List.prefix_append _ _) with
    ⟨more, hmore⟩ | ⟨more, hmore⟩
  · left
    rw [← hmore, walk_append] at hwalk
    cases hin : d.walk [] q.parts with
    | ok l => exact ⟨l, hin⟩
    | error e =>
      rw [hin] at hwalk
      cases hwalk
  · right
    rw [← hmore, List.prefix_append_right_inj] at hbefore
    refine ⟨_, ⟨entered.filter moves, more, here, hmore.symm, hwalk, fun hup => hdots ?_, rfl⟩, ?_⟩
    · exact (List.mem_filter.1 (hbefore.subset hup)).1
    · rw [← filter_isName_moves missing]
      exact (List.prefix_append_right_inj here).2 (hbefore.filter _)

/-- Of the directories that the path leads through, only those on the way are made. -/
theorem makeDirectory_on_way (h : d.Leads p there) (hq : q ∈ p :: p.above)
    (hmade : d.makeDirectory q = .ok d') : Paved there d d' := by
  rcases List.mem_cons.1 hq with rfl | habove
  · exact makeDirectory_paved h hmade
  · rcases leads_above h habove with ⟨here, hin⟩ | ⟨l, hl, hway⟩
    · rw [makeDirectory_of_enter hin] at hmade
      cases hmade
    · exact (makeDirectory_paved hl hmade).mono hway

end Paved

end Disk

namespace Plan

variable {p q : Path} {d : Disk} {there : Location}

theorem ensureDirectory_within {allowed : Disk.Change → Prop} (h : allowed (.makeDirectory p)) :
    (ensureDirectory p).Within allowed := by
  refine within_bind ⟨h, fun _ => trivial⟩ fun made => ?_
  cases made with
  | ok _ => exact within_pure _
  | error e =>
    refine within_bind (within_bind (within_read p) fun answer => ?_) fun _ => within_pure _
    split <;> exact within_pure _

theorem ensureBelow_within (p : Path) (above : List Path) :
    (ensureBelow p above).Within fun c => ∃ q ∈ p :: above, c = .makeDirectory q := by
  induction above generalizing p with
  | nil => exact ensureDirectory_within ⟨p, List.mem_cons_self .., rfl⟩
  | cons q above ih =>
    have hself :
        (ensureDirectory p).Within fun c => ∃ q' ∈ p :: q :: above, c = .makeDirectory q' :=
      ensureDirectory_within ⟨p, List.mem_cons_self .., rfl⟩
    refine within_bind hself fun made => ?_
    split
    · refine within_bind (within_mono (ih q) ?_) fun below => ?_
      · rintro c ⟨q', hq', rfl⟩
        exact ⟨q', List.mem_cons_of_mem p hq', rfl⟩
      · cases below with
        | ok _ => exact hself
        | error e => exact within_pure _
    · exact within_pure _

/-- Making the directories of a path paves the way to where it leads. -/
theorem run_makeDirectories_paved (h : d.Leads p there) :
    Disk.Paved there d ((makeDirectories p).run d).2 := by
  refine run_within (R := fun d d' => d.Leads p there → Disk.Paved there d d')
    (fun d _ => Disk.paved_refl there d) ?_ ?_ (ensureBelow_within p p.above) d h
  · intro d d' d'' hd hd' hleads
    exact (hd hleads).trans (hd' (hleads.of_kept (hd hleads).keeps))
  · rintro c d d' ⟨q, hq, rfl⟩ hmade hleads
    exact Disk.makeDirectory_on_way hleads hq hmade

end Plan

end CompileCache
