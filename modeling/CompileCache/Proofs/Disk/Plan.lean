/-
  CompileCache.Proofs.Disk.Plan — what a plan can do, by the changes that occur in it.

  A plan stays within a set of changes if it makes no others, whatever it is answered
  (`Plan.Within`). What is kept by each of them is kept by the plan (`run_within`): a plan
  among the files of one directory touches nothing else, and nothing at all if it cannot
  enter the directory; a plan that only unlinks brings no file about. Making a directory
  that can be entered succeeds and changes nothing (`run_makeDirectories`).
-/

import CompileCache.Proofs.Disk

namespace CompileCache

namespace Plan

variable {α β : Type} {allowed : Disk.Change → Prop}

/-- No other changes occur in the plan. -/
def Within (allowed : Disk.Change → Prop) : Plan α → Prop
  | done _ => True
  | ask _ next => ∀ answer, (next answer).Within allowed
  | change c next => allowed c ∧ ∀ outcome, (next outcome).Within allowed

theorem within_pure (a : α) : (pure a : Plan α).Within allowed := trivial

theorem within_bind {p : Plan α} {f : α → Plan β} (hp : p.Within allowed)
    (hf : ∀ a, (f a).Within allowed) : (p >>= f).Within allowed := by
  show (p.bind f).Within allowed
  induction p with
  | done a => exact hf a
  | ask q next ih => exact fun answer => ih answer (hp answer)
  | change c next ih => exact ⟨hp.1, fun outcome => ih outcome (hp.2 outcome)⟩

theorem within_mono {allowed' : Disk.Change → Prop} {p : Plan α} (hp : p.Within allowed)
    (h : ∀ c, allowed c → allowed' c) : p.Within allowed' := by
  induction p with
  | done a => trivial
  | ask q next ih => exact fun answer => ih answer (hp answer)
  | change c next ih => exact ⟨h c hp.1, fun outcome => ih outcome (hp.2 outcome)⟩

theorem within_read (p : Path) : (read p).Within allowed := fun _ => trivial

theorem within_write {p : Path} {content : Bytes} (h : allowed (.write p content)) :
    (write p content).Within allowed := ⟨h, fun _ => trivial⟩

theorem within_rename {p q : Path} (h : allowed (.rename p q)) : (rename p q).Within allowed :=
  ⟨h, fun _ => trivial⟩

theorem within_unlink {p : Path} (h : allowed (.unlink p)) : (unlink p).Within allowed :=
  ⟨h, fun _ => trivial⟩

/-- What is kept by every change that occurs is kept by the plan. -/
theorem run_within {R : Disk → Disk → Prop} (hrefl : ∀ d, R d d)
    (htrans : ∀ d d' d'', R d d' → R d' d'' → R d d'')
    (hstep : ∀ c d d', allowed c → d.change c = .ok d' → R d d') {p : Plan α}
    (hp : p.Within allowed) (d : Disk) : R d (p.run d).2 := by
  induction p generalizing d with
  | done a => exact hrefl d
  | ask q next ih => exact ih (d.read q) (hp (d.read q)) d
  | change c next ih =>
    have hrest := fun d' => ih (outcome (d.change c)) (hp.2 _) d'
    simp only [run]
    cases hc : d.change c with
    | error e =>
      rw [hc] at hrest
      exact hrest d
    | ok d' =>
      rw [hc] at hrest
      exact htrans d d' _ (hstep c d d' hp.1 hc) (hrest d')

/-! ## Among the files of a directory -/

section Among

variable {p : Path} {here : Location} {names : List String} {plan : Plan α} {d : Disk}

theorem run_onlyAt (hnames : ∀ a ∈ names, Path.isName a) (hplan : plan.Within (Disk.Change.Among p names))
    (h : d.enter p = .ok here) : Disk.OnlyAt here names d (plan.run d).2 := by
  refine run_within (R := fun d d' => d.enter p = .ok here → Disk.OnlyAt here names d d')
    (fun d _ => Disk.onlyAt_refl here names d) ?_ ?_ hplan d h
  · intro d d' d'' hd hd' hin
    exact (hd hin).trans (hd' (Disk.enter_of_same (hd hin).directories hin))
  · intro c d d' hc hchange hin
    exact Disk.change_onlyAt hnames hc hin hchange

theorem run_of_not_entered (hnames : ∀ a ∈ names, Path.isName a)
    (hplan : plan.Within (Disk.Change.Among p names)) {e : OsError} (h : d.enter p = .error e) :
    (plan.run d).2 = d := by
  refine run_within (R := fun d d' => d.enter p = .error e → d' = d) (fun d _ => rfl) ?_ ?_ hplan d h
  · intro d d' d'' hd hd' hin
    have hsame := hd hin
    subst hsame
    exact hd' hin
  · intro c d d' hc hchange hin
    rw [Disk.change_of_not_entered hnames hc hin] at hchange
    cases hchange

theorem run_sameDirectories (hnames : ∀ a ∈ names, Path.isName a)
    (hplan : plan.Within (Disk.Change.Among p names)) : Disk.SameDirectories d (plan.run d).2 := by
  cases h : d.enter p with
  | error e =>
    rw [run_of_not_entered hnames hplan h]
    exact fun _ => Iff.rfl
  | ok here => exact (run_onlyAt hnames hplan h).directories

/-- A directory is as easily entered afterwards as before. -/
theorem enter_of_run (hnames : ∀ a ∈ names, Path.isName a)
    (hplan : plan.Within (Disk.Change.Among p names)) (h : (plan.run d).2.enter p = .ok here) :
    d.enter p = .ok here := by
  cases hin : d.enter p with
  | error e =>
    rw [run_of_not_entered hnames hplan hin, hin] at h
    cases h
  | ok there =>
    rwa [Disk.enter_of_same (run_onlyAt hnames hplan hin).directories hin] at h

end Among

theorem run_unlinks {plan : Plan α} (hplan : plan.Within Disk.Change.IsUnlink) (d : Disk)
    (l : Location) (content : Bytes) (h : (plan.run d).2.get? l = some (.file content)) :
    d.get? l = some (.file content) := by
  refine run_within (R := fun d d' => d'.get? l = some (.file content) → d.get? l = some (.file content))
    (fun d hd => hd) ?_ ?_ hplan d h
  · exact fun d d' d'' hd hd' hlast => hd (hd' hlast)
  · exact fun c d d' hc hchange => Disk.change_unlink_fewer hc hchange l content

/-! ## Making directories -/

theorem run_ensureDirectory {p : Path} {d : Disk} {here : Location} (h : d.enter p = .ok here) :
    (ensureDirectory p).run d = (.ok (), d) := by
  have hmade : (makeDirectory p).run d = (.error .alreadyExists, d) := by
    simp only [makeDirectory, run, Disk.change, Disk.makeDirectory_of_enter h]
    rfl
  have hthere : (isDirectory p).run d = (true, d) := by
    simp only [isDirectory, run_bind, read, run, Disk.read_of_enter h]
    rfl
  simp only [ensureDirectory, run_bind, hmade, hthere]
  rfl

theorem run_makeDirectories {p : Path} {d : Disk} {here : Location} (h : d.enter p = .ok here) :
    (makeDirectories p).run d = (.ok (), d) := by
  rw [makeDirectories]
  cases p.above with
  | nil => exact run_ensureDirectory h
  | cons q above =>
    simp only [ensureBelow, run_bind, run_ensureDirectory h]
    rfl

end Plan

end CompileCache
