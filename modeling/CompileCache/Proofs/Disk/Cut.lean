/-
  CompileCache.Proofs.Disk.Cut — a plan that is cut off after some of its calls.

  A call is made or not, except for a write: one that was under way may have left anything
  in its file (`Plan.cutOff`). A plan that is cut off was cut off in its first part, or had
  finished that and was cut off in the second (`cutOff_bind`). So what every change that
  occurs in a plan keeps, half-done writes included, is kept wherever the plan is cut off
  (`cutOff_within`), and finishing a plan is one of the places (`exists_cutOff_eq_run`).
-/

import CompileCache.Proofs.Disk.Plan

namespace CompileCache

namespace Plan

variable {α β : Type}

/-- The disk with a change under way: a write has left `torn` in its file, if it has begun. -/
def underWay (d : Disk) (torn : Option Bytes) : Disk.Change → Disk
  | .write p _ => torn.elim d fun bytes => after d (d.write p bytes)
  | _ => d

/-- The disk after so many calls of the plan, with the next one under way. -/
def cutOff : Plan α → (calls : Nat) → (torn : Option Bytes) → Disk → Disk
  | done _, _, _, d => d
  | ask p next, calls, torn, d =>
    match calls with
    | 0 => d
    | calls + 1 => (next (d.read p)).cutOff calls torn d
  | change c next, calls, torn, d =>
    match calls with
    | 0 => underWay d torn c
    | calls + 1 => (next (outcome (d.change c))).cutOff calls torn (after d (d.change c))

/-- Two plans in a row are cut off in the first, or after it in the second. -/
theorem cutOff_bind (p : Plan α) (f : α → Plan β) (calls : Nat) (torn : Option Bytes) (d : Disk) :
    (∃ n, (p >>= f).cutOff calls torn d = p.cutOff n torn d) ∨
      ∃ n, (p >>= f).cutOff calls torn d = (f (p.run d).1).cutOff n torn (p.run d).2 := by
  show (∃ n, (p.bind f).cutOff calls torn d = _) ∨ ∃ n, (p.bind f).cutOff calls torn d = _
  induction p generalizing calls d with
  | done a => exact .inr ⟨calls, rfl⟩
  | ask q next ih =>
    cases calls with
    | zero => exact .inl ⟨0, rfl⟩
    | succ calls =>
      rcases ih (d.read q) calls d with ⟨n, hn⟩ | ⟨n, hn⟩
      · exact .inl ⟨n + 1, hn⟩
      · exact .inr ⟨n, hn⟩
  | change c next ih =>
    cases calls with
    | zero => exact .inl ⟨0, rfl⟩
    | succ calls =>
      rcases ih (outcome (d.change c)) calls (after d (d.change c)) with ⟨n, hn⟩ | ⟨n, hn⟩
      · exact .inl ⟨n + 1, hn⟩
      · exact .inr ⟨n, hn⟩

/-- A plan that is not interrupted is cut off at its end. -/
theorem exists_cutOff_eq_run (p : Plan α) (torn : Option Bytes) (d : Disk) :
    ∃ calls, p.cutOff calls torn d = (p.run d).2 := by
  induction p generalizing d with
  | done a => exact ⟨0, rfl⟩
  | ask q next ih =>
    obtain ⟨calls, hcalls⟩ := ih (d.read q) d
    exact ⟨calls + 1, hcalls⟩
  | change c next ih =>
    obtain ⟨calls, hcalls⟩ := ih (outcome (d.change c)) (after d (d.change c))
    exact ⟨calls + 1, hcalls⟩

/-- What is kept by every change that occurs, and by its writes when they are torn, is kept
    wherever the plan is cut off. -/
theorem cutOff_within {allowed : Disk.Change → Prop} {R : Disk → Disk → Prop} (hrefl : ∀ d, R d d)
    (htrans : ∀ d d' d'', R d d' → R d' d'' → R d d'')
    (hstep : ∀ c d d', allowed c → d.change c = .ok d' → R d d')
    (htorn : ∀ p content bytes, allowed (.write p content) → allowed (.write p bytes)) {p : Plan α}
    (hp : p.Within allowed) (calls : Nat) (torn : Option Bytes) (d : Disk) :
    R d (p.cutOff calls torn d) := by
  have hafter : ∀ c d, allowed c → R d (after d (d.change c)) := by
    intro c d hc
    cases hchange : d.change c with
    | error e => exact hrefl d
    | ok d' => exact hstep c d d' hc hchange
  have hunderWay : ∀ c d, allowed c → R d (underWay d torn c) := by
    intro c d hc
    cases c with
    | write q content =>
      cases torn with
      | none => exact hrefl d
      | some bytes => exact hafter (.write q bytes) d (htorn q content bytes hc)
    | _ => exact hrefl d
  induction p generalizing calls d with
  | done a => exact hrefl d
  | ask q next ih =>
    cases calls with
    | zero => exact hrefl d
    | succ calls => exact ih (d.read q) (hp (d.read q)) calls d
  | change c next ih =>
    cases calls with
    | zero => exact hunderWay c d hp.1
    | succ calls =>
      exact htrans _ _ _ (hafter c d hp.1) (ih (outcome (d.change c)) (hp.2 _) calls _)

/-- Among the files of a directory, wherever it is cut off. -/
theorem cutOff_onlyAt {p : Path} {here : Location} {names : List String} {plan : Plan α} {d : Disk}
    (hnames : ∀ a ∈ names, Path.isName a) (hplan : plan.Within (Disk.Change.Among p names))
    (h : d.enter p = .ok here) (calls : Nat) (torn : Option Bytes) :
    Disk.OnlyAt here names d (plan.cutOff calls torn d) := by
  refine cutOff_within (R := fun d d' => d.enter p = .ok here → Disk.OnlyAt here names d d')
    (fun d _ => Disk.onlyAt_refl here names d) ?_ ?_ (fun q content bytes hq => hq) hplan calls torn d h
  · intro d d' d'' hd hd' hin
    exact (hd hin).trans (hd' (Disk.enter_of_same (hd hin).directories hin))
  · intro c d d' hc hchange hin
    exact Disk.change_onlyAt hnames hc hin hchange

/-- A plan that changes nothing, wherever it is cut off. -/
theorem cutOff_of_unchanging {p : Plan α} (hp : p.Within fun _ => False) (calls : Nat)
    (torn : Option Bytes) (d : Disk) : p.cutOff calls torn d = d :=
  cutOff_within (R := fun d d' => d' = d) (fun _ => rfl) (fun _ _ _ h h' => h'.trans h)
    (fun _ _ _ hc => absurd hc id) (fun _ _ _ hc => hc) hp calls torn d

/-! ## Making directories -/

theorem cutOff_ensureDirectory {p : Path} {d : Disk} {here : Location} (h : d.enter p = .ok here)
    (calls : Nat) (torn : Option Bytes) : (ensureDirectory p).cutOff calls torn d = d := by
  have hmade : (makeDirectory p).run d = (.error .alreadyExists, d) := by
    simp only [makeDirectory, run, Disk.change, Disk.makeDirectory_of_enter h]
    rfl
  have hthere : (isDirectory p).Within fun _ => False := by
    refine within_bind (within_read p) fun answer => ?_
    split <;> exact within_pure _
  rw [ensureDirectory]
  rcases cutOff_bind (makeDirectory p) _ calls torn d with ⟨n, hn⟩ | ⟨n, hn⟩
  · rw [hn]
    cases n with
    | zero => rfl
    | succ n =>
      show after d (d.makeDirectory p) = d
      rw [Disk.makeDirectory_of_enter h]
      rfl
  · rw [hn, hmade]
    exact cutOff_of_unchanging (within_bind hthere fun _ => within_pure _) n torn d

/-- Making a directory that is there changes nothing, wherever it is cut off. -/
theorem cutOff_makeDirectories {p : Path} {d : Disk} {here : Location} (h : d.enter p = .ok here)
    (calls : Nat) (torn : Option Bytes) : (makeDirectories p).cutOff calls torn d = d := by
  rw [makeDirectories]
  cases p.above with
  | nil => exact cutOff_ensureDirectory h calls torn
  | cons q above =>
    rw [ensureBelow]
    rcases cutOff_bind (ensureDirectory p) _ calls torn d with ⟨n, hn⟩ | ⟨n, hn⟩
    · rw [hn]
      exact cutOff_ensureDirectory h n torn
    · rw [hn, run_ensureDirectory h]
      rfl

end Plan

end CompileCache
