/-
  CompileCache.Proofs.Trial — every course that a trial can take.

  The calls about a stored record that one compilation makes, in order, are one of a few
  lists (`Course`): nothing is asked, or the record is looked up once and then not found,
  refused on the spot, put on trial, confirmed or dismissed. A record is refused or
  dismissed by letting go of it and evicting it.

  What beginning a trial and what the verdict can do is said once (`Begun`, `Judged`), and
  the rest is read off: both stay on course (`Begun.course`, `Judged.course`), and what the
  store is asked is in the calls and nowhere else; it answers them in order, and what it is
  afterwards is what they leave (`Served`).
-/

import CompileCache.Session
import CompileCache.Proofs.Record
import CompileCache.Proofs.RunningDigest

namespace CompileCache

/-! ## What the store is asked -/

/-- Whether the call is one to the store. -/
def Call.forStore : Call → Bool
  | .get .. => true
  | .evict .. => true
  | _ => false

variable {τ : Type} [Store τ]

/-- A call as the store answers it, and the store after it. -/
inductive Answered : Option τ → Call → Option τ → Prop
  | get (s : τ) (key : Key) :
      Answered (some s) (.get key (Store.get s key).1) (some (Store.get s key).2)
  | evict (s : τ) (key : Key) :
      Answered (some s) (.evict key (Store.evict s key).1) (some (Store.evict s key).2)
  | other (store : Option τ) (c : Call) : c.forStore = false → Answered store c store

/-- Whether the call is about a stored record. -/
def Call.aboutRecord : Call → Bool
  | .get .. | .evict .. | .tryArtifact .. | .keep _ | .letGo => true
  | _ => false

def Call.isGet : Call → Bool
  | .get .. => true
  | _ => false

def Call.isEvict : Call → Bool
  | .evict .. => true
  | _ => false

def Call.isTryArtifact : Call → Bool
  | .tryArtifact .. => true
  | _ => false

/-- Calls as the store answers them one after the other. -/
inductive Served : Option τ → List Call → Option τ → Prop
  | nil (store : Option τ) : Served store [] store
  | cons {a b c : Option τ} {call : Call} {calls : List Call} :
      Answered a call b → Served b calls c → Served a (call :: calls) c

namespace Served

theorem single {a b : Option τ} {call : Call} (h : Answered a call b) : Served a [call] b :=
  .cons h (.nil b)

theorem append {a b c : Option τ} {calls more : List Call} (h : Served a calls b)
    (hmore : Served b more c) : Served a (calls ++ more) c := by
  induction h with
  | nil _ => exact hmore
  | cons hc _ ih => exact .cons hc (ih hmore)

theorem isSome_eq {a b : Option τ} {calls : List Call} (h : Served a calls b) :
    b.isSome = a.isSome := by
  induction h with
  | nil _ => rfl
  | cons hc _ ih =>
    rw [ih]
    cases hc <;> rfl

theorem of_forall_not {store : Option τ} {calls : List Call} (h : ∀ c ∈ calls, c.forStore = false) :
    Served store calls store := by
  induction calls with
  | nil => exact .nil store
  | cons c cs ih =>
    exact .cons (.other store c (h c (List.mem_cons_self ..)))
      (ih fun d hd => h d (List.mem_cons_of_mem c hd))

end Served

theorem Answered.get_eq {s now : τ} {key : Key} {answer : Store.Found}
    (h : Store.get s key = (answer, now)) : Answered (some s) (.get key answer) (some now) := by
  have hanswered := Answered.get s key
  rwa [h] at hanswered

theorem Answered.evict_eq {s last : τ} {key : Key} {done : Store.Done}
    (h : Store.evict s key = (done, last)) : Answered (some s) (.evict key done) (some last) := by
  have hanswered := Answered.evict s key
  rwa [h] at hanswered

namespace Trial

/-! ## What a step does -/

/-- All that beginning a trial can do. -/
inductive Begun (accepts : Bytes → Bool) (t : Trial) : Option τ → Step τ → Prop
  /-- It had begun before. -/
  | again (store : Option τ) : t.phase ≠ .unread → Begun accepts t store ⟨t, store, []⟩
  | storeless : t.phase = .unread → Begun accepts t none ⟨{ t with phase := .uncached }, none, []⟩
  | missed (s now : τ) (answer : Store.Found) : t.phase = .unread →
      Store.get s t.key = (answer, now) → (∀ r, answer ≠ .ok (some r)) →
      Begun accepts t (some s) ⟨{ t with phase := .uncached }, some now, [.get t.key answer]⟩
  | short (s now last : τ) (r : Record) (done : Store.Done) : t.phase = .unread →
      Store.get s t.key = (.ok (some r), now) → r.artifact? = none →
      Store.evict now t.key = (done, last) →
      Begun accepts t (some s)
        ⟨{ t with phase := .uncached, record := none, flaw := some .tooShort }, some last,
          [.get t.key (.ok (some r)), .letGo, .evict t.key done]⟩
  | refused (s now last : τ) (r : Record) (artifact : Bytes) (done : Store.Done) :
      t.phase = .unread → Store.get s t.key = (.ok (some r), now) → r.artifact? = some artifact →
      accepts artifact = false → Store.evict now t.key = (done, last) →
      Begun accepts t (some s)
        ⟨{ t with phase := .uncached, record := none, flaw := some .incompatible }, some last,
          [.get t.key (.ok (some r)), .tryArtifact artifact false, .letGo, .evict t.key done]⟩
  | onTrial (s now : τ) (r : Record) (artifact : Bytes) : t.phase = .unread →
      Store.get s t.key = (.ok (some r), now) → r.artifact? = some artifact →
      accepts artifact = true →
      Begun accepts t (some s) ⟨{ t with phase := .validating, record := some r }, some now,
        [.get t.key (.ok (some r)), .tryArtifact artifact true, .keep r]⟩

/-- All that calling for the verdict can do. -/
inductive Judged (t : Trial) (digest : RunningDigest) :
    Option τ → Bool × RunningDigest × Step τ → Prop
  /-- There is nothing to judge. -/
  | idle (store : Option τ) : (t.phase = .validating → t.record.bind Record.digest? = none) →
      Judged t digest store (false, digest, ⟨t, store, []⟩)
  | trusted (store : Option τ) (r : Record) (stored : Digest) : t.phase = .validating →
      t.record = some r → r.digest? = some stored →
      flawBy? stored digest.close.1 digest.close.2.misused = none →
      Judged t digest store (true, digest.close.2, ⟨t, store, []⟩)
  | storeless (r : Record) (stored : Digest) (flaw : Flaw) : t.phase = .validating →
      t.record = some r → r.digest? = some stored →
      flawBy? stored digest.close.1 digest.close.2.misused = some flaw →
      Judged t digest none (false, digest.close.2, ⟨t, none, []⟩)
  | dismissed (s last : τ) (r : Record) (stored : Digest) (flaw : Flaw) (done : Store.Done) :
      t.phase = .validating → t.record = some r → r.digest? = some stored →
      flawBy? stored digest.close.1 digest.close.2.misused = some flaw →
      Store.evict s t.key = (done, last) →
      Judged t digest (some s) (false, digest.close.2,
        ⟨{ t with record := none, flaw := some flaw }, some last, [.letGo, .evict t.key done]⟩)

theorem tryRecord_begun {accepts : Bytes → Bool} {t : Trial} {s now : τ} {r : Record}
    (hp : t.phase = .unread) (hget : Store.get s t.key = (.ok (some r), now)) :
    let step := t.tryRecord accepts now r
    Begun accepts t (some s) { step with calls := .get t.key (.ok (some r)) :: step.calls } := by
  intro step
  cases hr : r.artifact? with
  | none =>
    have hstep : step = t.refuse now .tooShort := by simp only [step, tryRecord, hr]
    rw [hstep]
    exact .short s now _ r _ hp hget hr rfl
  | some artifact =>
    cases ha : accepts artifact with
    | true =>
      simp only [step, tryRecord, hr, ha, if_true]
      exact .onTrial s now r artifact hp hget hr ha
    | false =>
      simp only [step, tryRecord, hr, ha]
      exact .refused s now _ r artifact _ hp hget hr ha rfl

theorem start_begun (accepts : Bytes → Bool) (t : Trial) (store : Option τ) :
    Begun accepts t store (t.start accepts store) := by
  unfold start
  split
  · next hp => exact .again store hp
  · next hp =>
    have hunread : t.phase = .unread := Decidable.not_not.1 hp
    cases store with
    | none => exact .storeless hunread
    | some s =>
      dsimp only
      split
      · next r heq =>
        have hget : Store.get s t.key = (.ok (some r), (Store.get s t.key).2) := by rw [← heq]
        rw [heq]
        exact tryRecord_begun hunread hget
      · next hne => exact .missed s _ _ hunread rfl hne

theorem verdict_judged (t : Trial) (digest : RunningDigest) (store : Option τ) :
    Judged t digest store (t.verdict digest store) := by
  unfold verdict
  split
  · next hp => exact .idle store fun hv => absurd hv hp
  · next hp =>
    have hv : t.phase = .validating := Decidable.not_not.1 hp
    split
    · next hnone => exact .idle store fun _ => hnone
    · next stored hstored =>
      obtain ⟨r, hr, hd⟩ := Option.bind_eq_some_iff.1 hstored
      dsimp only
      split
      · next hflaw => exact .trusted _ r stored hv hr hd hflaw
      · next flaw hflaw => exact .storeless r stored flaw hv hr hd hflaw
      · next flaw s hflaw => exact .dismissed s _ r stored flaw _ hv hr hd hflaw rfl

/-- Without a record to compare, the digest is left alone. -/
theorem digest_verdict (t : Trial) (digest : RunningDigest) (store : Option τ) :
    (t.verdict digest store).2.1 =
      if t.phase = .validating ∧ (t.record.bind Record.digest?).isSome then digest.close.2
      else digest := by
  unfold verdict
  by_cases hv : t.phase = .validating
  · cases hd : t.record.bind Record.digest? with
    | none => simp [hv]
    | some stored =>
      simp only [hv, ne_eq, not_true_eq_false, if_false, Option.isSome_some, and_self, if_true]
      split <;> rfl
  · simp [hv]

section Begun

variable {accepts : Bytes → Bool} {t : Trial} {store : Option τ} {step : Step τ}

theorem Begun.served (h : Begun accepts t store step) : Served store step.calls step.store := by
  cases h with
  | again => exact .nil store
  | storeless => exact .nil none
  | missed s now answer _ hget _ => exact .single (.get_eq hget)
  | short s now last r done _ hget _ hevict =>
    exact .cons (.get_eq hget) (.cons (.other _ _ rfl) (.single (.evict_eq hevict)))
  | refused s now last r artifact done _ hget _ _ hevict =>
    exact .cons (.get_eq hget)
      (.cons (.other _ _ rfl) (.cons (.other _ _ rfl) (.single (.evict_eq hevict))))
  | onTrial s now r artifact _ hget =>
    exact .cons (.get_eq hget) (.of_forall_not (by simp [Call.forStore]))

theorem Begun.aboutRecord (h : Begun accepts t store step) : ∀ c ∈ step.calls, c.aboutRecord := by
  cases h <;> simp [Call.aboutRecord]

theorem Begun.phase_ne (h : Begun accepts t store step) : step.trial.phase ≠ .unread := by
  cases h <;> simp_all

theorem Begun.key_eq (h : Begun accepts t store step) : step.trial.key = t.key := by
  cases h <;> rfl

/-- Once its first chunk was passed on, a trial does not begin again. -/
theorem Begun.eq_of_ne (h : Begun accepts t store step) (hp : t.phase ≠ .unread) :
    step = ⟨t, store, []⟩ := by
  cases h with
  | again => rfl
  | _ => exact absurd ‹t.phase = .unread› hp

/-- Only with a store is a record put on trial. -/
theorem Begun.isSome_store (h : Begun accepts t store step) (hp : t.phase = .unread)
    (hv : step.trial.phase = .validating) : store.isSome := by
  cases h with
  | again _ hne => exact absurd hp hne
  | storeless => cases hv
  | _ => rfl

/-- A trial that looks a record up begins with that. -/
theorem Begun.get_first (h : Begun accepts t store step) {k : Key} {answer : Store.Found}
    (hget : .get k answer ∈ step.calls) : ∃ rest, step.calls = .get k answer :: rest := by
  cases h <;> simp_all

end Begun

section Judged

variable {t : Trial} {digest : RunningDigest} {store : Option τ}
  {result : Bool × RunningDigest × Step τ}

theorem Judged.served (h : Judged t digest store result) :
    Served store result.2.2.calls result.2.2.store := by
  cases h with
  | idle | trusted => exact .nil store
  | storeless => exact .nil none
  | dismissed s last r stored flaw done _ _ _ _ hevict =>
    exact .cons (.other _ _ rfl) (.single (.evict_eq hevict))

theorem Judged.aboutRecord (h : Judged t digest store result) :
    ∀ c ∈ result.2.2.calls, c.aboutRecord := by
  cases h <;> simp [Call.aboutRecord]

theorem Judged.not_get (h : Judged t digest store result) :
    ∀ c ∈ result.2.2.calls, c.isGet = false := by
  cases h <;> simp [Call.isGet]

theorem Judged.key_eq (h : Judged t digest store result) : result.2.2.trial.key = t.key := by
  cases h <;> rfl

theorem Judged.phase_eq (h : Judged t digest store result) : result.2.2.trial.phase = t.phase := by
  cases h <;> rfl

end Judged

/-! ## Courses -/

/-- The trials of records under `key`, with the calls about the record that have led there.
    `wire` is what the compiler was fed, `outcome` what it was told. -/
inductive Course (key : Key) (wire : Bytes) (outcome : Option Outcome) : Trial → List Call → Prop
  | unread : outcome ≠ some (.compiled true) → Course key wire outcome ⟨key, .unread, none, none⟩ []
  | storeless : outcome ≠ some (.compiled true) →
      Course key wire outcome ⟨key, .uncached, none, none⟩ []
  | missed (answer : Store.Found) : (∀ r, answer ≠ .ok (some r)) → outcome ≠ some (.compiled true) →
      Course key wire outcome ⟨key, .uncached, none, none⟩ [.get key answer]
  | short (r : Record) (done : Store.Done) : r.artifact? = none → outcome ≠ some (.compiled true) →
      Course key wire outcome ⟨key, .uncached, none, some .tooShort⟩
        [.get key (.ok (some r)), .letGo, .evict key done]
  | refused (r : Record) (artifact : Bytes) (done : Store.Done) : r.artifact? = some artifact →
      outcome ≠ some (.compiled true) →
      Course key wire outcome ⟨key, .uncached, none, some .incompatible⟩
        [.get key (.ok (some r)), .tryArtifact artifact false, .letGo, .evict key done]
  | onTrial (r : Record) (artifact : Bytes) : r.artifact? = some artifact →
      (∀ trusted, outcome ≠ some (.compiled trusted)) →
      Course key wire outcome ⟨key, .validating, some r, none⟩
        [.get key (.ok (some r)), .tryArtifact artifact true, .keep r]
  | confirmed (r : Record) (artifact : Bytes) : r.artifact? = some artifact →
      r.digest? = some (Digest.compute wire) → outcome = some (.compiled true) →
      Course key wire outcome ⟨key, .validating, some r, none⟩
        [.get key (.ok (some r)), .tryArtifact artifact true, .keep r]
  | dismissed (r : Record) (artifact : Bytes) (done : Store.Done) : r.artifact? = some artifact →
      r.digest? ≠ some (Digest.compute wire) → outcome = some (.compiled false) →
      Course key wire outcome ⟨key, .validating, none, some .wrongDigest⟩
        [.get key (.ok (some r)), .tryArtifact artifact true, .keep r, .letGo, .evict key done]

variable {key : Key} {wire : Bytes} {t : Trial} {calls : List Call}

/-- As long as nothing was told, what was fed does not matter. -/
theorem Course.fed (h : Course key wire none t calls) (wire' : Bytes) : Course key wire' none t calls := by
  cases h with
  | unread ho => exact .unread ho
  | storeless ho => exact .storeless ho
  | missed answer ha ho => exact .missed answer ha ho
  | short r done hr ho => exact .short r done hr ho
  | refused r artifact done hr ho => exact .refused r artifact done hr ho
  | onTrial r artifact hr ho => exact .onTrial r artifact hr ho
  | confirmed _ _ _ _ ho => exact absurd ho (by simp)
  | dismissed _ _ _ _ _ ho => exact absurd ho (by simp)

theorem Course.failed (h : Course key wire none t calls) (failure : Failure) :
    Course key wire (some (.failed failure)) t calls := by
  cases h with
  | unread => exact .unread (by simp)
  | storeless => exact .storeless (by simp)
  | missed answer ha => exact .missed answer ha (by simp)
  | short r done hr => exact .short r done hr (by simp)
  | refused r artifact done hr => exact .refused r artifact done hr (by simp)
  | onTrial r artifact hr => exact .onTrial r artifact hr (by simp)
  | confirmed _ _ _ _ ho => exact absurd ho (by simp)
  | dismissed _ _ _ _ _ ho => exact absurd ho (by simp)

theorem Begun.course {accepts : Bytes → Bool} {store : Option τ} {step : Step τ}
    (hbegun : Begun accepts t store step) (h : Course key wire none t calls) :
    Course key wire none step.trial (calls ++ step.calls) := by
  have hfresh : t.phase = .unread → t = ⟨key, .unread, none, none⟩ ∧ calls = [] := by
    cases h <;> simp
  cases hbegun with
  | again => simpa using h
  | storeless hp =>
    obtain ⟨rfl, rfl⟩ := hfresh hp
    exact .storeless (by simp)
  | missed s now answer hp _ hne =>
    obtain ⟨rfl, rfl⟩ := hfresh hp
    exact .missed answer hne (by simp)
  | short s now last r done hp _ hr =>
    obtain ⟨rfl, rfl⟩ := hfresh hp
    exact .short r done hr (by simp)
  | refused s now last r artifact done hp _ hr =>
    obtain ⟨rfl, rfl⟩ := hfresh hp
    exact .refused r artifact done hr (by simp)
  | onTrial s now r artifact hp _ hr =>
    obtain ⟨rfl, rfl⟩ := hfresh hp
    exact .onTrial r artifact hr (by simp)

/-- With nothing on trial the verdict changes nothing. -/
theorem Course.judged_idle (h : Course key wire none t calls) (hp : t.phase ≠ .validating) :
    Course key wire (some (.compiled false)) t calls := by
  cases h with
  | unread => exact .unread (by simp)
  | storeless => exact .storeless (by simp)
  | missed answer ha => exact .missed answer ha (by simp)
  | short r done hr => exact .short r done hr (by simp)
  | refused r artifact done hr => exact .refused r artifact done hr (by simp)
  | _ => exact absurd rfl hp

/-- Until anything is told, a record is on trial while the trial goes on. -/
theorem Course.of_validating (h : Course key wire none t calls) (hv : t.phase = .validating) :
    ∃ r artifact, r.artifact? = some artifact ∧ t = ⟨key, .validating, some r, none⟩ ∧
      calls = [.get key (.ok (some r)), .tryArtifact artifact true, .keep r] := by
  cases h with
  | onTrial r artifact hr => exact ⟨r, artifact, hr, rfl, rfl⟩
  | confirmed _ _ _ _ ho => cases ho
  | dismissed _ _ _ _ _ ho => cases ho
  | _ => cases hv

theorem Judged.course {digest : RunningDigest} {store : Option τ}
    {result : Bool × RunningDigest × Step τ} (hjudged : Judged t digest store result)
    (h : Course key wire none t calls) (hd : t.phase = .validating → digest.Holds wire)
    (hs : t.phase = .validating → store.isSome) :
    Course key wire (some (.compiled result.1)) result.2.2.trial (calls ++ result.2.2.calls) := by
  -- On trial, the digest is that of all that was fed, so the comparison alone decides.
  have hflaw : t.phase = .validating → ∀ stored, flawBy? stored digest.close.1 digest.close.2.misused =
      if Digest.compute wire = stored then none else some .wrongDigest := by
    intro hv stored
    obtain ⟨hclose, hmisused⟩ := RunningDigest.close_of_holds (hd hv)
    simp [flawBy?, hclose, hmisused]
  cases hjudged with
  | idle _ hnone =>
    have hp : t.phase ≠ .validating := by
      intro hv
      obtain ⟨r, artifact, hr, rfl, -⟩ := h.of_validating hv
      obtain ⟨stored, hstored⟩ := Record.exists_digest?_of_artifact? hr
      simp [hstored] at hnone
    rw [List.append_nil]
    exact h.judged_idle hp
  | trusted _ r stored hv hrecord hstored hnone =>
    obtain ⟨_, artifact, hr, rfl, rfl⟩ := h.of_validating hv
    cases hrecord
    have hsame : Digest.compute wire = stored := by simpa [hflaw hv] using hnone
    exact .confirmed r artifact hr (by rw [hstored, hsame]) rfl
  | storeless _ _ _ hv => simpa using hs hv
  | dismissed s last r stored flaw done hv hrecord hstored hsome =>
    obtain ⟨_, artifact, hr, rfl, rfl⟩ := h.of_validating hv
    cases hrecord
    obtain ⟨hdiffers, rfl⟩ : Digest.compute wire ≠ stored ∧ .wrongDigest = flaw := by
      simpa [hflaw hv] using hsome
    exact .dismissed r artifact done hr (by simpa [hstored, eq_comm] using hdiffers) rfl

/-! ## What a course tells -/

namespace Course

variable {outcome : Option Outcome}

/-- The artifact may be used. -/
theorem trusted_iff (h : Course key wire outcome t calls) :
    outcome = some (.compiled true) ↔ (∃ trusted, outcome = some (.compiled trusted)) ∧
      ∃ r artifact, .get key (.ok (some r)) ∈ calls ∧ r.artifact? = some artifact ∧
        .tryArtifact artifact true ∈ calls ∧ r.digest? = some (Digest.compute wire) := by
  cases h with
  | unread ho => simp [ho]
  | storeless ho => simp [ho]
  | missed answer ha ho => simp [ho]
  | short r done hr ho => simp [ho]
  | refused r artifact done hr ho => simp [ho]
  | onTrial r artifact hr ho => simp [ho]
  | confirmed r artifact hr hd ho => simp [ho, hr, hd]
  | dismissed r artifact done hr hd ho => simp [ho, hr, hd]

/-- A record is evicted when it has no room for a digest, when its artifact was not taken
    and when the digest of the whole body turned out to be another. -/
theorem evict_iff (h : Course key wire outcome t calls) :
    (∃ k done, .evict k done ∈ calls) ↔ ∃ r, .get key (.ok (some r)) ∈ calls ∧
      (r.artifact? = none ∨ ∃ artifact, r.artifact? = some artifact ∧
        (.tryArtifact artifact false ∈ calls ∨ .tryArtifact artifact true ∈ calls ∧
          (∃ trusted, outcome = some (.compiled trusted)) ∧
          r.digest? ≠ some (Digest.compute wire))) := by
  cases h with
  | unread ho => simp
  | storeless ho => simp
  | missed answer ha ho =>
    constructor
    · simp
    · rintro ⟨r, hr, _⟩
      simp only [List.mem_singleton, Call.get.injEq, true_and] at hr
      exact absurd hr.symm (ha r)
  | short r done hr ho => simp [hr]
  | refused r artifact done hr ho => simp [hr]
  | onTrial r artifact hr ho => simp [hr, ho]
  | confirmed r artifact hr hd ho => simp [hr, hd]
  | dismissed r artifact done hr hd ho => simp [hr, hd, ho]

/-- Nothing is asked twice. -/
theorem at_most_one (h : Course key wire outcome t calls) :
    calls.countP Call.isGet ≤ 1 ∧ calls.countP Call.isTryArtifact ≤ 1 ∧
      calls.countP Call.isEvict ≤ 1 := by
  cases h <;> simp [List.countP_cons, Call.isGet, Call.isTryArtifact, Call.isEvict]

theorem of_get (h : Course key wire outcome t calls) {k : Key} {answer : Store.Found}
    (hget : .get k answer ∈ calls) : k = key := by
  cases h <;> simp_all

theorem of_evict (h : Course key wire outcome t calls) {k : Key} {done : Store.Done}
    (hevict : .evict k done ∈ calls) : k = key := by
  cases h <;> simp_all

/-- The record on trial is the one that was found. -/
theorem of_record (h : Course key wire outcome t calls) {r : Record} (hr : t.record = some r) :
    .get key (.ok (some r)) ∈ calls := by
  cases h <;> simp_all

/-- What is offered to the compiler is the artifact of the record that was found. -/
theorem of_tryArtifact (h : Course key wire outcome t calls) {artifact : Bytes} {taken : Bool}
    (htry : .tryArtifact artifact taken ∈ calls) :
    ∃ r, .get key (.ok (some r)) ∈ calls ∧ r.artifact? = some artifact := by
  cases h <;> simp_all

/-- No record is turned away because the body could not be hashed. -/
theorem flaw_ne_unhashed (h : Course key wire outcome t calls) : t.flaw ≠ some .unhashed := by
  cases h <;> simp

/-- At the end of the body a record on trial was either confirmed or evicted. -/
theorem settled {trusted : Bool} (h : Course key wire (some (.compiled trusted)) t calls)
    (hv : t.phase = .validating) {r : Record} (hfound : .get key (.ok (some r)) ∈ calls) :
    trusted = true ∧ r.digest? = some (Digest.compute wire) ∨
      trusted = false ∧ r.digest? ≠ some (Digest.compute wire) ∧ ∃ done, .evict key done ∈ calls := by
  cases h <;> simp_all

/-- A record whose artifact was taken stays in the store unless the body came to its end. -/
theorem kept_of_failed (h : Course key wire outcome t calls) {failure : Failure}
    (ho : outcome = some (.failed failure)) {artifact : Bytes}
    (htry : .tryArtifact artifact true ∈ calls) (k : Key) (done : Store.Done) :
    .evict k done ∉ calls := by
  cases h <;> simp_all

end Course

end Trial

end CompileCache
