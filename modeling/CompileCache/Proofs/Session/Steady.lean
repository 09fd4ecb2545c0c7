/-
  CompileCache.Proofs.Session.Steady — a session that has its store to itself.

  If others leave the store alone between its moves, and its compiler does not change its
  mind, a session's calls are all that happens to the store, and the compiler answers as it
  always does (`run_undisturbed`). A session that has a store and has fed anything has looked
  its key up (`run_asked`), and was answered what the store had in the beginning
  (`answer_of_served`).

  Proved: if that was a usable record, a session that comes to the end of its body has offered
  the record's artifact, and trusts it or evicts the record (`found_of_run`).
-/

import CompileCache.Proofs.Session.Verdict

namespace CompileCache

variable {σ κ τ : Type}

/-! ## Calls and what answers them -/

section Served

variable [Store τ]

theorem Served.of_append {a c : Option τ} {calls more : List Call} (h : Served a (calls ++ more) c) :
    ∃ b, Served a calls b ∧ Served b more c := by
  induction calls generalizing a with
  | nil => exact ⟨a, .nil a, h⟩
  | cons call calls ih =>
    cases h with
    | cons hcall hrest =>
      obtain ⟨b, hcalls, hmore⟩ := ih hrest
      exact ⟨b, .cons hcall hcalls, hmore⟩

theorem Served.eq_of_forall_not {a b : Option τ} {calls : List Call} (h : Served a calls b)
    (hcalls : ∀ c ∈ calls, c.forStore = false) : b = a := by
  induction h with
  | nil _ => rfl
  | @cons a b c call calls hcall _ ih =>
    have hrest := ih fun d hd => hcalls d (List.mem_cons_of_mem call hd)
    cases hcall with
    | get s key => exact absurd (hcalls _ (List.mem_cons_self ..)) (by simp [Call.forStore])
    | evict s key => exact absurd (hcalls _ (List.mem_cons_self ..)) (by simp [Call.forStore])
    | other => exact hrest

/-- The first lookup is answered by the store as it was. -/
theorem answer_of_served {s : τ} {b : Option τ} {calls : List Call} {key : Key}
    {answer : Store.Found} (h : Served (some s) calls b) (hfirst : LookedUpFirst calls key answer) :
    answer = (Store.get s key).1 := by
  obtain ⟨quiet, chunk, rest, rfl, -, hquiet⟩ := hfirst
  obtain ⟨a, hbefore, hafter⟩ := h.of_append
  have hsame : a = some s := by
    refine hbefore.eq_of_forall_not fun c hc => ?_
    have hcalm := hquiet c hc
    cases c <;> simp_all [Call.isQuiet, Call.forStore]
  subst hsame
  cases hafter with
  | cons hoffer hrest =>
    cases hoffer with
    | other _ _ _ =>
      cases hrest with
      | cons hget _ =>
        cases hget with
        | get => rfl
        | other _ _ hnot => cases hnot

/-- What every lookup and every eviction keeps is kept. -/
theorem Served.keeps {P : τ → Prop} (hget : ∀ s key, P s → P (Store.get s key).2)
    (hevict : ∀ s key, P s → P (Store.evict s key).2) {a b : Option τ} {calls : List Call}
    (h : Served a calls b) (ha : ∀ s ∈ a, P s) : ∀ s ∈ b, P s := by
  induction h with
  | nil _ => exact ha
  | cons hcall _ ih =>
    refine ih ?_
    cases hcall with
    | get s key =>
      intro s' hs'
      cases hs'
      exact hget s key (ha s rfl)
    | evict s key =>
      intro s' hs'
      cases hs'
      exact hevict s key (ha s rfl)
    | other => exact ha

end Served

/-! ## What the compiler answers -/

section Accepts

variable [Store τ]

/-- The compiler's answers, all of them, are what it says of the artifact. -/
def Answers (accepts : Bytes → Bool) (calls : List Call) : Prop :=
  ∀ artifact taken, .tryArtifact artifact taken ∈ calls → taken = accepts artifact

theorem Answers.append {accepts : Bytes → Bool} {calls more : List Call} (h : Answers accepts calls)
    (hmore : Answers accepts more) : Answers accepts (calls ++ more) := by
  intro artifact taken hmem
  rcases List.mem_append.1 hmem with hold | hnew
  · exact h artifact taken hold
  · exact hmore artifact taken hnew

theorem answers_of_not {accepts : Bytes → Bool} {calls : List Call}
    (h : ∀ c ∈ calls, c.isTryArtifact = false) : Answers accepts calls := by
  intro artifact taken hmem
  cases h _ hmem

theorem Trial.Begun.answers {accepts : Bytes → Bool} {t : Trial} {store : Option τ} {step : Step τ}
    (h : Begun accepts t store step) : Answers accepts step.calls := by
  intro artifact taken hmem
  cases h with
  | refused s now last r found done _ _ _ haccepts =>
    simp only [List.mem_cons, reduceCtorEq, Call.tryArtifact.injEq, List.not_mem_nil, or_false,
      false_or] at hmem
    rw [hmem.1, hmem.2, haccepts]
  | onTrial s now r found _ _ _ haccepts =>
    simp only [List.mem_cons, reduceCtorEq, Call.tryArtifact.injEq, List.not_mem_nil, or_false,
      false_or] at hmem
    rw [hmem.1, hmem.2, haccepts]
  | _ => simp at hmem

/-- A trial that begins with a store looks its key up. -/
theorem Trial.Begun.exists_get {accepts : Bytes → Bool} {t : Trial} {store : Option τ} {step : Step τ}
    (h : Begun accepts t store step) (hunread : t.phase = .unread) (hstore : store.isSome) :
    ∃ answer, .get t.key answer ∈ step.calls := by
  cases h with
  | again _ hne => exact absurd hunread hne
  | storeless => cases hstore
  | _ => exact ⟨_, List.mem_cons_self ..⟩

theorem Trial.Judged.answers {accepts : Bytes → Bool} {t : Trial} {digest : RunningDigest}
    {store : Option τ} {result : Bool × RunningDigest × Step τ} (h : Judged t digest store result) :
    Answers accepts result.2.2.calls := by
  cases h <;> exact answers_of_not (by simp [Call.isTryArtifact])

namespace Play

theorem pass_answers (env : Surroundings) (s : Session σ κ) (store : Option τ) (chunk : Bytes) :
    Answers env.accepts (s.pass env store chunk).2.2 := by
  unfold Session.pass
  split
  · exact answers_of_not (by simp)
  · exact (Trial.start_begun ..).answers.append (answers_of_not (by simp [Call.isTryArtifact]))

theorem succeed_answers (accepts : Bytes → Bool) (s : Session σ κ) (store : Option τ) :
    Answers accepts (s.succeed store).calls :=
  (Trial.verdict_judged ..).answers

variable [Body σ]

theorem read_answers (env : Surroundings) (s : Session σ κ) (body : σ) (store : Option τ) :
    Answers env.accepts (s.read env body store).calls := by
  have hoffer : ∀ answer, Answers env.accepts [.offer answer] := fun answer =>
    answers_of_not (by simp [Call.isTryArtifact])
  have hchunk : ∀ {s s' : Session σ κ} {store store' : Option τ} {bytes : Bytes}
      {calls : List Call} (taken : Taken), s.pass env store bytes = (s', store', calls) →
      Answers env.accepts (.offer (.chunk bytes) :: calls ++ [.take bytes.length taken]) := by
    intro s s' store store' bytes calls taken hpass
    have hanswers := pass_answers env s store bytes
    rw [hpass] at hanswers
    exact ((hoffer _).append hanswers).append (answers_of_not (by simp [Call.isTryArtifact]))
  fun_induction Session.read env s body store with
  | case1 s body store rest _ => exact hoffer _
  | case2 s body store _ => exact (hoffer _).append (succeed_answers _ _ _)
  | case3 s body store cause _ => exact hoffer _
  | case4 s body store rest bytes _ s' store' calls hpass taken all htaken ih =>
    exact (hchunk taken hpass).append ih
  | case5 s body store rest bytes _ s' store' calls hpass taken all htaken =>
    exact (hchunk taken hpass).append (succeed_answers _ _ _)
  | case6 s body store rest bytes _ s' store' calls hpass taken all cause htaken =>
    exact hchunk taken hpass

/-- What the compiler answers in a turn is what it says of the artifact. -/
theorem turn_answers (p : Play σ κ τ) (m : Move σ κ τ) :
    Answers m.env.accepts (p.turn m).calls := by
  have hstop : ∀ (s : Session σ κ) (store : Option τ) cause,
      Answers m.env.accepts (s.stop m.env store cause).calls := by
    intro s store cause
    refine answers_of_not fun c hc => ?_
    obtain rfl := stop_calls m.env s store cause c hc
    rfl
  simp only [turn]
  generalize p.meet m.onBody m.onStore = met
  cases m.operation with
  | start body sink =>
    simp only [Session.Operation.turn, Session.start]
    split
    · exact answers_of_not (by simp)
    · exact read_answers _ _ _ _
  | resume =>
    simp only [Session.Operation.turn, Session.resume]
    split
    · exact read_answers _ _ _ _
    · exact answers_of_not (by simp)
  | cancel => exact hstop _ _ _
  | withdraw => exact hstop _ _ _

end Play

end Accepts

namespace Play

/-! ## A session with its store to itself -/

/-- Nobody else uses the store, and the surroundings stay as they are. -/
def Alone (env : Surroundings) (moves : List (Move σ κ τ)) : Prop :=
  ∀ m ∈ moves, m.env = env ∧ m.onStore = id

theorem calls_after (p : Play σ κ τ) (t : Turn σ κ τ) : (p.after t).calls = p.calls ++ t.calls := by
  have htold : ((t.ending.map Ending.notices).getD []).filterMap Notice.call? = [] := by
    cases t.ending with
    | none => rfl
    | some e => cases hs : e.sink <;> simp [Ending.notices, Notice.call?, hs]
  simp [Play.calls, after, Turn.notices, List.filterMap_append, htold, List.filterMap_map,
    Function.comp_def, Notice.call?]

theorem meet_id (p : Play σ κ τ) : p.meet id id = p := by
  simp [meet]

variable [Body σ] [Store τ]

theorem move_calls (p : Play σ κ τ) (m : Move σ κ τ) :
    (p.move m).calls = p.calls ++ (p.turn m).calls :=
  calls_after _ _

/-- The session's calls are all that happens to its store, and the compiler always answers as
    `env` says. -/
structure Undisturbed (env : Surroundings) (store : Option τ) (p : Play σ κ τ) : Prop where
  served : Served store p.calls p.store
  answers : Answers env.accepts p.calls

omit [Body σ] in
theorem undisturbed_opening (env : Surroundings) (url : String) (key : Key) (token : Token)
    (store : Option τ) :
    Undisturbed env store (opening url key token store : Play σ κ τ) :=
  ⟨.nil store, answers_of_not (by simp [opening, Play.calls])⟩

theorem run_undisturbed {env : Surroundings} {store : Option τ} {p : Play σ κ τ}
    (h : Undisturbed env store p) {moves : List (Move σ κ τ)} (halone : Alone env moves) :
    Undisturbed env store (p.run moves) := by
  induction moves generalizing p with
  | nil => exact h
  | cons m ms ih =>
    obtain ⟨henv, hstore⟩ := halone m (List.mem_cons_self ..)
    have hserved := turn_served p m
    have hanswers := turn_answers p m
    rw [hstore] at hserved
    rw [henv] at hanswers
    have hmet : (p.meet m.onBody id).store = p.store := by simp [meet]
    rw [hmet] at hserved
    refine ih ⟨?_, ?_⟩ fun m' hm' => halone m' (List.mem_cons_of_mem m hm')
    · rw [move_calls]
      exact h.served.append hserved
    · rw [move_calls]
      exact h.answers.append hanswers

/-! ## Looking up -/

/-- A session with a store that has fed anything has looked its key up. -/
structure Asked (key : Key) (p : Play σ κ τ) : Prop where
  key_eq : p.session.trial.key = key
  stored : p.store.isSome
  asked : (p.session.trial.phase = .unread ∧ p.fed = []) ∨ ∃ answer, .get key answer ∈ p.calls

omit [Body σ] [Store τ] in
theorem Asked.onBody {key : Key} {p : Play σ κ τ} (h : Asked key p) (body : Option σ) :
    Asked key { p with session := { p.session with body } } :=
  ⟨h.key_eq, h.stored, h.asked⟩

omit [Body σ] [Store τ] in
theorem asked_log {key : Key} {p : Play σ κ τ} (h : Asked key p) {calls : List Call}
    (hfed : calls.flatMap Call.fedBytes = []) : Asked key (p.log calls) := by
  refine ⟨h.key_eq, h.stored, h.asked.imp ?_ ?_⟩
  · rintro ⟨hunread, hnone⟩
    exact ⟨hunread, by rw [fed_log, hnone, hfed, List.append_nil]⟩
  · rintro ⟨answer, hget⟩
    exact ⟨answer, by rw [calls_log]; exact List.mem_append_left _ hget⟩

omit [Body σ] [Store τ] in
theorem asked_ended {key : Key} {p : Play σ κ τ} (h : Asked key p) (outcome : Outcome) :
    Asked key (p.ended outcome) := by
  refine ⟨h.key_eq, h.stored, ?_⟩
  rw [fed_ended, calls_ended]
  exact h.asked

omit [Body σ] in
theorem asked_passed {key : Key} {p : Play σ κ τ} (h : Asked key p) (env : Surroundings)
    (bytes : Bytes) (taken : Taken) (rest : σ) : Asked key (p.passed env bytes taken rest) := by
  cases hb : bytes.isEmpty with
  | true =>
    rw [passed_empty env p taken rest hb]
    exact asked_log (h.onBody (some rest)) rfl
  | false =>
    obtain ⟨received, heq⟩ := passed_chunk env p taken rest hb
    have hbegun := Trial.start_begun env.accepts p.session.trial p.store
    refine ⟨?_, ?_, .inr ?_⟩
    · rw [heq]
      exact hbegun.key_eq.trans h.key_eq
    · rw [heq]
      exact hbegun.served.isSome_eq.trans h.stored
    · rw [calls_chunk env p taken rest hb]
      rcases h.asked with ⟨hunread, -⟩ | ⟨answer, hget⟩
      · obtain ⟨answer, hget⟩ := hbegun.exists_get hunread h.stored
        rw [h.key_eq] at hget
        exact ⟨answer, by simp [hget]⟩
      · exact ⟨answer, by simp [hget]⟩

omit [Body σ] in
theorem asked_succeeded {key : Key} {p : Play σ κ τ} (h : Asked key p) : Asked key p.succeeded := by
  have hjudged := Trial.verdict_judged p.session.trial p.session.digest p.store
  have hp : Asked key (⟨{ p.session with
      trial := (p.session.trial.verdict p.session.digest p.store).2.2.trial,
      digest := (p.session.trial.verdict p.session.digest p.store).2.1 },
      (p.session.trial.verdict p.session.digest p.store).2.2.store, p.trace⟩ : Play σ κ τ) := by
    refine ⟨hjudged.key_eq.trans h.key_eq, hjudged.served.isSome_eq.trans h.stored, ?_⟩
    show (_ ∧ p.fed = []) ∨ _
    rw [hjudged.phase_eq]
    exact h.asked
  exact asked_ended (asked_log hp (flatMap_fedBytes_of_aboutRecord hjudged.aboutRecord)) _

theorem beat_asked {key : Key} {p q : Play σ κ τ} (hbeat : Beat p q) (h : Asked key p) :
    Asked key q := by
  cases hbeat with
  | wait body _ _ => exact asked_log (h.onBody _) rfl
  | chunk env body bytes _ _ _ => exact asked_passed h env bytes .more _
  | finished body _ _ => exact asked_succeeded (asked_log h rfl)
  | lastChunk env body bytes _ _ _ => exact asked_succeeded (asked_passed h env bytes .finished body)
  | failed env body cause _ _ => exact asked_ended (asked_log h rfl) _
  | brokenChunk env body bytes cause _ _ _ =>
    exact asked_ended (asked_passed h env bytes (.failed cause) body) _

theorem run_asked (url : String) (key : Key) (token : Token) (store : τ)
    (moves : List (Move σ κ τ)) :
    Asked key ((opening url key token (some store)).run moves) := by
  refine run_keeps (I := Asked key) (fun p f g h => ⟨h.key_eq, by simp [meet, h.stored], h.asked⟩)
    (fun p body sink _ _ h => ⟨h.key_eq, h.stored, h.asked⟩) (fun p q => beat_asked)
    (fun p env cause _ h => asked_ended (asked_log h ?_) _) ⟨rfl, rfl, .inl ⟨rfl, rfl⟩⟩ moves
  split <;> rfl

/-! ## What was found -/

/-- How a session ends that has found the record `r`, with the artifact `artifact`, by what it
    has fed: what it was told, and its calls about the record. -/
inductive Found (env : Surroundings) (key : Key) (r : Record) (artifact wire : Bytes) :
    Bool → List Call → Prop
  | refused (done : Store.Done) : env.accepts artifact = false →
      Found env key r artifact wire false
        [.get key (.ok (some r)), .tryArtifact artifact false, .letGo, .evict key done]
  | confirmed : env.accepts artifact = true → r.digest? = some (Digest.compute wire) →
      Found env key r artifact wire true
        [.get key (.ok (some r)), .tryArtifact artifact true, .keep r]
  | dismissed (done : Store.Done) : env.accepts artifact = true →
      r.digest? ≠ some (Digest.compute wire) →
      Found env key r artifact wire false
        [.get key (.ok (some r)), .tryArtifact artifact true, .keep r, .letGo, .evict key done]

/-- A session that has its store to itself finds what the store has, tries it, and comes to a
    verdict with the end of its body. -/
theorem found_of_run {url : String} {key : Key} {token : Token} {s : τ} {env : Surroundings}
    {moves : List (Move σ κ τ)} (halone : Alone env moves) {r : Record} {artifact : Bytes}
    (hget : (Store.get s key).1 = .ok (some r)) (hartifact : r.artifact? = some artifact)
    {trusted : Bool} :
    let p := (opening url key token (some s)).run moves
    p.session.outcome = some (.compiled trusted) → p.fed ≠ [] →
    Found env key r artifact p.fed trusted p.recordCalls := by
  intro p hended hfed
  have hkept : Kept key p := run_kept url key token (some s) moves
  have hasked : Asked key p := run_asked url key token s moves
  have hquiet : Undisturbed env (some s) p :=
    run_undisturbed (undisturbed_opening env url key token (some s)) halone
  have hfound : ∀ answer, .get key answer ∈ p.calls → answer = .ok (some r) := by
    intro answer hmem
    rw [answer_of_served hquiet.served (hkept.placed key answer hmem), hget]
  have hlooked : .get key (.ok (some r)) ∈ p.recordCalls := by
    rcases hasked.asked with ⟨-, hnone⟩ | ⟨answer, hmem⟩
    · exact absurd hnone hfed
    · rw [hfound answer hmem] at hmem
      exact (mem_recordCalls rfl).2 hmem
  have htried : ∀ artifact taken, .tryArtifact artifact taken ∈ p.recordCalls →
      taken = env.accepts artifact := fun artifact taken hmem =>
    hquiet.answers artifact taken ((mem_recordCalls rfl).1 hmem)
  have hcourse := hkept.course
  rw [hended] at hcourse
  generalize p.recordCalls = calls at hlooked htried hcourse ⊢
  generalize p.session.trial = t at hcourse
  cases hcourse with
  | unread => cases hlooked
  | storeless => cases hlooked
  | missed answer hmiss =>
    simp only [List.mem_singleton, Call.get.injEq, true_and] at hlooked
    exact absurd hlooked.symm (hmiss r)
  | short r' done hshort =>
    obtain rfl : r = r' := by simpa using hlooked
    rw [hartifact] at hshort
    cases hshort
  | refused r' artifact' done hartifact' houtcome =>
    obtain rfl : r = r' := by simpa using hlooked
    obtain rfl : artifact = artifact' := by simpa [hartifact] using hartifact'
    obtain rfl : trusted = false := by simpa using houtcome
    exact .refused done (htried artifact false (by simp)).symm
  | onTrial _ _ _ houtcome => exact absurd rfl (houtcome trusted)
  | confirmed r' artifact' hartifact' hdigest houtcome =>
    obtain rfl : r = r' := by simpa using hlooked
    obtain rfl : artifact = artifact' := by simpa [hartifact] using hartifact'
    obtain rfl : trusted = true := by simpa using houtcome
    exact .confirmed (htried artifact true (by simp)).symm hdigest
  | dismissed r' artifact' done hartifact' hdigest houtcome =>
    obtain rfl : r = r' := by simpa using hlooked
    obtain rfl : artifact = artifact' := by simpa [hartifact] using hartifact'
    obtain rfl : trusted = false := by simpa using houtcome
    exact .dismissed done (htried artifact true (by simp)).symm hdigest

end Play

end CompileCache
