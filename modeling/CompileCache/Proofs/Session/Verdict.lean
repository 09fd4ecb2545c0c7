/-
  CompileCache.Proofs.Session.Verdict — when a session trusts a stored artifact.

  Whatever its body delivers, its store answers and others do in between, a session's
  calls about stored records are one of the courses of a trial. While it reads (`Reading`)
  the running digest holds what the compiler was fed, once a record is on trial; before
  the first chunk that is not empty, nothing was looked up and nothing was fed. What it is
  told at the end is then what the course makes of it (`Kept`, `run_kept`).

  Proved: a session trusts the artifact exactly if everything speaks for it, looks up once
  and first of all, and evicts exactly the records that are found wanting
  (`verdict_of_run`); its store is asked what its calls say and nothing else (`turn_served`).
-/

import CompileCache.Proofs.Session.Ending
import CompileCache.Proofs.Trial

namespace CompileCache

variable {σ κ τ : Type}

/-- Whether the call brings the end of the body. -/
def Call.endsBody : Call → Bool
  | offer .finished => true
  | take _ .finished => true
  | _ => false

/-- Whether the call can be made before a chunk that is not empty was offered. -/
def Call.isQuiet : Call → Bool
  | offer (.chunk bytes) => bytes.isEmpty
  | offer _ | take .. | cancelBody => true
  | _ => false

namespace Call

theorem not_aboutRecord_of_isQuiet {c : Call} (h : c.isQuiet) : c.aboutRecord = false := by
  cases c <;> simp_all [isQuiet, aboutRecord]

theorem fedBytes_of_isQuiet {c : Call} (h : c.isQuiet) : c.fedBytes = [] := by
  cases c <;> simp_all [isQuiet, fedBytes]

theorem fedBytes_of_aboutRecord {c : Call} (h : c.aboutRecord) : c.fedBytes = [] := by
  cases c <;> simp_all [aboutRecord, fedBytes]

theorem not_endsBody_of_aboutRecord {c : Call} (h : c.aboutRecord) : c.endsBody = false := by
  cases c <;> simp_all [aboutRecord, endsBody]

end Call

/-- The lookup comes with the first chunk that is not empty, before anything was fed. -/
def LookedUpFirst (calls : List Call) (key : Key) (answer : Store.Found) : Prop :=
  ∃ quiet chunk rest, calls = quiet ++ .offer (.chunk chunk) :: .get key answer :: rest ∧
    chunk ≠ [] ∧ ∀ c ∈ quiet, c.isQuiet

theorem LookedUpFirst.append {calls : List Call} {key : Key} {answer : Store.Found}
    (h : LookedUpFirst calls key answer) (more : List Call) :
    LookedUpFirst (calls ++ more) key answer := by
  obtain ⟨quiet, chunk, rest, rfl, hchunk, hquiet⟩ := h
  exact ⟨quiet, chunk, rest ++ more, by simp, hchunk, hquiet⟩

namespace Play

/-- The calls that are about a stored record. -/
def recordCalls (p : Play σ κ τ) : List Call := p.calls.filter Call.aboutRecord

/-- The body has said that it ended, by itself or with its last chunk. -/
def bodyEnded (p : Play σ κ τ) : Prop := ∃ c ∈ p.calls, c.endsBody

/-- A session that is under way; whether its body has ended is left open. -/
structure Reading (key : Key) (p : Play σ κ τ) : Prop where
  ongoing : p.session.outcome = none
  course : Trial.Course key p.fed none p.session.trial p.recordCalls
  digest : p.session.trial.phase = .validating → p.session.digest.Holds p.fed
  unread : p.session.trial.phase = .unread →
    p.session.digest = RunningDigest.empty ∧ ∀ c ∈ p.calls, c.isQuiet
  stored : p.session.trial.phase = .validating → p.store.isSome
  placed : ∀ k answer, .get k answer ∈ p.calls → LookedUpFirst p.calls k answer

/-- A session under way, or the end that one has come to. -/
structure Kept (key : Key) (p : Play σ κ τ) : Prop where
  reading : p.session.outcome = none → Reading key p
  letGo : p.session.outcome.isSome → p.session.body = none
  course : Trial.Course key p.fed p.session.outcome p.session.trial p.recordCalls
  placed : ∀ k answer, .get k answer ∈ p.calls → LookedUpFirst p.calls k answer
  ended : p.bodyEnded ↔ ∃ trusted, p.session.outcome = some (.compiled trusted)

/-! ## Calls -/

theorem fed_log (p : Play σ κ τ) (calls : List Call) :
    (p.log calls).fed = p.fed ++ calls.flatMap Call.fedBytes := by
  simp [fed]

theorem recordCalls_log (p : Play σ κ τ) (calls : List Call) :
    (p.log calls).recordCalls = p.recordCalls ++ calls.filter Call.aboutRecord := by
  simp [recordCalls]

theorem bodyEnded_log (p : Play σ κ τ) (calls : List Call) :
    (p.log calls).bodyEnded ↔ p.bodyEnded ∨ ∃ c ∈ calls, c.endsBody := by
  simp only [bodyEnded, calls_log, List.mem_append, or_and_right, exists_or]

theorem flatMap_fedBytes_of_quiet {calls : List Call} (h : ∀ c ∈ calls, c.isQuiet) :
    calls.flatMap Call.fedBytes = [] := by
  rw [List.flatMap_eq_nil_iff]
  exact fun c hc => Call.fedBytes_of_isQuiet (h c hc)

theorem flatMap_fedBytes_of_aboutRecord {calls : List Call} (h : ∀ c ∈ calls, c.aboutRecord) :
    calls.flatMap Call.fedBytes = [] := by
  rw [List.flatMap_eq_nil_iff]
  exact fun c hc => Call.fedBytes_of_aboutRecord (h c hc)

theorem filter_aboutRecord_of_quiet {calls : List Call} (h : ∀ c ∈ calls, c.isQuiet) :
    calls.filter Call.aboutRecord = [] := by
  rw [List.filter_eq_nil_iff]
  exact fun c hc => by simp [Call.not_aboutRecord_of_isQuiet (h c hc)]

/-! ## What reading keeps -/

theorem Reading.fed_of_unread {key : Key} {p : Play σ κ τ} (h : Reading key p)
    (hp : p.session.trial.phase = .unread) : p.fed = [] :=
  flatMap_fedBytes_of_quiet (h.unread hp).2

/-- Body and sink do not matter, nor does what others do to the store. -/
theorem Reading.congr {key : Key} {p q : Play σ κ τ} (h : Reading key p)
    (ho : q.session.outcome = none) (ht : q.session.trial = p.session.trial)
    (hd : q.session.digest = p.session.digest) (hs : q.store.isSome = p.store.isSome)
    (htrace : q.trace = p.trace) : Reading key q := by
  have hcalls : q.calls = p.calls := by simp [Play.calls, htrace]
  have hfed : q.fed = p.fed := by simp [fed, hcalls]
  have hrecord : q.recordCalls = p.recordCalls := by simp [recordCalls, hcalls]
  refine ⟨ho, ?_, ?_, ?_, ?_, ?_⟩
  · rw [hfed, ht, hrecord]
    exact h.course
  · rw [hfed, ht, hd]
    exact h.digest
  · rw [ht, hd, hcalls]
    exact h.unread
  · rw [ht, hs]
    exact h.stored
  · rw [hcalls]
    exact h.placed

theorem reading_log {key : Key} {p : Play σ κ τ} (h : Reading key p) {calls : List Call}
    (hquiet : ∀ c ∈ calls, c.isQuiet) : Reading key (p.log calls) := by
  have hfed : (p.log calls).fed = p.fed := by
    rw [fed_log, flatMap_fedBytes_of_quiet hquiet, List.append_nil]
  have hrecord : (p.log calls).recordCalls = p.recordCalls := by
    rw [recordCalls_log, filter_aboutRecord_of_quiet hquiet, List.append_nil]
  refine ⟨h.ongoing, ?_, ?_, fun hp => ⟨(h.unread hp).1, fun c hc => ?_⟩, h.stored, ?_⟩
  · rw [hfed, hrecord]
    exact h.course
  · rw [hfed]
    exact h.digest
  · rw [calls_log] at hc
    rcases List.mem_append.1 hc with hold | hnew
    · exact (h.unread hp).2 c hold
    · exact hquiet c hnew
  · intro k answer hget
    rw [calls_log] at hget ⊢
    rcases List.mem_append.1 hget with hold | hnew
    · exact (h.placed k answer hold).append calls
    · exact absurd (hquiet _ hnew) (by simp [Call.isQuiet])

variable [Store τ]

theorem passed_empty (env : Surroundings) (p : Play σ κ τ) {bytes : Bytes} (taken : Taken) (rest : σ)
    (hb : bytes.isEmpty) : p.passed env bytes taken rest =
      log ⟨{ p.session with body := some rest }, p.store, p.trace⟩
        [.offer (.chunk bytes), .take bytes.length taken] := by
  simp [passed, Session.pass, hb]

theorem passed_chunk (env : Surroundings) (p : Play σ κ τ) {bytes : Bytes} (taken : Taken) (rest : σ)
    (hb : bytes.isEmpty = false) :
    let step := p.session.trial.start env.accepts p.store
    ∃ received, p.passed env bytes taken rest =
      log ⟨{ p.session with
          body := some rest, trial := step.trial, received,
          digest := if step.trial.phase = .validating then p.session.digest.add bytes
            else p.session.digest }, step.store, p.trace⟩
        (.offer (.chunk bytes) :: step.calls ++ [.feed bytes, .take bytes.length taken]) :=
  ⟨p.session.received + bytes.length, by simp [passed, Session.pass, hb]⟩

theorem lookedUpFirst_chunk {calls rest : List Call} {bytes : Bytes} (hb : bytes.isEmpty = false)
    (hquiet : ∀ c ∈ calls, c.isQuiet) (key : Key) (answer : Store.Found) :
    LookedUpFirst (calls ++ .offer (.chunk bytes) :: .get key answer :: rest) key answer :=
  ⟨calls, bytes, rest, rfl, by simpa using hb, hquiet⟩

section Chunk

variable (env : Surroundings) (p : Play σ κ τ) {bytes : Bytes} (taken : Taken) (rest : σ)

theorem calls_chunk (hb : bytes.isEmpty = false) : (p.passed env bytes taken rest).calls =
    p.calls ++ .offer (.chunk bytes) :: (p.session.trial.start env.accepts p.store).calls ++
      [.feed bytes, .take bytes.length taken] := by
  obtain ⟨received, heq⟩ := passed_chunk env p taken rest hb
  rw [heq, calls_log, List.append_assoc]
  rfl

theorem fed_chunk (hb : bytes.isEmpty = false) :
    (p.passed env bytes taken rest).fed = p.fed ++ bytes := by
  have habout := (Trial.start_begun env.accepts p.session.trial p.store).aboutRecord
  rw [fed, calls_chunk env p taken rest hb]
  simp [fed, Call.fedBytes, flatMap_fedBytes_of_aboutRecord habout]

theorem recordCalls_chunk (hb : bytes.isEmpty = false) : (p.passed env bytes taken rest).recordCalls =
    p.recordCalls ++ (p.session.trial.start env.accepts p.store).calls := by
  have habout := (Trial.start_begun env.accepts p.session.trial p.store).aboutRecord
  rw [recordCalls, calls_chunk env p taken rest hb]
  simp [recordCalls, Call.aboutRecord, List.filter_eq_self.2 habout]

end Chunk

theorem reading_chunk {key : Key} {p : Play σ κ τ} (h : Reading key p) (env : Surroundings)
    {bytes : Bytes} (taken : Taken) (rest : σ) (hb : bytes.isEmpty = false) :
    Reading key (p.passed env bytes taken rest) := by
  obtain ⟨received, heq⟩ := passed_chunk env p taken rest hb
  have hbegun := Trial.start_begun env.accepts p.session.trial p.store
  refine ⟨?_, ?_, ?_, ?_, ?_, ?_⟩
  · rw [heq]
    exact h.ongoing
  · rw [fed_chunk env p taken rest hb, recordCalls_chunk env p taken rest hb, heq]
    exact (hbegun.course h.course).fed _
  · intro hv
    rw [fed_chunk env p taken rest hb]
    rw [heq] at hv ⊢
    have hphase : (p.session.trial.start env.accepts p.store).trial.phase = .validating := hv
    simp only [log, hphase, if_true]
    by_cases hu : p.session.trial.phase = .unread
    · rw [(h.unread hu).1, h.fed_of_unread hu]
      exact RunningDigest.holds_add RunningDigest.holds_empty bytes
    · rw [hbegun.eq_of_ne hu] at hphase
      exact RunningDigest.holds_add (h.digest hphase) bytes
  · intro hu
    rw [heq] at hu
    exact absurd hu hbegun.phase_ne
  · intro hv
    rw [heq] at hv ⊢
    show (p.session.trial.start env.accepts p.store).store.isSome
    rw [hbegun.served.isSome_eq]
    by_cases hu : p.session.trial.phase = .unread
    · exact hbegun.isSome_store hu hv
    · have hphase : (p.session.trial.start env.accepts p.store).trial.phase = .validating := hv
      rw [hbegun.eq_of_ne hu] at hphase
      exact h.stored hphase
  · intro k answer hget
    rw [calls_chunk env p taken rest hb] at hget ⊢
    rcases List.mem_append.1 hget with hget | hlast
    · rcases List.mem_append.1 hget with hold | hnew
      · rw [List.append_assoc]
        exact (h.placed k answer hold).append _
      · have hstep : .get k answer ∈ (p.session.trial.start env.accepts p.store).calls := by
          simpa using hnew
        by_cases hu : p.session.trial.phase = .unread
        · obtain ⟨more, hmore⟩ := hbegun.get_first hstep
          rw [hmore]
          exact (lookedUpFirst_chunk hb (h.unread hu).2 k answer).append _
        · rw [hbegun.eq_of_ne hu] at hstep
          cases hstep
    · simp at hlast

theorem reading_passed {key : Key} {p : Play σ κ τ} (h : Reading key p) (env : Surroundings)
    (bytes : Bytes) (taken : Taken) (rest : σ) : Reading key (p.passed env bytes taken rest) := by
  cases hb : bytes.isEmpty with
  | false => exact reading_chunk h env taken rest hb
  | true =>
    have hquiet : ∀ c ∈ [Call.offer (.chunk bytes), .take bytes.length taken], c.isQuiet := by
      simp [Call.isQuiet, hb]
    have hrest : Reading key (⟨{ p.session with body := some rest }, p.store, p.trace⟩ : Play σ κ τ) :=
      h.congr h.ongoing rfl rfl rfl rfl
    rw [passed_empty env p taken rest hb]
    exact reading_log hrest hquiet

theorem bodyEnded_passed (env : Surroundings) (p : Play σ κ τ) (bytes : Bytes) (taken : Taken)
    (rest : σ) : (p.passed env bytes taken rest).bodyEnded ↔ p.bodyEnded ∨ taken = .finished := by
  have htake : (Call.take bytes.length taken).endsBody ↔ taken = .finished := by
    cases taken <;> simp [Call.endsBody]
  cases hb : bytes.isEmpty with
  | false =>
    have hstart : ¬ ∃ c ∈ (p.session.trial.start env.accepts p.store).calls, c.endsBody := by
      rintro ⟨c, hc, hends⟩
      have habout := (Trial.start_begun env.accepts p.session.trial p.store).aboutRecord c hc
      rw [Call.not_endsBody_of_aboutRecord habout] at hends
      cases hends
    simp only [bodyEnded, calls_chunk env p taken rest hb, List.mem_append, List.mem_cons,
      or_and_right, exists_or, exists_eq_left, htake, hstart]
    simp [Call.endsBody]
  | true =>
    rw [passed_empty env p taken rest hb, bodyEnded_log]
    simp [← htake, Call.endsBody, bodyEnded, Play.calls]

/-! ## How a session ends -/

omit [Store τ] in
theorem fed_ended (p : Play σ κ τ) (outcome : Outcome) : (p.ended outcome).fed = p.fed := by
  simp [fed]

omit [Store τ] in
theorem recordCalls_ended (p : Play σ κ τ) (outcome : Outcome) :
    (p.ended outcome).recordCalls = p.recordCalls := by
  simp [recordCalls]

omit [Store τ] in
theorem bodyEnded_ended (p : Play σ κ τ) (outcome : Outcome) :
    (p.ended outcome).bodyEnded ↔ p.bodyEnded := by
  simp [bodyEnded]

omit [Store τ] in
theorem Reading.kept {key : Key} {p : Play σ κ τ} (h : Reading key p) (hb : ¬ p.bodyEnded) :
    Kept key p := by
  refine ⟨fun _ => h, fun ho => ?_, ?_, h.placed, ?_⟩
  · rw [h.ongoing] at ho
    cases ho
  · rw [h.ongoing]
    exact h.course
  · rw [h.ongoing]
    simpa using hb

omit [Store τ] in
theorem kept_failed {key : Key} {p : Play σ κ τ} (h : Reading key p) (hb : ¬ p.bodyEnded)
    (failure : Failure) : Kept key (p.ended (.failed failure)) := by
  refine ⟨fun ho => (by cases ho), fun _ => rfl, ?_, ?_, ?_⟩
  · rw [fed_ended, recordCalls_ended]
    exact h.course.failed failure
  · rw [calls_ended]
    exact h.placed
  · rw [bodyEnded_ended]
    simpa [ended] using hb

theorem calls_judged (p : Play σ κ τ) : p.judged.calls =
    p.calls ++ (p.session.trial.verdict p.session.digest p.store).2.2.calls := by
  rw [judged, calls_log]
  rfl

theorem fed_judged (p : Play σ κ τ) : p.judged.fed = p.fed := by
  have hjudged := Trial.verdict_judged p.session.trial p.session.digest p.store
  rw [fed, calls_judged, List.flatMap_append, flatMap_fedBytes_of_aboutRecord hjudged.aboutRecord,
    List.append_nil]
  rfl

theorem recordCalls_judged (p : Play σ κ τ) : p.judged.recordCalls =
    p.recordCalls ++ (p.session.trial.verdict p.session.digest p.store).2.2.calls := by
  have hjudged := Trial.verdict_judged p.session.trial p.session.digest p.store
  rw [recordCalls, calls_judged, List.filter_append, List.filter_eq_self.2 hjudged.aboutRecord]
  rfl

theorem kept_succeeded {key : Key} {p : Play σ κ τ} (h : Reading key p) (hb : p.bodyEnded) :
    Kept key p.succeeded := by
  have hjudged := Trial.verdict_judged p.session.trial p.session.digest p.store
  refine ⟨fun ho => (by cases ho), fun _ => rfl, ?_, ?_, ?_⟩
  · rw [succeeded, fed_ended, recordCalls_ended, fed_judged, recordCalls_judged]
    exact hjudged.course h.course h.digest h.stored
  · rw [succeeded, calls_ended, calls_judged]
    intro k answer hget
    rcases List.mem_append.1 hget with hold | hnew
    · exact (h.placed k answer hold).append _
    · exact absurd (hjudged.not_get _ hnew) (by simp [Call.isGet])
  · rw [succeeded, bodyEnded_ended]
    refine ⟨fun _ => ⟨_, rfl⟩, fun _ => ?_⟩
    obtain ⟨c, hc, hends⟩ := hb
    exact ⟨c, by simp [calls_judged, hc], hends⟩

omit [Store τ] in
theorem Kept.ongoing_of_body {key : Key} {p : Play σ κ τ} (h : Kept key p)
    (hb : p.session.body.isSome) : p.session.outcome = none :=
  Play.ongoing_of_body h.letGo hb

omit [Store τ] in
theorem Kept.not_bodyEnded {key : Key} {p : Play σ κ τ} (h : Kept key p)
    (ho : p.session.outcome = none) : ¬ p.bodyEnded := by
  rw [h.ended, ho]
  simp

omit [Store τ] in
theorem kept_opening (url : String) (key : Key) (token : Token) (store : Option τ) :
    Kept key (opening url key token store : Play σ κ τ) := by
  refine Reading.kept ⟨rfl, .unread (by simp), ?_, ?_, ?_, ?_⟩ ?_
  · intro hv
    cases hv
  · exact fun _ => ⟨rfl, by simp [opening, Play.calls]⟩
  · intro hv
    cases hv
  · simp [opening, Play.calls]
  · simp [opening, Play.calls, bodyEnded]

omit [Store τ] in
theorem kept_meet {key : Key} {p : Play σ κ τ} (h : Kept key p) (f : σ → σ) (g : τ → τ) :
    Kept key (p.meet f g) := by
  refine ⟨fun ho => ?_, fun ho => ?_, h.course, h.placed, h.ended⟩
  · exact (h.reading ho).congr ho rfl rfl (by simp [meet]) rfl
  · simp [meet, h.letGo ho]

omit [Store τ] in
theorem kept_stopped {key : Key} {p : Play σ κ τ} (h : Kept key p)
    (ho : p.session.outcome = none) (env : Surroundings) (cause : Interruption) :
    Kept key (p.stopped env cause) := by
  have hquiet : ∀ c ∈ (if p.session.body.isSome then [Call.cancelBody] else []), c.isQuiet := by
    split <;> simp [Call.isQuiet]
  refine kept_failed (reading_log (h.reading ho) hquiet) ?_ _
  rw [bodyEnded_log, not_or]
  refine ⟨h.not_bodyEnded ho, ?_⟩
  split <;> simp [Call.endsBody]

variable [Body σ]

theorem beat_kept {key : Key} {p q : Play σ κ τ} (hbeat : Beat p q) (h : Kept key p) :
    Kept key q := by
  cases hbeat with
  | wait body hb _ =>
    have ho := h.ongoing_of_body (by simp [hb])
    have hrest : Reading key (⟨{ p.session with body := some (Body.offer body).2 }, p.store,
        p.trace⟩ : Play σ κ τ) := (h.reading ho).congr ho rfl rfl rfl rfl
    refine (reading_log hrest (by simp [Call.isQuiet])).kept ?_
    rw [bodyEnded_log]
    exact not_or.2 ⟨h.not_bodyEnded ho, by simp [Call.endsBody]⟩
  | chunk env body bytes hb _ _ =>
    have ho := h.ongoing_of_body (by simp [hb])
    refine (reading_passed (h.reading ho) env bytes .more _).kept ?_
    rw [bodyEnded_passed]
    simpa using h.not_bodyEnded ho
  | finished body hb _ =>
    have ho := h.ongoing_of_body (by simp [hb])
    refine kept_succeeded (reading_log (h.reading ho) (by simp [Call.isQuiet])) ?_
    rw [bodyEnded_log]
    simp [Call.endsBody]
  | lastChunk env body bytes hb _ _ =>
    have ho := h.ongoing_of_body (by simp [hb])
    refine kept_succeeded (reading_passed (h.reading ho) env bytes .finished body) ?_
    rw [bodyEnded_passed]
    exact .inr rfl
  | failed env body cause hb _ =>
    have ho := h.ongoing_of_body (by simp [hb])
    refine kept_failed (reading_log (h.reading ho) (by simp [Call.isQuiet])) ?_ _
    rw [bodyEnded_log]
    simpa [Call.endsBody] using h.not_bodyEnded ho
  | brokenChunk env body bytes cause hb _ _ =>
    have ho := h.ongoing_of_body (by simp [hb])
    refine kept_failed (reading_passed (h.reading ho) env bytes (.failed cause) body) ?_ _
    rw [bodyEnded_passed]
    simpa using h.not_bodyEnded ho

theorem run_kept (url : String) (key : Key) (token : Token) (store : Option τ)
    (moves : List (Move σ κ τ)) :
    Kept key ((opening url key token store).run moves) := by
  refine run_keeps (I := Kept key) (fun p f g h => kept_meet h f g) ?_ (fun p q => beat_kept)
    (fun p env cause ho h => kept_stopped h ho env cause) (kept_opening url key token store) moves
  intro p body sink hb ho h
  have hreading : Reading key (p.begun body sink) := (h.reading ho).congr ho rfl rfl rfl rfl
  exact hreading.kept (h.not_bodyEnded ho)

/-! ## What the store is asked -/

omit [Body σ] in
theorem pass_served (env : Surroundings) (s : Session σ κ) (store : Option τ) (chunk : Bytes) :
    Served store (s.pass env store chunk).2.2 (s.pass env store chunk).2.1 := by
  unfold Session.pass
  split
  · exact .nil store
  · exact (Trial.start_begun ..).served.append (.single (.other _ _ rfl))

omit [Body σ] in
theorem succeed_served (s : Session σ κ) (store : Option τ) :
    Served store (s.succeed store).calls (s.succeed store).store :=
  (Trial.verdict_judged ..).served

theorem read_served (env : Surroundings) (s : Session σ κ) (body : σ) (store : Option τ) :
    Served store (s.read env body store).calls (s.read env body store).store := by
  have hchunk : ∀ {s s' : Session σ κ} {store store' : Option τ} {bytes : Bytes}
      {calls : List Call} (taken : Taken), s.pass env store bytes = (s', store', calls) →
      Served store (.offer (.chunk bytes) :: calls ++ [.take bytes.length taken]) store' := by
    intro s s' store store' bytes calls taken hpass
    have hserved := pass_served env s store bytes
    rw [hpass] at hserved
    exact .cons (.other _ _ rfl) (hserved.append (.single (.other _ _ rfl)))
  fun_induction Session.read env s body store with
  | case1 s body store rest _ => exact .single (.other _ _ rfl)
  | case2 s body store _ => exact .cons (.other _ _ rfl) (succeed_served ..)
  | case3 s body store cause _ => exact .single (.other _ _ rfl)
  | case4 s body store rest bytes _ s' store' calls hpass taken all htaken ih =>
    exact (hchunk taken hpass).append ih
  | case5 s body store rest bytes _ s' store' calls hpass taken all htaken =>
    exact (hchunk taken hpass).append (succeed_served ..)
  | case6 s body store rest bytes _ s' store' calls hpass taken all cause htaken =>
    exact hchunk taken hpass

omit [Store τ] [Body σ] in
/-- To be stopped is no matter of the store. -/
theorem stop_calls (env : Surroundings) (s : Session σ κ) (store : Option τ) (cause : Interruption) :
    ∀ c ∈ (s.stop env store cause).calls, c = .cancelBody := by
  unfold Session.stop
  split
  · simp
  · simp only [Session.interrupt, Session.finish]
    split <;> simp

/-- A turn's calls are all that its store is asked, and it is never asked to file. -/
theorem turn_served (p : Play σ κ τ) (m : Move σ κ τ) :
    Served (p.meet m.onBody m.onStore).store (p.turn m).calls (p.turn m).store := by
  have hstop : ∀ (s : Session σ κ) store cause,
      Served (τ := τ) store (s.stop m.env store cause).calls (s.stop m.env store cause).store := by
    intro s store cause
    have hstore : (s.stop m.env store cause).store = store := by
      unfold Session.stop
      split <;> rfl
    rw [hstore]
    refine .of_forall_not fun c hc => ?_
    rw [stop_calls m.env s store cause c hc]
    rfl
  simp only [turn]
  generalize p.meet m.onBody m.onStore = met
  cases m.operation with
  | start body sink =>
    simp only [Session.Operation.turn, Session.start]
    split
    · exact .nil _
    · exact read_served ..
  | resume =>
    simp only [Session.Operation.turn, Session.resume]
    split
    · exact read_served ..
    · exact .nil _
  | cancel => exact hstop _ _ _
  | withdraw => exact hstop _ _ _

/-! ## The verdict of a run -/

omit [Store τ] [Body σ] in
theorem mem_recordCalls {p : Play σ κ τ} {c : Call} (hc : c.aboutRecord) :
    c ∈ p.recordCalls ↔ c ∈ p.calls := by
  simp [recordCalls, hc]

omit [Store τ] [Body σ] in
theorem countP_recordCalls (p : Play σ κ τ) {is : Call → Bool} (his : ∀ c, is c → c.aboutRecord) :
    p.recordCalls.countP is = p.calls.countP is := by
  rw [recordCalls, List.countP_filter]
  refine List.countP_congr fun c _ => ?_
  have := his c
  cases hc : is c <;> simp_all

/-- Whatever a session is asked, its body delivers and its store answers. -/
theorem verdict_of_run (url : String) (key : Key) (token : Token) (store : Option τ)
    (moves : List (Move σ κ τ)) :
    let p := (opening url key token store).run moves
    -- It trusts the artifact exactly if everything speaks for it.
    (.compilerTold (.compiled true) ∈ p.trace ↔ p.bodyEnded ∧ ∃ r artifact,
      .get key (.ok (some r)) ∈ p.calls ∧ r.artifact? = some artifact ∧
      .tryArtifact artifact true ∈ p.calls ∧ r.digest? = some (Digest.compute p.fed)) ∧
    -- It looks up at most once, with the first chunk that is not empty, and offers what it found.
    p.calls.countP Call.isGet ≤ 1 ∧
    (∀ k answer, .get k answer ∈ p.calls → k = key ∧ LookedUpFirst p.calls k answer) ∧
    p.calls.countP Call.isTryArtifact ≤ 1 ∧
    (∀ artifact taken, .tryArtifact artifact taken ∈ p.calls →
      ∃ r, .get key (.ok (some r)) ∈ p.calls ∧ r.artifact? = some artifact) ∧
    -- It evicts at most once, and exactly a record that was found wanting.
    p.calls.countP Call.isEvict ≤ 1 ∧ (∀ k done, .evict k done ∈ p.calls → k = key) ∧
    ((∃ k done, .evict k done ∈ p.calls) ↔ ∃ r, .get key (.ok (some r)) ∈ p.calls ∧
      (r.artifact? = none ∨ ∃ artifact, r.artifact? = some artifact ∧
        (.tryArtifact artifact false ∈ p.calls ∨ .tryArtifact artifact true ∈ p.calls ∧
          p.bodyEnded ∧ r.digest? ≠ some (Digest.compute p.fed)))) ∧
    -- Once an artifact was taken, a compilation that fails evicts nothing.
    (∀ failure artifact, .compilerTold (.failed failure) ∈ p.trace →
      .tryArtifact artifact true ∈ p.calls → ∀ k done, .evict k done ∉ p.calls) ∧
    -- The store is asked what the calls say: to look up and to evict, never to file.
    ∀ m, Served (p.meet m.onBody m.onStore).store (p.turn m).calls (p.turn m).store := by
  intro p
  have hkept : Kept key p := run_kept url key token store moves
  have hcourse := hkept.course
  have htold := (opening_owes url key token store moves).compilerTold_iff
  have hget : ∀ k answer, .get k answer ∈ p.recordCalls ↔ .get k answer ∈ p.calls :=
    fun _ _ => mem_recordCalls rfl
  have htry : ∀ artifact taken,
      .tryArtifact artifact taken ∈ p.recordCalls ↔ .tryArtifact artifact taken ∈ p.calls :=
    fun _ _ => mem_recordCalls rfl
  have hevict : ∀ k done, .evict k done ∈ p.recordCalls ↔ .evict k done ∈ p.calls :=
    fun _ _ => mem_recordCalls rfl
  obtain ⟨honeGet, honeTry, honeEvict⟩ := hcourse.at_most_one
  rw [countP_recordCalls p (fun c hc => by cases c <;> simp_all [Call.isGet, Call.aboutRecord])]
    at honeGet
  rw [countP_recordCalls p
    (fun c hc => by cases c <;> simp_all [Call.isTryArtifact, Call.aboutRecord])] at honeTry
  rw [countP_recordCalls p (fun c hc => by cases c <;> simp_all [Call.isEvict, Call.aboutRecord])]
    at honeEvict
  refine ⟨?_, honeGet, fun k answer hk => ?_, honeTry, fun artifact taken ht => ?_, honeEvict,
    fun k done he => ?_, ?_, fun failure artifact hf ht k done => ?_, fun m => turn_served p m⟩
  · rw [htold, hcourse.trusted_iff, ← hkept.ended]
    simp only [hget, htry]
  · exact ⟨hcourse.of_get ((hget k answer).2 hk), hkept.placed k answer hk⟩
  · simpa only [hget] using hcourse.of_tryArtifact ((htry artifact taken).2 ht)
  · exact hcourse.of_evict ((hevict k done).2 he)
  · simpa only [hget, htry, hevict, ← hkept.ended] using hcourse.evict_iff
  · rw [← hevict]
    exact hcourse.kept_of_failed ((htold _).1 hf) ((htry artifact true).2 ht) k done

end Play

end CompileCache
