/-
  CompileCache.Proofs.Session.Hashing — what a session does with its hash.

  A session asks its running digest to hash what it feeds, and closes it when it calls for
  the verdict of its trial. These are its `Deed`s: each `Stride` comes with some, in order
  (`Does`), and a session has done those of all its strides (`Did`). The digest is what its
  deeds made of a new one, and nothing else touches it (`Did.digest_eq`).

  The trial, the digest and the end of the session are coupled: a trial that goes on has a
  record with a digest for as long as the session has not ended, and the verdict is called
  for by what ends the session. So each deed finds the digest open, and the ways out of a
  verdict that leave a record neither confirmed nor evicted are not taken (`Closes`,
  `did_accounted`).

  Proved: a session never asks anything of a closed digest, and calls for a verdict at most
  once, which then settles what becomes of the record (`hashing_never_fails`).
-/

import CompileCache.Proofs.Session.Custody

namespace CompileCache

variable {σ κ τ : Type}

namespace Play

/-- What a session does that bears on its hash. -/
inductive Deed where
  | hash (use : RunningDigest.Use)
  /-- It calls for the verdict. -/
  | judge (trial : Trial)

/-- What the deed asks of the running digest. -/
def Deed.use? : Deed → Option RunningDigest.Use
  | hash use => some use
  | judge _ => none

/-- The deed of hashing a chunk. -/
abbrev Deed.add (chunk : Bytes) : Deed := .hash (.add chunk)

/-- The digest after deeds. -/
def digestAfter (r : RunningDigest) (deeds : List Deed) : RunningDigest :=
  r.used (deeds.filterMap Deed.use?)

theorem digestAfter_append (r : RunningDigest) (deeds more : List Deed) :
    digestAfter r (deeds ++ more) = digestAfter (digestAfter r deeds) more := by
  rw [digestAfter, List.filterMap_append, RunningDigest.used_append]
  rfl

/-! ## Accounts -/

/-- What was hashed: all that was fed if the compiler took the artifact, and nothing otherwise. -/
def hashed (p : Play σ κ τ) : Bytes :=
  if p.session.trial.phase = .validating then p.fed else []

/-- What was hashed was hashed chunk by chunk. -/
def Added (deeds : List Deed) (p : Play σ κ τ) : Prop :=
  ∃ chunks : List Bytes, deeds = chunks.map .add ∧ chunks.flatten = p.hashed

/-- The last that a session does: it calls for the verdict, if it comes to the end of its body.
    A trial that goes on then has the record that was found, and the record a digest. -/
inductive Closes (key : Key) (p : Play σ κ τ) : List Deed → Prop
  | unjudged : (∀ trusted, p.session.outcome ≠ some (.compiled trusted)) → Closes key p []
  | idle (trial : Trial) (trusted : Bool) : p.session.outcome = some (.compiled trusted) →
      p.session.trial.phase = trial.phase → trial.phase ≠ .validating →
      Closes key p [.judge trial]
  | compared (trial : Trial) (trusted : Bool) (r : Record) (stored : Digest) :
      p.session.outcome = some (.compiled trusted) →
      p.session.trial.phase = trial.phase → trial.phase = .validating →
      .get key (.ok (some r)) ∈ p.calls → trial.record = some r → r.digest? = some stored →
      Closes key p [.judge trial, .hash .close]

/-- The session has hashed, and then closed. -/
def Accounted (key : Key) (deeds : List Deed) (p : Play σ κ τ) : Prop :=
  ∃ before last : List Deed, deeds = before ++ last ∧ Added before p ∧ Closes key p last

section Accounts

variable {key : Key} {deeds : List Deed} {p : Play σ κ τ}

theorem Added.congr {q : Play σ κ τ} (h : Added deeds p)
    (ht : q.session.trial.phase = p.session.trial.phase) (hfed : q.fed = p.fed) : Added deeds q := by
  obtain ⟨chunks, hdeeds, hflatten⟩ := h
  exact ⟨chunks, hdeeds, by rw [hflatten, hashed, hashed, ht, hfed]⟩

theorem Added.log (h : Added deeds p) {calls : List Call} (hquiet : ∀ c ∈ calls, c.isQuiet) :
    Added deeds (p.log calls) := by
  refine h.congr rfl ?_
  rw [fed_log, flatMap_fedBytes_of_quiet hquiet, List.append_nil]

theorem Added.accounted (h : Added deeds p)
    (hnot : ∀ trusted, p.session.outcome ≠ some (.compiled trusted)) : Accounted key deeds p :=
  ⟨deeds, [], (List.append_nil _).symm, h, .unjudged hnot⟩

theorem Added.failed (h : Added deeds p) (failure : Failure) :
    Accounted key deeds (p.ended (.failed failure)) := by
  have hadded : Added deeds (p.ended (.failed failure)) := h.congr rfl (fed_ended p _)
  exact hadded.accounted (by simp [ended])

theorem Accounted.added (h : Accounted key deeds p) (ho : p.session.outcome = none) :
    Added deeds p := by
  obtain ⟨before, last, rfl, hadded, hcloses⟩ := h
  cases hcloses with
  | unjudged => rwa [List.append_nil]
  | idle _ _ hoc | compared _ _ _ _ hoc =>
    rw [ho] at hoc
    cases hoc

theorem Accounted.meet (h : Accounted key deeds p) (f : σ → σ) (g : τ → τ) :
    Accounted key deeds (p.meet f g) := by
  obtain ⟨before, last, hdeeds, hadded, hcloses⟩ := h
  refine ⟨before, last, hdeeds, hadded.congr rfl rfl, ?_⟩
  cases hcloses with
  | unjudged hnot => exact .unjudged hnot
  | idle trial trusted ho hp hne => exact .idle trial trusted ho hp hne
  | compared trial trusted r stored ho hp hv hget hr hd =>
    exact .compared trial trusted r stored ho hp hv hget hr hd

theorem holds_added (h : Added deeds p) : (digestAfter .empty deeds).Holds p.hashed := by
  obtain ⟨chunks, rfl, hflatten⟩ := h
  have huses : (chunks.map Deed.add).filterMap Deed.use? = chunks.map .add := by
    rw [List.filterMap_map]
    exact congrFun List.filterMap_eq_map chunks
  rw [digestAfter, huses, ← hflatten]
  exact RunningDigest.holds_used RunningDigest.holds_empty chunks

theorem Accounted.digest (h : Accounted key deeds p) :
    (digestAfter .empty deeds).misused = false ∧
      (digestAfter .empty deeds).count = p.hashed.length := by
  obtain ⟨before, last, rfl, hadded, hcloses⟩ := h
  have hholds := holds_added hadded
  rw [digestAfter_append]
  cases hcloses with
  | unjudged | idle => exact ⟨hholds.misused, hholds.count⟩
  | compared =>
    exact ⟨(RunningDigest.close_of_holds hholds).2,
      (RunningDigest.count_close _).trans hholds.count⟩

end Accounts

/-! ## The deeds of a stride -/

section Deeds

variable [Store τ]

/-- What is done with the hash when a chunk is passed on. -/
def hashing (env : Surroundings) (p : Play σ κ τ) (bytes : Bytes) : List Deed :=
  if bytes.isEmpty then []
  else if (p.session.trial.start env.accepts p.store).trial.phase = .validating then [.add bytes]
  else []

/-- What is done when the body has ended. Only a record on trial that has a digest is
    compared. -/
def judging (p : Play σ κ τ) : List Deed :=
  .judge p.session.trial ::
    if p.session.trial.phase = .validating ∧
      (p.session.trial.record.bind Record.digest?).isSome then [.hash .close] else []

variable [Body σ]

/-- A stride, with what is done on the way. -/
inductive Does : Play σ κ τ → List Deed → Play σ κ τ → Prop
  | met (p : Play σ κ τ) (onBody : σ → σ) (onStore : τ → τ) : Does p [] (p.meet onBody onStore)
  | begun (p : Play σ κ τ) (body : σ) (sink : κ) : p.session.body = none →
      p.session.outcome = none → Does p [] (p.begun body sink)
  | wait (p : Play σ κ τ) (body : σ) : p.session.body = some body →
      (Body.offer body).1 = .wait →
      Does p [] ({ p with session := { p.session with body := some (Body.offer body).2 } }.log
        [.offer .wait])
  | chunk (p : Play σ κ τ) (env : Surroundings) (body : σ) (bytes : Bytes) :
      p.session.body = some body → (Body.offer body).1 = .chunk bytes →
      (Body.take (Body.offer body).2 bytes.length).1 = .more →
      Does p (p.hashing env bytes)
        (p.passed env bytes .more (Body.take (Body.offer body).2 bytes.length).2)
  | finished (p : Play σ κ τ) (body : σ) : p.session.body = some body →
      (Body.offer body).1 = .finished →
      Does p (p.log [.offer .finished]).judging (p.log [.offer .finished]).succeeded
  | lastChunk (p : Play σ κ τ) (env : Surroundings) (body : σ) (bytes : Bytes) :
      p.session.body = some body → (Body.offer body).1 = .chunk bytes →
      (Body.take (Body.offer body).2 bytes.length).1 = .finished →
      Does p (p.hashing env bytes ++ (p.passed env bytes .finished body).judging)
        (p.passed env bytes .finished body).succeeded
  | failed (p : Play σ κ τ) (env : Surroundings) (body : σ) (cause : ReadFailure) :
      p.session.body = some body → (Body.offer body).1 = .failed cause →
      Does p [] ((p.log [.offer (.failed cause)]).broken env cause)
  | brokenChunk (p : Play σ κ τ) (env : Surroundings) (body : σ) (bytes : Bytes)
      (cause : ReadFailure) :
      p.session.body = some body → (Body.offer body).1 = .chunk bytes →
      (Body.take (Body.offer body).2 bytes.length).1 = .failed cause →
      Does p (p.hashing env bytes) ((p.passed env bytes (.failed cause) body).broken env cause)
  | stopped (p : Play σ κ τ) (env : Surroundings) (cause : Interruption) :
      p.session.outcome = none → Does p [] (p.stopped env cause)

/-- Strides, with all that was done on the way. -/
inductive Did (p : Play σ κ τ) : List Deed → Play σ κ τ → Prop
  | none : Did p [] p
  | more {deeds more : List Deed} {q r : Play σ κ τ} : Did p deeds q → Does q more r →
      Did p (deeds ++ more) r

theorem Does.stride {p q : Play σ κ τ} {deeds : List Deed} (h : Does p deeds q) : Stride p q := by
  cases h with
  | met f g => exact .met p f g
  | begun body sink hb ho => exact .begun p body sink hb ho
  | wait body hb hoffer => exact .beat _ _ (.wait p body hb hoffer)
  | chunk env body bytes hb hoffer htake => exact .beat _ _ (.chunk p env body bytes hb hoffer htake)
  | finished body hb hoffer => exact .beat _ _ (.finished p body hb hoffer)
  | lastChunk env body bytes hb hoffer htake =>
    exact .beat _ _ (.lastChunk p env body bytes hb hoffer htake)
  | failed env body cause hb hoffer => exact .beat _ _ (.failed p env body cause hb hoffer)
  | brokenChunk env body bytes cause hb hoffer htake =>
    exact .beat _ _ (.brokenChunk p env body bytes cause hb hoffer htake)
  | stopped env cause ho => exact .stopped p env cause ho

theorem Stride.does {p q : Play σ κ τ} (h : Stride p q) : ∃ deeds, Does p deeds q := by
  cases h with
  | met f g => exact ⟨_, .met p f g⟩
  | begun body sink hb ho => exact ⟨_, .begun p body sink hb ho⟩
  | beat _ hbeat =>
    cases hbeat with
    | wait body hb hoffer => exact ⟨_, .wait p body hb hoffer⟩
    | chunk env body bytes hb hoffer htake => exact ⟨_, .chunk p env body bytes hb hoffer htake⟩
    | finished body hb hoffer => exact ⟨_, .finished p body hb hoffer⟩
    | lastChunk env body bytes hb hoffer htake =>
      exact ⟨_, .lastChunk p env body bytes hb hoffer htake⟩
    | failed env body cause hb hoffer => exact ⟨_, .failed p env body cause hb hoffer⟩
    | brokenChunk env body bytes cause hb hoffer htake =>
      exact ⟨_, .brokenChunk p env body bytes cause hb hoffer htake⟩
  | stopped env cause ho => exact ⟨_, .stopped p env cause ho⟩

theorem Did.strides {p q : Play σ κ τ} {deeds : List Deed} (h : Did p deeds q) : Strides p q := by
  induction h with
  | none => exact .refl
  | more _ hdoes ih => exact ih.tail hdoes.stride

theorem Strides.did {p q : Play σ κ τ} (h : Strides p q) : ∃ deeds, Did p deeds q := by
  induction h with
  | refl => exact ⟨_, .none⟩
  | tail _ hstride ih =>
    obtain ⟨_, hdid⟩ := ih
    obtain ⟨_, hdoes⟩ := hstride.does
    exact ⟨_, hdid.more hdoes⟩

/-! ## The deeds are all that happens to the digest -/

omit [Body σ] in
theorem digest_passed (env : Surroundings) (p : Play σ κ τ) (bytes : Bytes) (taken : Taken)
    (rest : σ) : (p.passed env bytes taken rest).session.digest =
      digestAfter p.session.digest (p.hashing env bytes) := by
  cases hb : bytes.isEmpty with
  | true =>
    rw [passed_empty env p taken rest hb, hashing, if_pos hb]
    rfl
  | false =>
    obtain ⟨received, heq⟩ := passed_chunk env p taken rest hb
    rw [heq, hashing, if_neg (ne_true_of_eq_false hb)]
    simp only [log]
    split <;> rfl

omit [Body σ] in
theorem digest_succeeded (p : Play σ κ τ) :
    p.succeeded.session.digest = digestAfter p.session.digest p.judging := by
  show (p.session.trial.verdict p.session.digest p.store).2.1 = _
  rw [Trial.digest_verdict, judging]
  split <;> rfl

theorem Does.digest_eq {p q : Play σ κ τ} {deeds : List Deed} (h : Does p deeds q) :
    q.session.digest = digestAfter p.session.digest deeds := by
  cases h with
  | met | begun | wait | failed | stopped => rfl
  | chunk env body bytes => exact digest_passed env p bytes _ _
  | finished body => exact digest_succeeded _
  | lastChunk env body bytes =>
    rw [digestAfter_append, ← digest_passed env p bytes .finished body]
    exact digest_succeeded _
  | brokenChunk env body bytes cause => exact digest_passed env p bytes (.failed cause) body

theorem Did.digest_eq {p q : Play σ κ τ} {deeds : List Deed} (h : Did p deeds q) :
    q.session.digest = digestAfter p.session.digest deeds := by
  induction h with
  | none => rfl
  | more _ hdoes ih => rw [hdoes.digest_eq, ih, digestAfter_append]

/-! ## The digest is open when it is asked -/

variable {key : Key} {deeds : List Deed} {p q : Play σ κ τ}

omit [Body σ] in
/-- Until the trial begins nothing was fed, so the first chunk hashed is the first one fed. -/
theorem Added.passed (h : Added deeds p) (hreading : Reading key p) (env : Surroundings)
    (bytes : Bytes) (taken : Taken) (rest : σ) :
    Added (deeds ++ p.hashing env bytes) (p.passed env bytes taken rest) := by
  obtain ⟨chunks, rfl, hflatten⟩ := h
  cases hb : bytes.isEmpty with
  | true =>
    have hadded : Added (chunks.map .add) (⟨{ p.session with body := some rest }, p.store,
        p.trace⟩ : Play σ κ τ) := ⟨chunks, rfl, hflatten⟩
    rw [passed_empty env p taken rest hb, hashing, if_pos hb, List.append_nil]
    exact hadded.log (by simp [Call.isQuiet, hb])
  | false =>
    have hbegun := Trial.start_begun env.accepts p.session.trial p.store
    have hfed := fed_chunk env p taken rest hb
    obtain ⟨received, heq⟩ := passed_chunk env p taken rest hb
    have hphase : (p.passed env bytes taken rest).session.trial.phase =
        (p.session.trial.start env.accepts p.store).trial.phase := by rw [heq]; rfl
    rw [hashing, if_neg (ne_true_of_eq_false hb)]
    split
    · next hv =>
      refine ⟨chunks ++ [bytes], by simp, ?_⟩
      have hbefore : chunks.flatten = p.fed := by
        rw [hflatten, hashed]
        split
        · rfl
        · next hne =>
          have hu : p.session.trial.phase = .unread := by
            refine Decidable.byContradiction fun hu => hne ?_
            rwa [hbegun.eq_of_ne hu] at hv
          exact (hreading.fed_of_unread hu).symm
      rw [hashed, hphase, if_pos hv, hfed, List.flatten_append, hbefore]
      simp
    · next hv =>
      refine ⟨chunks, List.append_nil _, ?_⟩
      rw [hashed, hphase, if_neg hv, hflatten, hashed]
      refine if_neg fun hp => hv ?_
      rwa [hbegun.eq_of_ne (by simp [hp])]

omit [Body σ] in
theorem Added.succeeded (h : Added deeds p) (hreading : Reading key p) :
    Accounted key (deeds ++ p.judging) p.succeeded := by
  have hphase : p.succeeded.session.trial.phase = p.session.trial.phase :=
    (Trial.verdict_judged p.session.trial p.session.digest p.store).phase_eq
  have hfed : p.succeeded.fed = p.fed := (fed_ended _ _).trans (fed_judged p)
  refine ⟨deeds, p.judging, rfl, h.congr hphase hfed, ?_⟩
  by_cases hv : p.session.trial.phase = .validating
  · obtain ⟨r, artifact, hr, htrial, hcalls⟩ := hreading.course.of_validating hv
    obtain ⟨stored, hstored⟩ := Record.exists_digest?_of_artifact? hr
    have hrecord : p.session.trial.record = some r := by rw [htrial]
    have hget : .get key (.ok (some r)) ∈ p.succeeded.calls := by
      rw [Play.succeeded, calls_ended, calls_judged]
      exact List.mem_append_left _ ((mem_recordCalls rfl).1 (by simp [hcalls]))
    rw [judging, if_pos ⟨hv, by simp [hrecord, hstored]⟩]
    exact .compared p.session.trial _ r stored rfl hphase hv hget hrecord hstored
  · rw [judging, if_neg fun hand => hv hand.1]
    exact .idle p.session.trial _ rfl hphase hv

theorem does_accounted {more : List Deed} (h : Accounted key deeds p) (hkept : Kept key p)
    (hdoes : Does p more q) : Accounted key (deeds ++ more) q := by
  cases hdoes with
  | met f g =>
    rw [List.append_nil]
    exact h.meet f g
  | begun body sink hb ho =>
    have hadded : Added deeds (p.begun body sink) := (h.added ho).congr rfl rfl
    rw [List.append_nil]
    exact hadded.accounted (by simp [begun, ho])
  | wait body hb hoffer =>
    have ho := hkept.ongoing_of_body (by simp [hb])
    have hadded : Added deeds (⟨{ p.session with body := some (Body.offer body).2 }, p.store,
        p.trace⟩ : Play σ κ τ) := (h.added ho).congr rfl rfl
    rw [List.append_nil]
    exact (hadded.log (by simp [Call.isQuiet])).accounted (by simp [log, ho])
  | chunk env body bytes hb hoffer htake =>
    have ho := hkept.ongoing_of_body (by simp [hb])
    have hreading := hkept.reading ho
    refine ((h.added ho).passed hreading env bytes .more _).accounted ?_
    rw [(reading_passed hreading env bytes .more _).ongoing]
    simp
  | finished body hb hoffer =>
    have ho := hkept.ongoing_of_body (by simp [hb])
    have hquiet : ∀ c ∈ [Call.offer .finished], c.isQuiet := by simp [Call.isQuiet]
    exact ((h.added ho).log hquiet).succeeded (reading_log (hkept.reading ho) hquiet)
  | lastChunk env body bytes hb hoffer htake =>
    have ho := hkept.ongoing_of_body (by simp [hb])
    have hreading := hkept.reading ho
    rw [← List.append_assoc]
    exact ((h.added ho).passed hreading env bytes .finished body).succeeded
      (reading_passed hreading env bytes .finished body)
  | failed env body cause hb hoffer =>
    have ho := hkept.ongoing_of_body (by simp [hb])
    rw [List.append_nil]
    exact ((h.added ho).log (by simp [Call.isQuiet])).failed _
  | brokenChunk env body bytes cause hb hoffer htake =>
    have ho := hkept.ongoing_of_body (by simp [hb])
    exact ((h.added ho).passed (hkept.reading ho) env bytes (.failed cause) body).failed _
  | stopped env cause ho =>
    rw [List.append_nil]
    refine ((h.added ho).log ?_).failed _
    split <;> simp [Call.isQuiet]

theorem did_accounted {url : String} {key : Key} {store : Option τ} {deeds : List Deed}
    {p : Play σ κ τ} (h : Did (opening url key token store) deeds p) : Accounted key deeds p := by
  induction h with
  | none => exact Added.accounted ⟨[], rfl, rfl⟩ (by simp [opening, Session.new])
  | more hdid hdoes ih => exact does_accounted ih (strides_kept hdid.strides) hdoes

/-! ## No hash fails -/

/-- Whatever is asked of a session, its body delivers, its store answers and others do. -/
theorem hashing_never_fails (url : String) (key : Key) (token : Token) (store : Option τ) :
    let p₀ : Play σ κ τ := opening url key token store
    (∀ moves, ∃ deeds, Did p₀ deeds (p₀.run moves)) ∧
    ∀ deeds p, Did p₀ deeds p →
      -- The deeds are all that happens to the digest.
      p.session.digest = RunningDigest.empty.used (deeds.filterMap Deed.use?) ∧
      -- They add what is hashed, chunk by chunk, until a verdict is called for. That is done
      -- once, and nothing comes after it but the closing of the digest.
      (∃ (chunks : List Bytes) (last : List Deed),
        deeds = chunks.map .add ++ last ∧ chunks.flatten = p.hashed ∧
        (last = [] ∧ (∀ trusted, p.session.outcome ≠ some (.compiled trusted)) ∨
          ∃ trial trusted, p.session.outcome = some (.compiled trusted) ∧
            p.session.trial.phase = trial.phase ∧
            (trial.phase ≠ .validating ∧ last = [.judge trial] ∨
              -- The trial of a record that the compiler has taken: the digest is closed, and
              -- the record, which has a digest, is confirmed or evicted.
              trial.phase = .validating ∧ last = [.judge trial, .hash .close] ∧
                ∃ r stored, .get key (.ok (some r)) ∈ p.calls ∧ trial.record = some r ∧
                  r.digest? = some stored ∧
                  (trusted = true ∧ stored = Digest.compute p.fed ∨
                    trusted = false ∧ stored ≠ Digest.compute p.fed ∧
                      ∃ done, .evict key done ∈ p.calls)))) ∧
      -- So no hash fails, and no record is turned away because one did.
      p.session.digest.misused = false ∧ p.session.trial.flaw ≠ some .unhashed ∧
      p.session.digest.count = p.hashed.length := by
  intro p₀
  refine ⟨fun moves => (run_strides p₀ moves).did, fun deeds p hdid => ?_⟩
  have hcourse := (strides_kept hdid.strides).course
  have haccounted := did_accounted hdid
  have hdigest : p.session.digest = digestAfter .empty deeds := hdid.digest_eq
  obtain ⟨hmisused, hcount⟩ := haccounted.digest
  refine ⟨hdigest, ?_, hdigest ▸ hmisused, hcourse.flaw_ne_unhashed, hdigest ▸ hcount⟩
  obtain ⟨_, last, rfl, ⟨chunks, rfl, hflatten⟩, hcloses⟩ := haccounted
  refine ⟨chunks, last, rfl, hflatten, ?_⟩
  cases hcloses with
  | unjudged hnot => exact .inl ⟨rfl, hnot⟩
  | idle trial trusted ho hp hne => exact .inr ⟨trial, trusted, ho, hp, .inl ⟨hne, rfl⟩⟩
  | compared trial trusted r stored ho hp hv hget hr hd =>
    rw [ho] at hcourse
    have hsettled := hcourse.settled (hp.trans hv) ((mem_recordCalls rfl).2 hget)
    have hevict : ∀ done, .evict key done ∈ p.recordCalls ↔ .evict key done ∈ p.calls :=
      fun _ => mem_recordCalls rfl
    refine .inr ⟨trial, trusted, ho, hp, .inr ⟨hv, rfl, r, stored, hget, hr, hd, ?_⟩⟩
    simpa [hd, hevict] using hsettled

end Deeds

end Play

end CompileCache
