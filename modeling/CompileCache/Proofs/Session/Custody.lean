/-
  CompileCache.Proofs.Session.Custody — the record on trial and the recorder's hold on it.

  A record on trial is held twice: by the trial, and by the recorder for a compiler that may
  be reading it. All that a recorder hears of it are the session's calls to keep it and to let
  go of it (`Recorder.hear`, `carryAll_recorders`). A session's course says what these calls
  are, so it also says what the recorder holds (`Course.heard`).

  A session is looked at between any two `Stride`s, so also in the middle of a turn. The
  phase of its trial moves with one stride, the one that reads the first chunk that is not
  empty (`Stride.phase`).

  Proved: trial and recorder hold the same record, the one that was found, as long as nothing
  speaks against it; a record found wanting is let go of before the compiler is told, and one
  that is trusted stays with the recorder (`custody_follows_trial`).
-/

import CompileCache.Embedder.Callbacks
import CompileCache.Proofs.Session.Verdict

namespace CompileCache

variable {σ κ τ : Type}

/-! ## What a recorder hears -/

/-- The recorder after a call of the session that it was given for. -/
def Recorder.hear (c : Recorder) : Call → Recorder
  | .keep record => c.keep record
  | .letGo => c.letGo
  | _ => c

/-- The recorder after all the calls of a trace. -/
def Recorder.heard (c : Recorder) (trace : List (Notice κ)) : Recorder :=
  (trace.filterMap Notice.call?).foldl Recorder.hear c

theorem Recorder.hear_of_not_aboutRecord (c : Recorder) {call : Call}
    (h : call.aboutRecord = false) : c.hear call = c := by
  cases call <;> simp_all [hear, Call.aboutRecord]

/-- Calls that are about no record are not heard. -/
theorem Recorder.foldl_hear_filter (c : Recorder) (calls : List Call) :
    (calls.filter Call.aboutRecord).foldl hear c = calls.foldl hear c := by
  induction calls generalizing c with
  | nil => rfl
  | cons call calls ih =>
    cases h : call.aboutRecord with
    | true => rw [List.filter_cons_of_pos h, List.foldl_cons, List.foldl_cons, ih]
    | false =>
      rw [List.filter_cons_of_neg (by simp [h]), List.foldl_cons, hear_of_not_aboutRecord c h, ih]

/-- Of a recorder that kept nothing, what it holds after the calls of a course. -/
theorem Trial.Course.heard {key : Key} {wire : Bytes} {outcome : Option Outcome} {t : Trial}
    {calls : List Call} (h : Course key wire outcome t calls) {c : Recorder} (hc : c.kept = none) :
    (calls.foldl Recorder.hear c).kept = t.record := by
  cases h <;> simp [Recorder.hear, Recorder.keep, Recorder.letGo, hc]

/-- A record is on trial as long as nothing speaks against it. -/
theorem Trial.Course.isSome_record_iff {key : Key} {wire : Bytes} {outcome : Option Outcome}
    {t : Trial} {calls : List Call} (h : Course key wire outcome t calls) :
    t.record.isSome ↔ t.phase = .validating ∧ t.flaw = none := by
  cases h <;> simp

/-- A flaw is never found without letting go of the record. -/
theorem Trial.Course.letGo_of_flaw {key : Key} {wire : Bytes} {outcome : Option Outcome}
    {t : Trial} {calls : List Call} (h : Course key wire outcome t calls) (hf : t.flaw ≠ none) :
    .letGo ∈ calls ∧ t.record = none := by
  cases h <;> simp_all

theorem Trial.Course.record_of_trusted {key : Key} {wire : Bytes} {t : Trial} {calls : List Call}
    (h : Course key wire (some (.compiled true)) t calls) :
    ∃ r, .get key (.ok (some r)) ∈ calls ∧ t.record = some r := by
  cases h <;> simp_all

theorem Trial.Course.record_of_untrusted {key : Key} {wire : Bytes} {t : Trial} {calls : List Call}
    (h : Course key wire (some (.compiled false)) t calls) : t.record = none := by
  cases h <;> simp_all

namespace Embedder

theorem carry_recorders (w : Wiring) (m : Embedder) (script : Option Body.Scripted) (call : Call)
    {id : RecorderId} (hw : w.recorder = some id) :
    (m.carry w script call).1.recorders = m.recorders.modify id (·.hear call) := by
  have hsame : ∀ recorders : List Recorder, recorders.modify id (fun c => c) = recorders :=
    fun recorders => List.modify_id id recorders
  cases call with
  | offer answer => cases script <;> exact (hsame _).symm
  | take count answer => cases script <;> exact (hsame _).symm
  | cancelBody => cases script <;> exact (hsame _).symm
  | get key answer => cases hs : w.store <;> simp only [carry, logStore, hs] <;> exact (hsame _).symm
  | evict key answer => cases hs : w.store <;> simp only [carry, logStore, hs] <;> exact (hsame _).symm
  | tryArtifact artifact taken => exact (hsame _).symm
  | feed chunk => exact (hsame _).symm
  | keep record => simp only [carry, onRecorder, hw]; rfl
  | letGo => simp only [carry, onRecorder, hw]; rfl

/-- The recorder that a session is wired to hears its calls, and no other recorder does. -/
theorem carryAll_recorders (w : Wiring) (m : Embedder) (script : Option Body.Scripted)
    (calls : List Call) {id : RecorderId} (hw : w.recorder = some id) :
    (m.carryAll w script calls).recorders = m.recorders.modify id (calls.foldl Recorder.hear) := by
  induction calls generalizing m script with
  | nil => exact (List.modify_id id m.recorders).symm
  | cons call calls ih =>
    show ((m.carry w script call).1.carryAll w (m.carry w script call).2 calls).recorders = _
    rw [ih, carry_recorders w m script call hw, List.modify_modify_eq]
    rfl

end Embedder

/-! ## Between any two strides -/

/-- Whether the call brings bytes of the body. -/
def Call.bringsBytes : Call → Bool
  | offer (.chunk bytes) => !bytes.isEmpty
  | _ => false

theorem Call.not_bringsBytes_of_aboutRecord {c : Call} (h : c.aboutRecord) :
    c.bringsBytes = false := by
  cases c <;> simp_all [aboutRecord, bringsBytes]

namespace Play

variable [Body σ] [Store τ]

/-- The least that can become of a play: others have done something, a body is taken, one read
    is done, or the session is stopped. -/
inductive Stride : Play σ κ τ → Play σ κ τ → Prop
  | met (p : Play σ κ τ) (onBody : σ → σ) (onStore : τ → τ) : Stride p (p.meet onBody onStore)
  | begun (p : Play σ κ τ) (body : σ) (sink : κ) : p.session.body = none →
      p.session.outcome = none → Stride p (p.begun body sink)
  | beat (p q : Play σ κ τ) : Beat p q → Stride p q
  | stopped (p : Play σ κ τ) (env : Surroundings) (cause : Interruption) :
      p.session.outcome = none → Stride p (p.stopped env cause)

abbrev Strides : Play σ κ τ → Play σ κ τ → Prop := Relation.ReflTransGen Stride

theorem run_strides (p : Play σ κ τ) (moves : List (Move σ κ τ)) : Strides p (p.run moves) :=
  run_keeps (fun _ f g h => h.tail (.met _ f g))
    (fun _ body sink hb ho h => h.tail (.begun _ body sink hb ho))
    (fun _ _ hbeat h => h.tail (.beat _ _ hbeat))
    (fun _ env cause ho h => h.tail (.stopped _ env cause ho)) .refl moves

theorem strides_kept {url : String} {key : Key} {store : Option τ} {p : Play σ κ τ}
    (h : Strides (opening url key token store) p) : Kept key p := by
  induction h with
  | refl => exact kept_opening url key token store
  | tail _ hstride ih =>
    cases hstride with
    | met f g => exact kept_meet ih f g
    | begun body sink hb ho =>
      have hreading : Reading key (begun _ body sink) := (ih.reading ho).congr ho rfl rfl rfl rfl
      exact hreading.kept (ih.not_bodyEnded ho)
    | beat _ hbeat => exact beat_kept hbeat ih
    | stopped env cause ho => exact kept_stopped ih ho env cause

theorem strides_owe {url : String} {key : Key} {store : Option τ} {p : Play σ κ τ}
    (h : Strides (opening url key token store) p) : ∃ sink, Owes sink p := by
  induction h with
  | refl => exact ⟨none, owes_opening url key token store⟩
  | tail _ hstride ih =>
    obtain ⟨sink, hsink⟩ := ih
    cases hstride with
    | met f g => exact ⟨sink, owes_meet hsink f g⟩
    | begun body taken hb ho =>
      -- Without a body there was no sink either.
      have hnone : sink = none := by
        have hheld := (hsink.held ho).2
        rw [hb] at hheld
        exact Option.not_isSome_iff_eq_none.1 (by simp [← hheld])
      exact ⟨some taken, owes_begun (hnone ▸ hsink) ho body taken⟩
    | beat _ hbeat => exact ⟨sink, beat_owes hbeat hsink⟩
    | stopped env cause ho => exact ⟨sink, owes_stopped hsink ho env cause⟩

/-- Nothing becomes of a session that has ended. -/
theorem strides_of_ended {p q : Play σ κ τ} (h : Strides p q) (ho : p.session.outcome.isSome)
    (hb : p.session.body = none) : q.session = p.session ∧ q.trace = p.trace := by
  induction h with
  | refl => exact ⟨rfl, rfl⟩
  | tail _ hstride ih =>
    obtain ⟨hsession, htrace⟩ := ih
    rw [← hsession] at ho hb
    cases hstride with
    | met f g => exact ⟨(session_meet_of_bodiless hb f g).trans hsession, htrace⟩
    | begun body sink _ hnone => simp [hnone] at ho
    | beat _ hbeat => cases hbeat <;> simp_all
    | stopped env cause hnone => simp [hnone] at ho

/-! ## When the phase moves -/

/-- The phase has moved exactly if there were none before and bytes were brought. -/
def Moved (p q : Play σ κ τ) : Prop :=
  ∃ new, q.calls = p.calls ++ new ∧ (q.session.trial.phase ≠ p.session.trial.phase ↔
    p.session.trial.phase = .unread ∧ ∃ c ∈ new, c.bringsBytes)

/-- No bytes were brought, and the phase is what it was. -/
def Still (p q : Play σ κ τ) : Prop :=
  ∃ new, q.calls = p.calls ++ new ∧ (∀ c ∈ new, c.bringsBytes = false) ∧
    q.session.trial.phase = p.session.trial.phase

omit [Body σ] [Store τ] in
theorem Moved.then {p q r : Play σ κ τ} (h : Moved p q) (hqr : Still q r) : Moved p r := by
  obtain ⟨new, hnew, hmoved⟩ := h
  obtain ⟨more, hmore, hnone, hsame⟩ := hqr
  refine ⟨new ++ more, by rw [hmore, hnew, List.append_assoc], ?_⟩
  rw [hsame, hmoved]
  simp only [List.mem_append, or_and_right, exists_or, and_congr_right_iff]
  intro _
  exact ⟨.inl, fun h => h.resolve_right fun ⟨c, hc, hbrings⟩ => by simp [hnone c hc] at hbrings⟩

omit [Body σ] [Store τ] in
theorem Still.trans {p q r : Play σ κ τ} (h : Still p q) (hqr : Still q r) : Still p r := by
  obtain ⟨new, hnew, hnone, hsame⟩ := h
  obtain ⟨more, hmore, hnone', hsame'⟩ := hqr
  refine ⟨new ++ more, by rw [hmore, hnew, List.append_assoc], fun c hc => ?_, hsame'.trans hsame⟩
  rcases List.mem_append.1 hc with hc | hc
  · exact hnone c hc
  · exact hnone' c hc

omit [Body σ] [Store τ] in
theorem Still.moved {p q : Play σ κ τ} (h : Still p q) : Moved p q := by
  obtain ⟨new, hnew, hnone, hsame⟩ := h
  refine ⟨new, hnew, fun hne => absurd hsame hne, fun ⟨_, c, hc, hbrings⟩ => ?_⟩
  simp [hnone c hc] at hbrings

omit [Body σ] [Store τ] in
theorem still_log (p : Play σ κ τ) {calls : List Call} (h : ∀ c ∈ calls, c.bringsBytes = false) :
    Still p (p.log calls) :=
  ⟨calls, calls_log p calls, h, rfl⟩

omit [Body σ] [Store τ] in
theorem still_ended (p : Play σ κ τ) (outcome : Outcome) : Still p (p.ended outcome) :=
  ⟨[], by simp, List.forall_mem_nil _, rfl⟩

omit [Body σ] in
theorem still_succeeded (p : Play σ κ τ) : Still p p.succeeded := by
  have hjudged := Trial.verdict_judged p.session.trial p.session.digest p.store
  have hstill : Still p p.judged :=
    ⟨_, calls_log _ _, fun c hc => Call.not_bringsBytes_of_aboutRecord (hjudged.aboutRecord c hc),
      hjudged.phase_eq⟩
  exact hstill.trans (still_ended _ _)

omit [Body σ] in
theorem moved_passed (env : Surroundings) (p : Play σ κ τ) (bytes : Bytes) (taken : Taken)
    (rest : σ) : Moved p (p.passed env bytes taken rest) := by
  cases hb : bytes.isEmpty with
  | true =>
    rw [passed_empty env p taken rest hb]
    exact Still.moved ⟨_, calls_log _ _, by simp [Call.bringsBytes, hb], rfl⟩
  | false =>
    have hbegun := Trial.start_begun env.accepts p.session.trial p.store
    refine ⟨_, (calls_chunk env p taken rest hb).trans (List.append_assoc ..), ?_⟩
    obtain ⟨received, heq⟩ := passed_chunk env p taken rest hb
    have hbrings : ∃ c ∈ Call.offer (.chunk bytes) ::
        (p.session.trial.start env.accepts p.store).calls ++ [.feed bytes, .take bytes.length taken],
        c.bringsBytes := ⟨_, List.mem_cons_self .., by simp [Call.bringsBytes, hb]⟩
    simp only [hbrings, and_true, heq]
    constructor
    · intro hne
      refine Decidable.byContradiction fun hu => hne ?_
      rw [hbegun.eq_of_ne hu]
      rfl
    · intro hu
      rw [hu]
      exact hbegun.phase_ne

theorem Stride.phase {p q : Play σ κ τ} (h : Stride p q) : Moved p q := by
  cases h with
  | met f g => exact Still.moved ⟨[], by simp [Play.calls, meet], List.forall_mem_nil _, rfl⟩
  | begun body sink _ _ =>
    exact Still.moved ⟨[], by simp [Play.calls, Play.begun], List.forall_mem_nil _, rfl⟩
  | beat _ hbeat =>
    cases hbeat with
    | wait body _ _ => exact Still.moved ⟨_, calls_log _ _, by simp [Call.bringsBytes], rfl⟩
    | chunk env body bytes _ _ _ => exact moved_passed env p bytes _ _
    | finished body _ _ =>
      exact ((still_log p (by simp [Call.bringsBytes])).trans (still_succeeded _)).moved
    | lastChunk env body bytes _ _ _ =>
      exact (moved_passed env p bytes _ _).then (still_succeeded _)
    | failed env body cause _ _ =>
      exact ((still_log p (by simp [Call.bringsBytes])).trans (still_ended _ _)).moved
    | brokenChunk env body bytes cause _ _ _ =>
      exact (moved_passed env p bytes _ _).then (still_ended _ _)
  | stopped env cause _ =>
    refine ((still_log p ?_).trans (still_ended _ _)).moved
    split <;> simp [Call.bringsBytes]

theorem unread_iff {url : String} {key : Key} {store : Option τ} {p : Play σ κ τ}
    (h : Strides (opening url key token store) p) :
    p.session.trial.phase = .unread ↔ ∀ c ∈ p.calls, c.bringsBytes = false := by
  induction h with
  | refl => simp [opening, Session.new, Play.calls]
  | tail _ hstride ih =>
    obtain ⟨new, hnew, hmoved⟩ := hstride.phase
    have hnone : (∀ c ∈ new, c.bringsBytes = false) ↔ ¬ ∃ c ∈ new, c.bringsBytes := by simp
    rw [hnew, List.forall_mem_append, ← ih, hnone]
    constructor
    · intro hq
      have hu := Decidable.byContradiction fun hu => hu (hmoved.1 fun hsame => hu (hsame ▸ hq)).1
      exact ⟨hu, fun hbrings => hmoved.2 ⟨hu, hbrings⟩ (hq.trans hu.symm)⟩
    · rintro ⟨hu, hbrings⟩
      exact Decidable.byContradiction fun hq => hbrings (hmoved.1 fun hsame => hq (hsame.trans hu)).2

/-- Once it has moved, the phase does not move again. -/
theorem strides_phase {p q : Play σ κ τ} (h : Strides p q) (hp : p.session.trial.phase ≠ .unread) :
    q.session.trial.phase = p.session.trial.phase := by
  induction h with
  | refl => rfl
  | tail _ hstride ih =>
    obtain ⟨_, _, hmoved⟩ := hstride.phase
    refine .trans (Decidable.byContradiction fun hne => hp ?_) ih
    rw [← ih]
    exact (hmoved.1 hne).1

/-- Every state of a session whose recorder `c` nobody else touches. -/
theorem custody_follows_trial (url : String) (key : Key) (token : Token) (store : Option τ)
    (recorder : Recorder) :
    let p₀ : Play σ κ τ := opening url key token store
    let c : Recorder := { recorder with kept := none }
    -- Whatever is asked of the session, strides lead to it.
    (∀ moves, Strides p₀ (p₀.run moves)) ∧
    -- An embedder lets the recorder that a session is wired to hear its calls.
    (∀ (m : Embedder) (w : Wiring) script calls id, w.recorder = some id →
      (m.carryAll w script calls).recorders = m.recorders.modify id (calls.foldl Recorder.hear)) ∧
    ∀ p, Strides p₀ p →
      let trial := p.session.trial
      -- Both hold the same record: the one that was found, as long as nothing speaks against it.
      (c.heard p.trace).kept = trial.record ∧
      (trial.record.isSome ↔ trial.phase = .validating ∧ trial.flaw = none) ∧
      (∀ r, trial.record = some r → .get key (.ok (some r)) ∈ p.calls) ∧
      -- The phase moves once, with the first chunk that is not empty.
      (trial.phase = .unread ↔ ∀ call ∈ p.calls, call.bringsBytes = false) ∧
      (∀ q, Stride p q → ∃ new, q.calls = p.calls ++ new ∧
        (q.session.trial.phase ≠ trial.phase ↔
          trial.phase = .unread ∧ ∃ call ∈ new, call.bringsBytes)) ∧
      (trial.phase ≠ .unread → ∀ q, Strides p q → q.session.trial.phase = trial.phase) ∧
      -- A record found wanting is let go of, by both and before the compiler is told.
      (trial.flaw ≠ none → .letGo ∈ p.calls ∧ trial.record = none) ∧
      (p.session.outcome = some (.compiled false) → trial.record = none ∧
        ∃ told, p.trace = p.calls.map .call ++ .compilerTold (.compiled false) :: told) ∧
      -- A record that is trusted stays with the recorder, whatever becomes of the session.
      (p.session.outcome = some (.compiled true) → ∃ r, .get key (.ok (some r)) ∈ p.calls ∧
        ∀ q, Strides p q → (c.heard q.trace).kept = some r ∧ (c.heard q.dropped).kept = some r) := by
  intro p₀ c
  refine ⟨fun moves => run_strides p₀ moves,
    fun m w script calls id hw => Embedder.carryAll_recorders w m script calls hw, fun p hp => ?_⟩
  intro trial
  have hkept := strides_kept hp
  have hcourse := hkept.course
  have hheard : ∀ q, Strides p₀ q → (c.heard q.trace).kept = q.session.trial.record := by
    intro q hq
    show (q.calls.foldl Recorder.hear c).kept = _
    rw [← Recorder.foldl_hear_filter]
    exact (strides_kept hq).course.heard rfl
  refine ⟨hheard p hp, hcourse.isSome_record_iff,
    fun r hr => (mem_recordCalls rfl).1 (hcourse.of_record hr), unread_iff hp,
    fun q hq => hq.phase, fun hphase q hq => strides_phase hq hphase, fun hf => ?_, fun ho => ?_,
    fun ho => ?_⟩
  · obtain ⟨hletGo, hnone⟩ := hcourse.letGo_of_flaw hf
    exact ⟨(mem_recordCalls rfl).1 hletGo, hnone⟩
  · obtain ⟨sink, howes⟩ := strides_owe hp
    rw [ho] at hcourse
    exact ⟨hcourse.record_of_untrusted, _, howes.told ho⟩
  · rw [ho] at hcourse
    obtain ⟨r, hfound, hr⟩ := hcourse.record_of_trusted
    refine ⟨r, (mem_recordCalls rfl).1 hfound, fun q hq => ?_⟩
    have hended : p.session.outcome.isSome := Option.isSome_of_eq_some ho
    obtain ⟨hsession, -⟩ := strides_of_ended hq hended (hkept.letGo hended)
    have hstays : (c.heard q.trace).kept = some r := by
      rw [hheard q (hp.trans hq), hsession]
      exact hr
    refine ⟨hstays, ?_⟩
    rw [dropped_of_ended (by rw [hsession, ho])]
    exact hstays

end Play

end CompileCache
