/-
  CompileCache.Proofs.Session.Reading — what a session says to its body.

  Between one read and the next a session says how much it took of what it was offered: all
  of it, and nothing if nothing was offered. What is not empty is fed to the compiler in
  between. So what is said to the body, with what is fed, is a word of `Read`s. A read
  `closes` if the body says that it has ended or failed.

  The reads of one turn go on until the body must wait or closes, and closing ends the
  session (`read_word`, `turn_word`). The reads of a run are those of its turns, and only the
  last can close; or none does, and the session is stopped from outside, which is the one
  thing the body is told besides (`Spoken`, `run_spoken`).

  Proved: that, of every run and of each further turn (`reading_protocol`). With its end the
  session lets go of the body, and whoever still sends finds the pipe closed.
-/

import CompileCache.Body.Senders
import CompileCache.Proofs.Session.Reception

namespace CompileCache

variable {σ κ τ : Type}

/-! ## Words -/

namespace Body

/-- One read of a body. -/
inductive Read where
  | wait
  /-- A chunk, taken whole. -/
  | chunk (bytes : Bytes) (taken : Taken)
  | finished
  | failed (cause : ReadFailure)
  deriving DecidableEq, Repr

namespace Read

/-- What is said to the body, and what the compiler is fed on the way. -/
def calls : Read → List Call
  | wait => [.offer .wait]
  | chunk bytes taken =>
    if bytes.isEmpty then [.offer (.chunk bytes), .take bytes.length taken]
    else [.offer (.chunk bytes), .feed bytes, .take bytes.length taken]
  | finished => [.offer .finished]
  | failed cause => [.offer (.failed cause)]

/-- Whether the body says that it has ended or failed. -/
def closes : Read → Bool
  | wait | chunk _ .more => false
  | _ => true

def word (reads : List Read) : List Call := reads.flatMap calls

@[simp] theorem word_nil : word [] = [] := rfl

@[simp] theorem word_cons (r : Read) (reads : List Read) :
    word (r :: reads) = r.calls ++ word reads := rfl

@[simp] theorem word_append (reads more : List Read) :
    word (reads ++ more) = word reads ++ word more :=
  List.flatMap_append

theorem cancelBody_not_mem_word (reads : List Read) : .cancelBody ∉ word reads := by
  intro h
  obtain ⟨r, -, hr⟩ := List.mem_flatMap.1 h
  cases r with
  | chunk bytes taken => by_cases hb : bytes.isEmpty <;> simp [calls, hb] at hr
  | _ => simp [calls] at hr

end Read

end Body

open Body (Read)

/-- Whether the call belongs to a read, or cancels the body. -/
def Call.ofBody (c : Call) : Bool := c.toBody || c.fedChunk?.isSome

theorem Call.not_ofBody_of_aboutRecord {c : Call} (h : c.aboutRecord) : c.ofBody = false := by
  rw [ofBody, not_toBody_of_aboutRecord h, fedChunk?_of_aboutRecord h]
  rfl

/-- Whether the operation ends a session from outside. -/
def Session.Operation.stops : Session.Operation σ κ → Bool
  | cancel | withdraw => true
  | _ => false

namespace Session

section Word

variable [Store τ]

theorem ofBody_pass (env : Surroundings) (s : Session σ κ) (store : Option τ) (chunk : Bytes) :
    (s.pass env store chunk).2.2.filter Call.ofBody =
      if chunk.isEmpty then [] else [.feed chunk] := by
  have habout := (Trial.start_begun env.accepts s.trial store).aboutRecord
  have hstart : (s.trial.start env.accepts store).calls.filter Call.ofBody = [] := by
    rw [List.filter_eq_nil_iff]
    intro c hc
    simp [Call.not_ofBody_of_aboutRecord (habout c hc)]
  unfold pass
  by_cases hb : chunk.isEmpty
  · simp [hb]
  · simp [hb, hstart, Call.ofBody, Call.fedChunk?]

theorem ofBody_succeed (s : Session σ κ) (store : Option τ) :
    (s.succeed store).calls.filter Call.ofBody = [] := by
  rw [List.filter_eq_nil_iff]
  intro c hc
  simp [Call.not_ofBody_of_aboutRecord ((Trial.verdict_judged ..).aboutRecord c hc)]

/-- The calls of one chunk are those of one read. -/
theorem ofBody_chunk {env : Surroundings} {s s' : Session σ κ} {store store' : Option τ}
    {bytes : Bytes} {calls : List Call} (h : s.pass env store bytes = (s', store', calls))
    (taken : Taken) :
    (Call.offer (.chunk bytes) :: calls ++ [Call.take bytes.length taken]).filter Call.ofBody =
      (Read.chunk bytes taken).calls := by
  have hpass : calls.filter Call.ofBody = if bytes.isEmpty then [] else [.feed bytes] := by
    rw [← ofBody_pass env s store bytes, h]
  have htake : [Call.take bytes.length taken].filter Call.ofBody = [.take bytes.length taken] := rfl
  rw [List.filter_append, List.filter_cons_of_pos rfl, hpass, htake]
  by_cases hb : bytes.isEmpty <;> simp [Read.calls, hb]

/-- The reads of a turn: chunks, until one read suspends the session or ends it. -/
def Reads (t : Turn σ κ τ) : Prop :=
  ∃ (chunks : List Bytes) (last : Read),
    t.calls.filter Call.ofBody = Read.word (chunks.map (.chunk · .more) ++ [last]) ∧
    (last = .wait ∧ t.session.outcome = none ∨ last.closes ∧ t.session.outcome.isSome)

omit [Store τ] in
theorem Reads.one {t : Turn σ κ τ} {r : Read} (hcalls : t.calls.filter Call.ofBody = r.calls)
    (hlast : r = .wait ∧ t.session.outcome = none ∨ r.closes ∧ t.session.outcome.isSome) :
    Reads t := by
  refine ⟨[], r, ?_, hlast⟩
  simpa using hcalls

omit [Store τ] in
/-- A turn that ends with its first read. -/
theorem Reads.closed {t : Turn σ κ τ} {r : Read} {calls : List Call}
    (hcalls : calls.filter Call.ofBody = r.calls) (hclose : r.closes)
    (hrest : t.calls.filter Call.ofBody = []) (hended : t.session.outcome.isSome) :
    Reads (t.after calls) := by
  refine .one ?_ (.inr ⟨hclose, hended⟩)
  show (calls ++ t.calls).filter Call.ofBody = r.calls
  rw [List.filter_append, hcalls, hrest, List.append_nil]

omit [Store τ] in
theorem Reads.not_cancelled {t : Turn σ κ τ} (h : Reads t) : .cancelBody ∉ t.calls := by
  obtain ⟨chunks, last, hword, -⟩ := h
  intro hmem
  refine Read.cancelBody_not_mem_word (chunks.map (.chunk · .more) ++ [last]) ?_
  rw [← hword]
  exact List.mem_filter.2 ⟨hmem, rfl⟩

variable [Body σ]

theorem read_word (env : Surroundings) (s : Session σ κ) (body : σ) (store : Option τ)
    (ho : s.outcome = none) : Reads (s.read env body store) := by
  fun_induction Session.read env s body store with
  | case1 s body store rest hoffer => exact .one (r := .wait) rfl (.inl ⟨rfl, ho⟩)
  | case2 s body store hoffer =>
    exact .closed (r := .finished) rfl rfl (ofBody_succeed s store) rfl
  | case3 s body store cause hoffer => exact .one (r := .failed cause) rfl (.inr ⟨rfl, rfl⟩)
  | case4 s body store rest bytes hoffer s' store' calls hpass taken all htaken ih =>
    have ho' : s'.outcome = none := by
      have hsame := outcome_pass env s store bytes
      rw [hpass] at hsame
      exact hsame.trans ho
    obtain ⟨chunks, last, hword, hlast⟩ := ih ho'
    refine ⟨bytes :: chunks, last, ?_, hlast⟩
    have hall : all.filter Call.ofBody = (Read.chunk bytes .more).calls := by
      rw [← htaken]
      exact ofBody_chunk hpass taken
    show (all ++ _).filter Call.ofBody = _
    rw [List.filter_append, hall, hword]
    rfl
  | case5 s body store rest bytes hoffer s' store' calls hpass taken all htaken =>
    exact .closed (r := .chunk bytes taken) (ofBody_chunk hpass taken) (by rw [htaken]; rfl)
      (ofBody_succeed s' store') rfl
  | case6 s body store rest bytes hoffer s' store' calls hpass taken all cause htaken =>
    exact .one (r := .chunk bytes taken) (ofBody_chunk hpass taken)
      (.inr ⟨by rw [htaken]; rfl, rfl⟩)

/-- Whether the operation makes the session read. -/
def reads (s : Session σ κ) : Operation σ κ → Bool
  | .start .. => s.body.isNone && s.outcome.isNone
  | .resume => s.body.isSome
  | _ => false

/-- Whether the operation makes the session cancel its body. -/
def cancels (s : Session σ κ) (o : Operation σ κ) : Bool := o.stops && s.body.isSome

/-- What an operation says to the body. -/
inductive Speaks (s : Session σ κ) (o : Operation σ κ) (t : Turn σ κ τ) : Prop
  | reads : s.reads o → s.outcome = none → Reads t → Speaks s o t
  | cancels : s.reads o = false → s.cancels o → s.outcome = none → t.calls = [.cancelBody] →
      t.session.outcome.isSome → Speaks s o t
  | silent : s.reads o = false → s.cancels o = false → t.calls = [] →
      (t.session.outcome = none → s.outcome = none) → Speaks s o t

omit [Store τ] [Body σ] in
theorem stop_speaks {s : Session σ κ} {o : Operation σ κ} (ho : o.stops)
    (hletGo : s.outcome.isSome → s.body = none) (env : Surroundings) (store : Option τ)
    (cause : Interruption) : Speaks s o (s.stop env store cause) := by
  have hreads : s.reads o = false := by cases o <;> simp_all [Operation.stops, reads]
  cases hended : s.outcome with
  | some outcome =>
    have hb : s.body = none := hletGo (by simp [hended])
    have hstop : s.stop env store cause = ⟨s, store, [], none⟩ := by
      simp [stop, hasEnded, hended]
    rw [hstop]
    exact .silent hreads (by simp [cancels, hb]) rfl id
  | none =>
    cases hb : s.body with
    | none =>
      refine .silent hreads (by simp [cancels, hb]) ?_ (fun _ => hended)
      simp [stop, hasEnded, hended, hb, interrupt, finish]
    | some body =>
      refine .cancels hreads (by simp [cancels, ho, hb]) hended ?_ ?_ <;>
        simp [stop, hasEnded, hended, hb, interrupt, finish]

theorem turn_speaks {s : Session σ κ} (hletGo : s.outcome.isSome → s.body = none)
    (env : Surroundings) (store : Option τ) (o : Operation σ κ) :
    Speaks s o (o.turn env s store) := by
  have hongoing : s.body.isSome → s.outcome = none := by
    intro hb
    cases ho : s.outcome with
    | none => rfl
    | some outcome =>
      rw [hletGo (by simp [ho])] at hb
      cases hb
  cases o with
  | start body sink =>
    by_cases hbusy : s.body.isSome || s.hasEnded
    · rw [Operation.turn, start_of_busy env store hbusy]
      refine .silent ?_ rfl rfl id
      rw [Bool.or_eq_true] at hbusy
      rcases hbusy with hb | ho
      · simp [reads, Option.isSome_iff_ne_none.1 hb]
      · rw [hasEnded] at ho
        simp [reads, ho]
    · simp only [Bool.or_eq_true, not_or, hasEnded, Option.not_isSome_iff_eq_none] at hbusy
      rw [Operation.turn, start_of_free env store hbusy.1 hbusy.2]
      exact .reads (by simp [reads, hbusy]) hbusy.2 (read_word env _ body store hbusy.2)
  | resume =>
    cases hb : s.body with
    | none =>
      rw [Operation.turn, resume_of_bodiless env store hb]
      exact .silent (by simp [reads, hb]) rfl rfl id
    | some body =>
      have ho : s.outcome = none := hongoing (by simp [hb])
      rw [Operation.turn, resume_of_body env store hb ho]
      exact .reads (by simp [reads, hb]) ho (read_word env s body store ho)
  | cancel => exact stop_speaks rfl hletGo env store .cancelled
  | withdraw => exact stop_speaks rfl hletGo env store .withdrawn

end Word

end Session

namespace Play

/-- All that was said to the body, with what the compiler was fed. -/
def spoken (p : Play σ κ τ) : List Call := p.calls.filter Call.ofBody

/-- What was said makes a word of reads, of which only the last can close; or the body was
    cancelled after reads none of which did. -/
def Spoken (p : Play σ κ τ) : Prop :=
  ∃ (reads : List Read) (cancelled : Bool),
    p.spoken = Read.word reads ++ (if cancelled then [.cancelBody] else []) ∧
    (∀ r ∈ reads.dropLast, r.closes = false) ∧
    (cancelled → ∀ r ∈ reads, r.closes = false) ∧
    (p.session.outcome = none → cancelled = false ∧ ∀ r ∈ reads, r.closes = false)

theorem spoken_after (p : Play σ κ τ) (t : Turn σ κ τ) :
    (p.after t).spoken = p.spoken ++ t.calls.filter Call.ofBody := by
  rw [spoken, calls_after, List.filter_append, spoken]

/-- Chunks that are taken do not close. -/
theorem closes_chunks {reads : List Read} (hreads : ∀ r ∈ reads, r.closes = false)
    (chunks : List Bytes) : ∀ r ∈ reads ++ chunks.map (Read.chunk · .more), r.closes = false := by
  intro r hr
  rcases List.mem_append.1 hr with hold | hnew
  · exact hreads r hold
  · obtain ⟨bytes, -, rfl⟩ := List.mem_map.1 hnew
    rfl

theorem after_spoken {p : Play σ κ τ} {o : Session.Operation σ κ} {t : Turn σ κ τ}
    (hspeaks : Session.Speaks p.session o t) (h : Spoken p) : Spoken (p.after t) := by
  obtain ⟨reads, cancelled, hword, hinner, hcancelled, hopen⟩ := h
  cases hspeaks with
  | reads _ ho hreads =>
    obtain ⟨chunks, last, hcalls, hlast⟩ := hreads
    obtain ⟨rfl, hnone⟩ := hopen ho
    have hbefore := closes_chunks hnone chunks
    refine ⟨reads ++ chunks.map (.chunk · .more) ++ [last], false, ?_, ?_, nofun, fun hongoing => ?_⟩
    · rw [spoken_after, hword, hcalls]
      simp
    · rwa [List.dropLast_concat]
    · rcases hlast with ⟨rfl, -⟩ | ⟨-, hended⟩
      · refine ⟨rfl, fun r hr => ?_⟩
        rcases List.mem_append.1 hr with hr | hr
        · exact hbefore r hr
        · rw [List.mem_singleton.1 hr]
          rfl
      · rw [show t.session.outcome = none from hongoing] at hended
        cases hended
  | cancels _ _ ho hcalls hended =>
    obtain ⟨rfl, hnone⟩ := hopen ho
    refine ⟨reads, true, ?_, hinner, fun _ => hnone, fun hongoing => ?_⟩
    · rw [spoken_after, hword, hcalls]
      simp [Call.ofBody, Call.toBody]
    · rw [show t.session.outcome = none from hongoing] at hended
      cases hended
  | silent _ _ hcalls hout =>
    refine ⟨reads, cancelled, ?_, hinner, hcancelled, fun hongoing => hopen (hout hongoing)⟩
    rw [spoken_after, hcalls, hword]
    simp

theorem spoken_meet {p : Play σ κ τ} (h : Spoken p) (f : σ → σ) (g : τ → τ) :
    Spoken (p.meet f g) := h

theorem spoken_opening (url : String) (key : Key) (token : Token) (store : Option τ) :
    Spoken (opening (σ := σ) (κ := κ) url key token store) :=
  ⟨[], false, rfl, nofun, nofun, fun _ => ⟨rfl, nofun⟩⟩

section Runs

variable [Body σ] [Store τ]

theorem move_spoken {sink : Option κ} {p : Play σ κ τ} (howes : Owes sink p) (h : Spoken p)
    (m : Move σ κ τ) : Spoken (p.move m) :=
  after_spoken (Session.turn_speaks (fun ho => ((owes_meet howes _ _).letGo ho).1) m.env _ _)
    (spoken_meet h m.onBody m.onStore)

theorem run_spoken {sink : Option κ} {p : Play σ κ τ} (howes : Owes sink p) (h : Spoken p)
    (moves : List (Move σ κ τ)) : Spoken (p.run moves) := by
  induction moves generalizing p sink with
  | nil => exact h
  | cons m ms ih => exact ih (move_owes howes m) (move_spoken howes h m)

/-- What others do to a body does not change who may speak to it. -/
theorem turn_speaks {sink : Option κ} {p : Play σ κ τ} (howes : Owes sink p) (m : Move σ κ τ) :
    Session.Speaks p.session m.operation (p.turn m) := by
  have hreads : (p.meet m.onBody m.onStore).session.reads m.operation =
      p.session.reads m.operation := by
    cases m.operation <;> simp [Session.reads, meet]
  have hcancels : (p.meet m.onBody m.onStore).session.cancels m.operation =
      p.session.cancels m.operation := by
    simp [Session.cancels, meet]
  have hspeaks := Session.turn_speaks (fun ho => ((owes_meet howes m.onBody m.onStore).letGo ho).1)
    m.env (p.store.map m.onStore) m.operation
  cases hspeaks with
  | reads hr ho hword => exact .reads (hreads ▸ hr) ho hword
  | cancels hr hc ho hcalls hended => exact .cancels (hreads ▸ hr) (hcancels ▸ hc) ho hcalls hended
  | silent hr hc hcalls hout => exact .silent (hreads ▸ hr) (hcancels ▸ hc) hcalls hout

/-- Whatever bodies do, and whatever is asked of a session in whatever order. -/
theorem reading_protocol (url : String) (key : Key) (token : Token) (store : Option τ)
    (moves : List (Move σ κ τ)) (pipes : List (Move AnyBody κ τ)) :
    let p := (opening url key token store).run moves
    -- All that is said to the body is reads, of which only the last can close, or reads that
    -- do not close and then one cancellation.
    (∃ (reads : List Read) (cancelled : Bool),
      p.spoken = Read.word reads ++ (if cancelled then [.cancelBody] else []) ∧
      (∀ r ∈ reads.dropLast, r.closes = false) ∧
      (cancelled → ∀ r ∈ reads, r.closes = false) ∧
      (p.session.outcome = none → cancelled = false ∧ ∀ r ∈ reads, r.closes = false)) ∧
    (∀ m, let t := p.turn m
      -- An operation that reads goes on until it must wait, or until a read closes and the
      -- session ends.
      (p.session.reads m.operation → ∃ (chunks : List Bytes) (last : Read),
        t.calls.filter Call.ofBody = Read.word (chunks.map (.chunk · .more) ++ [last]) ∧
        (last = .wait ∧ t.session.outcome = none ∨ last.closes ∧ t.session.outcome.isSome)) ∧
      -- Any other says nothing, or cancels the body.
      (p.session.reads m.operation = false →
        t.calls = if p.session.cancels m.operation then [.cancelBody] else []) ∧
      -- The body is cancelled just when a session that was started is ended from outside.
      (.cancelBody ∈ t.calls ↔ m.operation.stops ∧ p.session.outcome = none ∧
        ((opening url key token store).acceptedSink moves).isSome) ∧
      (.cancelBody ∈ t.calls → t.session.outcome.isSome)) ∧
    -- A session that has ended has let go of its body, and says nothing more.
    (p.session.outcome.isSome → p.session.body = none ∧ ∀ m, (p.turn m).calls = []) ∧
    -- If that was a pipe, its senders see it closed.
    let q := (opening url key token store).run pipes
    q.session.outcome.isSome → ∀ (senders : Senders) (i : Nat),
      senders.isClosed? q.session.body i = (senders.pipeOf? i).map (fun _ => true) ∧
      ∀ item, (senders.send q.session.body i item).1 = (senders.pipeOf? i).map fun _ => false := by
  intro p
  have howes : Owes ((opening url key token store).acceptedSink moves) p :=
    opening_owes url key token store moves
  refine ⟨run_spoken (owes_opening url key token store) (spoken_opening url key token store) moves,
    fun m => ?_, fun hended => ?_, ?_⟩
  · intro t
    have hstarted : p.session.cancels m.operation ↔ m.operation.stops ∧ p.session.outcome = none ∧
        ((opening url key token store).acceptedSink moves).isSome := by
      rw [Session.cancels, Bool.and_eq_true, and_congr_right_iff]
      intro _
      constructor
      · intro hb
        have ho := howes.open_of_body hb
        exact ⟨ho, (howes.held ho).2 ▸ hb⟩
      · rintro ⟨ho, hsink⟩
        rwa [(howes.held ho).2]
    rw [← hstarted]
    cases turn_speaks howes m with
    | reads hr ho hword =>
      have hnot : p.session.cancels m.operation = false := by
        cases hop : m.operation <;> simp_all [Session.reads, Session.cancels, Session.Operation.stops]
      have hcancel : .cancelBody ∉ t.calls := hword.not_cancelled
      refine ⟨fun _ => hword, fun h => ?_, ?_, fun h => absurd h hcancel⟩
      · rw [hr] at h
        cases h
      · simp [hnot, hcancel]
    | cancels hr hc ho hcalls hended =>
      refine ⟨fun h => ?_, fun _ => ?_, ?_, fun _ => hended⟩
      · rw [hr] at h
        cases h
      · rw [hc]
        exact hcalls
      · simp [t, hcalls, hc]
    | silent hr hc hcalls _ =>
      refine ⟨fun h => ?_, fun _ => ?_, ?_, fun h => ?_⟩
      · rw [hr] at h
        cases h
      · rw [hc]
        exact hcalls
      · simp [t, hcalls, hc]
      · simp [t, hcalls] at h
  · obtain ⟨outcome, ho⟩ := Option.isSome_iff_exists.1 hended
    have hb := (howes.letGo hended).1
    refine ⟨hb, fun m => ?_⟩
    rw [turn_of_ended ho hb m]
  · intro q hended senders i
    have hb : q.session.body = none := ((opening_owes url key token store pipes).letGo hended).1
    rw [hb]
    cases hpipe : senders.pipeOf? i with
    | none => simp [Senders.isClosed?, Senders.send, hpipe]
    | some id =>
      have hclosed : BodyHolder.isOpen (none : Option AnyBody) id = false := rfl
      simp [Senders.isClosed?, Senders.send, hpipe, hclosed]

end Runs

end Play

end CompileCache
