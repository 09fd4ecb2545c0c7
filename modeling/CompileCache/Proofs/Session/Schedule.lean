/-
  CompileCache.Proofs.Session.Schedule — it does not matter when a body is sent and when it is
  read.

  A `Relay` is a session with the pipe it is to read and the pipe's senders. Senders send,
  are cloned and are closed, the session is started and told to read on, in any order. While
  the session has not ended, what was sent is what it has been delivered and, behind that, what
  the pipe still holds (`Flows`, kept by every step). So whenever it has just read, it has been
  delivered all there is (`settled_start`, `settled_readable`).

  Proved: after any schedule that ends with the session being told to read on, compiler, sink
  and store have noticed what they notice of one start on a body that serves what was sent, in
  order and at once (`schedule_unnoticed`).
-/

import CompileCache.Body.Senders
import CompileCache.Proofs.Session.Reception

namespace CompileCache

open Body (Sent Delivery Pause unpack script)

variable {κ τ : Type}

structure Relay (κ τ : Type) where
  /-- The body of the pipe, until the session takes it. -/
  loose : Option AnyBody
  play : Play AnyBody κ τ
  senders : Senders
  /-- What was sent and taken, oldest first. -/
  queued : List Sent

instance : BodyHolder (Relay κ τ) where
  bodies r := r.loose.toList ++ r.play.session.body.toList
  mapBodies f r := { r with loose := r.loose.map f, play := r.play.meet f id }

namespace Relay

@[simp] theorem queued_onPipe (r : Relay κ τ) (id : PipeId) (f : Body.Piped → Body.Piped) :
    (BodyHolder.onPipe r id f).queued = r.queued := rfl

/-- A new session, and a new pipe with its first sender. -/
def new (url : String) (key : Key) (token : Token) (store : Option τ) : Relay κ τ :=
  let (body, senders) := Senders.newPipe {}
  ⟨some body, Play.opening url key token store, senders, []⟩

inductive Event where
  /-- Through the `i`-th sender. -/
  | send (i : Nat) (item : Sent)
  | clone (i : Nat)
  | close (i : Nat)
  /-- The session is started on the pipe, unless it was before. -/
  | start
  | readable

section Step

variable [Store τ] (env : Surroundings) (sink : κ)

def step (r : Relay κ τ) : Event → Relay κ τ
  | .send i item =>
    let (taken, r) := r.senders.send r i item
    if taken = some true then { r with queued := r.queued ++ [item] } else r
  | .clone i =>
    let (_, senders, r) := r.senders.clone r i
    { r with senders }
  | .close i =>
    let (_, senders, r) := r.senders.close r i
    { r with senders }
  | .start =>
    match r.loose with
    | some body => { r with loose := none, play := r.play.move ⟨.start body sink, env, id, id⟩ }
    | none => r
  | .readable => { r with play := r.play.move ⟨.resume, env, id, id⟩ }

def run (r : Relay κ τ) (events : List Event) : Relay κ τ := events.foldl (step env sink) r

variable {r : Relay κ τ} {i : Nat} {id : PipeId}

theorem step_send (h : r.senders.pipeOf? i = some id) (item : Sent) :
    r.step env sink (.send i item) =
      { BodyHolder.onPipe r id (·.push item) with
        queued := if BodyHolder.isOpen r id then r.queued ++ [item] else r.queued } := by
  simp only [step, Senders.send, h, Option.some.injEq]
  split <;> rfl

theorem step_clone (h : r.senders.pipeOf? i = some id) :
    r.step env sink (.clone i) =
      { BodyHolder.onPipe r id Body.Piped.addSender with
        senders := { r.senders with slots := r.senders.slots ++ [some id] } } := by
  simp only [step, Senders.clone, h]

theorem step_close (h : r.senders.pipeOf? i = some id) :
    r.step env sink (.close i) =
      { BodyHolder.onPipe r id Body.Piped.dropSender with
        senders := { r.senders with slots := r.senders.slots.set i none } } := by
  simp only [step, Senders.close, h]

/-- A sender that is not there does nothing. -/
theorem step_of_none (h : r.senders.pipeOf? i = none) :
    (∀ item, r.step env sink (.send i item) = r) ∧ r.step env sink (.clone i) = r ∧
      r.step env sink (.close i) = r := by
  simp [step, Senders.send, Senders.clone, Senders.close, h]

end Step

end Relay

/-- There is nothing to read on. -/
theorem Play.resume_bodiless {σ : Type} [Body σ] [Store τ] (env : Surroundings) {p : Play σ κ τ}
    (hb : p.session.body = none) : p.move ⟨.resume, env, id, id⟩ = p := by
  simp [Play.move, Play.turn, Play.meet_id, Session.Operation.turn, Session.resume, hb, Play.after,
    Turn.notices]

theorem Play.meet_bodiless {σ : Type} {p : Play σ κ τ} (hb : p.session.body = none) (f : σ → σ) :
    p.meet f id = p := by
  obtain ⟨⟨url, token, trial, digest, body, sink, received, outcome, hheld⟩, store, trace⟩ := p
  obtain rfl : body = none := hb
  simp [meet]

theorem Play.feeds_bodiless {σ : Type} (p : Play σ κ τ) : p.bodiless.feeds = p.feeds :=
  p.feeds_heard

theorem Play.compilerTold_bodiless {σ : Type} (p : Play σ κ τ) {outcome : Outcome} :
    .compilerTold outcome ∈ p.bodiless.trace ↔ .compilerTold outcome ∈ p.trace := by
  simp [bodiless, heard]

/-! ## The senders of one pipe -/

/-- There are `n` senders, all of the pipe 0; others were closed. -/
structure Senders.Serve (s : Senders) (n : Nat) : Prop where
  onlyFirst : ∀ slot ∈ s.slots, slot = none ∨ slot = some 0
  count : s.slots.count (some 0) = n

namespace Senders.Serve

variable {s : Senders} {n : Nat}

theorem pipeOf? (h : s.Serve n) (i : Nat) :
    s.pipeOf? i = none ∨ s.pipeOf? i = some 0 ∧ s.slots[i]? = some (some 0) := by
  unfold Senders.pipeOf?
  cases hslot : s.slots[i]? with
  | none => exact .inl rfl
  | some slot =>
    rcases h.onlyFirst slot (List.mem_of_getElem? hslot) with rfl | rfl
    · exact .inl rfl
    · exact .inr ⟨rfl, rfl⟩

theorem clone (h : s.Serve n) : Serve { s with slots := s.slots ++ [some 0] } (n + 1) := by
  constructor
  · intro slot hslot
    rcases List.mem_append.1 hslot with hold | hnew
    · exact h.onlyFirst slot hold
    · exact .inr (List.mem_singleton.1 hnew)
  · simp [h.count]

theorem close (h : s.Serve n) {i : Nat} (hslot : s.slots[i]? = some (some 0)) :
    Serve { s with slots := s.slots.set i none } (n - 1) := by
  obtain ⟨hi, hget⟩ := List.getElem?_eq_some_iff.1 hslot
  constructor
  · intro slot hmem
    rcases List.mem_or_eq_of_mem_set hmem with hold | rfl
    · exact h.onlyFirst slot hold
    · exact .inl rfl
  · simp [List.count_set hi, hget, h.count]

/-- Whether a sender is left can be seen from the slots. -/
theorem any_isSome (h : s.Serve n) : s.slots.any Option.isSome = (n != 0) := by
  rw [Bool.eq_iff_iff, List.any_eq_true, bne_iff_ne]
  constructor
  · rintro ⟨slot, hmem, hsome⟩
    rcases h.onlyFirst slot hmem with rfl | rfl
    · cases hsome
    · have hpos := List.count_pos_iff.2 hmem
      rw [h.count] at hpos
      omega
  · intro hn
    have hpos : 0 < s.slots.count (some 0) := by
      rw [h.count]
      omega
    exact ⟨some 0, List.count_pos_iff.1 hpos, rfl⟩

end Senders.Serve

/-! ## What the session was delivered, and what the pipe still holds -/

namespace Relay

/-- The pipe's body between two reads. -/
abbrev pipe (queue : List Sent) (n : Nat) : AnyBody := .piped 0 ⟨queue, none, false, n⟩

section Flows

variable [Store τ] (url : String) (key : Key) (token : Token) (store : Option τ)
  (env : Surroundings) (sink : κ)

/-- How what was sent came on its way. -/
inductive Flows : Relay κ τ → Prop
  | loose (queue : List Sent) (senders : Senders) (n : Nat) : senders.Serve n →
      Flows ⟨some (pipe queue n), .opening url key token store, senders, queue⟩
  | flowing (chunks : List Bytes) (queue : List Sent) (play : Play AnyBody κ τ) (senders : Senders)
      (n : Nat) : senders.Serve n →
      play.heard = .delivered url key token store env sink ⟨chunks, .wait, pipe queue n⟩ →
      Flows ⟨none, play, senders, chunks.map .ok ++ queue⟩
  | ended (d : Delivery AnyBody) (play : Play AnyBody κ τ) (senders : Senders) (queued : List Sent)
      (n : Nat) : senders.Serve n → d.pause ≠ .wait →
      unpack (n != 0) queued = (d.chunks, d.pause) →
      play.heard = .delivered url key token store env sink d → Flows ⟨none, play, senders, queued⟩

/-- The session has been delivered all there is. -/
structure Settled (r : Relay κ τ) : Prop where
  loose : r.loose = none
  delivered : ∃ d n, r.senders.Serve n ∧ unpack (n != 0) r.queued = (d.chunks, d.pause) ∧
    (d.pause = .wait → d.rest = pipe [] n) ∧
    r.play.heard = .delivered url key token store env sink d

variable {url key token store env sink}

theorem Settled.flows {r : Relay κ τ} (h : Settled url key token store env sink r) :
    Flows url key token store env sink r := by
  obtain ⟨loose, play, senders, queued⟩ := r
  obtain ⟨rfl, ⟨chunks, pause, rest⟩, n, hserve, hunpack, hrest, hheard⟩ := h
  by_cases hwait : pause = .wait
  · subst hwait
    obtain rfl := Body.eq_of_unpack_wait hunpack
    obtain rfl := hrest rfl
    have hflows := Flows.flowing chunks [] play senders n hserve hheard
    rwa [List.append_nil] at hflows
  · exact .ended _ play senders queued n hserve hwait hunpack hheard

/-- The session has read on, behind the chunks it had before. -/
theorem settled_of_read {play : Play AnyBody κ τ} {senders : Senders} {n : Nat}
    (hserve : senders.Serve n) (chunks : List Bytes) (queue : List Sent)
    (hheard : play.heard = .delivered url key token store env sink
      { Body.delivery (pipe queue n) with
        chunks := chunks ++ (Body.delivery (pipe queue n)).chunks }) :
    Settled url key token store env sink ⟨none, play, senders, chunks.map .ok ++ queue⟩ := by
  obtain ⟨hunpack, hrest⟩ := Body.delivery_piped 0 queue n
  let d := Body.delivery (pipe queue n)
  refine ⟨rfl, { d with chunks := chunks ++ d.chunks }, n, hserve, ?_, hrest, hheard⟩
  rw [Body.unpack_append, ← hunpack]

/-- What was noticed is what is noticed of one start with all that was sent at hand. -/
theorem Settled.bodiless_eq {r : Relay κ τ} (h : Settled url key token store env sink r) :
    r.play.bodiless = ((Play.opening url key token store).move
      ⟨.start (.scripted (script (r.senders.slots.any Option.isSome) r.queued)) sink, env,
        id, id⟩).bodiless := by
  obtain ⟨-, d, n, hserve, hunpack, -, hheard⟩ := h
  rw [hserve.any_isSome]
  let d' := Body.delivery (AnyBody.scripted (script (n != 0) r.queued))
  have hscript : (d'.chunks, d'.pause) = (d.chunks, d.pause) := by
    rw [← hunpack]
    exact Body.delivery_script (n != 0) r.queued
  obtain ⟨hchunks, hpause⟩ := Prod.mk.inj hscript
  have hstart := Play.heard_start url key token store env sink
    (AnyBody.scripted (script (n != 0) r.queued))
  rw [← Play.bodiless_heard, hheard, ← Play.bodiless_heard (Play.move ..), hstart]
  have hd : d' = { d with rest := d'.rest } := by rw [← hchunks, ← hpause]
  calc (Play.delivered url key token store env sink d).bodiless
      = (Play.delivered url key token store env sink { d with rest := d'.rest }).bodiless :=
        (Play.bodiless_delivered ..).symm
    _ = (Play.delivered url key token store env sink d').bodiless := by rw [← hd]

theorem settled_start {r : Relay κ τ} (h : Flows url key token store env sink r)
    (hloose : r.loose ≠ none) : Settled url key token store env sink (r.step env sink .start) := by
  cases h with
  | loose queue senders n hserve =>
    exact settled_of_read hserve [] queue
      (Play.heard_start url key token store env sink (pipe queue n))
  | flowing => exact absurd rfl hloose
  | ended => exact absurd rfl hloose

/-- A session that waits goes on. -/
theorem session_of_flowing {chunks : List Bytes} {body : AnyBody} {play : Play AnyBody κ τ}
    (hheard : play.heard = .delivered url key token store env sink ⟨chunks, .wait, body⟩) :
    play.session.body = some body ∧ play.session.hasEnded = false := by
  have hwaits := (Play.session_delivered url key token store env sink ⟨chunks, .wait, body⟩).1 rfl
  rw [← hheard] at hwaits
  exact ⟨hwaits.1, by rw [Session.hasEnded, show play.session.outcome = none from hwaits.2]; rfl⟩

/-- A session that does not wait has ended, and let go of its body. -/
theorem session_of_ended {d : Delivery AnyBody} {play : Play AnyBody κ τ} (hpause : d.pause ≠ .wait)
    (hheard : play.heard = .delivered url key token store env sink d) :
    play.session.body = none ∧ play.session.hasEnded = true := by
  have hended := (Play.session_delivered url key token store env sink d).2.1 hpause
  rwa [← hheard] at hended

theorem settled_readable {r : Relay κ τ} (h : Flows url key token store env sink r)
    (hloose : r.loose = none) : Settled url key token store env sink (r.step env sink .readable) := by
  cases h with
  | loose => cases hloose
  | flowing chunks queue play senders n hserve hheard =>
    exact settled_of_read hserve chunks queue (Play.heard_resume hheard)
  | ended d play senders queued n hserve hpause hunpack hheard =>
    have hbody := (session_of_ended hpause hheard).1
    refine ⟨rfl, d, n, hserve, hunpack, fun hwait => absurd hwait hpause, ?_⟩
    exact (congrArg Play.heard (Play.resume_bodiless env hbody)).trans hheard

/-! ## What senders do -/

/-- The pipe takes what is sent until the session has ended. -/
theorem isOpen_of_flows {r : Relay κ τ} (h : Flows url key token store env sink r) :
    BodyHolder.isOpen r 0 = !r.play.session.hasEnded := by
  cases h with
  | loose => rfl
  | flowing chunks queue play senders n _ hheard =>
    obtain ⟨hbody, hongoing⟩ := session_of_flowing hheard
    simp [BodyHolder.isOpen, BodyHolder.pipe?, BodyHolder.bodies, AnyBody.pipe?, hbody, hongoing]
  | ended d play senders queued n _ hpause _ hheard =>
    obtain ⟨hbody, hended⟩ := session_of_ended hpause hheard
    simp [BodyHolder.isOpen, BodyHolder.pipe?, BodyHolder.bodies, hbody, hended]

theorem Flows.serve {r : Relay κ τ} (h : Flows url key token store env sink r) :
    r.senders.Serve (r.senders.slots.count (some 0)) := by
  cases h with
  | loose _ _ _ hserve => rwa [hserve.count]
  | flowing _ _ _ _ _ hserve _ => rwa [hserve.count]
  | ended _ _ _ _ _ hserve _ _ _ => rwa [hserve.count]

/-- One of the senders has done something to the pipe, and leaves `n` of them. -/
theorem flows_onPipe {r : Relay κ τ} (h : Flows url key token store env sink r)
    (hsome : r.senders.slots.count (some 0) ≠ 0) {f : Body.Piped → Body.Piped} {senders : Senders}
    {sent : List Sent} {n : Nat} (hserve : senders.Serve n)
    (hf : ∀ queue, f ⟨queue, none, false, r.senders.slots.count (some 0)⟩ =
      ⟨queue ++ sent, none, false, n⟩) :
    Flows url key token store env sink
      { BodyHolder.onPipe r 0 f with
        senders, queued := if r.play.session.hasEnded then r.queued else r.queued ++ sent } := by
  have hpipe : ∀ queue, AnyBody.onPipe 0 f (pipe queue (r.senders.slots.count (some 0))) =
      pipe (queue ++ sent) n := fun queue => by simp [AnyBody.onPipe, hf]
  cases h with
  | loose queue senders' n' hserve' =>
    show Flows url key token store env sink ⟨some (AnyBody.onPipe 0 f _), Play.meet _ _ id, senders, _⟩
    rw [Play.meet_bodiless rfl, ← hserve'.count, hpipe]
    exact .loose _ senders n hserve
  | flowing chunks queue play senders' n' hserve' hheard =>
    have hmet : (play.meet (AnyBody.onPipe 0 f) id).heard =
        .delivered url key token store env sink ⟨chunks, .wait, pipe (queue ++ sent) n⟩ := by
      rw [← hpipe, hserve'.count, ← Play.delivered_meet, ← hheard]
      rfl
    have hflows := Flows.flowing chunks (queue ++ sent) _ senders n hserve hmet
    rw [(session_of_flowing hheard).2]
    rwa [← List.append_assoc] at hflows
  | ended d play senders' queued n' hserve' hpause hunpack hheard =>
    obtain ⟨hbody, hended⟩ := session_of_ended hpause hheard
    have hmore : (n' != 0) = true := by simpa [hserve'.count] using hsome
    have hfailed : unpack (n != 0) queued = (d.chunks, d.pause) := by
      rw [hmore] at hunpack
      rw [Body.unpack_of_more (by rwa [hunpack]), hunpack]
    show Flows url key token store env sink ⟨none, Play.meet _ _ id, senders, _⟩
    rw [Play.meet_bodiless hbody, hended]
    exact .ended d play senders queued n hserve hpause hfailed hheard

/-! ## Every step -/

theorem step_flows {r : Relay κ τ} (h : Flows url key token store env sink r) (event : Event) :
    Flows url key token store env sink (r.step env sink event) := by
  have hserve := h.serve
  have hliving : ∀ {i : Nat}, r.senders.slots[i]? = some (some 0) →
      r.senders.slots.count (some 0) ≠ 0 := fun hslot =>
    Nat.ne_of_gt (List.count_pos_iff.2 (List.mem_of_getElem? hslot))
  cases event with
  | send i item =>
    rcases hserve.pipeOf? i with hnone | ⟨hpipe, hslot⟩
    · rwa [(step_of_none env sink hnone).1]
    · have hpush : ∀ queue n, Body.Piped.push ⟨queue, none, false, n⟩ item =
          ⟨queue ++ [item], none, false, n⟩ := fun _ _ => rfl
      have hsent := flows_onPipe (f := (·.push item)) h (hliving hslot) hserve
        fun queue => hpush queue _
      rw [step_send env sink hpipe, isOpen_of_flows h]
      cases hended : r.play.session.hasEnded with
      | false => rwa [hended] at hsent
      | true => rwa [hended] at hsent
  | clone i =>
    rcases hserve.pipeOf? i with hnone | ⟨hpipe, hslot⟩
    · rwa [(step_of_none env sink hnone).2.1]
    · have hadd : ∀ queue n, Body.Piped.addSender ⟨queue, none, false, n⟩ =
          ⟨queue ++ [], none, false, n + 1⟩ := fun queue _ => by
        simp [Body.Piped.addSender]
      have hcloned := flows_onPipe h (hliving hslot) hserve.clone fun queue => hadd queue _
      rw [step_clone env sink hpipe]
      simpa using hcloned
  | close i =>
    rcases hserve.pipeOf? i with hnone | ⟨hpipe, hslot⟩
    · rwa [(step_of_none env sink hnone).2.2]
    · have hdrop : ∀ queue n, Body.Piped.dropSender ⟨queue, none, false, n⟩ =
          ⟨queue ++ [], none, false, n - 1⟩ := fun queue _ => by
        simp [Body.Piped.dropSender]
      have hclosed := flows_onPipe h (hliving hslot) (hserve.close hslot) fun queue => hdrop queue _
      rw [step_close env sink hpipe]
      simpa using hclosed
  | start =>
    cases hloose : r.loose with
    | none => simpa [step, hloose] using h
    | some body => exact (settled_start h (by simp [hloose])).flows
  | readable =>
    cases hloose : r.loose with
    | none => exact (settled_readable h hloose).flows
    | some body =>
      cases h with
      | loose queue senders n hn =>
        show Flows url key token store env sink ⟨_, Play.move _ _, _, _⟩
        rw [Play.resume_bodiless env rfl]
        exact .loose queue senders n hn
      | flowing => cases hloose
      | ended => cases hloose

theorem run_flows {r : Relay κ τ} (h : Flows url key token store env sink r) (events : List Event) :
    Flows url key token store env sink (r.run env sink events) := by
  induction events generalizing r with
  | nil => exact h
  | cons event events ih => exact ih (step_flows h event)

theorem flows_new : Flows url key token store env sink (new url key token store : Relay κ τ) :=
  .loose [] ⟨[some 0], 1⟩ 1 ⟨by simp, rfl⟩

end Flows

/-! ## A schedule -/

/-- What was noticed and what was sent is only added to, and a pipe that was taken is not given
    back. -/
structure Onward (r r' : Relay κ τ) : Prop where
  trace : r.play.trace <+: r'.play.trace
  queued : r.queued <+: r'.queued
  loose : r.loose = none → r'.loose = none

namespace Onward

theorem refl (r : Relay κ τ) : Onward r r := ⟨List.prefix_rfl, List.prefix_rfl, id⟩

theorem trans {a b c : Relay κ τ} (h : Onward a b) (h' : Onward b c) : Onward a c :=
  ⟨h.trace.trans h'.trace, h.queued.trans h'.queued, h'.loose ∘ h.loose⟩

theorem onPipe (r : Relay κ τ) (id : PipeId) (f : Body.Piped → Body.Piped)
    (senders : Senders) {queued : List Sent} (hqueued : r.queued <+: queued) :
    Onward r { BodyHolder.onPipe r id f with senders, queued } := by
  refine ⟨List.prefix_rfl, hqueued, fun hloose => ?_⟩
  show r.loose.map _ = none
  rw [hloose]
  rfl

end Onward

section Schedule

variable [Store τ] (env : Surroundings) (sink : κ)

theorem step_onward (r : Relay κ τ) (event : Event) : Onward r (r.step env sink event) := by
  cases event with
  | send i item =>
    cases hpipe : r.senders.pipeOf? i with
    | none =>
      rw [(step_of_none env sink hpipe).1]
      exact .refl r
    | some id =>
      rw [step_send env sink hpipe]
      refine .onPipe r id _ r.senders ?_
      split
      · exact List.prefix_append ..
      · exact List.prefix_rfl
  | clone i =>
    cases hpipe : r.senders.pipeOf? i with
    | none =>
      rw [(step_of_none env sink hpipe).2.1]
      exact .refl r
    | some id =>
      rw [step_clone env sink hpipe]
      exact .onPipe r id _ _ List.prefix_rfl
  | close i =>
    cases hpipe : r.senders.pipeOf? i with
    | none =>
      rw [(step_of_none env sink hpipe).2.2]
      exact .refl r
    | some id =>
      rw [step_close env sink hpipe]
      exact .onPipe r id _ _ List.prefix_rfl
  | start =>
    cases hloose : r.loose with
    | none =>
      simp only [step, hloose]
      exact .refl r
    | some body =>
      simp only [step, hloose]
      exact ⟨List.prefix_append .., List.prefix_rfl, fun _ => rfl⟩
  | readable => exact ⟨List.prefix_append .., List.prefix_rfl, id⟩

theorem run_onward (r : Relay κ τ) (events : List Event) : Onward r (r.run env sink events) := by
  induction events generalizing r with
  | nil => exact .refl r
  | cons event events ih => exact (step_onward env sink r event).trans (ih _)

theorem run_append (r : Relay κ τ) (events more : List Event) :
    r.run env sink (events ++ more) = (r.run env sink events).run env sink more :=
  List.foldl_append

variable (url : String) (key : Key) (token : Token) (store : Option τ)

/-- A schedule that ends with the session being told to read on. -/
theorem settled_schedule (before later : List Event) :
    Settled url key token store env sink
      ((new url key token store).run env sink (before ++ .start :: later ++ [.readable])) := by
  have hstart : ∀ r : Relay κ τ, (r.step env sink .start).loose = none := by
    intro r
    cases hloose : r.loose <;> simp [step, hloose]
  have htaken : ((new url key token store).run env sink (before ++ .start :: later)).loose = none := by
    rw [run_append]
    exact (run_onward env sink _ later).loose (hstart _)
  rw [run_append]
  exact settled_readable (run_flows flows_new _) htaken

/-- In whatever order a session is started on a pipe and told to read on, and senders send, are
    cloned and are closed. -/
theorem schedule_unnoticed (before later : List Event) :
    let run := (new url key token store).run env sink
    let events := before ++ .start :: later ++ [.readable]
    let r := run events
    let more := r.senders.slots.any Option.isSome
    let p := r.play
    let q := (Play.opening url key token store).move
      ⟨.start (.scripted (script more r.queued)) sink, env, id, id⟩
    -- All but the body notice what they notice of one start with all that was sent at hand.
    p.bodiless = q.bodiless ∧ p.feeds = q.feeds ∧
    (∀ outcome, .compilerTold outcome ∈ p.trace ↔ p.session.outcome = some outcome) ∧
    -- The first failure ends the session, behind the chunks that were sent before it.
    (∀ (chunks : List Bytes) cause rest, r.queued = chunks.map .ok ++ .error cause :: rest →
      p.feeds = chunks.filter (!·.isEmpty) ∧ p.session.outcome =
        some (.failed ((Interruption.bodyFailed cause).failure env.contextLive))) ∧
    -- Without one all chunks were fed, and the session has ended if nobody can send any more.
    (∀ chunks : List Bytes, r.queued = chunks.map .ok → p.feeds = chunks.filter (!·.isEmpty) ∧
      (more = false → ∃ trusted, p.session.outcome = some (.compiled trusted)) ∧
      (more = true → p.session.outcome = none)) ∧
    -- At any earlier time a part of this has happened; and what a sender sends is taken as long
    -- as the session has not ended.
    ∀ n, let earlier := run (events.take n)
      earlier.play.feeds <+: p.feeds ∧ earlier.play.heard.trace <+: p.heard.trace ∧
        ∀ i item, (earlier.senders.send earlier i item).1 =
          (earlier.senders.pipeOf? i).map fun _ => !earlier.play.session.hasEnded := by
  intro run events r more p q
  have hsettled := settled_schedule env sink url key token store before later
  have hsame : p.bodiless = q.bodiless := hsettled.bodiless_eq
  have hfeeds : p.feeds = q.feeds := by
    rw [← Play.feeds_bodiless p, hsame, Play.feeds_bodiless]
  have htold : ∀ outcome, .compilerTold outcome ∈ p.trace ↔ p.session.outcome = some outcome := by
    intro outcome
    let m : Move AnyBody κ τ := ⟨.start (.scripted (script more r.queued)) sink, env, id, id⟩
    have houtcome : p.session.outcome = q.session.outcome := congrArg (·.session.outcome) hsame
    rw [← Play.compilerTold_bodiless p, hsame, Play.compilerTold_bodiless, houtcome]
    exact (Play.opening_owes url key token store [m]).compilerTold_iff outcome
  obtain ⟨-, d, n, hserve, hunpack, -, hheard⟩ := hsettled
  have hmore : more = (n != 0) := hserve.any_isSome
  have hpfeeds : p.feeds = d.chunks.filter (!·.isEmpty) := by
    rw [← Play.feeds_heard p]
    exact (congrArg Play.feeds hheard).trans (Play.feeds_delivered ..)
  obtain ⟨hwait, -, hfinished, hfailed⟩ := Play.session_delivered url key token store env sink d
  rw [← hheard] at hwait hfinished hfailed
  refine ⟨hsame, hfeeds, htold, fun chunks cause rest hqueued => ?_,
    fun chunks hqueued => ?_, fun n => ?_⟩
  · rw [hqueued, Body.unpack_failure, Prod.mk.injEq] at hunpack
    rw [hpfeeds, ← hunpack.1]
    exact ⟨rfl, hfailed cause hunpack.2.symm⟩
  · rw [hqueued, Body.unpack_chunks, Prod.mk.injEq, ← hmore] at hunpack
    rw [hpfeeds, ← hunpack.1]
    refine ⟨rfl, fun hnone => hfinished ?_, fun hsome => (hwait ?_).2⟩
    · rw [← hunpack.2, hnone]
      rfl
    · rw [← hunpack.2, hsome]
      rfl
  · intro earlier
    have honward : Onward earlier r := by
      have hrest := run_onward env sink earlier (events.drop n)
      rwa [← run_append, List.take_append_drop] at hrest
    refine ⟨(honward.trace.filterMap _).filterMap _, honward.trace.filter _, fun i item => ?_⟩
    have hflows : Flows url key token store env sink earlier := run_flows flows_new _
    rcases hflows.serve.pipeOf? i with hnone | ⟨hpipe, -⟩
    · simp [Senders.send, hnone]
    · simp [Senders.send, hpipe, isOpen_of_flows hflows]

end Schedule

end Relay

end CompileCache
