/-
  CompileCache.Proofs.Session.Reception — what a session makes of what its body delivers.

  A turn passes chunks on, one by one, until its body must wait, ends or fails. But for what
  is said to the body, it is known from the delivery alone: the chunks, passed on one after the
  other (`passAll`), and then what comes of the pause (`heard_read`). So a delivery in two parts
  is received like one (`receive_append`).

  Of all chunks only those that are not empty are fed (`feeds_passAll`).
-/

import CompileCache.Proofs.Body.Delivery
import CompileCache.Proofs.Session.Steady

namespace CompileCache

variable {σ κ τ : Type}

namespace Call

/-- Whether the call is one to the body. -/
def toBody : Call → Bool
  | offer _ | take .. | cancelBody => true
  | _ => false

/-- The chunk that the compiler is fed with the call. -/
def fedChunk? : Call → Option Bytes
  | feed chunk => some chunk
  | _ => none

@[simp] theorem toBody_offer (answer : Offer) : (offer answer).toBody = true := rfl

@[simp] theorem toBody_take (count : Nat) (answer : Taken) : (take count answer).toBody = true := rfl

theorem not_toBody_of_aboutRecord {c : Call} (h : c.aboutRecord) : c.toBody = false := by
  cases c <;> simp_all [aboutRecord, toBody]

theorem fedChunk?_of_aboutRecord {c : Call} (h : c.aboutRecord) : c.fedChunk? = none := by
  cases c <;> simp_all [aboutRecord, fedChunk?]

end Call

namespace Notice

/-- Whether the session said something to its body. -/
def toBody : Notice κ → Bool
  | call c => c.toBody
  | _ => false

@[simp] theorem toBody_call (c : Call) : (call c : Notice κ).toBody = c.toBody := rfl

@[simp] theorem toBody_compilerTold (outcome : Outcome) :
    (compilerTold outcome : Notice κ).toBody = false := rfl

@[simp] theorem toBody_sinkTold (sink : κ) (outcome : Outcome) :
    (sinkTold sink outcome).toBody = false := rfl

end Notice

/-- The turn, but for what was said to the body. -/
def Turn.heard (t : Turn σ κ τ) : Turn σ κ τ := { t with calls := t.calls.filter (!·.toBody) }

theorem Turn.heard_after (calls : List Call) (t : Turn σ κ τ) :
    (t.after calls).heard = t.heard.after (calls.filter (!·.toBody)) := by
  simp [heard, Turn.after]

theorem Turn.heard_of_not_toBody {t : Turn σ κ τ} (h : ∀ c ∈ t.calls, c.toBody = false) :
    t.heard = t := by
  have hcalls : t.calls.filter (!·.toBody) = t.calls :=
    List.filter_eq_self.2 fun c hc => by simp [h c hc]
  rw [heard, hcalls]

namespace Play

/-- The play, but for what was said to the body. -/
def heard (p : Play σ κ τ) : Play σ κ τ := { p with trace := p.trace.filter (!·.toBody) }

/-- The play without the body, and without what was said to it. -/
def bodiless (p : Play σ κ τ) : Play σ κ τ :=
  { p.heard with session := { p.session with body := none } }

/-- The chunks that the compiler was fed, in order. -/
def feeds (p : Play σ κ τ) : List Bytes := p.calls.filterMap Call.fedChunk?

theorem heard_after (p : Play σ κ τ) (t : Turn σ κ τ) :
    (p.after t).heard = p.heard.after t.heard := by
  have hending : ∀ e : Ending κ, e.notices.filter (!·.toBody) = e.notices := by
    intro e
    cases hs : e.sink <;> simp [Ending.notices, hs]
  have hnotices : t.notices.filter (!·.toBody) = t.heard.notices := by
    simp only [Turn.notices, Turn.heard, List.filter_append, List.filter_map, Function.comp_def,
      Notice.toBody_call]
    cases t.ending with
    | none => rfl
    | some e => simp only [Option.map_some, Option.getD_some, hending]
  simp only [heard, after, List.filter_append, hnotices]
  rfl

theorem calls_heard (p : Play σ κ τ) : p.heard.calls = p.calls.filter (!·.toBody) := by
  rw [Play.calls, Play.calls, heard, List.filterMap_filter, List.filter_filterMap]
  congr 1
  funext n
  cases n with
  | call c => cases hc : c.toBody <;> simp [Notice.call?, Option.filter, hc]
  | compilerTold outcome => rfl
  | sinkTold sink outcome => rfl

theorem feeds_heard (p : Play σ κ τ) : p.heard.feeds = p.feeds := by
  rw [feeds, calls_heard, feeds, List.filterMap_filter]
  congr 1
  funext c
  cases c <;> rfl

end Play

/-! ## Chunks, one after the other -/

namespace Session

section Pass

variable [Store τ]

theorem pass_not_toBody (env : Surroundings) (s : Session σ κ) (store : Option τ) (chunk : Bytes) :
    ∀ c ∈ (s.pass env store chunk).2.2, c.toBody = false := by
  have habout := (Trial.start_begun env.accepts s.trial store).aboutRecord
  unfold pass
  split
  · simp
  · intro c hc
    rcases List.mem_append.1 hc with hstart | hfeed
    · exact Call.not_toBody_of_aboutRecord (habout c hstart)
    · rw [List.mem_singleton.1 hfeed]
      rfl

theorem feeds_pass (env : Surroundings) (s : Session σ κ) (store : Option τ) (chunk : Bytes) :
    (s.pass env store chunk).2.2.filterMap Call.fedChunk? = [chunk].filter (!·.isEmpty) := by
  have habout := (Trial.start_begun env.accepts s.trial store).aboutRecord
  have hstart : (s.trial.start env.accepts store).calls.filterMap Call.fedChunk? = [] := by
    rw [List.filterMap_eq_nil_iff]
    exact fun c hc => Call.fedChunk?_of_aboutRecord (habout c hc)
  unfold pass
  by_cases hb : chunk.isEmpty
  · simp [hb]
  · simp [hb, hstart, Call.fedChunk?]

theorem succeed_not_toBody (s : Session σ κ) (store : Option τ) :
    ∀ c ∈ (s.succeed store).calls, c.toBody = false :=
  fun c hc => Call.not_toBody_of_aboutRecord ((Trial.verdict_judged ..).aboutRecord c hc)

/-- Passes chunks on, one after the other. -/
def passAll (env : Surroundings) (s : Session σ κ) (store : Option τ) :
    List Bytes → Session σ κ × Option τ × List Call
  | [] => (s, store, [])
  | chunk :: chunks =>
    let (s, store, calls) := s.pass env store chunk
    let (s, store, more) := passAll env s store chunks
    (s, store, calls ++ more)

theorem passAll_append (env : Surroundings) (s : Session σ κ) (store : Option τ)
    (chunks more : List Bytes) : s.passAll env store (chunks ++ more) =
      let (s', store', calls) := s.passAll env store chunks
      let (s'', store'', calls') := s'.passAll env store' more
      (s'', store'', calls ++ calls') := by
  induction chunks generalizing s store with
  | nil => rfl
  | cons chunk chunks ih => simp only [List.cons_append, passAll, ih, List.append_assoc]

theorem passAll_body (env : Surroundings) (s : Session σ κ) (store : Option τ) (chunks : List Bytes)
    (body : Option σ) : ({ s with body } : Session σ κ).passAll env store chunks =
      ({ (s.passAll env store chunks).1 with body }, (s.passAll env store chunks).2) := by
  induction chunks generalizing s store with
  | nil => rfl
  | cons chunk chunks ih => simp only [passAll, pass_body, ih]

theorem outcome_passAll (env : Surroundings) (s : Session σ κ) (store : Option τ)
    (chunks : List Bytes) : (s.passAll env store chunks).1.outcome = s.outcome := by
  induction chunks generalizing s store with
  | nil => rfl
  | cons chunk chunks ih =>
    exact (ih (s.pass env store chunk).1 (s.pass env store chunk).2.1).trans
      (outcome_pass env s store chunk)

theorem feeds_passAll (env : Surroundings) (s : Session σ κ) (store : Option τ)
    (chunks : List Bytes) :
    (s.passAll env store chunks).2.2.filterMap Call.fedChunk? = chunks.filter (!·.isEmpty) := by
  induction chunks generalizing s store with
  | nil => rfl
  | cons chunk chunks ih =>
    simp only [passAll, List.filterMap_append, feeds_pass, ih]
    rw [← List.filter_append, List.singleton_append]

end Pass

/-! ## A delivery -/

section Receive

variable [Store τ]

/-- What comes of a pause: the session suspends, or ends. -/
def pauseAt (env : Surroundings) (s : Session σ κ) (store : Option τ) (rest : σ) :
    Body.Pause → Turn σ κ τ
  | .wait => ⟨{ s with body := some rest }, store, [], none⟩
  | .finished => s.succeed store
  | .failed cause => s.interrupt env store [] (.bodyFailed cause)

/-- What comes of a delivery. -/
def receive (env : Surroundings) (s : Session σ κ) (store : Option τ) (d : Body.Delivery σ) :
    Turn σ κ τ :=
  let (s, store, calls) := s.passAll env store d.chunks
  (s.pauseAt env store d.rest d.pause).after calls

/-- While it is passed chunks on, a session may have any body: it lets go of it, or waits for
    the rest. -/
theorem receive_body (env : Surroundings) (s : Session σ κ) (store : Option τ) (d : Body.Delivery σ)
    (body : Option σ) :
    ({ s with body } : Session σ κ).receive env store d = s.receive env store d := by
  simp only [receive, passAll_body]
  cases d.pause <;> rfl

theorem receive_append (env : Surroundings) (s : Session σ κ) (store : Option τ)
    (chunks : List Bytes) (d : Body.Delivery σ) :
    s.receive env store { d with chunks := chunks ++ d.chunks } =
      let (s', store', calls) := s.passAll env store chunks
      (s'.receive env store' d).after calls := by
  simp only [receive, passAll_append, Turn.after, List.append_assoc]

theorem receive_cons (env : Surroundings) (s : Session σ κ) (store : Option τ) (chunk : Bytes)
    (d : Body.Delivery σ) : s.receive env store { d with chunks := chunk :: d.chunks } =
      let (s', store', calls) := s.pass env store chunk
      (s'.receive env store' d).after calls := by
  simp only [receive, passAll, Turn.after, List.append_assoc]

theorem feeds_receive (env : Surroundings) (s : Session σ κ) (store : Option τ)
    (d : Body.Delivery σ) :
    (s.receive env store d).calls.filterMap Call.fedChunk? = d.chunks.filter (!·.isEmpty) := by
  have hpause : ∀ (s : Session σ κ) (store : Option τ),
      (s.pauseAt env store d.rest d.pause).calls.filterMap Call.fedChunk? = [] := by
    intro s store
    rw [List.filterMap_eq_nil_iff]
    intro c hc
    cases hp : d.pause with
    | wait => simp [pauseAt, hp] at hc
    | finished =>
      rw [hp] at hc
      exact Call.fedChunk?_of_aboutRecord ((Trial.verdict_judged ..).aboutRecord c hc)
    | failed cause => simp [pauseAt, hp, interrupt, finish] at hc
  simp only [receive, Turn.after, List.filterMap_append, feeds_passAll, hpause, List.append_nil]

/-- A session waits with what is left of its body, or has ended and let go of it. -/
theorem session_receive (env : Surroundings) {s : Session σ κ} (ho : s.outcome = none)
    (store : Option τ) (d : Body.Delivery σ) :
    let s' := (s.receive env store d).session
    (d.pause = .wait → s'.body = some d.rest ∧ s'.outcome = none) ∧
    (d.pause ≠ .wait → s'.body = none ∧ s'.outcome.isSome) ∧
    (d.pause = .finished → ∃ trusted, s'.outcome = some (.compiled trusted)) ∧
    ∀ cause, d.pause = .failed cause →
      s'.outcome = some (.failed ((Interruption.bodyFailed cause).failure env.contextLive)) := by
  obtain ⟨chunks, pause, rest⟩ := d
  intro s'
  cases pause with
  | wait =>
    have hongoing : s'.outcome = none := (outcome_passAll env s store chunks).trans ho
    exact ⟨fun _ => ⟨rfl, hongoing⟩, fun h => absurd rfl h, nofun, nofun⟩
  | finished => exact ⟨nofun, fun _ => ⟨rfl, rfl⟩, fun _ => ⟨_, rfl⟩, nofun⟩
  | failed cause =>
    refine ⟨nofun, fun _ => ⟨rfl, rfl⟩, nofun, fun cause' h => ?_⟩
    cases h
    rfl

variable [Body σ]

/-- One read, and what comes of it. -/
theorem read_eq (env : Surroundings) (s : Session σ κ) (body : σ) (store : Option τ) :
    s.read env body store =
      match (Body.offer body).1 with
      | .wait => ⟨{ s with body := some (Body.offer body).2 }, store, [.offer .wait], none⟩
      | .finished => (s.succeed store).after [.offer .finished]
      | .failed cause => s.interrupt env store [.offer (.failed cause)] (.bodyFailed cause)
      | .chunk bytes =>
        let passed := s.pass env store bytes
        let taken := Body.take (Body.offer body).2 bytes.length
        let calls := .offer (.chunk bytes) :: passed.2.2 ++ [.take bytes.length taken.1]
        match taken.1 with
        | .more => (passed.1.read env taken.2 passed.2.1).after calls
        | .finished => (passed.1.succeed passed.2.1).after calls
        | .failed cause => passed.1.interrupt env passed.2.1 calls (.bodyFailed cause) := by
  rw [read]
  split
  · next hoffer => rw [hoffer]
  · next hoffer => rw [hoffer]
  · next cause hoffer => rw [hoffer]
  · next bytes hoffer =>
    rewrite [hoffer]
    rfl

/-- A turn that reads its body is what comes of the delivery. -/
theorem heard_read (env : Surroundings) (s : Session σ κ) (body : σ) (store : Option τ) :
    (s.read env body store).heard = s.receive env store (Body.delivery body) := by
  have hchunk : ∀ {s s' : Session σ κ} {store store' : Option τ} {bytes : Bytes}
      {calls : List Call} (taken : Taken), s.pass env store bytes = (s', store', calls) →
      (Call.offer (.chunk bytes) :: calls ++ [Call.take bytes.length taken]).filter
        (!·.toBody) = calls := by
    intro s s' store store' bytes calls taken hpass
    have hcalls := pass_not_toBody env s store bytes
    rw [hpass] at hcalls
    have hall : calls.filter (!·.toBody) = calls :=
      List.filter_eq_self.2 fun c hc => by simp [hcalls c hc]
    simp [hall]
  fun_induction Session.read env s body store with
  | case1 s body store rest hoffer =>
    rw [Body.delivery_wait hoffer]
    rfl
  | case2 s body store hoffer =>
    rw [Body.delivery_finished hoffer, Turn.heard_after,
      Turn.heard_of_not_toBody (succeed_not_toBody s store)]
    rfl
  | case3 s body store cause hoffer =>
    rw [Body.delivery_failed hoffer]
    rfl
  | case4 s body store rest bytes hoffer s' store' calls hpass taken all htaken ih =>
    rw [Body.delivery_chunk hoffer (Prod.ext htaken rfl), receive_cons, hpass, Turn.heard_after,
      hchunk taken hpass, ih]
  | case5 s body store rest bytes hoffer s' store' calls hpass taken all htaken =>
    rw [Body.delivery_lastChunk hoffer htaken, Turn.heard_after, hchunk taken hpass,
      Turn.heard_of_not_toBody (succeed_not_toBody s' store')]
    simp only [receive, passAll, hpass, List.append_nil]
    rfl
  | case6 s body store rest bytes hoffer s' store' calls hpass taken all cause htaken =>
    rw [Body.delivery_brokenChunk hoffer htaken]
    simp only [receive, passAll, hpass, List.append_nil]
    show { s'.interrupt env store' all (.bodyFailed cause) with calls := all.filter (!·.toBody) } = _
    rw [hchunk taken hpass]
    simp [pauseAt, interrupt, finish, Turn.after]

end Receive

end Session

/-! ## A session that is started -/

/-- A new session that has taken its sink. -/
def Session.begun (url : String) (key : Key) (token : Token) (sink : κ) : Session σ κ :=
  { (Session.new url key token : Session σ κ) with sink := some sink }

namespace Play

theorem recordCalls_heard (p : Play σ κ τ) : p.heard.recordCalls = p.recordCalls := by
  rw [recordCalls, calls_heard, recordCalls, List.filter_filter]
  congr 1
  funext c
  cases c <;> rfl

theorem recordCalls_after (p : Play σ κ τ) (t : Turn σ κ τ) :
    (p.after t).recordCalls = p.recordCalls ++ t.calls.filter Call.aboutRecord := by
  rw [recordCalls, calls_after, List.filter_append, recordCalls]

theorem feeds_after (p : Play σ κ τ) (t : Turn σ κ τ) :
    (p.after t).feeds = p.feeds ++ t.calls.filterMap Call.fedChunk? := by
  rw [feeds, calls_after, List.filterMap_append, feeds]

theorem bodiless_heard (p : Play σ κ τ) : p.heard.bodiless = p.bodiless := by
  simp [bodiless, heard]

/-- After a turn that told nobody an outcome. -/
theorem after_suspended (p : Play σ κ τ) (s : Session σ κ) (store : Option τ) (calls : List Call)
    (t : Turn σ κ τ) : (p.after ⟨s, store, calls, none⟩).after t = p.after (t.after calls) := by
  simp [after, Turn.notices, Turn.after]

section Delivered

variable [Store τ] (url : String) (key : Key) (token : Token) (store : Option τ)
  (env : Surroundings) (sink : κ)

/-- What is heard of a session that gets this delivery. -/
def delivered (d : Body.Delivery σ) : Play σ κ τ :=
  (opening url key token store).after ((Session.begun url key token sink).receive env store d)

theorem feeds_delivered (d : Body.Delivery σ) :
    (delivered url key token store env sink d).feeds = d.chunks.filter (!·.isEmpty) := by
  rw [delivered, feeds_after, Session.feeds_receive]
  rfl

/-- A session waits with its body, or has ended and let go of it. -/
theorem session_delivered (d : Body.Delivery σ) :
    let s := (delivered url key token store env sink d).session
    (d.pause = .wait → s.body = some d.rest ∧ s.outcome = none) ∧
    (d.pause ≠ .wait → s.body = none ∧ s.outcome.isSome) ∧
    (d.pause = .finished → ∃ trusted, s.outcome = some (.compiled trusted)) ∧
    ∀ cause, d.pause = .failed cause →
      s.outcome = some (.failed ((Interruption.bodyFailed cause).failure env.contextLive)) :=
  Session.session_receive env (s := Session.begun url key token sink) rfl store d

/-- While the session waits, others may do something to the body. -/
theorem delivered_meet (chunks : List Bytes) (rest : σ) (f : σ → σ) :
    (delivered url key token store env sink ⟨chunks, .wait, rest⟩).meet f id =
      delivered url key token store env sink ⟨chunks, .wait, f rest⟩ := by
  simp [meet, delivered, after, Session.receive, Session.pauseAt, Turn.after, Turn.notices]

/-- Only the body can tell what is left of it. -/
theorem bodiless_delivered (d : Body.Delivery σ) (rest : σ) :
    (delivered url key token store env sink { d with rest }).bodiless =
      (delivered url key token store env sink d).bodiless := by
  obtain ⟨chunks, pause, rest'⟩ := d
  cases pause <;> rfl

variable [Body σ]

/-- Of what a session makes of its body, all but what it says to it is known from the
    delivery. -/
theorem heard_start (body : σ) :
    ((opening url key token store).move ⟨.start body sink, env, id, id⟩).heard =
      delivered url key token store env sink (Body.delivery body) := by
  have hturn : (opening url key token store).turn ⟨.start body sink, env, id, id⟩ =
      (Session.begun url key token sink).read env body store := by
    rw [turn, meet_id]
    rfl
  rw [move, heard_after, hturn, Session.heard_read, meet_id]
  rfl

variable {url key token store env sink}

/-- A delivery that goes on after a wait is like one. -/
theorem heard_resume {p : Play σ κ τ} {chunks : List Bytes} {body : σ}
    (h : p.heard = delivered url key token store env sink ⟨chunks, .wait, body⟩) :
    (p.move ⟨.resume, env, id, id⟩).heard =
      delivered url key token store env sink
        { Body.delivery body with chunks := chunks ++ (Body.delivery body).chunks } := by
  let passed := (Session.begun url key token sink : Session σ κ).passAll env store chunks
  have hpart : delivered url key token store env sink ⟨chunks, .wait, body⟩ =
      (opening url key token store).after
        ⟨{ passed.1 with body := some body }, passed.2.1, passed.2.2, none⟩ := by
    simp only [delivered, Session.receive, Session.pauseAt, Turn.after, List.append_nil, passed]
  have hsession : p.session = { passed.1 with body := some body } :=
    congrArg Play.session (h.trans hpart)
  have hstore : p.store = passed.2.1 := congrArg Play.store (h.trans hpart)
  have hturn : p.turn ⟨.resume, env, id, id⟩ = p.session.read env body p.store := by
    rw [turn, meet_id]
    have hbody : p.session.body = some body := by rw [hsession]
    have ho : p.session.outcome = none := by
      rw [hsession]
      exact Session.outcome_passAll ..
    exact Session.resume_of_body env p.store hbody ho
  rw [move, heard_after, meet_id, h, hpart, hturn, Session.heard_read, hsession, hstore,
    Session.receive_body, after_suspended, delivered, Session.receive_append]

end Delivered

end Play

end CompileCache
