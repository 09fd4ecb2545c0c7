/-
  CompileCache.Proofs.Embedder.Setup — how a compilation is set up, or refused.

  A response is refused for the first thing that is wrong with it (`Response.Refused`). If the
  context is not found, that is not even looked at (`Declines`).

  Whoever is told an outcome may make requests of the latest session, so anything that this
  session does may come of it, and what its ending leads to. But a session only ever feeds its
  compiler, has its recorder keep a record and lets its own slot change. What everybody is set
  up with stays, and no compiler is set up anew (`Ran`, `tellEnding_ran`, `request_ran`).

  Proved: a compilation that is refused costs its compiler one failure and then its sink one
  notice, and nothing else; any other gives its compiler the URL, then a recorder if there is
  a store to use, and then begins to read (`stream_starts_or_declines`).
-/

import CompileCache.Proofs.Embedder.Reentry

namespace CompileCache

/-! ## Unusable responses -/

namespace Response

variable {σ : Type}

/-- The first thing wrong with a response. -/
inductive Refused : Option (Response σ) → Unusable → Prop
  | noResponse : Refused none .noResponse
  | badStatus (r : Response σ) : ¬ (200 ≤ r.status ∧ r.status ≤ 299) →
      Refused (some r) (.badStatus r.status)
  | badMediaType (r : Response σ) : 200 ≤ r.status ∧ r.status ≤ 299 →
      r.plainMediaType ≠ "application/wasm" → Refused (some r) (.badMediaType r.plainMediaType)
  | bodyTaken (r : Response σ) : 200 ≤ r.status ∧ r.status ≤ 299 →
      r.plainMediaType = "application/wasm" → r.consumed ∨ r.locked → Refused (some r) .bodyTaken
  | noBody (r : Response σ) : 200 ≤ r.status ∧ r.status ≤ 299 →
      r.plainMediaType = "application/wasm" → ¬ r.consumed → ¬ r.locked → r.body = none →
      Refused (some r) .noBody

theorem ok_iff (r : Response σ) : r.ok ↔ 200 ≤ r.status ∧ r.status ≤ 299 := by
  simp [ok, Nat.lt_succ_iff]

/-- The body of a response that is not refused. -/
theorem exists_body {r : Response σ} (h : ∀ cause, ¬ Refused (some r) cause) :
    ∃ body, r.body = some body ∧ check (some r) = .ok (r, body) := by
  have hok : 200 ≤ r.status ∧ r.status ≤ 299 :=
    Decidable.byContradiction fun hbad => h _ (.badStatus r hbad)
  have hmedia : r.plainMediaType = "application/wasm" :=
    Decidable.byContradiction fun hbad => h _ (.badMediaType r hok hbad)
  have hfree : ¬ (r.consumed ∨ r.locked) := fun htaken => h _ (.bodyTaken r hok hmedia htaken)
  rw [not_or] at hfree
  cases hbody : r.body with
  | none => exact absurd (.noBody r hok hmedia hfree.1 hfree.2 hbody) (h _)
  | some body =>
    exact ⟨body, rfl, check_eq_ok_iff.2 ⟨(ok_iff r).2 hok, hmedia, by simpa using hfree.1,
      by simpa using hfree.2, hbody⟩⟩

theorem check_eq_error_iff {response : Option (Response σ)} {cause : Unusable} :
    check response = .error cause ↔ Refused response cause := by
  constructor
  · intro hcheck
    unfold check at hcheck
    split at hcheck
    · cases hcheck
      exact .noResponse
    next r =>
    split at hcheck
    · next hbad =>
      cases hcheck
      exact .badStatus r fun h => by simp [(ok_iff r).2 h] at hbad
    next hok =>
    have hok : 200 ≤ r.status ∧ r.status ≤ 299 := (ok_iff r).1 (by simpa using hok)
    split at hcheck
    · next hmedia =>
      cases hcheck
      exact .badMediaType r hok hmedia
    next hmedia =>
    have hmedia : r.plainMediaType = "application/wasm" := Decidable.not_not.1 hmedia
    split at hcheck
    · next htaken =>
      cases hcheck
      exact .bodyTaken r hok hmedia (by simpa using htaken)
    next htaken =>
    split at hcheck
    · next hbody =>
      cases hcheck
      simp only [Bool.or_eq_true, not_or] at htaken
      exact .noBody r hok hmedia htaken.1 htaken.2 hbody
    · cases hcheck
  · intro hrefused
    cases hrefused with
    | noResponse => rfl
    | badStatus r hbad =>
      have hok : r.ok = false := by simpa using mt (ok_iff r).1 hbad
      simp [check, hok]
    | badMediaType r hok hmedia =>
      have hmedia : r.plainMediaType ≠ moduleMediaType := hmedia
      simp [check, (ok_iff r).2 hok, hmedia]
    | bodyTaken r hok hmedia htaken =>
      have hmedia : r.plainMediaType = moduleMediaType := hmedia
      simp [check, (ok_iff r).2 hok, hmedia, htaken]
    | noBody r hok hmedia hconsumed hlocked hbody =>
      have hmedia : r.plainMediaType = moduleMediaType := hmedia
      simp [check, (ok_iff r).2 hok, hmedia, hconsumed, hlocked, hbody]

end Response

/-- The compiler as it was set up. -/
def Compiler.unfed (c : Compiler) : Compiler := { c with fed := [] }

/-- How a session was set up, whatever has become of it. -/
def SessionSlot.vacant (slot : SessionSlot) : SessionSlot := { slot with session := none }

/-- What a sink requests when it is told. -/
def Sink.program : Sink → List Request
  | ignore => []
  | notify program => program

/-- How it shows that a sink is told. -/
def Sink.told (outcome : Outcome) : Sink → List Event
  | ignore => []
  | notify _ => [.sinkTold outcome]

/-- Whether the event is that a compiler is set up. -/
def Event.setsUp : Event → Bool
  | setUrl .. | setRecorder .. => true
  | _ => false

/-- The compiler that is called. -/
def Event.compiler? : Event → Option CompilerId
  | setUrl id _ | setRecorder id _ _ | feed id _ | tryArtifact id _ _ | compilerTold id _ |
    reported id _ => some id
  | _ => none

namespace Embedder

variable {m m' m'' : Embedder} {calls : CompilerId → Prop}

/-! ## What sessions leave alone -/

/-- Sessions have run, their callbacks included; they have only called compilers that `calls`
    allows. -/
structure Ran (calls : CompilerId → Prop) (m m' : Embedder) : Prop where
  context : m'.context = m.context ∧ m'.attached = m.attached
  latest : m'.latest = m.latest
  compilers : m'.compilers.map Compiler.unfed = m.compilers.map Compiler.unfed
  recorders : m'.recorders.map Recorder.letGo = m.recorders.map Recorder.letGo
  slots : m'.sessions.map SessionSlot.vacant = m.sessions.map SessionSlot.vacant
  events : ∃ new, m'.trace = new ++ m.trace ∧
    ∀ e ∈ new, e.setsUp = false ∧ ∀ id, e.compiler? = some id → calls id

namespace Ran

theorem refl (m : Embedder) : Ran calls m m :=
  ⟨⟨rfl, rfl⟩, rfl, rfl, rfl, rfl, [], rfl, List.forall_mem_nil _⟩

theorem trans (h : Ran calls m m') (h' : Ran calls m' m'') : Ran calls m m'' := by
  obtain ⟨new, hnew, hall⟩ := h.events
  obtain ⟨more, hmore, hall'⟩ := h'.events
  refine ⟨⟨h'.context.1.trans h.context.1, h'.context.2.trans h.context.2⟩,
    h'.latest.trans h.latest, h'.compilers.trans h.compilers, h'.recorders.trans h.recorders,
    h'.slots.trans h.slots, more ++ new, by rw [hmore, hnew, List.append_assoc], fun e he => ?_⟩
  rcases List.mem_append.1 he with he | he
  · exact hall' e he
  · exact hall e he

end Ran

/-- All that a session is wired to call is allowed. -/
def Confined (calls : CompilerId → Prop) (m : Embedder) : Prop :=
  ∀ slot ∈ m.sessions, calls slot.wiring.compiler

theorem Ran.confined {allowed : CompilerId → Prop} (h : Ran calls m m') (hm : Confined allowed m) :
    Confined allowed m' := by
  have hwirings : m'.sessions.map (·.wiring) = m.sessions.map (·.wiring) := by
    simpa [Function.comp_def, SessionSlot.vacant] using congrArg (List.map (·.wiring)) h.slots
  intro slot hslot
  obtain ⟨old, hold, heq⟩ := List.mem_map.1 (hwirings ▸ List.mem_map_of_mem hslot)
  rw [← heq]
  exact hm old hold

theorem ran_log (m : Embedder) {e : Event} (he : e.setsUp = false)
    (hcalls : ∀ id, e.compiler? = some id → calls id) : Ran calls m (m.log e) :=
  ⟨⟨rfl, rfl⟩, rfl, rfl, rfl, rfl, [e], rfl, fun e' he' => by
    rw [List.mem_singleton.1 he']
    exact ⟨he, hcalls⟩⟩

theorem ran_log_of_none (m : Embedder) {e : Event} (he : e.setsUp = false)
    (hnone : e.compiler? = none) : Ran calls m (m.log e) :=
  ran_log m he fun id hid => by simp [hnone] at hid

/-- What a change to one element does not show in. -/
theorem map_modify_of_eq {α β : Type} {f : α → β} {g : α → α} (h : ∀ a, f (g a) = f a)
    (as : List α) (i : Nat) : (as.modify i g).map f = as.map f := by
  have hmap : (as.modify i g).map f = (as.map f).modify i id := map_modify h as i
  rw [hmap, List.modify_id]

theorem ran_onRecorder (m : Embedder) (id : Option RecorderId) {f : Recorder → Recorder}
    (hf : ∀ r, (f r).letGo = r.letGo) : Ran calls m (m.onRecorder id f) := by
  cases id with
  | none => exact .refl m
  | some id =>
    exact ⟨⟨rfl, rfl⟩, rfl, rfl, map_modify_of_eq hf m.recorders id, rfl, [], rfl,
      List.forall_mem_nil _⟩

theorem ran_feed (m : Embedder) {id : CompilerId} (hid : calls id) (chunk : Bytes) :
    Ran calls m (m.feed id chunk) := by
  have hsame : ∀ c : Compiler, Compiler.unfed { c with fed := chunk :: c.fed } = c.unfed :=
    fun _ => rfl
  have hfed : Ran calls m (m.onCompiler id fun c => { c with fed := chunk :: c.fed }) :=
    ⟨⟨rfl, rfl⟩, rfl, map_modify_of_eq hsame m.compilers id, rfl, rfl, [], rfl,
      List.forall_mem_nil _⟩
  refine hfed.trans (ran_log _ rfl ?_)
  rintro _ ⟨⟩
  exact hid

theorem ran_putSession (m : Embedder) (id : SessionId) (s : Option (Session AnyBody Sink)) :
    Ran calls m (m.putSession id s) := by
  have hsame : ∀ slot : SessionSlot, SessionSlot.vacant { slot with session := s } = slot.vacant :=
    fun _ => rfl
  exact ⟨⟨rfl, rfl⟩, rfl, rfl, rfl, map_modify_of_eq hsame m.sessions id, [], rfl,
    List.forall_mem_nil _⟩

theorem ran_putWiredStore (m : Embedder) (name : Option StoreName) (s : Option Store.Faulty) :
    Ran calls m (m.putWiredStore name s) := by
  obtain ⟨stores, hput⟩ := putWiredStore_rest m name s
  rw [hput]
  exact ⟨⟨rfl, rfl⟩, rfl, rfl, rfl, rfl, [], rfl, List.forall_mem_nil _⟩

/-! ## Turns -/

theorem carry_ran {w : Wiring} (hw : calls w.compiler) (m : Embedder)
    (script : Option Body.Scripted) (c : Call) : Ran calls m (m.carry w script c).1 := by
  cases c with
  | offer answer =>
    cases script with
    | none => exact .refl m
    | some s => exact ran_log_of_none m rfl rfl
  | take count answer =>
    cases script with
    | none => exact .refl m
    | some s => exact ran_log_of_none m rfl rfl
  | cancelBody =>
    cases script with
    | none => exact .refl m
    | some s => exact ran_log_of_none m rfl rfl
  | get key answer =>
    simp only [carry, logStore]
    split
    · exact ran_log_of_none m rfl rfl
    · exact .refl m
  | evict key answer =>
    simp only [carry, logStore]
    split
    · exact ran_log_of_none m rfl rfl
    · exact .refl m
  | tryArtifact artifact taken =>
    refine ran_log m rfl ?_
    rintro _ ⟨⟩
    exact hw
  | feed chunk => exact ran_feed m hw chunk
  | keep record => exact ran_onRecorder m w.recorder fun _ => rfl
  | letGo => exact ran_onRecorder m w.recorder fun _ => rfl

theorem carryAll_ran {w : Wiring} (hw : calls w.compiler) (m : Embedder)
    (script : Option Body.Scripted) (cs : List Call) : Ran calls m (m.carryAll w script cs) := by
  induction cs generalizing m script with
  | nil => exact .refl m
  | cons c cs ih => exact (carry_ran hw m script c).trans (ih _ (m.carry w script c).2)

theorem turn_ran (hm : Confined calls m) (id : SessionId) (r : Request) :
    Ran calls m (m.turn id r).2 ∧ ∀ told, (m.turn id r).1 = some told → calls told.1 := by
  unfold turn
  split
  · exact ⟨.refl m, nofun⟩
  · next slot hslot =>
    have hw : calls slot.wiring.compiler := hm slot (List.mem_of_getElem? hslot)
    split
    · exact ⟨.refl m, nofun⟩
    · refine ⟨(ran_putSession m id _).trans ((ran_putWiredStore _ _ _).trans (carryAll_ran hw _ _ _)),
        fun told htold => ?_⟩
      obtain ⟨e, -, rfl⟩ := Option.map_eq_some_iff.1 htold
      exact hw

/-! ## Outcomes -/

theorem ran_post (m : Embedder) (t : Thread) (task : Task) : Ran calls m (m.post t task).2 := by
  simp only [post]
  split
  · exact .refl m
  · cases t <;> exact ⟨⟨rfl, rfl⟩, rfl, rfl, rfl, rfl, [], rfl, List.forall_mem_nil _⟩

theorem report_ran (m : Embedder) {id : CompilerId} (hid : calls id) (c : Compiler) :
    Ran calls m (m.report id c) := by
  have hserialize : ∀ (r : Recorder) (module : CompiledModule),
      Ran calls m (if r.wantsSerialized module then m.log .serialize else m) := by
    intro r module
    split
    · exact ran_log_of_none m rfl rfl
    · exact .refl m
  unfold report
  split
  · next serialized r _ _ =>
    have hrecord : Ran calls m (m.record r ⟨c.wire, serialized⟩).2 := by
      unfold record
      cases r.judge ⟨c.wire, serialized⟩ with
      | error why => exact hserialize r _
      | ok record => exact (hserialize r _).trans (ran_post _ _ _)
    refine hrecord.trans (ran_log _ rfl ?_)
    rintro _ ⟨⟩
    exact hid
  · exact .refl m

theorem makeRequests_ran {again : CompilerId → Ending Sink → Embedder → Embedder}
    (hagain : ∀ id e m, calls id → Confined calls m → Ran calls m (again id e m))
    (hm : Confined calls m) (program : List Request) :
    Ran calls m (m.makeRequests again program) := by
  induction program generalizing m with
  | nil => exact .refl m
  | cons r rs ih =>
    have hstep : Ran calls m (m.makeRequests again [r]) := by
      simp only [makeRequests, List.foldl_cons, List.foldl_nil]
      split
      · exact ran_log_of_none m rfl rfl
      · next id _ =>
        obtain ⟨hturn, htold⟩ := turn_ran hm id r
        rcases hended : (m.turn id r).1 with _ | ⟨compiler, ending⟩
        · dsimp only
          split
          · exact hturn.trans (ran_log_of_none _ rfl rfl)
          · exact hturn
        · have hcalled := hturn.trans (hagain _ ending _ (htold _ hended) (hturn.confined hm))
          dsimp only
          split
          · exact hcalled.trans (ran_log_of_none _ rfl rfl)
          · exact hcalled
    exact hstep.trans (ih (hstep.confined hm))

theorem tellCompiler_ran {again : CompilerId → Ending Sink → Embedder → Embedder}
    (hagain : ∀ id e m, calls id → Confined calls m → Ran calls m (again id e m))
    (hm : Confined calls m) {id : CompilerId} (hid : calls id) (outcome : Outcome) :
    Ran calls m (m.tellCompiler again id outcome) := by
  unfold tellCompiler
  split
  · exact .refl m
  · next c _ =>
    have htold : Ran calls m (m.log (.compilerTold id outcome)) := by
      refine ran_log m rfl ?_
      rintro _ ⟨⟩
      exact hid
    cases outcome with
    | compiled trusted =>
      have hreported := htold.trans (report_ran _ hid c)
      exact hreported.trans (makeRequests_ran hagain (hreported.confined hm) c.program)
    | failed failure => exact htold.trans (makeRequests_ran hagain (htold.confined hm) c.program)

theorem tellSink_ran {again : CompilerId → Ending Sink → Embedder → Embedder}
    (hagain : ∀ id e m, calls id → Confined calls m → Ran calls m (again id e m))
    (hm : Confined calls m) (sink : Sink) (outcome : Outcome) :
    Ran calls m (m.tellSink again sink outcome) := by
  cases sink with
  | ignore => exact .refl m
  | notify program =>
    have htold : Ran calls m (m.log (.sinkTold outcome)) := ran_log_of_none m rfl rfl
    exact htold.trans (makeRequests_ran hagain (htold.confined hm) program)

theorem tellEnding_ran (depth : Nat) (id : CompilerId) (e : Ending Sink) (m : Embedder)
    (hid : calls id) (hm : Confined calls m) : Ran calls m (tellEnding depth id e m) := by
  induction depth generalizing id e m with
  | zero => exact .refl m
  | succ depth ih =>
    have hcompiler : Ran calls m (m.tellOwed (tellEnding depth) id e) := by
      unfold tellOwed
      split
      · exact .refl m
      · exact tellCompiler_ran ih hm hid _
    simp only [tellEnding]
    split
    · exact hcompiler.trans (tellSink_ran ih (hcompiler.confined hm) _ e.outcome)
    · exact hcompiler

theorem request_ran (hm : Confined calls m) (id : SessionId) (r : Request) :
    Ran calls m (m.request id r) := by
  obtain ⟨hturn, htold⟩ := turn_ran hm id r
  cases hended : (m.turn id r).1 with
  | none =>
    rw [request_of_ongoing hended]
    exact hturn
  | some told =>
    rw [request_of_ended hended]
    exact hturn.trans (tellEnding_ran _ _ _ _ (htold told hended) (hturn.confined hm))

/-! ## Callbacks that reach nobody -/

/-- Stores were put back, and callbacks were noticed. -/
def Echoed (m m' : Embedder) : Prop :=
  ∃ stores echoes, m' = { m with stores, trace := echoes ++ m.trace } ∧
    (∀ name, m'.store? name = m.store? name) ∧ ∀ e ∈ echoes, e.isEcho

theorem Echoed.refl (m : Embedder) : Echoed m m :=
  ⟨m.stores, [], rfl, fun _ => rfl, List.forall_mem_nil _⟩

theorem Echoed.trans (h : Echoed m m') (h' : Echoed m' m'') : Echoed m m'' := by
  obtain ⟨stores, echoes, rfl, hstore, hall⟩ := h
  obtain ⟨stores', echoes', rfl, hstore', hall'⟩ := h'
  refine ⟨stores', echoes' ++ echoes, by simp, fun name => (hstore' name).trans (hstore name),
    fun e he => ?_⟩
  rcases List.mem_append.1 he with he | he
  · exact hall' e he
  · exact hall e he

theorem Echoed.quiet (h : Echoed m m') (hquiet : m.Quiet) : m'.Quiet := by
  obtain ⟨stores, echoes, rfl, -, -⟩ := h
  exact hquiet

theorem echoed_log (m : Embedder) {e : Event} (he : e.isEcho) : Echoed m (m.log e) :=
  ⟨m.stores, [e], rfl, fun _ => rfl, fun e' he' => by rwa [List.mem_singleton.1 he']⟩

theorem echoed_makeRequests (again : CompilerId → Ending Sink → Embedder → Embedder)
    (hquiet : m.Quiet) (program : List Request) : Echoed m (m.makeRequests again program) := by
  induction program generalizing m with
  | nil => exact .refl m
  | cons r rs ih =>
    have hstep : Echoed m (m.makeRequests again [r]) := by
      simp only [makeRequests, List.foldl_cons, List.foldl_nil]
      split
      · exact echoed_log m rfl
      · next id hid =>
        obtain ⟨hnone, stores, hrest, hstore⟩ := turn_of_over (fun s => hquiet id s hid) r
        have hturn : Echoed m (m.turn id r).2 := ⟨stores, [], hrest, hstore, List.forall_mem_nil _⟩
        simp only [hnone]
        split
        · exact hturn.trans (echoed_log _ rfl)
        · exact hturn
    exact hstep.trans (ih (hstep.quiet hquiet))

/-! ## Setting up -/

/-- The failure that a compilation is refused with. -/
inductive Declines (m : Embedder) (response : Option (Response AnyBody)) : Failure → Prop
  | silent : m.liveContext = none → Declines m response .silent
  | unusable (cause : Unusable) : m.liveContext.isSome → Response.Refused response cause →
      Declines m response (.visible (.unusable cause))

theorem prepare_eq_error_iff {response : Option (Response AnyBody)} {settings : StreamSettings}
    {failure : Failure} : Response.prepare m.liveContext response settings = .error failure ↔
      m.Declines response failure := by
  cases hcontext : m.liveContext with
  | none =>
    constructor
    · rintro ⟨⟩
      exact .silent hcontext
    · rintro (_ | ⟨cause, hlive, _⟩)
      · rfl
      · simp [hcontext] at hlive
  | some context =>
    cases hcheck : Response.check response with
    | error cause =>
      simp only [Response.prepare, hcheck, Except.error.injEq]
      constructor
      · rintro rfl
        exact .unusable cause (by simp [hcontext]) (Response.check_eq_error_iff.1 hcheck)
      · rintro (hnone | ⟨cause', _, hrefused⟩)
        · rw [hcontext] at hnone
          cases hnone
        · rw [Response.check_eq_error_iff.2 hrefused] at hcheck
          cases hcheck
          rfl
    | ok usable =>
      simp only [Response.prepare, hcheck, reduceCtorEq, false_iff]
      rintro (hnone | ⟨cause', _, hrefused⟩)
      · rw [hcontext] at hnone
        cases hnone
      · rw [Response.check_eq_error_iff.2 hrefused] at hcheck
        cases hcheck

theorem prepare_eq_ok {context : Context} (hcontext : m.liveContext = some context)
    {r : Response AnyBody} {body : AnyBody} (hcheck : Response.check (some r) = .ok (r, body))
    (settings : StreamSettings) :
    let store := if settings.useCache then r.store else none
    Response.prepare m.liveContext (some r) settings = .ok
      { url := r.url, body, key := (recorderFor settings context r).key, store,
        recorder := store.map fun _ => recorderFor settings context r } := by
  simp only [Response.prepare, hcontext, hcheck]
  rfl

/-- The requests of a callback, and the events that come of them. -/
theorem makeRequests_events (depth : Nat) (hm : Confined calls m) (program : List Request) :
    ∃ new, (m.makeRequests (tellEnding depth) program).trace = new ++ m.trace ∧
      (program = [] → new = []) ∧
      (∀ e ∈ new, e.setsUp = false ∧ ∀ id, e.compiler? = some id → calls id) ∧
      (m.Quiet → ∀ e ∈ new, e.isEcho) := by
  have hran := makeRequests_ran (fun id e m => tellEnding_ran depth id e m) hm program
  obtain ⟨new, hnew, hall⟩ := hran.events
  refine ⟨new, hnew, ?_, hall, fun hquiet => ?_⟩
  · rintro rfl
    exact List.self_eq_append_left.1 hnew
  · obtain ⟨stores, echoes, heq, -, hechoes⟩ := echoed_makeRequests (tellEnding depth) hquiet program
    rw [heq] at hnew
    rwa [← List.append_cancel_right hnew]

theorem notify_eq (m : Embedder) (sink : Sink) (outcome : Outcome) :
    m.notify sink outcome = { m with trace := sink.told outcome ++ m.trace }.makeRequests
      (tellEnding m.running) sink.program := by
  cases sink <;> rfl

theorem stream_declined {c : Compiler} (hc : m.compilers[m.current]? = some c)
    {response : Option (Response AnyBody)} {failure : Failure} (h : m.Declines response failure)
    (settings : StreamSettings) (sink : Sink) :
    let told := (m.log (.compilerTold m.current (.failed failure))).makeRequests
      (tellEnding m.running) c.program
    m.stream response settings sink = (none, { told with
      trace := sink.told (.failed failure) ++ told.trace }.makeRequests
        (tellEnding told.running) sink.program) := by
  intro told
  have htold : m.tell m.current (.failed failure) = told := by
    simp only [tell, tellCompiler, hc]
    rfl
  rw [← notify_eq, ← htold]
  simp only [stream, prepare_eq_error_iff.2 h]
  rfl

theorem setPreparedRecorder_eq (m : Embedder) (id : CompilerId) (r : Option Recorder) :
    m.setPreparedRecorder id r = (r.map fun _ => m.recorders.length,
      { m with
        compilers := m.compilers.modify id fun c =>
          { c with recorder := (r.map fun _ => m.recorders.length).or c.recorder }
        recorders := m.recorders ++ r.toList
        trace := r.toList.map (fun r => .setRecorder id r.url r.key) ++ m.trace }) := by
  cases r with
  | none =>
    have hsame : m.compilers.modify id (fun c => { c with recorder := none.or c.recorder }) =
        m.compilers := List.modify_id id m.compilers
    simp only [setPreparedRecorder, Option.map_none, hsame]
    simp
  | some r => rfl

/-- The embedder with a session for the response, which has yet to begin. -/
def setUp (m : Embedder) (settings : StreamSettings) (context : Context) (r : Response AnyBody) :
    Embedder :=
  let store := if settings.useCache then r.store else none
  let recorder := store.map fun _ => recorderFor settings context r
  let wiring : Wiring := ⟨m.current, store, recorder.map fun _ => m.recorders.length⟩
  { m with
    compilers := m.compilers.modify m.current fun c =>
      { c with recorder := wiring.recorder.or c.recorder }
    recorders := m.recorders ++ recorder.toList
    sessions := m.sessions ++
      [⟨some (Session.new r.url (recorderFor settings context r).key ⟨m.current⟩), wiring, false⟩]
    trace := recorder.toList.map (fun r => .setRecorder m.current r.url r.key) ++
      .setUrl m.current r.url :: m.trace }

theorem stream_begun {context : Context} (hcontext : m.liveContext = some context)
    {r : Response AnyBody} (h : ∀ cause, ¬ Response.Refused (some r) cause)
    (settings : StreamSettings) (sink : Sink) :
    ∃ body, r.body = some body ∧ m.stream (some r) settings sink = (some m.sessions.length,
      { (m.setUp settings context r).request m.sessions.length (.start body sink) with
        latest := some m.sessions.length }) := by
  obtain ⟨body, hbody, hcheck⟩ := Response.exists_body h
  refine ⟨body, hbody, ?_⟩
  simp only [stream, prepare_eq_ok hcontext hcheck settings, setPreparedRecorder_eq]
  rfl

theorem exists_declines_iff {response : Option (Response AnyBody)} :
    (∃ failure, m.Declines response failure) ↔
      m.liveContext = none ∨ ∃ cause, Response.Refused response cause := by
  constructor
  · rintro ⟨_, hnone | ⟨cause, _, hrefused⟩⟩
    · exact .inl hnone
    · exact .inr ⟨cause, hrefused⟩
  · intro h
    cases hcontext : m.liveContext with
    | none => exact ⟨_, .silent hcontext⟩
    | some context =>
      obtain ⟨cause, hrefused⟩ := h.resolve_left (by simp [hcontext])
      exact ⟨_, .unusable cause (by simp [hcontext]) hrefused⟩

/-- A session is begun unless the compilation is refused. -/
theorem stream_eq_none_iff {c : Compiler} (hc : m.compilers[m.current]? = some c)
    (response : Option (Response AnyBody)) (settings : StreamSettings) (sink : Sink) :
    (m.stream response settings sink).1 = none ↔
      m.liveContext = none ∨ ∃ cause, Response.Refused response cause := by
  constructor
  · intro hnone
    cases hcontext : m.liveContext with
    | none => exact .inl rfl
    | some context =>
      cases hcheck : Response.check response with
      | error cause => exact .inr ⟨cause, Response.check_eq_error_iff.1 hcheck⟩
      | ok usable =>
        cases response with
        | none => cases hcheck
        | some r =>
          have husable : ∀ cause, ¬ Response.Refused (some r) cause := by
            intro cause hrefused
            rw [Response.check_eq_error_iff.2 hrefused] at hcheck
            cases hcheck
          obtain ⟨body, -, hstream⟩ := stream_begun hcontext husable settings sink
          rw [hstream] at hnone
          cases hnone
  · intro h
    obtain ⟨failure, hdeclines⟩ := exists_declines_iff.2 h
    rw [stream_declined hc hdeclines]

/-- What becomes of an embedder that refuses a compilation: the compiler is told the failure and
    the sink after it, and nothing else happens but what they request, by `byCompiler` and
    `bySink`. -/
structure Refuses (c : Compiler) (sink : Sink) (failure : Failure) (byCompiler bySink : List Event)
    (m m' : Embedder) : Prop where
  trace : m'.trace = bySink ++ sink.told (.failed failure) ++ byCompiler ++
    .compilerTold m.current (.failed failure) :: m.trace
  byCompiler_nil : c.program = [] → byCompiler = []
  bySink_nil : sink.program = [] → bySink = []
  -- Nobody is set up, and only compilers of other sessions are called.
  latest : m'.latest = m.latest
  sessions : m'.sessions.map SessionSlot.vacant = m.sessions.map SessionSlot.vacant
  recorders : m'.recorders.map Recorder.letGo = m.recorders.map Recorder.letGo
  compilers : m'.compilers.map Compiler.unfed = m.compilers.map Compiler.unfed
  events : ∀ e ∈ bySink ++ byCompiler, e.setsUp = false ∧ ∀ other, e.compiler? = some other →
    ∃ slot ∈ m.sessions, slot.wiring.compiler = other
  -- If they reach nobody, there is nothing more to notice.
  quiet : m.Quiet → (∀ e ∈ bySink ++ byCompiler, e.isEcho) ∧
    (∀ name, m'.store? name = m.store? name) ∧ ∃ stores, m' = { m with stores, trace := m'.trace }

theorem stream_refuses {c : Compiler} (hc : m.compilers[m.current]? = some c)
    {response : Option (Response AnyBody)} {failure : Failure} (h : m.Declines response failure)
    (settings : StreamSettings) (sink : Sink) : ∃ byCompiler bySink,
      Refuses c sink failure byCompiler bySink m (m.stream response settings sink).2 := by
  let calls : CompilerId → Prop := fun other => ∃ slot ∈ m.sessions, slot.wiring.compiler = other
  have hconfined : Confined calls m := fun slot hslot => ⟨slot, hslot, rfl⟩
  let m₁ := m.log (.compilerTold m.current (.failed failure))
  let m₂ := m₁.makeRequests (tellEnding m.running) c.program
  let m₃ : Embedder := { m₂ with trace := sink.told (.failed failure) ++ m₂.trace }
  generalize hm' : (m.stream response settings sink).2 = m'
  obtain rfl : m₃.makeRequests (tellEnding m₂.running) sink.program = m' := by
    rw [← hm', stream_declined hc h]
  have hagain : ∀ depth id e m, calls id → Confined calls m → Ran calls m (tellEnding depth id e m) :=
    fun depth id e m => tellEnding_ran depth id e m
  have hconfined₁ : Confined calls m₁ := hconfined
  have hran₂ : Ran calls m₁ m₂ := makeRequests_ran (hagain _) hconfined₁ c.program
  have hconfined₃ : Confined calls m₃ := hran₂.confined hconfined₁
  have hran₃ := makeRequests_ran (hagain m₂.running) hconfined₃ sink.program
  obtain ⟨byCompiler, htrace₂, hnone₂, hall₂, hecho₂⟩ :=
    makeRequests_events m.running hconfined₁ c.program
  obtain ⟨bySink, htrace₃, hnone₃, hall₃, hecho₃⟩ :=
    makeRequests_events m₂.running hconfined₃ sink.program
  refine ⟨byCompiler, bySink, ?_, hnone₂, hnone₃, hran₃.latest.trans hran₂.latest,
    hran₃.slots.trans hran₂.slots, hran₃.recorders.trans hran₂.recorders,
    hran₃.compilers.trans hran₂.compilers, fun e he => ?_, fun hquiet => ?_⟩
  · rw [htrace₃, List.append_assoc, List.append_assoc]
    exact congrArg _ (congrArg _ htrace₂)
  · rcases List.mem_append.1 he with he | he
    · exact hall₃ e he
    · exact hall₂ e he
  · have hquiet₁ : m₁.Quiet := hquiet
    have hechoed₂ : Echoed m₁ m₂ := echoed_makeRequests _ hquiet₁ c.program
    have hquiet₃ : m₃.Quiet := hechoed₂.quiet hquiet₁
    have hechoed₃ := echoed_makeRequests (tellEnding m₂.running) hquiet₃ sink.program
    refine ⟨fun e he => ?_, ?_⟩
    · rcases List.mem_append.1 he with he | he
      · exact hecho₃ hquiet₃ e he
      · exact hecho₂ hquiet₁ e he
    · obtain ⟨stores₂, _, heq₂, hstore₂, -⟩ := hechoed₂
      obtain ⟨stores₃, _, heq₃, hstore₃, -⟩ := hechoed₃
      refine ⟨fun name => (hstore₃ name).trans (hstore₂ name), stores₃, ?_⟩
      rw [heq₃]
      simp only [m₃]
      rw [heq₂]
      rfl

/-- What becomes of an embedder that begins a session for a response: the compiler is given the
    URL, then the recorder if there is a store to use, and then the body is read. -/
structure Begins (c : Compiler) (r : Response AnyBody) (key : Key) (store : Option StoreName)
    (recorder : Recorder) (sink : Sink) (m m' : Embedder) : Prop where
  latest : m'.latest = some m.sessions.length
  request : ∃ (begun : Embedder) (body : AnyBody), r.body = some body ∧
    begun.sessions = m.sessions ++ [⟨some (Session.new r.url key ⟨m.current⟩),
      ⟨m.current, store, store.map fun _ => m.recorders.length⟩, false⟩] ∧
    m' = { begun.request m.sessions.length (.start body sink) with
      latest := some m.sessions.length }
  trace : ∃ new : List Event, (∀ e ∈ new, e.setsUp = false) ∧
    m'.trace.reverse = m.trace.reverse ++ .setUrl m.current r.url ::
      (if store.isSome then [.setRecorder m.current r.url key] else []) ++ new
  recorders : m'.recorders.map Recorder.letGo = m.recorders.map Recorder.letGo ++
    (if store.isSome then [recorder] else [])
  compiler : (m'.compilers[m.current]?).map Compiler.unfed =
    some { c.unfed with recorder := (store.map fun _ => m.recorders.length).or c.recorder }

theorem stream_begins {c : Compiler} (hc : m.compilers[m.current]? = some c) {context : Context}
    (hcontext : m.liveContext = some context) {r : Response AnyBody}
    (husable : ∀ cause, ¬ Response.Refused (some r) cause) (settings : StreamSettings) (sink : Sink) :
    (m.stream (some r) settings sink).1 = some m.sessions.length ∧
      Begins c r (recorderFor settings context r).key (if settings.useCache then r.store else none)
        (recorderFor settings context r) sink m (m.stream (some r) settings sink).2 := by
  obtain ⟨body, hbody, hstream⟩ := stream_begun hcontext husable settings sink
  have hran : Ran (fun _ => True) (m.setUp settings context r)
      ((m.setUp settings context r).request m.sessions.length (.start body sink)) :=
    request_ran (fun _ _ => trivial) _ _
  obtain ⟨new, hnew, hall⟩ := hran.events
  rw [hstream]
  refine ⟨rfl, rfl, ⟨m.setUp settings context r, body, hbody, ?_, rfl⟩, ⟨new.reverse,
    fun e he => (hall e (List.mem_reverse.1 he)).1, ?_⟩, ?_, ?_⟩
  · cases hstore : (if settings.useCache then r.store else none) <;> simp [setUp, hstore]
  · show (Embedder.request _ _ _).trace.reverse = _
    rw [hnew]
    cases hstore : (if settings.useCache then r.store else none) <;>
      simp [setUp, hstore, recorderFor]
  · show (Embedder.request _ _ _).recorders.map _ = _
    rw [hran.recorders]
    cases hstore : (if settings.useCache then r.store else none) <;>
      simp [setUp, hstore, recorderFor, Recorder.letGo]
  · have hcompiler := congrArg (·[m.current]?) hran.compilers
    simp only [List.getElem?_map] at hcompiler
    rw [hcompiler]
    cases hstore : (if settings.useCache then r.store else none) <;>
      simp [setUp, hstore, hc, Compiler.unfed]

/-- A compilation with a new compiler `c`, for whatever response and context. -/
theorem stream_starts_or_declines (m₀ : Embedder) (c : Compiler)
    (response : Option (Response AnyBody)) (settings : StreamSettings) (sink : Sink) :
    let m := m₀.addCompiler c
    let answer := (m.stream response settings sink).1
    let m' := (m.stream response settings sink).2
    -- There is no session exactly if the context is not found or the response is refused.
    (answer = none ↔ m.liveContext = none ∨ ∃ cause, Response.Refused response cause) ∧
    (answer = none ↔ ∃ failure, m.Declines response failure) ∧
    (∀ failure, m.Declines response failure →
      ∃ byCompiler bySink, Refuses c sink failure byCompiler bySink m m') ∧
    ∀ context r, m.liveContext = some context → response = some r →
      (∀ cause, ¬ Response.Refused response cause) →
      let key := Key.ofResource settings.tag r.url context.origin r.cacheName
      let store := if settings.useCache then r.store else none
      let recorder : Recorder :=
        { url := r.url, key, threshold := settings.threshold, thread := context.kind.thread }
      answer = some m.sessions.length ∧ Begins c r key store recorder sink m m' := by
  intro m answer m'
  have hc : m.compilers[m.current]? = some c := by simp [m, addCompiler, current]
  refine ⟨stream_eq_none_iff hc response settings sink,
    (stream_eq_none_iff hc response settings sink).trans exists_declines_iff.symm,
    fun failure hdeclines => stream_refuses hc hdeclines settings sink, ?_⟩
  rintro context r hcontext rfl husable
  exact stream_begins hc hcontext husable settings sink

end Embedder

end CompileCache
