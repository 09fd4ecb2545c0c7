/-
  CompileCache.Proofs.Embedder.Telling — what an embedder makes of a turn.

  A turn's calls reach store, compiler and recorder. They show in the trace, in what the
  compiler was fed and in the record that the recorder keeps, and nowhere else (`Carried`).
  When the turn has ended the session, the compiler is told and reports its module, and the
  record made of it waits in a queue (`Aftermath`).

  Compiler and sink may make requests when they are told. They reach the latest session; if
  that one is over (`Quiet`), nothing comes of them. Of all events only the notable ones are
  followed: what stores are asked, what compilers are offered and what they are told.

  Proved: the calls of a turn are carried (`carryAll_carried`), and an ending is told once,
  with nothing else to notice but the task that it leaves (`tellEnding_aftermath`).
-/

import CompileCache.Proofs.Embedder.Eviction

namespace CompileCache

/-- Whether a store was asked, an artifact offered or a compiler told. -/
def Event.isNotable : Event → Bool
  | storeCall .. | tryArtifact .. | compilerTold .. => true
  | _ => false

/-- The notable event that a notice of a session's comes to. -/
def Notice.event? (w : Wiring) : Notice Sink → Option Event
  | call (.get key _) => w.store.map (.storeCall .get · key)
  | call (.evict key _) => w.store.map (.storeCall .evict · key)
  | call (.tryArtifact artifact taken) => some (.tryArtifact w.compiler artifact taken)
  | compilerTold outcome => some (.compilerTold w.compiler outcome)
  | _ => none

/-- A session that has ended and let go of its body: nothing comes of what is asked of it. -/
structure Session.Over {σ κ : Type} (s : Session σ κ) : Prop where
  ended : s.outcome.isSome
  letGo : s.body = none

/-- The tasks that come of an outcome: one, if there is a module that is worth filing. -/
def Recorder.filings (r : Recorder) (artifact : Option Blob) (wire : Bytes) : Option Outcome → List Task
  | some (.compiled _) =>
    match artifact with
    | some serialized =>
      match r.judge ⟨wire, serialized⟩ with
      | .ok record => [.file r.key record]
      | .error _ => []
    | none => []
  | _ => []

theorem Recorder.filings_of_judge {r : Recorder} {serialized : Blob} {wire : Bytes} {record : Record}
    (h : r.judge ⟨wire, serialized⟩ = .ok record) (trusted : Bool) :
    r.filings (some serialized) wire (some (.compiled trusted)) = [.file r.key record] := by
  simp only [filings, h]

namespace Embedder

variable {m m' m'' : Embedder} {w : Wiring}

/-- The notable events so far, oldest first. -/
def notable (m : Embedder) : List Event := (m.trace.filter Event.isNotable).reverse

theorem notable_log (m : Embedder) (e : Event) :
    (m.log e).notable = m.notable ++ [e].filter Event.isNotable := by
  cases he : e.isNotable <;> simp [notable, log, he]

/-! ## Calls -/

/-- What calls of a session's leave. -/
structure Carried (w : Wiring) (calls : List Call) (m m' : Embedder) : Prop where
  rest : ∃ compilers recorders trace, m' = { m with compilers, recorders, trace }
  compiler : ∀ c : Compiler, m.compilers[w.compiler]? = some c → ∃ fed,
    m'.compilers[w.compiler]? = some { c with fed } ∧
      fed.reverse.flatten = c.wire ++ calls.flatMap Call.fedBytes
  recorder : ∀ (id : RecorderId) (r : Recorder), m.recorders[id]? = some r →
    ∃ kept, m'.recorders[id]? = some { r with kept }
  notable : m'.notable = m.notable ++ calls.filterMap fun c => (Notice.call c).event? w

theorem Carried.refl (w : Wiring) (m : Embedder) : Carried w [] m m :=
  ⟨⟨_, _, _, rfl⟩, fun c hc => ⟨c.fed, hc, by simp [Compiler.wire]⟩, fun _ r hr => ⟨r.kept, hr⟩,
    by simp⟩

theorem Carried.append {calls more : List Call} (h : Carried w calls m m')
    (hmore : Carried w more m' m'') : Carried w (calls ++ more) m m'' := by
  refine ⟨?_, fun c hc => ?_, fun id r hr => ?_, ?_⟩
  · obtain ⟨compilers, recorders, trace, rfl⟩ := h.rest
    obtain ⟨compilers, recorders, trace, rfl⟩ := hmore.rest
    exact ⟨compilers, recorders, trace, rfl⟩
  · obtain ⟨fed, hfed, hwire⟩ := h.compiler c hc
    obtain ⟨fed', hfed', hwire'⟩ := hmore.compiler _ hfed
    refine ⟨fed', hfed', ?_⟩
    rw [hwire', Compiler.wire, hwire, List.flatMap_append, List.append_assoc]
  · obtain ⟨kept, hkept⟩ := h.recorder id r hr
    exact hmore.recorder id { r with kept } hkept
  · rw [hmore.notable, h.notable, List.filterMap_append, List.append_assoc]

/-- A call that only shows in the trace. -/
theorem carried_log {c : Call} (hfed : c.fedBytes = []) {e : Event}
    (hevent : [e].filter Event.isNotable = ((Notice.call c).event? w).toList) :
    Carried w [c] m (m.log e) := by
  refine ⟨⟨_, _, _, rfl⟩, fun c' hc' => ⟨c'.fed, hc', by simp [Compiler.wire, hfed]⟩,
    fun _ r hr => ⟨r.kept, hr⟩, ?_⟩
  rw [notable_log, hevent]
  cases hn : (Notice.call c).event? w <;> simp [hn]

/-- A call that does not show at all. -/
theorem carried_none {c : Call} (hfed : c.fedBytes = []) (hevent : (Notice.call c).event? w = none) :
    Carried w [c] m m :=
  ⟨⟨_, _, _, rfl⟩, fun c' hc' => ⟨c'.fed, hc', by simp [Compiler.wire, hfed]⟩,
    fun _ r hr => ⟨r.kept, hr⟩, by simp [hevent]⟩

/-- A call to the recorder. -/
theorem carried_onRecorder {c : Call} (hfed : c.fedBytes = [])
    (hevent : (Notice.call c).event? w = none) {f : Recorder → Recorder}
    (hf : ∀ r, ∃ kept, f r = { r with kept }) : Carried w [c] m (m.onRecorder w.recorder f) := by
  unfold onRecorder
  split
  · next id _ =>
    refine ⟨⟨_, _, _, rfl⟩, fun c' hc' => ⟨c'.fed, hc', by simp [Compiler.wire, hfed]⟩,
      fun other r hr => ?_, by simp [hevent, Embedder.notable]⟩
    by_cases hid : id = other
    · obtain ⟨kept, hkept⟩ := hf r
      exact ⟨kept, by simp [hid, hr, hkept]⟩
    · exact ⟨r.kept, by simp [hid, hr]⟩
  · exact carried_none hfed hevent

theorem carry_carried (w : Wiring) (m : Embedder) (script : Option Body.Scripted) (c : Call) :
    Carried w [c] m (m.carry w script c).1 := by
  cases c with
  | offer answer =>
    cases script with
    | none => exact carried_none rfl rfl
    | some s => exact carried_log rfl rfl
  | take count answer =>
    cases script with
    | none => exact carried_none rfl rfl
    | some s => exact carried_log rfl rfl
  | cancelBody =>
    cases script with
    | none => exact carried_none rfl rfl
    | some s => exact carried_log rfl rfl
  | get key answer =>
    simp only [carry, logStore]
    split
    · next name hname => exact carried_log rfl (by simp [Notice.event?, hname, Event.isNotable])
    · next hname => exact carried_none rfl (by simp [Notice.event?, hname])
  | evict key answer =>
    simp only [carry, logStore]
    split
    · next name hname => exact carried_log rfl (by simp [Notice.event?, hname, Event.isNotable])
    · next hname => exact carried_none rfl (by simp [Notice.event?, hname])
  | tryArtifact artifact taken => exact carried_log rfl rfl
  | feed chunk =>
    refine ⟨⟨_, _, _, rfl⟩, fun c hc => ⟨chunk :: c.fed, ?_, ?_⟩, fun _ r hr => ⟨r.kept, hr⟩, ?_⟩
    · simp [carry, feed, onCompiler, log, hc]
    · simp [Compiler.wire, Call.fedBytes]
    · simp only [carry, feed, notable_log]
      rfl
  | keep record => exact carried_onRecorder rfl rfl fun r => ⟨some record, rfl⟩
  | letGo => exact carried_onRecorder rfl rfl fun r => ⟨none, rfl⟩

theorem carryAll_carried (w : Wiring) (m : Embedder) (script : Option Body.Scripted)
    (calls : List Call) : Carried w calls m (m.carryAll w script calls) := by
  induction calls generalizing m script with
  | nil => exact .refl w m
  | cons c cs ih => exact (carry_carried w m script c).append (ih _ (m.carry w script c).2)

/-! ## What is left behind -/

/-- Tasks were posted to a thread and notable events were added to the trace. Stores, by their
    names, are what they were. -/
structure Aftermath (t : Thread) (tasks : List Task) (events : List Event) (m m' : Embedder) :
    Prop where
  rest : ∃ stores mainQueue workerQueue trace,
    m' = { m with stores, mainQueue, workerQueue, trace }
  store : ∀ name, m'.store? name = m.store? name
  queue : (m.queue t).mode ≠ .gone →
    m'.queue t = { m.queue t with tasks := (m.queue t).tasks ++ tasks }
  notable : m'.notable = m.notable ++ events

namespace Aftermath

variable {t : Thread} {tasks : List Task} {events : List Event}

theorem refl (t : Thread) (m : Embedder) : Aftermath t [] [] m m :=
  ⟨⟨_, _, _, _, rfl⟩, fun _ => rfl, fun _ => by simp, by simp⟩

theorem log (t : Thread) (m : Embedder) (e : Event) :
    Aftermath t [] ([e].filter Event.isNotable) m (m.log e) := by
  refine ⟨⟨_, _, _, _, rfl⟩, fun _ => rfl, fun _ => ?_, notable_log m e⟩
  cases t <;> simp [Embedder.queue, Embedder.log]

theorem log_of_not (t : Thread) (m : Embedder) {e : Event} (he : e.isNotable = false) :
    Aftermath t [] [] m (m.log e) := by
  simpa [he] using log t m e

theorem append {more : List Task} {events' : List Event} (h : Aftermath t tasks events m m')
    (hmore : Aftermath t more events' m' m'') :
    Aftermath t (tasks ++ more) (events ++ events') m m'' := by
  refine ⟨?_, fun name => (hmore.store name).trans (h.store name), fun hmode => ?_, ?_⟩
  · obtain ⟨stores, main, worker, trace, rfl⟩ := h.rest
    obtain ⟨stores, main, worker, trace, rfl⟩ := hmore.rest
    exact ⟨stores, main, worker, trace, rfl⟩
  · have hqueue := h.queue hmode
    rw [hmore.queue (by rw [hqueue]; exact hmode), hqueue, List.append_assoc]
  · rw [hmore.notable, h.notable, List.append_assoc]

theorem post (t : Thread) (m : Embedder) (task : Task) :
    Aftermath t [task] [] m (m.post t task).2 := by
  simp only [Embedder.post]
  split
  · next hgone =>
    exact ⟨⟨_, _, _, _, rfl⟩, fun _ => rfl, fun hmode => absurd hgone hmode, by simp⟩
  · cases t <;>
      exact ⟨⟨_, _, _, _, rfl⟩, fun _ => rfl, fun _ => rfl,
        by simp [putQueue, Embedder.notable]⟩

end Aftermath

/-! ## Callbacks -/

/-- Callbacks reach nobody who would do anything. -/
def Quiet (m : Embedder) : Prop :=
  ∀ id s, m.latest = some id → m.session? id = some s → s.Over

theorem Aftermath.quiet {t : Thread} {tasks : List Task} {events : List Event}
    (h : Aftermath t tasks events m m') (hquiet : m.Quiet) : m'.Quiet := by
  obtain ⟨stores, main, worker, trace, rfl⟩ := h.rest
  exact hquiet

/-- Nothing comes of what is asked of a session that is over. -/
theorem Request.turn_of_over {s : Session AnyBody Sink} (h : s.Over) (env : Surroundings)
    (store : Option Store.Faulty) (r : Request) : r.turn env s store = ⟨s, store, [], none⟩ := by
  have hended : s.hasEnded = true := h.ended
  cases r <;>
    simp [Request.turn, Session.resume, Session.cancel, Session.withdraw, Session.stop, Session.start,
      hended, h.letGo]

theorem store?_putStore_ne {name other : StoreName} (h : other ≠ name) (s : Store.Faulty) :
    (m.putStore name s).store? other = m.store? other := by
  unfold store? putStore
  induction m.stores with
  | nil => rfl
  | cons e es ih =>
    obtain ⟨known, old⟩ := e
    by_cases hname : known = name
    · have hne : (other == name) = false := by simpa using h
      have hne' : (other == known) = false := by simpa [hname] using h
      simpa [hname, List.lookup_cons, hne, hne'] using ih
    · by_cases hother : other = known
      · simp [hname, hother]
      · have hne : (other == known) = false := by simpa using hother
        simpa [hname, List.lookup_cons, hne] using ih

/-- To put a store back as it is leaves every store as it is. -/
theorem store?_putWiredStore_self (m : Embedder) (name : Option StoreName) (other : StoreName) :
    (m.putWiredStore name (m.wiredStore? name)).store? other = m.store? other := by
  cases name with
  | none => rfl
  | some name =>
    simp only [putWiredStore, wiredStore?, Option.bind_some]
    cases hs : m.store? name with
    | none => rfl
    | some s =>
      by_cases hother : other = name
      · rw [hother, store?_putStore hs, hs]
      · exact store?_putStore_ne hother s

theorem putWiredStore_rest (m : Embedder) (name : Option StoreName) (s : Option Store.Faulty) :
    ∃ stores, m.putWiredStore name s = { m with stores } := by
  unfold putWiredStore
  split
  · exact ⟨_, rfl⟩
  · exact ⟨m.stores, rfl⟩

theorem putSession_self {id : SessionId} {slot : SessionSlot} {s : Session AnyBody Sink}
    (hslot : m.sessions[id]? = some slot) (hsession : slot.session = some s) :
    m.putSession id (some s) = m := by
  have hsame : m.sessions.modify id (fun slot => { slot with session := some s }) = m.sessions := by
    refine List.ext_getElem? fun n => ?_
    by_cases hn : id = n
    · subst hn
      obtain ⟨session, wiring, direct⟩ := slot
      cases hsession
      simp [hslot]
    · simp [hn]
  rw [putSession, hsame]

/-- A request made of a session that is over: its store is put back. -/
theorem turn_of_over {id : SessionId} (hover : ∀ s, m.session? id = some s → s.Over) (r : Request) :
    (m.turn id r).1 = none ∧ ∃ stores, (m.turn id r).2 = { m with stores } ∧
      ∀ name, (m.turn id r).2.store? name = m.store? name := by
  unfold turn
  split
  · exact ⟨rfl, m.stores, rfl, fun _ => rfl⟩
  · next slot hslot =>
    split
    · exact ⟨rfl, m.stores, rfl, fun _ => rfl⟩
    · next s hs =>
      have hs' : s.Over := hover s (by simp [session?, hslot, hs])
      simp only [Request.turn_of_over hs', putSession_self hslot hs]
      obtain ⟨stores, hput⟩ := putWiredStore_rest m slot.wiring.store (m.wiredStore? slot.wiring.store)
      exact ⟨rfl, stores, hput, store?_putWiredStore_self m slot.wiring.store⟩

/-- Stores that were put back leave nothing behind. -/
theorem Aftermath.of_stores (t : Thread) {stores : List (StoreName × Store.Faulty)}
    (h : m' = { m with stores }) (hstore : ∀ name, m'.store? name = m.store? name) :
    Aftermath t [] [] m m' := by
  subst h
  refine ⟨⟨stores, m.mainQueue, m.workerQueue, m.trace, rfl⟩, hstore, fun _ => ?_, ?_⟩
  · cases t <;> simp [Embedder.queue]
  · simp [Embedder.notable]

theorem makeRequests_aftermath (again : CompilerId → Ending Sink → Embedder → Embedder)
    (t : Thread) (hquiet : m.Quiet) (program : List Request) :
    Aftermath t [] [] m (m.makeRequests again program) := by
  induction program generalizing m with
  | nil => exact .refl t m
  | cons r rs ih =>
    have hstep : Aftermath t [] [] m (m.makeRequests again [r]) := by
      simp only [makeRequests, List.foldl_cons, List.foldl_nil]
      split
      · exact .log_of_not t m rfl
      · next id hid =>
        obtain ⟨hnone, stores, hrest, hstore⟩ := turn_of_over (fun s => hquiet id s hid) r
        have hturn := Aftermath.of_stores t hrest hstore
        simp only [hnone]
        split
        · exact hturn.append (.log_of_not t _ rfl)
        · exact hturn
    exact hstep.append (ih (hstep.quiet hquiet))

/-! ## Outcomes -/

theorem record_aftermath (m : Embedder) (r : Recorder) (wire : Bytes) (serialized : Blob)
    (trusted : Bool) :
    Aftermath r.thread (r.filings (some serialized) wire (some (.compiled trusted))) [] m
      (m.record r ⟨wire, serialized⟩).2 := by
  have hserialize : Aftermath r.thread [] [] m
      (if r.wantsSerialized ⟨wire, serialized⟩ then m.log .serialize else m) := by
    split
    · exact .log _ m .serialize
    · exact .refl _ m
  cases hj : r.judge ⟨wire, serialized⟩ with
  | error why =>
    simp only [record, Recorder.filings, hj]
    exact hserialize
  | ok record =>
    simp only [Embedder.record, Recorder.filings, hj]
    exact hserialize.append (.post _ _ _)

theorem report_aftermath {c : Compiler} {r : Recorder}
    (hr : c.recorder.bind (m.recorders[·]?) = some r) (id : CompilerId) (trusted : Bool) :
    Aftermath r.thread (r.filings c.artifact c.wire (some (.compiled trusted))) [] m
      (m.report id c) := by
  cases ha : c.artifact with
  | none =>
    simp only [report, ha, Recorder.filings]
    exact .refl _ m
  | some serialized =>
    simp only [report, ha, hr]
    have hrecord := record_aftermath m r c.wire serialized trusted
    have hlog := Aftermath.log r.thread (m.record r ⟨c.wire, serialized⟩).2
      (.reported id (m.record r ⟨c.wire, serialized⟩).1)
    have hboth := hrecord.append hlog
    rwa [List.append_nil] at hboth

theorem tellCompiler_aftermath (again : CompilerId → Ending Sink → Embedder → Embedder)
    (hquiet : m.Quiet) {id : CompilerId} {c : Compiler} {r : Recorder}
    (hc : m.compilers[id]? = some c) (hr : c.recorder.bind (m.recorders[·]?) = some r)
    (outcome : Outcome) :
    Aftermath r.thread (r.filings c.artifact c.wire (some outcome)) [.compilerTold id outcome] m
      (m.tellCompiler again id outcome) := by
  have hlog := Aftermath.log r.thread m (.compilerTold id outcome)
  simp only [tellCompiler, hc]
  cases outcome with
  | compiled trusted =>
    have hreport := hlog.append (report_aftermath (m := m.log _) hr id trusted)
    have hall := hreport.append
      (makeRequests_aftermath again r.thread (hreport.quiet hquiet) c.program)
    rwa [List.append_nil] at hall
  | failed failure =>
    exact hlog.append (makeRequests_aftermath again r.thread (hlog.quiet hquiet) c.program)

theorem tellSink_aftermath (again : CompilerId → Ending Sink → Embedder → Embedder) (t : Thread)
    (hquiet : m.Quiet) (sink : Sink) (outcome : Outcome) :
    Aftermath t [] [] m (m.tellSink again sink outcome) := by
  cases sink with
  | ignore => exact .refl t m
  | notify program =>
    have hlog := Aftermath.log t m (.sinkTold outcome)
    exact hlog.append (makeRequests_aftermath again t (hlog.quiet hquiet) program)

/-- The compiler is told, once, and its recorder's record is posted; nobody else does anything. -/
theorem tellEnding_aftermath (depth : Nat) (hquiet : m.Quiet) {id : CompilerId} {c : Compiler}
    {r : Recorder} (hc : m.compilers[id]? = some c)
    (hr : c.recorder.bind (m.recorders[·]?) = some r) {e : Ending Sink} (htoken : e.token.isSome) :
    Aftermath r.thread (r.filings c.artifact c.wire (some e.outcome)) [.compilerTold id e.outcome] m
      (tellEnding (depth + 1) id e m) := by
  have hcompiler := tellCompiler_aftermath (tellEnding depth) hquiet hc hr e.outcome
  simp only [tellEnding, tellOwed, Ending.compilerTold_of_token htoken]
  cases e.sink with
  | none => exact hcompiler
  | some sink =>
    have hboth := hcompiler.append
      (tellSink_aftermath (tellEnding depth) r.thread (hcompiler.quiet hquiet) sink e.outcome)
    rwa [List.append_nil, List.append_nil] at hboth

end Embedder

end CompileCache
