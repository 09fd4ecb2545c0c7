/-
  CompileCache.Proofs.Session.Cacheless — what a session does without a cache, it does with any.

  Whatever a store answers and whatever a compiler makes of an artifact, a session reads, feeds
  and ends as if there were neither. Take away from a session its trial and its digest, from
  its calls those about a record, and from an outcome whether an artifact was trusted
  (`plain`): what is left of a turn is the turn of what is left of the session, without a store
  (`turn_plain`), and so for every run (`run_plain`). Two runs that meet the same, but for store
  and compiler, leave the same.

  Proved: nobody can tell from the rest what the cache was (`cache_unnoticed`); in particular a
  body that has ended is compiled, with any store.
-/

import CompileCache.Proofs.Session.Reception
import CompileCache.Store.Faulty
import Mathlib.Data.List.Forall2

namespace CompileCache

variable {σ κ τ τ' : Type}

/-- There is no store of this type, for sessions that are to have none. -/
instance : Store Empty where
  get s := s.elim
  evict s := s.elim
  put s := s.elim

/-! ## What is left without a cache -/

/-- The outcome, whether or not an artifact was trusted. -/
def Outcome.plain : Outcome → Outcome
  | compiled _ => compiled false
  | failed failure => failed failure

def Ending.plain (e : Ending κ) : Ending κ := { e with outcome := e.outcome.plain }

/-- What is noticed with or without a cache. -/
def Notice.plain? : Notice κ → Option (Notice κ)
  | call c => if c.aboutRecord then none else some (call c)
  | compilerTold outcome => some (compilerTold outcome.plain)
  | sinkTold sink outcome => some (sinkTold sink outcome.plain)

/-- A trial of nothing. -/
def Trial.idle : Trial := { key := ⟨0, []⟩, phase := .uncached }

def Session.plain (s : Session σ κ) : Session σ κ :=
  { s with
    trial := Trial.idle, digest := RunningDigest.empty, outcome := s.outcome.map Outcome.plain,
    token_held := by rw [s.token_held, Option.isNone_map] }

def Turn.plain (t : Turn σ κ τ) : Turn σ κ Empty :=
  ⟨t.session.plain, none, t.calls.filter (!·.aboutRecord), t.ending.map Ending.plain⟩

/-- The compiler is not asked. -/
def Surroundings.plain (env : Surroundings) : Surroundings := { env with accepts := fun _ => false }

/-- The move, but for what others do to the store. -/
def Move.plain (m : Move σ κ τ) : Move σ κ Empty := ⟨m.operation, m.env.plain, m.onBody, id⟩

def Play.plain (p : Play σ κ τ) : Play σ κ Empty :=
  ⟨p.session.plain, none, p.trace.filterMap Notice.plain?⟩

/-- Two moves with the same operation, context and body; compiler and store are left open. -/
structure Move.Agrees (m : Move σ κ τ) (m' : Move σ κ τ') : Prop where
  operation : m.operation = m'.operation
  contextLive : m.env.contextLive = m'.env.contextLive
  onBody : m.onBody = m'.onBody

theorem Move.Agrees.plain_eq {m : Move σ κ τ} {m' : Move σ κ τ'} (h : m.Agrees m') :
    m.plain = m'.plain := by
  obtain ⟨operation, ⟨accepts, contextLive⟩, onBody, onStore⟩ := m
  obtain ⟨operation', ⟨accepts', contextLive'⟩, onBody', onStore'⟩ := m'
  obtain ⟨rfl, rfl, rfl⟩ := h
  rfl

/-! ## A turn -/

theorem filter_not_aboutRecord {calls : List Call} (h : ∀ c ∈ calls, c.aboutRecord) :
    calls.filter (!·.aboutRecord) = [] := by
  rw [List.filter_eq_nil_iff]
  exact fun c hc => by simp [h c hc]

theorem Turn.plain_after (calls : List Call) (t : Turn σ κ τ) :
    (t.after calls).plain = t.plain.after (calls.filter (!·.aboutRecord)) := by
  simp [plain, Turn.after]

namespace Session

theorem plain_finish (s : Session σ κ) (store : Option τ) (calls : List Call) (outcome : Outcome) :
    (s.finish store calls outcome).plain =
      s.plain.finish none (calls.filter (!·.aboutRecord)) outcome.plain := rfl

theorem plain_interrupt (env : Surroundings) (s : Session σ κ) (store : Option τ)
    (calls : List Call) (cause : Interruption) : (s.interrupt env store calls cause).plain =
      s.plain.interrupt env.plain none (calls.filter (!·.aboutRecord)) cause := rfl

variable [Store τ]

theorem plain_pass (env : Surroundings) (s : Session σ κ) (store : Option τ) (chunk : Bytes) :
    s.plain.pass env.plain (none : Option Empty) chunk =
      ((s.pass env store chunk).1.plain, none,
        (s.pass env store chunk).2.2.filter (!·.aboutRecord)) := by
  have habout := (Trial.start_begun env.accepts s.trial store).aboutRecord
  by_cases hb : chunk.isEmpty
  · simp [pass, hb]
  · have hidle : s.plain.trial.start env.plain.accepts (none : Option Empty) =
        ⟨Trial.idle, none, []⟩ := rfl
    have hstart := filter_not_aboutRecord habout
    unfold pass
    rw [if_neg hb, if_neg hb, hidle, List.filter_append, hstart]
    rfl

theorem plain_succeed (s : Session σ κ) (store : Option τ) :
    s.plain.succeed (none : Option Empty) = (s.succeed store).plain := by
  have habout := (Trial.verdict_judged s.trial s.digest store).aboutRecord
  simp only [succeed, plain_finish, filter_not_aboutRecord habout]
  rfl

variable [Body σ]

/-- What is said to the body, and what is fed, is said without a cache too. -/
theorem filter_ofChunk (bytes : Bytes) (calls : List Call) (taken : Taken) :
    (Call.offer (.chunk bytes) :: calls ++ [Call.take bytes.length taken]).filter (!·.aboutRecord) =
      Call.offer (.chunk bytes) :: calls.filter (!·.aboutRecord) ++
        [Call.take bytes.length taken] := by
  simp [Call.aboutRecord]

theorem plain_read (env : Surroundings) (s : Session σ κ) (body : σ) (store : Option τ) :
    s.plain.read env.plain body (none : Option Empty) = (s.read env body store).plain := by
  fun_induction Session.read env s body store with
  | case1 s body store rest hoffer =>
    rw [read_eq, hoffer]
    rfl
  | case2 s body store hoffer =>
    rw [read_eq, hoffer, Turn.plain_after, ← plain_succeed]
    rfl
  | case3 s body store cause hoffer =>
    rw [read_eq, hoffer]
    rfl
  | case4 s body store rest bytes hoffer s' store' calls hpass taken all htaken ih =>
    replace htaken : (Body.take (Body.offer body).2 bytes.length).1 = .more := htaken
    rw [read_eq, hoffer, Turn.plain_after, ← ih]
    simp only [plain_pass env s store bytes, hpass, htaken, all, taken, rest]
    rw [filter_ofChunk]
  | case5 s body store rest bytes hoffer s' store' calls hpass taken all htaken =>
    replace htaken : (Body.take (Body.offer body).2 bytes.length).1 = .finished := htaken
    rw [read_eq, hoffer, Turn.plain_after, ← plain_succeed]
    simp only [plain_pass env s store bytes, hpass, htaken, all, taken, rest]
    rw [filter_ofChunk]
  | case6 s body store rest bytes hoffer s' store' calls hpass taken all cause htaken =>
    replace htaken : (Body.take (Body.offer body).2 bytes.length).1 = .failed cause := htaken
    rw [read_eq, hoffer, plain_interrupt]
    simp only [plain_pass env s store bytes, hpass, htaken, all, taken, rest]
    rw [filter_ofChunk]

theorem plain_turn (env : Surroundings) (s : Session σ κ) (store : Option τ)
    (o : Operation σ κ) :
    o.turn env.plain s.plain (none : Option Empty) = (o.turn env s store).plain := by
  have hended : s.plain.hasEnded = s.hasEnded := by
    simp [hasEnded, plain]
  have hstop : ∀ cause,
      s.plain.stop env.plain (none : Option Empty) cause = (s.stop env store cause).plain := by
    intro cause
    unfold stop
    rw [hended]
    cases s.hasEnded with
    | true => rfl
    | false => cases hb : s.body <;> simp [plain_interrupt, plain, hb, Call.aboutRecord]
  cases o with
  | start body sink =>
    show s.plain.start env.plain body sink none = (s.start env body sink store).plain
    unfold start
    rw [hended]
    show (if s.body.isSome || s.hasEnded then _ else _) = _
    split
    · rfl
    · exact plain_read env { s with sink := some sink } body store
  | resume =>
    show s.plain.resume env.plain none = (s.resume env store).plain
    have hbody : s.plain.body = s.body := rfl
    have htoken : s.plain.token = s.token := rfl
    unfold resume
    rw [hbody, htoken]
    split
    · exact plain_read env s _ store
    · rfl
  | cancel => exact hstop .cancelled
  | withdraw => exact hstop .withdrawn

end Session

/-! ## A run -/

namespace Play

theorem filterMap_notices (t : Turn σ κ τ) :
    t.notices.filterMap Notice.plain? = t.plain.notices := by
  have hcalls : ∀ calls : List Call, (calls.map Notice.call : List (Notice κ)).filterMap Notice.plain? =
      (calls.filter (!·.aboutRecord)).map .call := by
    intro calls
    induction calls with
    | nil => rfl
    | cons c cs ih => cases hc : c.aboutRecord <;> simp [Notice.plain?, hc, ih]
  have hending : ∀ e : Ending κ, e.notices.filterMap Notice.plain? = e.plain.notices := by
    intro e
    cases ht : e.token <;> cases hs : e.sink <;>
      simp [Ending.notices_eq, Ending.plain, Notice.plain?, ht, hs]
  rw [Turn.notices, Turn.notices, List.filterMap_append, hcalls]
  cases ht : t.ending <;> simp [Turn.plain, ht, hending]

theorem plain_after (p : Play σ κ τ) (t : Turn σ κ τ) : (p.after t).plain = p.plain.after t.plain := by
  rw [plain, after, List.filterMap_append, filterMap_notices]
  rfl

theorem plain_dropped (p : Play σ κ τ) : p.dropped.filterMap Notice.plain? = p.plain.dropped := by
  have htold : (p.session.drop.toList.map Notice.compilerTold).filterMap Notice.plain? =
      (p.session.drop.toList.map Notice.compilerTold : List (Notice κ)) := by
    rw [Session.drop]
    cases p.session.token <;> rfl
  rw [dropped, List.filterMap_append, htold, dropped]
  rfl

theorem plain_calls (p : Play σ κ τ) : p.plain.calls = p.calls.filter (!·.aboutRecord) := by
  simp only [Play.calls, plain, List.filterMap_filterMap, List.filter_filterMap]
  congr 1
  funext n
  cases n with
  | call c => cases hc : c.aboutRecord <;> simp [Notice.plain?, Notice.call?, Option.filter, hc]
  | compilerTold outcome => rfl
  | sinkTold sink outcome => rfl

theorem plain_feeds (p : Play σ κ τ) : p.plain.feeds = p.feeds := by
  rw [feeds, plain_calls, feeds, List.filterMap_filter]
  congr 1
  funext c
  cases c <;> rfl

theorem plain_bodyEnded (p : Play σ κ τ) : p.plain.bodyEnded ↔ p.bodyEnded := by
  simp only [bodyEnded, plain_calls, List.mem_filter]
  constructor
  · rintro ⟨c, ⟨hc, -⟩, hends⟩
    exact ⟨c, hc, hends⟩
  · rintro ⟨c, hc, hends⟩
    refine ⟨c, ⟨hc, ?_⟩, hends⟩
    cases habout : c.aboutRecord with
    | false => rfl
    | true => rw [Call.not_endsBody_of_aboutRecord habout] at hends; cases hends

/-- A failure is told with or without a cache. -/
theorem plain_failed (p : Play σ κ τ) (failure : Failure) :
    .compilerTold (.failed failure) ∈ p.plain.trace ↔
      .compilerTold (.failed failure) ∈ p.trace := by
  simp only [plain, List.mem_filterMap]
  constructor
  · rintro ⟨n, hn, heq⟩
    cases n with
    | call c => cases hc : c.aboutRecord <;> simp [Notice.plain?, hc] at heq
    | compilerTold outcome => cases outcome <;> simp_all [Notice.plain?, Outcome.plain]
    | sinkTold sink outcome => simp [Notice.plain?] at heq
  · exact fun hn => ⟨_, hn, rfl⟩

variable [Body σ] [Store τ]

theorem plain_move (p : Play σ κ τ) (m : Move σ κ τ) : (p.move m).plain = p.plain.move m.plain := by
  rw [move, plain_after, turn, ← Session.plain_turn]
  rfl

theorem plain_run (p : Play σ κ τ) (moves : List (Move σ κ τ)) :
    (p.run moves).plain = p.plain.run (moves.map Move.plain) := by
  induction moves generalizing p with
  | nil => rfl
  | cons m moves ih =>
    show ((p.move m).run moves).plain = (p.plain.move m.plain).run (moves.map Move.plain)
    rw [ih, plain_move]

variable [Store τ']

/-- Two runs that meet the same, but for stores and what the compiler makes of artifacts. -/
theorem plain_agrees (url : String) (key key' : Key) (token : Token) (store : Option τ)
    (store' : Option τ') {moves : List (Move σ κ τ)} {moves' : List (Move σ κ τ')}
    (hagree : List.Forall₂ Move.Agrees moves moves') :
    ((opening url key token store).run moves).plain =
      ((opening url key' token store').run moves').plain := by
  have hmoves : moves.map Move.plain = moves'.map Move.plain := by
    induction hagree with
    | nil => rfl
    | cons hm _ ih => rw [List.map_cons, List.map_cons, hm.plain_eq, ih]
  rw [plain_run, plain_run, hmoves]
  rfl

/-- Nobody but compiler and store can tell what the cache was: of two runs with the same
    operations, contexts and bodies. -/
theorem cache_unnoticed (url : String) (key key' : Key) (token : Token) (store : Option τ)
    (store' : Option τ') (moves : List (Move σ κ τ)) (moves' : List (Move σ κ τ'))
    (hagree : List.Forall₂ Move.Agrees moves moves') :
    let p := (opening url key token store).run moves
    let q := (opening url key' token store').run moves'
    -- The same is said to body, compiler and sink, but for records and whether one was trusted.
    p.trace.filterMap Notice.plain? = q.trace.filterMap Notice.plain? ∧
    p.dropped.filterMap Notice.plain? = q.dropped.filterMap Notice.plain? ∧
    p.feeds = q.feeds ∧
    p.session.received = q.session.received ∧
    p.session.body = q.session.body ∧ p.session.sink = q.session.sink ∧
    -- They end alike, and a failure is the same failure.
    (∀ failure, .compilerTold (.failed failure) ∈ p.trace ↔
      .compilerTold (.failed failure) ∈ q.trace) ∧
    -- A body that came to its end is compiled, whatever came of the record.
    (p.bodyEnded ↔ ∃ trusted, .compilerTold (.compiled trusted) ∈ p.trace) ∧
    (p.bodyEnded ↔ q.bodyEnded) := by
  intro p q
  have hplain : p.plain = q.plain := plain_agrees url key key' token store store' hagree
  have hends : p.bodyEnded ↔ q.bodyEnded := by
    rw [← plain_bodyEnded p, hplain, plain_bodyEnded]
  refine ⟨congrArg Play.trace hplain, ?_, ?_, congrArg (·.session.received) hplain,
    congrArg (·.session.body) hplain, congrArg (·.session.sink) hplain, fun failure => ?_, ?_, hends⟩
  · rw [plain_dropped, plain_dropped, hplain]
  · rw [← plain_feeds p, hplain, plain_feeds]
  · rw [← plain_failed p, hplain, plain_failed]
  · rw [(run_kept url key token store moves).ended]
    simp only [p, (opening_owes url key token store moves).compilerTold_iff]

/-- One session tries a record of other bytes and evicts it; the store of the other is out of
    order, and its compiler would take nothing. -/
theorem cache_unnoticed_when_stale :
    let key : Key := ⟨Record.moduleTag, [109]⟩
    let stale : Record := ⟨Record.moduleTag, List.replicate 33 0, by decide⟩
    let shelf : Store.Mounted :=
      ⟨.memory ⟨1024, by decide, .oldestFirst, [(key.scope, stale)]⟩, Disk.empty⟩
    let store : Store.Faulty := { mounted := shelf }
    let broken : Store.Faulty := { mounted := shelf, faults := { get := true } }
    let body : Body.Scripted := ⟨[.chunk [1, 2], .wait, .chunk [], .chunk [3]]⟩
    let moves := fun accepts : Bytes → Bool =>
      [(⟨.start body (), ⟨accepts, true⟩, id, id⟩ : Move Body.Scripted Unit Store.Faulty),
        ⟨.resume, ⟨accepts, true⟩, id, id⟩]
    let p := (opening "https://a.test/m" key ⟨0⟩ (some store)).run (moves fun _ => true)
    let q := (opening "https://a.test/m" key ⟨0⟩ (some broken)).run (moves fun _ => false)
    List.Forall₂ Move.Agrees (moves fun _ => true) (moves fun _ => false) ∧
      p.calls.any Call.isEvict = true ∧ q.calls.any Call.isTryArtifact = false ∧
      p.trace.filterMap Notice.plain? = q.trace.filterMap Notice.plain? ∧
      p.feeds = [[1, 2], [3]] ∧ q.feeds = [[1, 2], [3]] := by
  intro key stale shelf store broken body moves p q
  have hagree : List.Forall₂ Move.Agrees (moves fun _ => true) (moves fun _ => false) :=
    .cons ⟨rfl, rfl, rfl⟩ (.cons ⟨rfl, rfl, rfl⟩ .nil)
  obtain ⟨htrace, -, hfeeds, -⟩ := cache_unnoticed "https://a.test/m" key key ⟨0⟩ (some store)
    (some broken) (moves fun _ => true) (moves fun _ => false) hagree
  have hfed : p.feeds = [[1, 2], [3]] := by decide +kernel
  exact ⟨hagree, by decide +kernel, by decide +kernel, htrace, hfed, hfeeds.symm.trans hfed⟩

end Play

end CompileCache
