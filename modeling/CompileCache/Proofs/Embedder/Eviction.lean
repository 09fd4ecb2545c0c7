/-
  CompileCache.Proofs.Embedder.Eviction — eviction where sessions share a store.

  An eviction names a scope, not a record. A session that keeps a record on trial evicts it
  only when its body has ended, and by then another session or a queued task may have filed
  a better record under the scope, which is lost (`late_eviction_loses_newer`). Nor does the
  store belong to a session for one turn: others may get at it between any two calls
  (`Store.Shared`).

  Proved, for an embedder in any state, and so after any order of turns and tasks, whatever
  others do to the store before each call of the turn: a turn that evicts does so for one
  record of its session, on trial since an earlier turn or found by this one, and empties the
  scope in the store as it is at that moment (`eviction_empties_scope`).
-/

import CompileCache.Embedder.Callbacks
import CompileCache.Proofs.Session.Alike
import CompileCache.Proofs.Session.Eviction
import CompileCache.Proofs.Store.Mounted

namespace CompileCache

/-! ## A store that others use, too -/

/-- A store, and what others do to it before each of the next calls. -/
structure Store.Shared where
  store : Store.Faulty
  others : List (Store.Faulty → Store.Faulty)

namespace Store.Shared

/-- The store as the next call finds it. -/
def met (s : Shared) : Store.Faulty :=
  match s.others with
  | [] => s.store
  | other :: _ => other s.store

def call {α : Type} (s : Shared) (operation : Store.Faulty → α × Store.Faulty) : α × Shared :=
  let (answer, store) := operation s.met
  (answer, ⟨store, s.others.tail⟩)

instance : Store Shared where
  get s key := s.call (Store.get · key)
  evict s key := s.call (Store.evict · key)
  put s key r now := s.call (Store.put · key r now)

/-- An eviction leaves nothing under the scope, or the store as others have left it. -/
theorem evict_cases (s : Shared) (key : Key) :
    s.met.faults.evict = true ∧ (Store.evict s key).2.store = s.met ∨ s.met.faults.evict = false ∧
      ∀ other : Key, other.scope = key.scope → ∀ r,
        (Store.get (Store.evict s key).2.store other).1 ≠ .ok (some r) :=
  Store.Faulty.evict_cases s.met key

/-- What was found is found again, if nobody else gets at the store in between. -/
theorem get_again {s now : Shared} {key : Key} {r : Record} (halone : s.others.tail = [])
    (h : Store.get s key = (.ok (some r), now)) : (Store.get now.met key).1 = .ok (some r) := by
  have hfound : (Store.get s.met key).1 = .ok (some r) := congrArg Prod.fst h
  have hnow : now = ⟨(Store.get s.met key).2, s.others.tail⟩ := (congrArg Prod.snd h).symm
  rw [hnow, halone]
  exact Store.Faulty.get_again hfound

/-- Nobody else gets at the store. -/
def Alone (a : Store.Faulty) (s : Shared) : Prop := s = ⟨a, []⟩

theorem answersAlike_alone (k : Key) : AnswersAlike k Alone Alone where
  get h := by
    cases h
    exact ⟨rfl, rfl⟩
  evict h := by
    cases h
    exact ⟨rfl, rfl⟩

end Store.Shared

namespace Request

variable {τ τ' : Type} [Store τ] [Store τ'] {env : Surroundings} {s : Session AnyBody Sink}
  {r : Request}

/-- What a request evicts. -/
theorem turn_evicts {store : Option τ} {key : Key} {done : Store.Done}
    (h : .evict key done ∈ (r.turn env s store).calls) :
    Evicted s.trial store key done (r.turn env s store).store := by
  have hstop : ∀ cause, .evict key done ∉ (s.stop env store cause).calls := by
    intro cause hmem
    cases Play.stop_calls env s store cause _ hmem
  cases r with
  | look => cases h
  | resume =>
    simp only [turn, Session.resume] at h ⊢
    split at h
    · exact Session.read_evicts h
    · cases h
  | cancel => exact absurd h (hstop .cancelled)
  | withdraw => exact absurd h (hstop .withdrawn)
  | start body sink =>
    simp only [turn, Session.start] at h ⊢
    split at h
    · cases h
    · next hidle =>
      rw [if_neg hidle]
      exact Session.read_evicts h

/-- A request is taken the same on stores that answer alike. -/
theorem turn_alike {R R' : τ → τ' → Prop} (h : AnswersAlike s.trial.key R R') {store : Option τ}
    {store' : Option τ'} (hstore : Option.Rel (s.trial.phase.Relates R R') store store') :
    (r.turn env s store).Alike s.trial.key R R' (r.turn env s store') := by
  cases r with
  | look => exact ⟨rfl, rfl, rfl, rfl, hstore⟩
  | resume => exact Session.Operation.turn_alike h env rfl hstore .resume
  | cancel => exact Session.Operation.turn_alike h env rfl hstore .cancel
  | withdraw => exact Session.Operation.turn_alike h env rfl hstore .withdraw
  | start body sink => exact Session.Operation.turn_alike h env rfl hstore (.start body sink)

end Request

namespace Embedder

variable {m : Embedder} {name : StoreName} {store : Store.Faulty}

/-! ## Stores of an embedder -/

theorem store?_putStore (h : m.store? name = some store) (s : Store.Faulty) :
    (m.putStore name s).store? name = some s := by
  have hlookup : ∀ stores : List (StoreName × Store.Faulty), stores.lookup name = some store →
      (stores.map fun e => if e.1 = name then (name, s) else e).lookup name = some s := by
    intro stores
    induction stores with
    | nil => simp
    | cons e es ih =>
      obtain ⟨other, old⟩ := e
      intro hfound
      by_cases hname : other = name
      · simp [hname]
      · have hne : (name == other) = false := by simpa using fun h => hname h.symm
        simp only [List.lookup_cons, hne] at hfound
        simpa [hname, List.lookup_cons, hne] using ih hfound
  exact hlookup m.stores h

/-- Calls change no store once more: it was changed when it answered. -/
theorem stores_carry (w : Wiring) (m : Embedder) (script : Option Body.Scripted) (c : Call) :
    (m.carry w script c).1.stores = m.stores := by
  cases c with
  | offer answer => cases script <;> rfl
  | take count answer => cases script <;> rfl
  | cancelBody => cases script <;> rfl
  | get key answer =>
    simp only [carry, logStore]
    split <;> rfl
  | evict key answer =>
    simp only [carry, logStore]
    split <;> rfl
  | tryArtifact artifact taken => rfl
  | feed chunk => rfl
  | keep record =>
    simp only [carry, onRecorder]
    split <;> rfl
  | letGo =>
    simp only [carry, onRecorder]
    split <;> rfl

theorem stores_carryAll (w : Wiring) (m : Embedder) (script : Option Body.Scripted)
    (calls : List Call) : (m.carryAll w script calls).stores = m.stores := by
  induction calls generalizing m script with
  | nil => rfl
  | cons c cs ih =>
    have hcons : m.carryAll w script (c :: cs) =
        (m.carry w script c).1.carryAll w (m.carry w script c).2 cs := rfl
    rw [hcons, ih, stores_carry]

/-- The turn of a session's that a request takes. -/
def takes (m : Embedder) (slot : SessionSlot) (s : Session AnyBody Sink) (r : Request) :
    Turn AnyBody Sink Store.Faulty :=
  r.turn ⟨m.accepts slot.wiring.compiler, m.liveContext.isSome⟩ s (m.wiredStore? slot.wiring.store)

theorem turn_stores {id : SessionId} {slot : SessionSlot} {s : Session AnyBody Sink}
    (hslot : m.sessions[id]? = some slot) (hsession : slot.session = some s) (r : Request) :
    (m.turn id r).2.stores =
      ((m.putSession id (some (m.takes slot s r).session)).putWiredStore slot.wiring.store
        (m.takes slot s r).store).stores := by
  simp only [turn, hslot, hsession, stores_carryAll, takes]

/-- The turn of a session's that a request takes, with what others do to the store meanwhile. -/
def takesAmid (m : Embedder) (slot : SessionSlot) (s : Session AnyBody Sink)
    (others : List (Store.Faulty → Store.Faulty)) (r : Request) : Turn AnyBody Sink Store.Shared :=
  r.turn ⟨m.accepts slot.wiring.compiler, m.liveContext.isSome⟩ s
    ((m.wiredStore? slot.wiring.store).map (⟨·, others⟩))

/-- Left alone, it is the turn that the embedder takes. -/
theorem takesAmid_alone (m : Embedder) (slot : SessionSlot) (s : Session AnyBody Sink) (r : Request) :
    (m.takesAmid slot s [] r).store = (m.takes slot s r).store.map (⟨·, []⟩) := by
  have hstores : Option.Rel (s.trial.phase.Relates Store.Shared.Alone Store.Shared.Alone)
      (m.wiredStore? slot.wiring.store) ((m.wiredStore? slot.wiring.store).map (⟨·, []⟩)) := by
    rw [Phase.relates_self]
    cases m.wiredStore? slot.wiring.store with
    | none => exact .none
    | some store => exact .some rfl
  have halike : Turn.Alike s.trial.key Store.Shared.Alone Store.Shared.Alone (m.takes slot s r)
      (m.takesAmid slot s [] r) :=
    Request.turn_alike (Store.Shared.answersAlike_alone s.trial.key) hstores
  have hafter := halike.store
  rw [Phase.relates_self] at hafter
  generalize (m.takes slot s r).store = store, (m.takesAmid slot s [] r).store = store' at hafter ⊢
  cases hafter with
  | none => rfl
  | some h => exact congrArg some h

/-- An eviction drops whatever is stored under the scope by then. -/
theorem eviction_empties_scope {id : SessionId} {slot : SessionSlot} {s : Session AnyBody Sink}
    {req : Request} {key : Key} {done : Store.Done} (hslot : m.sessions[id]? = some slot)
    (hsession : slot.session = some s)
    -- what others do to the store before each call that the turn makes of it
    (others : List (Store.Faulty → Store.Faulty))
    (hevict : .evict key done ∈ (m.takesAmid slot s others req).calls) :
    key = s.trial.key ∧ ∃ name before r now last,
      slot.wiring.store = some name ∧ m.store? name = some before ∧
      -- It is due to one record, on trial since an earlier turn or found by this one.
      Rejecting s.trial (some ⟨before, others⟩) r now ∧
      -- What is on trial since earlier is what the session's own lookup has found.
      (∀ url key₀ token store moves,
        let p : Play AnyBody Sink Store.Faulty := (Play.opening url key₀ token store).run moves
        p.session = s → s.trial.phase = .validating → .get key₀ (.ok (some r)) ∈ p.calls) ∧
      -- It is the last that the store is asked in this turn.
      Store.evict now key = (done, last) ∧ (m.takesAmid slot s others req).store = some last ∧
      -- It leaves no record, of whomever, unless the store is out of order.
      (now.met.faults.evict = false → ∀ other : Key, other.scope = key.scope → ∀ r',
        (Store.get last.store other).1 ≠ .ok (some r')) ∧
      (now.met.faults.evict = true → last.store = now.met) ∧
      -- A record found by this turn is what the store still had, if nobody got at it since.
      (s.trial.phase = .unread → others.tail = [] → (Store.get now.met key).1 = .ok (some r)) ∧
      -- If nobody got at the store at all, this is the embedder's own turn.
      (others = [] → (m.turn id req).2.store? name = some last.store) := by
  obtain ⟨rfl, r, now, last, hrejecting, hrun, hlast⟩ := Request.turn_evicts hevict
  obtain ⟨shared, hshared⟩ := hrejecting.exists_store
  obtain ⟨before, hbefore, rfl⟩ := Option.map_eq_some_iff.1 hshared
  rw [hshared] at hrejecting
  obtain ⟨name, hname, hstore⟩ := Option.bind_eq_some_iff.1 hbefore
  have hafter : (m.takesAmid slot s others req).store = some last := hlast
  refine ⟨rfl, name, before, r, now, last, hname, hstore, hrejecting, ?_, hrun, hlast, ?_, ?_, ?_,
    ?_⟩
  · intro url key₀ token store moves p hp hvalidating
    have hrecord := hrejecting.record_of_validating hvalidating
    exact Play.get_of_onTrial url key₀ token store moves (by rw [← hrecord, ← hp])
  · intro hworks other hscope r'
    rcases Store.Shared.evict_cases now s.trial.key with ⟨hfails, -⟩ | ⟨-, hnone⟩
    · rw [hworks] at hfails
      cases hfails
    · rw [hrun] at hnone
      exact hnone other hscope r'
  · intro hfails
    rcases Store.Shared.evict_cases now s.trial.key with ⟨-, hsame⟩ | ⟨hworks, -⟩
    · rw [hrun] at hsame
      exact hsame
    · rw [hfails] at hworks
      cases hworks
  · exact fun hunread halone => Store.Shared.get_again halone (hrejecting.get_of_unread hunread)
  · rintro rfl
    have hput := turn_stores hslot hsession req
    rw [takesAmid_alone] at hafter
    obtain ⟨left, hleft, rfl⟩ := Option.map_eq_some_iff.1 hafter
    rw [hname, hleft] at hput
    rw [store?, hput]
    exact store?_putStore hstore left

/-- A session finds a record that is too short; before it evicts that one, a task files a good
    one. -/
theorem late_eviction_leaves_none :
    let key : Key := ⟨Record.moduleTag, [109]⟩
    let short : Record := ⟨Record.moduleTag, [1, 2, 3], by decide⟩
    let new : Record := ⟨Record.moduleTag, List.replicate 33 1, by decide⟩
    let store : Store.Faulty :=
      { mounted := ⟨.memory ⟨1024, by decide, .oldestFirst, [(key.scope, short)]⟩, Disk.empty⟩ }
    let opened : Session AnyBody Sink := .new "https://a.test/m" key ⟨0⟩
    let s := { opened with body := some (.fixed ⟨[[1]], false⟩) }
    let slot : SessionSlot := ⟨some s, ⟨0, some "s", none⟩, false⟩
    let m : Embedder :=
      { stores := [("s", store)], context := none, attached := false, compilers := [{}],
        sessions := [slot], clock := 0 }
    let file := fun s : Store.Faulty => (Store.put s key new 0).2
    (Store.get (file (Store.get store key).2) key).1 = .ok (some new) ∧
      ∃ last, (m.takesAmid slot s [id, file] .resume).store = some last ∧
        ∀ other : Key, other.scope = key.scope → ∀ r,
          (Store.get last.store other).1 ≠ .ok (some r) := by
  intro key short new store opened s slot m file
  have hevicts : (m.takesAmid slot s [id, file] .resume).calls.any Call.isEvict := by
    decide +kernel
  obtain ⟨c, hc, hevict⟩ := List.any_eq_true.1 hevicts
  cases c with
  | evict key' done =>
    have hslot : m.sessions[0]? = some slot := rfl
    obtain ⟨rfl, name, before, r, now, last, hname, hstore, hrejecting, -, -, hlast, hnone, -⟩ :=
      eviction_empties_scope hslot rfl [id, file] hc
    cases hname
    cases hstore
    refine ⟨rfl, last, hlast, hnone ?_⟩
    cases hrejecting.get_of_unread rfl
    rfl
  | _ => cases hevict

/-- Once it has put the old record on trial, a session waits, a task files a new one, and the
    session comes to the end of its body and evicts. -/
theorem late_eviction_loses_newer :
    let key : Key := ⟨Record.moduleTag, [109]⟩
    let old : Record := ⟨Record.moduleTag, List.replicate 33 0, by decide⟩
    let new : Record := ⟨Record.moduleTag, List.replicate 33 1, by decide⟩
    let store : Store.Faulty :=
      { mounted := ⟨.memory ⟨1024, by decide, .oldestFirst, [(key.scope, old)]⟩, Disk.empty⟩ }
    let m : Embedder :=
      { stores := [("s", store)], context := some ⟨.window, "https://a.test", some "s", true⟩,
        attached := true, compilers := [{}], clock := 0 }
    let body : AnyBody := .piped 0 ⟨[.ok [1]], none, false, 1⟩
    let waiting := (m.addSession "https://a.test/m" key ⟨0, some "s", none⟩ false).2.request 0
      (.start body .ignore)
    let filed := ((waiting.post .main (.file key new)).2.drain .main).2
    let ended := (BodyHolder.onPipe filed 0 Body.Piped.dropSender).request 0 .resume
    let found := fun m : Embedder => (m.store? "s").bind fun s => (Store.get s key).1.toOption.join
    (waiting.session? 0).bind (·.trial.record) = some old ∧ found waiting = some old ∧
      found filed = some new ∧ (ended.session? 0).bind (·.trial.flaw) = some .wrongDigest ∧
      found ended = none := by
  decide +kernel

end Embedder

end CompileCache
