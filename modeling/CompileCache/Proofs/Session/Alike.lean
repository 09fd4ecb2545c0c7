/-
  CompileCache.Proofs.Session.Alike — a session on two stores that answer alike.

  Two stores, of one type or of two, answer alike under a key if lookups and evictions under it
  are answered the same by both (`AnswersAlike`). A session looks up once and first of all, so
  more may be asked of the stores before that than is kept by it and by evictions. A session
  knows no more of its store: on either one it takes the same turn, with the same calls and the
  same answers in them (`Session.Operation.turn_alike`).
-/

import Mathlib.Data.Option.Defs
import CompileCache.Proofs.Session.Reception

namespace CompileCache

variable {σ κ τ τ' : Type} [Store τ] [Store τ']

/-- Lookups under the key are answered the same by stores related by `R`, and evictions by those
    related by `R'`. Either leaves stores related by `R'`. -/
structure AnswersAlike (k : Key) (R R' : τ → τ' → Prop) : Prop where
  get : ∀ {a b}, R a b → (Store.get b k).1 = (Store.get a k).1 ∧
    R' (Store.get a k).2 (Store.get b k).2
  evict : ∀ {a b}, R' a b → (Store.evict b k).1 = (Store.evict a k).1 ∧
    R' (Store.evict a k).2 (Store.evict b k).2

/-- What is asked of the stores of a session in this phase. -/
def Phase.Relates (R R' : τ → τ' → Prop) : Phase → τ → τ' → Prop
  | unread => R
  | validating | uncached => R'

omit [Store τ] [Store τ'] in
theorem Phase.relates_of_ne {R R' : τ → τ' → Prop} {phase : Phase} (h : phase ≠ .unread) :
    phase.Relates R R' = R' := by
  cases phase with
  | unread => exact absurd rfl h
  | validating | uncached => rfl

omit [Store τ] [Store τ'] in
theorem Phase.relates_self (R : τ → τ' → Prop) (phase : Phase) : phase.Relates R R = R := by
  cases phase <;> rfl

omit [Store τ] [Store τ'] in
theorem Phase.relates_weaken {R R' : τ → τ' → Prop} {phase : Phase}
    (hmore : ∀ {a b}, R a b → R' a b) {a : τ} {b : τ'} (h : phase.Relates R R' a b) : R' a b := by
  cases phase with
  | unread => exact hmore h
  | validating | uncached => exact h

omit [Store τ] [Store τ'] in
/-- Whatever the phase, if more is asked before the lookup than after. -/
theorem Phase.relates_of_first {R R' : τ → τ' → Prop} {phase : Phase}
    (hmore : ∀ {a b}, R a b → R' a b) {a : τ} {b : τ'} (h : R a b) : phase.Relates R R' a b := by
  cases phase with
  | unread => exact h
  | validating | uncached => exact hmore h

/-! ## Trials -/

namespace Trial

/-- The same step of a trial under the key, but for the store. -/
structure Step.Alike (k : Key) (R R' : τ → τ' → Prop) (x : Step τ) (y : Step τ') : Prop where
  trial : y.trial = x.trial
  key : x.trial.key = k
  calls : y.calls = x.calls
  store : Option.Rel (x.trial.phase.Relates R R') x.store y.store

variable {k : Key} {R R' : τ → τ' → Prop} {t : Trial} {a : τ} {b : τ'} {store : Option τ}
  {store' : Option τ'}

theorem dismiss_alike (h : AnswersAlike k R R') (hkey : t.key = k) (hphase : t.phase ≠ .unread)
    (hab : R' a b) (flaw : Flaw) :
    Step.Alike k R R' (t.dismiss a flaw) (t.dismiss b flaw) := by
  subst hkey
  obtain ⟨hanswer, hafter⟩ := h.evict hab
  refine ⟨rfl, rfl, ?_, ?_⟩
  · show [Call.letGo, .evict t.key (Store.evict b t.key).1] =
      [.letGo, .evict t.key (Store.evict a t.key).1]
    rw [hanswer]
  · rw [show (t.dismiss a flaw).trial.phase = t.phase from rfl, Phase.relates_of_ne hphase]
    exact .some hafter

theorem refuse_alike (h : AnswersAlike k R R') (hkey : t.key = k) (hab : R' a b) (flaw : Flaw) :
    Step.Alike k R R' (t.refuse a flaw) (t.refuse b flaw) := by
  subst hkey
  obtain ⟨hanswer, hafter⟩ := h.evict hab
  refine ⟨rfl, rfl, ?_, .some hafter⟩
  show [Call.letGo, .evict t.key (Store.evict b t.key).1] =
    [.letGo, .evict t.key (Store.evict a t.key).1]
  rw [hanswer]

theorem tryRecord_alike (h : AnswersAlike k R R') (accepts : Bytes → Bool) (hkey : t.key = k)
    (hab : R' a b) (record : Record) :
    Step.Alike k R R' (t.tryRecord accepts a record) (t.tryRecord accepts b record) := by
  unfold tryRecord
  cases record.artifact? with
  | none => exact refuse_alike h hkey hab .tooShort
  | some artifact =>
    dsimp only
    split
    · exact ⟨rfl, hkey, rfl, .some hab⟩
    · have hrefuse := refuse_alike h hkey hab .incompatible
      exact ⟨hrefuse.trial, hrefuse.key,
        congrArg (Call.tryArtifact artifact false :: ·) hrefuse.calls, hrefuse.store⟩

theorem start_alike (h : AnswersAlike k R R') (accepts : Bytes → Bool) (hkey : t.key = k)
    (hstore : Option.Rel (t.phase.Relates R R') store store') :
    Step.Alike k R R' (t.start accepts store) (t.start accepts store') := by
  unfold start
  split
  · exact ⟨rfl, hkey, rfl, hstore⟩
  · next hread =>
    have hunread : t.phase = .unread := Decidable.not_not.1 hread
    rw [hunread] at hstore
    cases hstore with
    | none => exact ⟨rfl, hkey, rfl, .none⟩
    | some hab =>
      subst hkey
      obtain ⟨hanswer, hafter⟩ := h.get hab
      dsimp only
      rw [hanswer]
      split
      · next record _ =>
        have htry := tryRecord_alike h accepts rfl hafter record
        exact ⟨htry.trial, htry.key, congrArg (Call.get t.key _ :: ·) htry.calls, htry.store⟩
      · exact ⟨rfl, rfl, rfl, .some hafter⟩

theorem verdict_alike (h : AnswersAlike k R R') (hkey : t.key = k) (digest : RunningDigest)
    (hstore : Option.Rel (t.phase.Relates R R') store store') :
    (t.verdict digest store').1 = (t.verdict digest store).1 ∧
      (t.verdict digest store').2.1 = (t.verdict digest store).2.1 ∧
      Step.Alike k R R' (t.verdict digest store).2.2 (t.verdict digest store').2.2 := by
  have hidle : Step.Alike k R R' ⟨t, store, []⟩ ⟨t, store', []⟩ := ⟨rfl, hkey, rfl, hstore⟩
  unfold verdict
  split
  · exact ⟨rfl, rfl, hidle⟩
  · next hidling =>
    have hvalidating : t.phase = .validating := Decidable.not_not.1 hidling
    have hread : t.phase ≠ .unread := by simp [hvalidating]
    cases t.record.bind Record.digest? with
    | none => exact ⟨rfl, rfl, hidle⟩
    | some stored =>
      dsimp only
      cases flawBy? stored digest.close.1 digest.close.2.misused with
      | none => exact ⟨rfl, rfl, hidle⟩
      | some flaw =>
        cases hstore with
        | none => exact ⟨rfl, rfl, hidle⟩
        | some hab =>
          rw [Phase.relates_of_ne hread] at hab
          exact ⟨rfl, rfl, dismiss_alike h hkey hread hab flaw⟩

end Trial

/-! ## Turns -/

/-- The same turn of a session under the key, but for the store. -/
structure Turn.Alike (k : Key) (R R' : τ → τ' → Prop) (t : Turn σ κ τ) (u : Turn σ κ τ') :
    Prop where
  session : u.session = t.session
  key : t.session.trial.key = k
  calls : u.calls = t.calls
  ending : u.ending = t.ending
  store : Option.Rel (t.session.trial.phase.Relates R R') t.store u.store

omit [Store τ] [Store τ'] in
theorem Turn.Alike.after {k : Key} {R R' : τ → τ' → Prop} {t : Turn σ κ τ} {u : Turn σ κ τ'}
    (h : t.Alike k R R' u) (calls : List Call) : (t.after calls).Alike k R R' (u.after calls) :=
  ⟨h.session, h.key, congrArg (calls ++ ·) h.calls, h.ending, h.store⟩

omit [Store τ] [Store τ'] in
/-- What the turns leave of the stores `a` and `b`. -/
theorem Turn.Alike.left {k : Key} {R R' : τ → τ' → Prop} {t : Turn σ κ τ} {u : Turn σ κ τ'}
    (h : t.Alike k R R' u) (hmore : ∀ {a b}, R a b → R' a b) {a : τ} {b : τ'} (hab : R' a b) :
    R' (t.store.getD a) (u.store.getD b) := by
  have hstore := h.store
  generalize t.store = x, u.store = y at hstore ⊢
  cases hstore with
  | none => exact hab
  | some hleft =>
    have hboth := Phase.relates_weaken hmore hleft
    exact hboth

namespace Session

variable {k : Key} {R R' : τ → τ' → Prop} {s : Session σ κ} {store : Option τ}
  {store' : Option τ'}

theorem pass_alike (h : AnswersAlike k R R') (env : Surroundings) (hkey : s.trial.key = k)
    (hstore : Option.Rel (s.trial.phase.Relates R R') store store') (chunk : Bytes) :
    (s.pass env store' chunk).1 = (s.pass env store chunk).1 ∧
      (s.pass env store chunk).1.trial.key = k ∧
      Option.Rel ((s.pass env store chunk).1.trial.phase.Relates R R') (s.pass env store chunk).2.1
        (s.pass env store' chunk).2.1 ∧
      (s.pass env store' chunk).2.2 = (s.pass env store chunk).2.2 := by
  unfold pass
  split
  · exact ⟨rfl, hkey, hstore, rfl⟩
  · have hstart := Trial.start_alike h env.accepts hkey hstore
    dsimp only
    rw [hstart.trial, hstart.calls]
    exact ⟨rfl, hstart.key, hstart.store, rfl⟩

theorem succeed_alike (h : AnswersAlike k R R') (hkey : s.trial.key = k)
    (hstore : Option.Rel (s.trial.phase.Relates R R') store store') :
    (s.succeed store).Alike k R R' (s.succeed store') := by
  obtain ⟨htrusted, hdigest, hstep⟩ := Trial.verdict_alike h hkey s.digest hstore
  refine ⟨?_, hstep.key, hstep.calls, ?_, hstep.store⟩
  · simp only [succeed, finish, close, htrusted, hdigest, hstep.trial]
  · simp only [succeed, finish, htrusted]

omit [Store τ] [Store τ'] in
theorem interrupt_alike (env : Surroundings) (hkey : s.trial.key = k)
    (hstore : Option.Rel (s.trial.phase.Relates R R') store store') (calls : List Call)
    (cause : Interruption) :
    (s.interrupt env store calls cause).Alike k R R' (s.interrupt env store' calls cause) :=
  ⟨rfl, hkey, rfl, rfl, hstore⟩

variable [Body σ]

theorem read_alike (h : AnswersAlike k R R') (env : Surroundings) (s : Session σ κ) (body : σ)
    (store : Option τ) (store' : Option τ') (hkey : s.trial.key = k)
    (hstore : Option.Rel (s.trial.phase.Relates R R') store store') :
    (s.read env body store).Alike k R R' (s.read env body store') := by
  fun_induction Session.read env s body store generalizing store' with
  | case1 s body store rest hoffer =>
    rw [read_eq, hoffer]
    exact ⟨rfl, hkey, rfl, rfl, hstore⟩
  | case2 s body store hoffer =>
    rw [read_eq, hoffer]
    exact (succeed_alike h hkey hstore).after _
  | case3 s body store cause hoffer =>
    rw [read_eq, hoffer]
    exact interrupt_alike env hkey hstore _ _
  | case4 s body store rest bytes hoffer s' store₁ calls hpass taken all htaken ih =>
    obtain ⟨hsession, hkey', hafter, hcalls⟩ := pass_alike h env hkey hstore bytes
    rw [hpass] at hsession hkey' hafter hcalls
    have htaken' : (Body.take (Body.offer body).2 bytes.length).1 = .more := htaken
    rw [read_eq env s body store', hoffer]
    simp only [htaken', hsession, hcalls]
    have hrest := (ih _ hkey' hafter).after all
    simp only [all, taken, rest, htaken'] at hrest ⊢
    exact hrest
  | case5 s body store rest bytes hoffer s' store₁ calls hpass taken all htaken =>
    obtain ⟨hsession, hkey', hafter, hcalls⟩ := pass_alike h env hkey hstore bytes
    rw [hpass] at hsession hkey' hafter hcalls
    have htaken' : (Body.take (Body.offer body).2 bytes.length).1 = .finished := htaken
    rw [read_eq, hoffer]
    simp only [htaken', hsession, hcalls]
    have hrest := (succeed_alike h hkey' hafter).after all
    simp only [all, taken, rest, htaken'] at hrest ⊢
    exact hrest
  | case6 s body store rest bytes hoffer s' store₁ calls hpass taken all cause htaken =>
    obtain ⟨hsession, hkey', hafter, hcalls⟩ := pass_alike h env hkey hstore bytes
    rw [hpass] at hsession hkey' hafter hcalls
    have htaken' : (Body.take (Body.offer body).2 bytes.length).1 = .failed cause := htaken
    rw [read_eq, hoffer]
    simp only [htaken', hsession, hcalls]
    have hrest := interrupt_alike env hkey' hafter all (.bodyFailed cause)
    simp only [all, taken, rest, htaken'] at hrest ⊢
    exact hrest

/-- A session takes the same turn on stores that answer alike. -/
theorem Operation.turn_alike (h : AnswersAlike k R R') (env : Surroundings) (hkey : s.trial.key = k)
    (hstore : Option.Rel (s.trial.phase.Relates R R') store store') (o : Operation σ κ) :
    (o.turn env s store).Alike k R R' (o.turn env s store') := by
  have hidle : Turn.Alike k R R' ⟨s, store, [], none⟩ ⟨s, store', [], none⟩ :=
    ⟨rfl, hkey, rfl, rfl, hstore⟩
  have hstop : ∀ cause, (s.stop env store cause).Alike k R R' (s.stop env store' cause) := by
    intro cause
    unfold stop
    split
    · exact hidle
    · exact interrupt_alike env hkey hstore _ cause
  cases o with
  | start body sink =>
    show Turn.Alike k R R' (s.start env body sink store) (s.start env body sink store')
    unfold Session.start
    split
    · exact hidle
    · exact read_alike h env _ body _ _ hkey hstore
  | resume =>
    show Turn.Alike k R R' (s.resume env store) (s.resume env store')
    unfold Session.resume
    split
    · exact read_alike h env _ _ _ _ hkey hstore
    · exact hidle
  | cancel => exact hstop .cancelled
  | withdraw => exact hstop .withdrawn

end Session

end CompileCache
