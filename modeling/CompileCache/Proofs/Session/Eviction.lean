/-
  CompileCache.Proofs.Session.Eviction — what a session's eviction hits.

  A session evicts because of one record. Either it found that record in the same operation,
  and the store was asked nothing in between; or it has kept it on trial since an earlier
  operation, and others may have done anything to the store since (`Rejecting`).

  Proved, for a session in any state: it evicts under its own key, from the store as it is
  at that moment, and asks the store nothing afterwards (`read_evicts`). In every run the
  record on trial is the one that the session's lookup has found (`get_of_onTrial`).
-/

import CompileCache.Proofs.Session.Verdict

namespace CompileCache

variable {σ κ τ : Type} [Store τ]

/-- The record a trial evicts for, and the store at that moment, by what the trial and its
    store were before the operation. -/
inductive Rejecting (t : Trial) (store : Option τ) (r : Record) (now : τ) : Prop
  /-- The record has been on trial since an earlier operation. -/
  | earlier : t.phase = .validating → t.record = some r → store = some now →
      Rejecting t store r now
  /-- The record was found by this operation, and the store was asked nothing since. -/
  | atOnce (before : τ) : t.phase = .unread → store = some before →
      Store.get before t.key = (.ok (some r), now) → Rejecting t store r now

namespace Rejecting

variable {t : Trial} {store : Option τ} {before now : τ} {r : Record}

theorem exists_store (h : Rejecting t store r now) : ∃ before, store = some before := by
  cases h with
  | earlier _ _ hnow => exact ⟨now, hnow⟩
  | atOnce before _ hbefore _ => exact ⟨before, hbefore⟩

theorem record_of_validating (h : Rejecting t store r now) (hphase : t.phase = .validating) :
    t.record = some r := by
  cases h with
  | earlier _ hrecord _ => exact hrecord
  | atOnce _ hunread _ _ =>
    rw [hphase] at hunread
    cases hunread

theorem get_of_unread (h : Rejecting t (some before) r now) (hphase : t.phase = .unread) :
    Store.get before t.key = (.ok (some r), now) := by
  cases h with
  | earlier hvalidating _ _ =>
    rw [hphase] at hvalidating
    cases hvalidating
  | atOnce _ _ hbefore hget =>
    cases hbefore
    exact hget

end Rejecting

/-- An eviction under the trial's key, the last thing that the store is asked. -/
def Evicted (t : Trial) (store : Option τ) (key : Key) (done : Store.Done) (after : Option τ) : Prop :=
  key = t.key ∧ ∃ r now last, Rejecting t store r now ∧ Store.evict now key = (done, last) ∧
    after = some last

namespace Trial

variable {t : Trial} {store : Option τ} {key : Key} {done : Store.Done}

/-- A trial that begins by evicting has looked the record up just before. -/
theorem Begun.evicts {accepts : Bytes → Bool} {step : Step τ} (h : Begun accepts t store step)
    (hmem : .evict key done ∈ step.calls) :
    Evicted t store key done step.store ∧ step.trial.phase = .uncached := by
  cases h with
  | again | storeless | missed | onTrial => simp at hmem
  | short s now last r done' hp hget _ hevict =>
    obtain ⟨rfl, rfl⟩ : key = t.key ∧ done = done' := by simpa using hmem
    exact ⟨⟨rfl, r, now, last, .atOnce s hp rfl hget, hevict, rfl⟩, rfl⟩
  | refused s now last r artifact done' hp hget _ _ hevict =>
    obtain ⟨rfl, rfl⟩ : key = t.key ∧ done = done' := by simpa using hmem
    exact ⟨⟨rfl, r, now, last, .atOnce s hp rfl hget, hevict, rfl⟩, rfl⟩

/-- The record that a trial begins with is the one that was found. -/
theorem Begun.found {accepts : Bytes → Bool} {step : Step τ} (h : Begun accepts t store step)
    (hp : t.phase = .unread) (hv : step.trial.phase = .validating) :
    ∃ before r now, store = some before ∧ Store.get before t.key = (.ok (some r), now) ∧
      step.store = some now ∧ step.trial.record = some r := by
  cases h with
  | again _ hne => exact absurd hp hne
  | storeless | missed | short | refused => cases hv
  | onTrial s now r artifact _ hget => exact ⟨s, r, now, rfl, hget, rfl, rfl⟩

/-- A verdict evicts what was on trial. -/
theorem Judged.evicts {digest : RunningDigest} {result : Bool × RunningDigest × Step τ}
    (h : Judged t digest store result) (hmem : .evict key done ∈ result.2.2.calls) :
    Evicted t store key done result.2.2.store := by
  cases h with
  | idle | trusted | storeless => simp at hmem
  | dismissed s last r stored flaw done' hv hr _ _ hevict =>
    obtain ⟨rfl, rfl⟩ : key = t.key ∧ done = done' := by simpa using hmem
    exact ⟨rfl, r, s, last, .earlier hv hr rfl, hevict, rfl⟩

end Trial

namespace Session

variable {store : Option τ} {key : Key} {done : Store.Done}

/-- A chunk is passed on past the trial, or begins it. -/
theorem pass_cases (env : Surroundings) (s : Session σ κ) (store : Option τ) (chunk : Bytes) :
    (∀ c ∈ (s.pass env store chunk).2.2, c.forStore = false) ∧
        (s.pass env store chunk).1.trial = s.trial ∧ (s.pass env store chunk).2.1 = store ∨
      s.trial.phase = .unread ∧
        (s.pass env store chunk).2.2 = (s.trial.start env.accepts store).calls ++ [.feed chunk] ∧
        (s.pass env store chunk).1.trial = (s.trial.start env.accepts store).trial ∧
        (s.pass env store chunk).2.1 = (s.trial.start env.accepts store).store := by
  unfold pass
  split
  · exact .inl ⟨by simp, rfl, rfl⟩
  · by_cases hp : s.trial.phase = .unread
    · exact .inr ⟨hp, rfl, rfl, rfl⟩
    · rw [(Trial.start_begun env.accepts s.trial store).eq_of_ne hp]
      exact .inl ⟨by simp [Call.forStore], rfl, rfl⟩

theorem pass_evicts {env : Surroundings} {s : Session σ κ} {chunk : Bytes}
    (h : .evict key done ∈ (s.pass env store chunk).2.2) :
    Evicted s.trial store key done (s.pass env store chunk).2.1 ∧
      (s.pass env store chunk).1.trial.phase = .uncached := by
  rcases pass_cases env s store chunk with ⟨hnot, -, -⟩ | ⟨-, hcalls, htrial, hstore⟩
  · exact absurd (hnot _ h) (by simp [Call.forStore])
  · rw [hcalls] at h
    rw [htrial, hstore]
    refine (Trial.start_begun env.accepts s.trial store).evicts ?_
    rcases List.mem_append.1 h with hstart | hfeed
    · exact hstart
    · simp at hfeed

/-- What is evicted after a chunk was passed on is evicted for a record that was on trial
    before, or for the one that was found with the chunk. -/
theorem evicted_of_pass {env : Surroundings} {s : Session σ κ} {chunk : Bytes} {after : Option τ}
    (h : Evicted (s.pass env store chunk).1.trial (s.pass env store chunk).2.1 key done after) :
    Evicted s.trial store key done after := by
  rcases pass_cases env s store chunk with ⟨-, htrial, hstore⟩ | ⟨hp, -, htrial, hstore⟩
  · rw [htrial, hstore] at h
    exact h
  · have hbegun := Trial.start_begun env.accepts s.trial store
    rw [htrial, hstore] at h
    obtain ⟨hkey, r, now, last, hrejecting, hevict, hlast⟩ := h
    rw [hbegun.key_eq] at hkey
    refine ⟨hkey, r, now, last, ?_, hevict, hlast⟩
    cases hrejecting with
    | earlier hv hr hnow =>
      obtain ⟨before, r', now', hbefore, hget, hnow', hr'⟩ := hbegun.found hp hv
      rw [hr'] at hr
      rw [hnow'] at hnow
      cases hr
      cases hnow
      exact .atOnce before hp hbefore hget
    | atOnce before hu _ _ => exact absurd hu hbegun.phase_ne

theorem succeed_evicts {s : Session σ κ} (h : .evict key done ∈ (s.succeed store).calls) :
    Evicted s.trial store key done (s.succeed store).store :=
  (Trial.verdict_judged s.trial s.digest store).evicts h

theorem succeed_store_of_uncached {s : Session σ κ} (hp : s.trial.phase = .uncached) :
    (s.succeed store).store = store := by
  simp [succeed, Trial.verdict, hp, finish]

variable [Body σ]

/-- A session whose compiler goes without asks nothing of its store. -/
theorem read_store_of_uncached (env : Surroundings) (s : Session σ κ) (body : σ) (store : Option τ)
    (hp : s.trial.phase = .uncached) : (s.read env body store).store = store := by
  have hpass : ∀ {s s' : Session σ κ} {store store' : Option τ} {bytes : Bytes}
      {calls : List Call}, s.trial.phase = .uncached →
      s.pass env store bytes = (s', store', calls) → s'.trial.phase = .uncached ∧ store' = store := by
    intro s s' store store' bytes calls hp hpass
    rcases pass_cases env s store bytes with ⟨-, htrial, hstore⟩ | ⟨hu, -⟩
    · rw [hpass] at htrial hstore
      exact ⟨htrial ▸ hp, hstore⟩
    · rw [hp] at hu
      cases hu
  fun_induction Session.read env s body store with
  | case1 s body store rest _ => rfl
  | case2 s body store _ => exact succeed_store_of_uncached hp
  | case3 s body store cause _ => rfl
  | case4 s body store rest bytes _ s' store' calls hpassed taken all htaken ih =>
    obtain ⟨hp', rfl⟩ := hpass hp hpassed
    exact ih hp'
  | case5 s body store rest bytes _ s' store' calls hpassed taken all htaken =>
    obtain ⟨hp', rfl⟩ := hpass hp hpassed
    exact succeed_store_of_uncached hp'
  | case6 s body store rest bytes _ s' store' calls hpassed taken all cause htaken =>
    exact (hpass hp hpassed).2

theorem read_evicts {env : Surroundings} {s : Session σ κ} {body : σ}
    (h : .evict key done ∈ (s.read env body store).calls) :
    Evicted s.trial store key done (s.read env body store).store := by
  have hpass : ∀ {s s' : Session σ κ} {store store' : Option τ} {bytes : Bytes}
      {calls : List Call} (taken : Taken), s.pass env store bytes = (s', store', calls) →
      .evict key done ∈ Call.offer (.chunk bytes) :: calls ++ [.take bytes.length taken] →
      Evicted s.trial store key done store' ∧ s'.trial.phase = .uncached := by
    intro s s' store store' bytes calls taken hpassed hmem
    have hevicts : .evict key done ∈ (s.pass env store bytes).2.2 → _ := pass_evicts
    rw [hpassed] at hevicts
    exact hevicts (by simpa using hmem)
  have hlater : ∀ {s s' : Session σ κ} {store store' after : Option τ} {bytes : Bytes}
      {calls : List Call}, s.pass env store bytes = (s', store', calls) →
      Evicted s'.trial store' key done after → Evicted s.trial store key done after := by
    intro s s' store store' after bytes calls hpassed hevicted
    have hbefore : Evicted (s.pass env store bytes).1.trial (s.pass env store bytes).2.1 key done
        after := by
      rw [hpassed]
      exact hevicted
    exact evicted_of_pass hbefore
  fun_induction Session.read env s body store with
  | case1 s body store rest _ => simp at h
  | case2 s body store _ =>
    rcases List.mem_cons.1 h with hfirst | hrest
    · cases hfirst
    · exact succeed_evicts hrest
  | case3 s body store cause _ => simp [interrupt, finish] at h
  | case4 s body store rest bytes _ s' store' calls hpassed taken all htaken ih =>
    rcases List.mem_append.1 h with hnow | hrest
    · obtain ⟨hevicted, hp⟩ := hpass taken hpassed hnow
      rw [Turn.after, read_store_of_uncached env s' _ store' hp]
      exact hevicted
    · exact hlater hpassed (ih hrest)
  | case5 s body store rest bytes _ s' store' calls hpassed taken all htaken =>
    rcases List.mem_append.1 h with hnow | hrest
    · obtain ⟨hevicted, hp⟩ := hpass taken hpassed hnow
      rw [Turn.after, succeed_store_of_uncached hp]
      exact hevicted
    · exact hlater hpassed (succeed_evicts hrest)
  | case6 s body store rest bytes _ s' store' calls hpassed taken all cause htaken =>
    exact (hpass taken hpassed h).1

end Session

/-- What a session has on trial, at any time, is what its lookup has found. -/
theorem Play.get_of_onTrial [Body σ] (url : String) (key : Key) (token : Token) (store : Option τ)
    (moves : List (Move σ κ τ)) {r : Record}
    (hr : ((opening url key token store).run moves).session.trial.record = some r) :
    .get key (.ok (some r)) ∈ ((opening url key token store).run moves).calls := by
  have hget := (run_kept url key token store moves).course.of_record hr
  rwa [mem_recordCalls rfl] at hget

end CompileCache
