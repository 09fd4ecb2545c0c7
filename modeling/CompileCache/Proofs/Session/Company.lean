/-
  CompileCache.Proofs.Session.Company — sessions that share a store and a queue.

  The members of a company are sessions with compilers, bodies and sinks of their own. They
  share one store, and a context that stays live, in whose queue records wait to be filed.
  A step of the company is an operation on one member's session, the report of a module to
  one member's recorder, a run of the queue, which files the records of all members in the
  order of their reports, or that memory drops what it likes. What is noticed of a member
  (`Seen`) is what its session calls and is answered, how it ends, how its reports are
  answered, and how its records are filed.

  A step of others is not noticed: a turn touches the store under its own key only
  (`operate_aside`), and of a run of the queue a member sees its own records alone
  (`drain_tracks`). So a company is tracked, for one member, by a company in which only that
  member takes steps (`Tracks`, `step_tracked`, `run_tracked`).

  Proved: if the scopes of the members' keys differ, what is noticed of a member, however
  memory is kept, is the same as if its own steps were taken without the others, up to what
  memory drops, and exactly the same on a store that keeps what is filed (`own_steps_suffice`).
  A layered store does not always: what its memory alone still has goes when others need the
  room (`pushed_out_is_noticed`).
-/

import Mathlib.Logic.Function.Basic
import CompileCache.Body.Fixed
import CompileCache.Proofs.Embedder.Ledger
import CompileCache.Proofs.Session.Alike
import CompileCache.Proofs.Store.Retention

namespace CompileCache

open Store (Mounted Upkeep Shielded Foreign Apart)

/-! ## Companies -/

/-- What can be noticed of a member. -/
inductive Company.Seen (κ : Type) where
  | noticed (notice : Notice κ)
  /-- Its compiler has reported a module. -/
  | answered (answer : Recorder.Answer)
  /-- A record of its recorder was put into the store. -/
  | filed (record : Record) (done : Store.Done)

structure Company.Member (σ κ : Type) where
  session : Session σ κ
  /-- Where its compiler reports modules. -/
  recorder : Recorder
  /-- Oldest first. -/
  seen : List (Company.Seen κ) := []

structure Company (ι σ κ : Type) where
  members : ι → Company.Member σ κ
  store : Mounted
  /-- Oldest first, and whose they are. -/
  queue : List (ι × Filing) := []

namespace Company

variable {ι σ κ : Type}

def Member.see (m : Member σ κ) (seen : List (Seen κ)) : Member σ κ :=
  { m with seen := m.seen ++ seen }

/-- The member's session, once others have done something to its body. -/
def Member.met (m : Member σ κ) (onBody : σ → σ) : Session σ κ :=
  { m.session with body := m.session.body.map onBody }

/-- The member after a turn of its session. -/
def Member.after (m : Member σ κ) (t : Turn σ κ Mounted) : Member σ κ :=
  { m with session := t.session }.see (t.notices.map .noticed)

/-- New sessions, one for each recorder, and nothing to file. -/
def opening (recorders : ι → Recorder) (tokens : ι → Token) (store : Mounted) : Company ι σ κ where
  members i := ⟨Session.new (recorders i).url (recorders i).key (tokens i), recorders i, []⟩
  store := store

inductive Step (ι σ κ : Type) where
  /-- An operation on a session, whose body others have done something to before. -/
  | operate (i : ι) (operation : Session.Operation σ κ) (accepts : Bytes → Bool) (onBody : σ → σ)
  /-- A compiler reports a module. -/
  | report (i : ι) (module : CompiledModule)
  /-- The queue is run until it is idle. -/
  | drain (now : UInt64)
  /-- Memory drops the records of some scopes. -/
  | forget (gone : Bytes → Bool)

/-- Whether somebody asked for the step. -/
def Step.asked : Step ι σ κ → Bool
  | forget _ => false
  | _ => true

variable [DecidableEq ι]

/-- Whether a member has part in the step. -/
def Step.concerns (i : ι) : Step ι σ κ → Bool
  | operate j .. | report j _ => j = i
  | drain _ | forget _ => true

def withMember (c : Company ι σ κ) (i : ι) (m : Member σ κ) : Company ι σ κ :=
  { c with members := Function.update c.members i m }

/-- A recorder judges a module and answers at once; what is worth filing is filed later. -/
def report (c : Company ι σ κ) (i : ι) (module : CompiledModule) : Company ι σ κ :=
  let m := c.members i
  match m.recorder.judge module with
  | .error why => c.withMember i (m.see [.answered (.declined why)])
  | .ok record =>
    { c.withMember i (m.see [.answered .posted]) with
      queue := c.queue ++ [(i, ⟨m.recorder.key, record⟩)] }

/-- A task of the queue. -/
def file (now : UInt64) (c : Company ι σ κ) (task : ι × Filing) : Company ι σ κ :=
  let (done, store) := Store.put c.store task.2.key task.2.record now
  { c.withMember task.1 ((c.members task.1).see [.filed task.2.record done]) with store }

def drain (c : Company ι σ κ) (now : UInt64) : Company ι σ κ :=
  c.queue.foldl (file now) { c with queue := [] }

section Operations

variable [Body σ]

/-- The turn that a session takes; the context is live. -/
def turn (c : Company ι σ κ) (i : ι) (operation : Session.Operation σ κ) (accepts : Bytes → Bool)
    (onBody : σ → σ) : Turn σ κ Mounted :=
  operation.turn ⟨accepts, true⟩ ((c.members i).met onBody) (some c.store)

def operate (c : Company ι σ κ) (i : ι) (operation : Session.Operation σ κ)
    (accepts : Bytes → Bool) (onBody : σ → σ) : Company ι σ κ :=
  let t := c.turn i operation accepts onBody
  { c.withMember i ((c.members i).after t) with store := t.store.getD c.store }

def step (c : Company ι σ κ) : Step ι σ κ → Company ι σ κ
  | .operate i operation accepts onBody => c.operate i operation accepts onBody
  | .report i module => c.report i module
  | .drain now => c.drain now
  | .forget gone => { c with store := c.store.forget gone }

def run (c : Company ι σ κ) (steps : List (Step ι σ κ)) : Company ι σ κ := steps.foldl step c

end Operations

@[simp] theorem members_withMember_self (c : Company ι σ κ) (i : ι) (m : Member σ κ) :
    (c.withMember i m).members i = m :=
  Function.update_self ..

theorem members_withMember_ne (c : Company ι σ κ) {i j : ι} (h : i ≠ j) (m : Member σ κ) :
    (c.withMember j m).members i = c.members i :=
  Function.update_of_ne h ..

theorem report_declined {c : Company ι σ κ} {i : ι} {module : CompiledModule}
    {why : Recorder.Decline} (h : (c.members i).recorder.judge module = .error why) :
    c.report i module = c.withMember i ((c.members i).see [.answered (.declined why)]) := by
  simp only [report, h]

theorem report_posted {c : Company ι σ κ} {i : ι} {module : CompiledModule} {record : Record}
    (h : (c.members i).recorder.judge module = .ok record) :
    c.report i module =
      { c.withMember i ((c.members i).see [.answered .posted]) with
        queue := c.queue ++ [(i, ⟨(c.members i).recorder.key, record⟩)] } := by
  simp only [report, h]

/-! ## Good order -/

/-- Each member goes by the key of its own recorder, and what waits for it is such as is filed. -/
structure Orderly (recorders : ι → Recorder) (files : Key → Record → Prop) (c : Company ι σ κ) :
    Prop where
  recorder : ∀ i, (c.members i).recorder = recorders i
  session : ∀ i, (c.members i).session.trial.key = (recorders i).key
  queue : ∀ task ∈ c.queue, task.2.key = (recorders task.1).key ∧ files task.2.key task.2.record

/-- What is filed in the course of these steps. -/
def Files (recorders : ι → Recorder) (steps : List (Step ι σ κ)) (key : Key) (record : Record) :
    Prop :=
  ∃ i module, .report i module ∈ steps ∧ key = (recorders i).key ∧
    (recorders i).judge module = .ok record

section Orderly

variable {recorders : ι → Recorder} {files : Key → Record → Prop} {c : Company ι σ κ}

omit [DecidableEq ι] in
theorem orderly_opening (recorders : ι → Recorder) (tokens : ι → Token)
    (files : Key → Record → Prop) (store : Mounted) :
    Orderly recorders files (opening recorders tokens store : Company ι σ κ) :=
  ⟨fun _ => rfl, fun _ => rfl, fun _ htask => nomatch htask⟩

/-- A member stays with its recorder and its key. -/
theorem Orderly.withMember (h : Orderly recorders files c) {i : ι} {m : Member σ κ}
    (hrecorder : m.recorder = recorders i) (hkey : m.session.trial.key = (recorders i).key) :
    Orderly recorders files (c.withMember i m) := by
  refine ⟨fun j => ?_, fun j => ?_, h.queue⟩
  · by_cases hj : j = i
    · subst hj
      rwa [members_withMember_self]
    · rw [members_withMember_ne c hj]
      exact h.recorder j
  · by_cases hj : j = i
    · subst hj
      rwa [members_withMember_self]
    · rw [members_withMember_ne c hj]
      exact h.session j

theorem Orderly.file (h : Orderly recorders files c) (now : UInt64) (task : ι × Filing) :
    Orderly recorders files (c.file now task) :=
  have hmember := h.withMember (m := (c.members task.1).see [.filed task.2.record
    (Store.put c.store task.2.key task.2.record now).1]) (h.recorder task.1) (h.session task.1)
  ⟨hmember.recorder, hmember.session, h.queue⟩

theorem Orderly.fileAll (h : Orderly recorders files c) (now : UInt64) (tasks : List (ι × Filing)) :
    Orderly recorders files (tasks.foldl (Company.file now) c) := by
  induction tasks generalizing c with
  | nil => exact h
  | cons task tasks ih => exact ih (h.file now task)

variable [Body σ]

omit [DecidableEq ι] in
/-- A turn leaves the key as it is. -/
theorem key_turn (c : Company ι σ κ) (i : ι) (operation : Session.Operation σ κ)
    (accepts : Bytes → Bool) (onBody : σ → σ) :
    (c.turn i operation accepts onBody).session.trial.key = (c.members i).session.trial.key := by
  have hsame : AnswersAlike (c.members i).session.trial.key (Eq : Mounted → Mounted → Prop) Eq :=
    ⟨fun h => by subst h; exact ⟨rfl, rfl⟩, fun h => by subst h; exact ⟨rfl, rfl⟩⟩
  exact (Session.Operation.turn_alike hsame ⟨accepts, true⟩ (s := (c.members i).met onBody) rfl
    (.some (Phase.relates_of_first id (Eq.refl c.store))) operation).key

theorem Orderly.step (h : Orderly recorders files c) {s : Step ι σ κ}
    (hfiles : ∀ key record, Files recorders [s] key record → files key record) :
    Orderly recorders files (c.step s) := by
  cases s with
  | operate i operation accepts onBody =>
    have hmember := h.withMember (m := (c.members i).after (c.turn i operation accepts onBody))
      (h.recorder i) ((key_turn ..).trans (h.session i))
    exact ⟨hmember.recorder, hmember.session, h.queue⟩
  | report i module =>
    show Orderly recorders files (c.report i module)
    cases hjudge : (c.members i).recorder.judge module with
    | error why =>
      rw [report_declined hjudge]
      exact h.withMember (h.recorder i) (h.session i)
    | ok record =>
      rw [report_posted hjudge]
      have hmember := h.withMember (m := (c.members i).see [.answered .posted]) (h.recorder i)
        (h.session i)
      refine ⟨hmember.recorder, hmember.session, fun task htask => ?_⟩
      rcases List.mem_append.1 htask with hold | hnew
      · exact h.queue task hold
      · obtain rfl := List.mem_singleton.1 hnew
        rw [h.recorder i] at hjudge ⊢
        exact ⟨rfl, hfiles _ _ ⟨i, module, List.mem_singleton_self _, rfl, hjudge⟩⟩
  | drain now =>
    have hempty : Orderly recorders files { c with queue := [] } :=
      ⟨h.recorder, h.session, fun _ htask => nomatch htask⟩
    exact hempty.fileAll now c.queue
  | forget gone => exact ⟨h.recorder, h.session, h.queue⟩

end Orderly

/-! ## Tracking one member -/

/-- The company `a` goes along with `c` as far as the member `i` is concerned. -/
structure Tracks (i : ι) (R : Mounted → Mounted → Prop) (a c : Company ι σ κ) : Prop where
  member : a.members i = c.members i
  queue : a.queue = c.queue.filter (·.1 = i)
  store : R a.store c.store

section Tracking

variable {recorders : ι → Recorder} {others : Key → Prop} {files : Key → Record → Prop}
  {drops : Prop} {lags level : Mounted → Mounted → Prop} {i j : ι} {a c : Company ι σ κ}

/-- Others file records. -/
theorem file_aside (hshield : Shielded (recorders i).key others files drops lags level)
    (hothers : ∀ j, j ≠ i → others (recorders j).key) (h : Tracks i lags a c) (now : UInt64)
    {task : ι × Filing} (htask : task.1 ≠ i) (hkey : task.2.key = (recorders task.1).key)
    (hfiles : files task.2.key task.2.record) : Tracks i lags a (c.file now task) where
  member := h.member.trans (members_withMember_ne c htask.symm _).symm
  queue := h.queue
  store := hshield.others_put _ now (hkey ▸ hothers task.1 htask) hfiles h.store

theorem file_tracks (hshield : Shielded (recorders i).key others files drops lags level)
    (h : Tracks i lags a c) (now : UInt64) {f : Filing} (hkey : f.key = (recorders i).key)
    (hfiles : files f.key f.record) : Tracks i lags (a.file now (i, f)) (c.file now (i, f)) := by
  rw [hkey] at hfiles
  obtain ⟨hanswer, hafter⟩ := hshield.put f.record now hfiles h.store
  rw [← hkey] at hanswer hafter
  refine ⟨?_, h.queue, hafter⟩
  have hmember : ∀ (c : Company ι σ κ), (c.file now (i, f)).members i =
      (c.members i).see [.filed f.record (Store.put c.store f.key f.record now).1] := fun c =>
    members_withMember_self ..
  rw [hmember, hmember, h.member, hanswer]

/-- Of a run of the queue a member sees its own records. -/
theorem drain_tracks (hshield : Shielded (recorders i).key others files drops lags level)
    (hothers : ∀ j, j ≠ i → others (recorders j).key) (hc : Orderly recorders files c)
    (h : Tracks i lags a c) (now : UInt64) : Tracks i lags (a.drain now) (c.drain now) := by
  have hall : ∀ (tasks : List (ι × Filing)) (a c : Company ι σ κ), Tracks i lags a c →
      (∀ task ∈ tasks, task.2.key = (recorders task.1).key ∧ files task.2.key task.2.record) →
      Tracks i lags ((tasks.filter (·.1 = i)).foldl (file now) a) (tasks.foldl (file now) c) := by
    intro tasks
    induction tasks with
    | nil => exact fun a c h _ => h
    | cons task tasks ih =>
      intro a c h htasks
      obtain ⟨hkey, hfile⟩ := htasks task (List.mem_cons_self ..)
      have hrest := fun t ht => htasks t (List.mem_cons_of_mem task ht)
      by_cases hi : task.1 = i
      · obtain ⟨j, f⟩ := task
        obtain rfl : j = i := hi
        rw [List.filter_cons_of_pos (by simp)]
        exact ih _ _ (file_tracks hshield h now hkey hfile) hrest
      · rw [List.filter_cons_of_neg (by simpa using hi)]
        exact ih _ _ (file_aside hshield hothers h now hi hkey hfile) hrest
  have hempty : Tracks i lags { a with queue := [] } { c with queue := [] } :=
    ⟨h.member, rfl, h.store⟩
  rw [drain, drain, h.queue]
  exact hall c.queue _ _ hempty hc.queue

theorem report_aside (h : Tracks i lags a c) (hj : j ≠ i) (module : CompiledModule) :
    Tracks i lags a (c.report j module) := by
  have hmember : ∀ m : Member σ κ, a.members i = (c.withMember j m).members i := fun m =>
    h.member.trans (members_withMember_ne c hj.symm m).symm
  cases hjudge : (c.members j).recorder.judge module with
  | error why =>
    rw [report_declined hjudge]
    exact ⟨hmember _, h.queue, h.store⟩
  | ok record =>
    rw [report_posted hjudge]
    refine ⟨hmember _, ?_, h.store⟩
    show a.queue = (c.queue ++ [_]).filter (·.1 = i)
    simp [h.queue, hj]

theorem report_tracks (h : Tracks i lags a c) (module : CompiledModule) :
    Tracks i lags (a.report i module) (c.report i module) := by
  have hmember : ∀ m : Member σ κ, (a.withMember i m).members i = (c.withMember i m).members i :=
    fun m => by rw [members_withMember_self, members_withMember_self]
  cases hjudge : (c.members i).recorder.judge module with
  | error why =>
    rw [report_declined hjudge, report_declined (h.member.symm ▸ hjudge), h.member]
    exact ⟨hmember _, h.queue, h.store⟩
  | ok record =>
    rw [report_posted hjudge, report_posted (h.member.symm ▸ hjudge), h.member]
    refine ⟨hmember _, ?_, h.store⟩
    show a.queue ++ [_] = (c.queue ++ [_]).filter (·.1 = i)
    simp [h.queue]

variable [Body σ]

/-- Others take a turn. -/
theorem operate_aside (hshield : Shielded (recorders i).key others files drops lags level)
    (hothers : ∀ j, j ≠ i → others (recorders j).key) (hc : Orderly recorders files c)
    (h : Tracks i lags a c) (hj : j ≠ i) (operation : Session.Operation σ κ)
    (accepts : Bytes → Bool) (onBody : σ → σ) :
    Tracks i lags a (c.operate j operation accepts onBody) := by
  -- The shared store is compared with itself, so the relation says what it keeps.
  let same : Mounted → Mounted → Prop := fun x y => x = y ∧ lags a.store x
  have hkeeps : AnswersAlike (recorders j).key same same := by
    refine ⟨?_, ?_⟩
    · rintro x _ ⟨rfl, hx⟩
      exact ⟨rfl, rfl, hshield.others_get (hothers j hj) hx⟩
    · rintro x _ ⟨rfl, hx⟩
      exact ⟨rfl, rfl, hshield.others_evict (hothers j hj) hx⟩
  have hturn := Session.Operation.turn_alike hkeeps ⟨accepts, true⟩ (s := (c.members j).met onBody)
    (hc.session j) (.some (Phase.relates_of_first id ⟨rfl, h.store⟩)) operation
  exact ⟨h.member.trans (members_withMember_ne c hj.symm _).symm, h.queue,
    (hturn.left id ⟨rfl, h.store⟩).2⟩

theorem operate_tracks (hshield : Shielded (recorders i).key others files drops lags level)
    (hc : Orderly recorders files c) (h : Tracks i level a c) (operation : Session.Operation σ κ)
    (accepts : Bytes → Bool) (onBody : σ → σ) :
    Tracks i lags (a.operate i operation accepts onBody)
      (c.operate i operation accepts onBody) := by
  have hstore : ((c.members i).met onBody).trial.phase.Relates level lags a.store c.store :=
    Phase.relates_of_first hshield.behind h.store
  have hturn : (a.turn i operation accepts onBody).Alike (recorders i).key level lags
      (c.turn i operation accepts onBody) := by
    rw [turn, turn, h.member]
    exact Session.Operation.turn_alike ⟨hshield.get, hshield.evict⟩ _
      (s := (c.members i).met onBody) (hc.session i) (.some hstore) operation
  refine ⟨?_, h.queue, hturn.left hshield.behind (hshield.behind h.store)⟩
  show (a.withMember i _).members i = (c.withMember i _).members i
  rw [members_withMember_self, members_withMember_self, h.member, Member.after, Member.after,
    Turn.notices, Turn.notices, hturn.session, hturn.calls, hturn.ending]

/-- One step of the company, and what the member must do to keep up: to take the step if it
    concerns it, once memory has dropped what it has to. -/
theorem step_tracked (hshield : Shielded (recorders i).key others files drops lags level)
    (hothers : ∀ j, j ≠ i → others (recorders j).key) (hc : Orderly recorders files c)
    (h : Tracks i lags a c) (s : Step ι σ κ) :
    ∃ dropped : List (Step ι σ κ), (∀ d ∈ dropped, d.asked = false) ∧ (¬ drops → dropped = []) ∧
      Tracks i lags (a.run (dropped ++ if s.concerns i then [s] else [])) (c.step s) := by
  have hplain : Tracks i lags (a.run (if s.concerns i then [s] else [])) (c.step s) →
      ∃ dropped : List (Step ι σ κ), (∀ d ∈ dropped, d.asked = false) ∧ (¬ drops → dropped = []) ∧
        Tracks i lags (a.run (dropped ++ if s.concerns i then [s] else [])) (c.step s) :=
    fun htracks => ⟨[], by simp, fun _ => rfl, htracks⟩
  cases s with
  | operate j operation accepts onBody =>
    by_cases hj : j = i
    · subst hj
      have hconcerns : (Step.operate j operation accepts onBody : Step ι σ κ).concerns j := by
        simp [Step.concerns]
      rcases hshield.caughtUp h.store with hlevel | ⟨hdrops, hlevel⟩
      · refine hplain ?_
        rw [if_pos hconcerns]
        exact operate_tracks hshield hc ⟨h.member, h.queue, hlevel⟩ operation accepts onBody
      · refine ⟨[.forget (· == (recorders j).key.scope)], ?_, fun hnot => absurd hdrops hnot, ?_⟩
        · intro d hd
          rw [List.mem_singleton.1 hd]
          rfl
        · rw [if_pos hconcerns]
          have htracks : Tracks j level
              { a with store := a.store.forget (· == (recorders j).key.scope) } c :=
            ⟨h.member, h.queue, hlevel⟩
          exact operate_tracks hshield hc htracks operation accepts onBody
    · refine hplain ?_
      rw [if_neg (by simpa [Step.concerns] using hj)]
      exact operate_aside hshield hothers hc h hj operation accepts onBody
  | report j module =>
    refine hplain ?_
    by_cases hj : j = i
    · subst hj
      rw [if_pos (by simp [Step.concerns])]
      exact report_tracks h module
    · rw [if_neg (by simpa [Step.concerns] using hj)]
      exact report_aside h hj module
  | drain now => exact hplain (drain_tracks hshield hothers hc h now)
  | forget gone => exact hplain ⟨h.member, h.queue, hshield.forget gone h.store⟩

/-- A whole run of the company, and one of the member alone that keeps up. -/
theorem run_tracked (hshield : Shielded (recorders i).key others files drops lags level)
    (hothers : ∀ j, j ≠ i → others (recorders j).key) (hc : Orderly recorders files c)
    (h : Tracks i lags a c) (steps : List (Step ι σ κ))
    (hfiles : ∀ key record, Files recorders steps key record → files key record) :
    ∃ alone : List (Step ι σ κ),
      alone.filter Step.asked = (steps.filter (·.concerns i)).filter Step.asked ∧
      (¬ drops → alone = steps.filter (·.concerns i)) ∧
      Tracks i lags (a.run alone) (c.run steps) := by
  induction steps generalizing a c with
  | nil => exact ⟨[], rfl, fun _ => rfl, h⟩
  | cons s steps ih =>
    have hone : ∀ key record, Files recorders [s] key record → files key record := by
      rintro key record ⟨j, module, hmem, hrest⟩
      obtain rfl := List.mem_singleton.1 hmem
      exact hfiles key record ⟨j, module, List.mem_cons_self .., hrest⟩
    have hmore : ∀ key record, Files recorders steps key record → files key record := by
      rintro key record ⟨j, module, hmem, hrest⟩
      exact hfiles key record ⟨j, module, List.mem_cons_of_mem s hmem, hrest⟩
    obtain ⟨dropped, hdropped, hnone, htracks⟩ := step_tracked hshield hothers hc h s
    obtain ⟨alone, hasked, hexact, hall⟩ := ih (hc.step hone) htracks hmore
    have hsilent : dropped.filter Step.asked = [] :=
      List.filter_eq_nil_iff.2 fun d hd => by simp [hdropped d hd]
    have hown : (s :: steps).filter (·.concerns i) =
        (if s.concerns i then [s] else []) ++ steps.filter (·.concerns i) := by
      by_cases hs : s.concerns i <;> simp [hs]
    refine ⟨(dropped ++ if s.concerns i then [s] else []) ++ alone, ?_, fun hnot => ?_, ?_⟩
    · rw [hown, List.filter_append, List.filter_append, List.filter_append, hsilent, hasked,
        List.nil_append]
    · rw [hown, hnone hnot, hexact hnot, List.nil_append]
    · rw [run, List.foldl_append]
      exact hall

end Tracking

variable [Body σ]

/-- The members of a company whose scopes differ do not notice one another. Whatever the store,
    and however its memory is kept, a member notices what it would notice if its own steps, and
    the runs of the queue, were taken without the others, in a memory that is kept by any rule
    that keeps what was filed last, and that drops records now and then. On a store that keeps
    what is filed that is what it would notice if they were taken as they are. -/
theorem own_steps_suffice (recorders : ι → Recorder) (tokens : ι → Token) (store : Mounted)
    (hscopes : ∀ i j, i ≠ j → (recorders i).key.scope ≠ (recorders j).key.scope)
    (hnames : ∀ i j, Apart (recorders i).key (recorders j).key)
    (steps : List (Step ι σ κ)) (i : ι) :
    let company : Mounted → Company ι σ κ := opening recorders tokens
    let own := steps.filter (·.concerns i)
    (∀ upkeep : Upkeep, upkeep.KeepsNewest → ∃ alone : List (Step ι σ κ),
      alone.filter Step.asked = own.filter Step.asked ∧
      ((company (store.keptBy upkeep)).run alone).members i =
        ((company store).run steps).members i) ∧
    (store.Retains (fun key => ∃ j, key = (recorders j).key) (Files recorders steps) →
      ((company store).run own).members i = ((company store).run steps).members i) := by
  intro company own
  have hforeign : ∀ j, j ≠ i → Foreign (recorders i).key (recorders j).key := fun j hj =>
    ⟨hscopes i j hj.symm, fun hname => hscopes i j hj.symm (hnames i j hname)⟩
  constructor
  · intro upkeep hnewest
    have hc : Orderly recorders (fun _ _ => True) (company store) :=
      orderly_opening recorders tokens _ store
    have htracks : Tracks i (Mounted.LagsLone (recorders i).key store.store.capacity?)
        (company (store.keptBy upkeep)) (company store) :=
      ⟨rfl, rfl, Mounted.lagsLone_keptBy (recorders i).key store hnewest⟩
    obtain ⟨alone, hasked, -, hall⟩ := run_tracked (Store.shielded_lags (recorders i).key _)
      hforeign hc htracks steps fun _ _ _ => trivial
    exact ⟨alone, hasked, hall.member⟩
  · intro hretains
    have hapart : ∀ a b, (∃ j, a = (recorders j).key) → (∃ j, b = (recorders j).key) →
        Apart a b := by
      rintro _ _ ⟨j, rfl⟩ ⟨j', rfl⟩
      exact hnames j j'
    obtain ⟨lags, level, hlevel, hshield⟩ :=
      hretains.shielded hapart (k := (recorders i).key) ⟨i, rfl⟩
    have hc : Orderly recorders (Files recorders steps) (company store) :=
      orderly_opening recorders tokens _ store
    have htracks : Tracks i lags (company store) (company store) :=
      ⟨rfl, rfl, hshield.behind hlevel⟩
    obtain ⟨alone, -, hexact, hall⟩ := run_tracked hshield (fun j hj => ⟨hforeign j hj, j, rfl⟩) hc
      htracks steps fun _ _ hfile => hfile
    rw [hexact id] at hall
    exact hall.member

/-- Two members in one store with room for both. Their modules are filed in one run of the queue,
    before either session looks for a record. -/
theorem own_steps_suffice_in_room :
    let recorders : Bool → Recorder := fun i =>
      ⟨"https://a.test/m", ⟨Record.moduleTag, [if i then 1 else 2]⟩, 0, .main, none⟩
    let store : Mounted := ⟨.memory ⟨1024, by decide, .oldestFirst, []⟩, Disk.empty⟩
    let steps : List (Step Bool Body.Fixed Unit) :=
      [.report true ⟨[7], .leaf [70]⟩, .report false ⟨[8], .leaf [80]⟩, .drain 0,
       .operate false (.start ⟨[[8]], false⟩ ()) (fun _ => true) id,
       .operate true (.start ⟨[[6], [9]], false⟩ ()) (fun _ => true) id]
    let c : Company Bool Body.Fixed Unit := opening recorders (fun _ => ⟨0⟩) store
    (c.run (steps.filter (·.concerns true))).members true = (c.run steps).members true := by
  intro recorders store steps c
  have hscopes : ∀ i j, i ≠ j → (recorders i).key.scope ≠ (recorders j).key.scope := by decide
  have hnames : ∀ i j, Apart (recorders i).key (recorders j).key := by
    unfold Apart
    decide +kernel
  have hsmall : steps.all fun
      | .report i module => ((recorders i).judge module).toOption.all (·.size ≤ 64)
      | _ => true := by
    decide +kernel
  have hsizes : ∀ key record, Files recorders steps key record → record.size ≤ 64 := by
    rintro _ record ⟨i, module, hmem, -, hjudge⟩
    simpa [hjudge, Except.toOption] using List.all_eq_true.1 hsmall _ hmem
  have hretains :
      store.Retains (fun key => ∃ j, key = (recorders j).key) (Files recorders steps) := by
    refine .room {[1], [2]} (fun _ => 64)
      (Store.Mounted.ample_of_roomy rfl ⟨by decide, by simp, by simp⟩ _) ?_ hsizes
    rintro _ ⟨j, rfl⟩
    cases j <;> decide
  exact (own_steps_suffice recorders (fun _ => ⟨0⟩) store hscopes hnames steps true).2 hretains

/-- A directory was cleared, and memory still has what a member filed. The other member's records
    take its room, and its session does not find it. -/
theorem pushed_out_is_noticed :
    let recorders : Bool → Recorder := fun i =>
      ⟨"https://a.test/m", ⟨Record.moduleTag, [if i then 1 else 2]⟩, 0, .main, none⟩
    let filed : Record := ⟨Record.moduleTag, List.replicate 33 0, by decide⟩
    let store : Mounted :=
      ⟨.layered ⟨⟨96, by decide, .oldestFirst, [([1], filed)]⟩, ⟨⟨["", "cache"]⟩⟩⟩,
        ⟨[(["cache"], .directory)]⟩⟩
    let steps : List (Step Bool Body.Fixed Unit) :=
      [.report false ⟨[8], .leaf [80]⟩, .drain 0,
       .report false ⟨[8], .fill 80 20⟩, .drain 0,
       .operate true (.start ⟨[[6]], false⟩ ()) (fun _ => true) id]
    let c : Company Bool Body.Fixed Unit := opening recorders (fun _ => ⟨0⟩) store
    let found : Company Bool Body.Fixed Unit → List Store.Found := fun c =>
      (c.members true).seen.filterMap fun
        | .noticed (.call (.get _ answer)) => some answer
        | _ => none
    (∀ i j, i ≠ j → (recorders i).key.scope ≠ (recorders j).key.scope) ∧
      (∀ i j, Apart (recorders i).key (recorders j).key) ∧
      found (c.run (steps.filter (·.concerns true))) = [.ok (some filed)] ∧
      found (c.run steps) = [.ok none] := by
  intro recorders filed store steps c found
  refine ⟨by decide, ?_, by decide +kernel, by decide +kernel⟩
  unfold Apart
  decide +kernel

end Company

end CompileCache
