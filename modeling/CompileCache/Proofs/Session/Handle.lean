/-
  CompileCache.Proofs.Session.Handle — a session that threads share.

  A handle serializes what threads ask of a session: an operation locks it, takes its turn
  and unlocks it; to look at the session is to lock it and to unlock it at once. The lock is
  not one that its holder can take again. Whoever is called may ask the handle before they
  return (`Callbacks`), and so on: a thread is the list of what it has to do next, and a
  callback puts what it asks in front.

  Compiler and sink are told the outcome once the handle is unlocked. Everything else is
  called in the middle of a turn, under the lock (`Sound`): a compiler that asks the handle
  when it is fed, or when it is offered an artifact, waits for a lock that its own thread
  holds. Nothing then happens to the session any more (`waits_run`).

  Proved, for all callbacks, threads and schedules: that calls are made under the lock, and
  outcomes told without; and that a thread waits for itself just if somebody who was called
  under the lock has asked the handle (`called_under_lock`). A compiler that looks at the
  session when it is fed does (`feed_that_looks_waits`).
-/

import CompileCache.Proofs.Session.Reception
import CompileCache.Store.Faulty

namespace CompileCache

/-- Whether it is a call of a turn, and not an outcome that is told. -/
def Notice.isCall {κ : Type} (n : Notice κ) : Bool := n.call?.isSome

namespace Handle

/-- What is asked of a handle. -/
inductive Access (σ κ τ : Type) where
  | look
  | operate (m : Move σ κ τ)

/-- What those who are called ask of the handle before they return. -/
abbrev Callbacks (σ κ τ : Type) : Type := Notice κ → List (Access σ κ τ)

/-- What a thread does next. -/
inductive Task (σ κ τ : Type) where
  | ask (a : Access σ κ τ)
  | notify (n : Notice κ)
  | unlock

/-- Somebody was called. -/
structure Entry (ι κ : Type) where
  thread : ι
  notice : Notice κ
  /-- Whether the thread had the handle locked. -/
  locked : Bool

end Handle

/-- A session behind a lock. -/
structure Handle (ι σ κ τ : Type) where
  session : Session σ κ
  store : Option τ
  /-- The thread that has it locked. -/
  holder : Option ι
  threads : ι → List (Handle.Task σ κ τ)
  /-- Oldest first. -/
  log : List (Handle.Entry ι κ)

namespace Handle

variable {ι σ κ τ : Type}

/-- A new session, and what the threads are going to ask. -/
def opening (url : String) (key : Key) (token : Token) (store : Option τ)
    (threads : ι → List (Access σ κ τ)) : Handle ι σ κ τ :=
  ⟨Session.new url key token, store, none, fun i => (threads i).map .ask, []⟩

/-- What an operation still has to do once it has taken its turn: the calls of the turn, then
    to unlock, and then to tell how the session ended. -/
def tasksOf (t : Turn σ κ τ) : List (Task σ κ τ) :=
  t.calls.map (fun c => .notify (.call c)) ++
    .unlock :: ((t.ending.map Ending.notices).getD []).map .notify

section Steps

variable [DecidableEq ι]

/-- The thread has this to do next. -/
def next (h : Handle ι σ κ τ) (i : ι) (tasks : List (Task σ κ τ)) : Handle ι σ κ τ :=
  { h with threads := fun j => if j = i then tasks else h.threads j }

variable [Body σ] [Store τ]

/-- One step of a thread; one that finds the handle locked waits. Nobody can look at the
    session before it is unlocked, so it does not matter that the turn is taken at once. -/
def step (callbacks : Callbacks σ κ τ) (h : Handle ι σ κ τ) (i : ι) : Handle ι σ κ τ :=
  match h.threads i with
  | [] => h
  | .ask a :: rest =>
    if h.holder.isSome then h
    else
      match a with
      | .look => h.next i rest
      | .operate m =>
        let t := (⟨h.session, h.store, []⟩ : Play σ κ τ).turn m
        { h with session := t.session, store := t.store, holder := some i }.next i
          (tasksOf t ++ rest)
  | .notify n :: rest =>
    let e : Entry ι κ := ⟨i, n, decide (h.holder = some i)⟩
    { h with log := h.log ++ [e] }.next i ((callbacks n).map Task.ask ++ rest)
  | .unlock :: rest => { h with holder := none }.next i rest

def run (callbacks : Callbacks σ κ τ) (h : Handle ι σ κ τ) (schedule : List ι) : Handle ι σ κ τ :=
  schedule.foldl (step callbacks) h

end Steps

/-! ## Inside and outside -/

/-- Whether it can be done without the lock. -/
def Task.outside : Task σ κ τ → Bool
  | ask _ => true
  | notify n => !n.isCall
  | unlock => false

/-- What the holder of the lock has to do: what was asked by those whom it has called, the calls
    that are left to make, and to unlock before anything else. -/
def Inside (asks : List (Access σ κ τ)) (tasks : List (Task σ κ τ)) : Prop :=
  ∃ (calls : List Call) (rest : List (Task σ κ τ)),
    tasks = asks.map .ask ++ (calls.map (fun c => .notify (.call c)) ++ .unlock :: rest) ∧
    ∀ t ∈ rest, t.outside

/-- The thread waits for a lock that it holds itself. -/
def Waits (h : Handle ι σ κ τ) (i : ι) : Prop :=
  h.holder = some i ∧ ∃ a rest, h.threads i = .ask a :: rest

/-- Somebody who was called under the lock has asked the handle. -/
def Entangled (callbacks : Callbacks σ κ τ) (h : Handle ι σ κ τ) : Prop :=
  ∃ e ∈ h.log, e.notice.isCall ∧ callbacks e.notice ≠ []

structure Sound (callbacks : Callbacks σ κ τ) (h : Handle ι σ κ τ) : Prop where
  inside : ∀ i, h.holder = some i →
    ∃ asks, Inside asks (h.threads i) ∧ (asks ≠ [] ↔ h.Entangled callbacks)
  outside : ∀ i, h.holder ≠ some i → ∀ t ∈ h.threads i, t.outside
  free : h.holder = none → ¬ h.Entangled callbacks
  log : ∀ e ∈ h.log, e.locked = e.notice.isCall

theorem outside_asks (asks : List (Access σ κ τ)) {rest : List (Task σ κ τ)}
    (hrest : ∀ t ∈ rest, t.outside) : ∀ t ∈ asks.map .ask ++ rest, t.outside := by
  intro t ht
  rcases List.mem_append.1 ht with hask | hold
  · obtain ⟨a, -, rfl⟩ := List.mem_map.1 hask
    rfl
  · exact hrest t hold

theorem Inside.of_notify {asks : List (Access σ κ τ)} {n : Notice κ} {rest : List (Task σ κ τ)}
    (h : Inside asks (.notify n :: rest)) : asks = [] ∧ n.isCall ∧ Inside [] rest := by
  obtain ⟨calls, more, hsplit, hmore⟩ := h
  cases asks with
  | cons a asks => cases hsplit
  | nil =>
    cases calls with
    | nil => cases hsplit
    | cons c calls =>
      cases hsplit
      exact ⟨rfl, rfl, calls, more, rfl, hmore⟩

theorem Inside.of_unlock {asks : List (Access σ κ τ)} {rest : List (Task σ κ τ)}
    (h : Inside asks (.unlock :: rest)) : asks = [] ∧ ∀ t ∈ rest, t.outside := by
  obtain ⟨calls, more, hsplit, hmore⟩ := h
  cases asks with
  | cons a asks => cases hsplit
  | nil =>
    cases calls with
    | cons c calls => cases hsplit
    | nil =>
      cases hsplit
      exact ⟨rfl, hmore⟩

theorem Inside.asked {tasks : List (Task σ κ τ)} (h : Inside [] tasks) (asks : List (Access σ κ τ)) :
    Inside asks (asks.map .ask ++ tasks) := by
  obtain ⟨calls, more, rfl, hmore⟩ := h
  exact ⟨calls, more, rfl, hmore⟩

/-- The holder of the lock waits for it just if it was asked for. -/
theorem Inside.ask_iff {asks : List (Access σ κ τ)} {tasks : List (Task σ κ τ)}
    (h : Inside asks tasks) : (∃ a rest, tasks = .ask a :: rest) ↔ asks ≠ [] := by
  obtain ⟨calls, more, rfl, -⟩ := h
  cases asks with
  | cons a asks => simp
  | nil => cases calls <;> simp

theorem entangled_iff {callbacks : Callbacks σ κ τ} {h h' : Handle ι σ κ τ} {e : Entry ι κ}
    (hlog : h'.log = h.log ++ [e]) : h'.Entangled callbacks ↔
      h.Entangled callbacks ∨ (e.notice.isCall ∧ callbacks e.notice ≠ []) := by
  simp only [Entangled, hlog, List.mem_append, List.mem_singleton]
  constructor
  · rintro ⟨e', hold | rfl, he'⟩
    · exact .inl ⟨e', hold, he'⟩
    · exact .inr he'
  · rintro (⟨e', hold, he'⟩ | he)
    · exact ⟨e', .inl hold, he'⟩
    · exact ⟨e, .inr rfl, he⟩

theorem told_notices (e : Ending κ) : ∀ n ∈ e.notices, n.isCall = false := by
  rw [Ending.notices_eq]
  cases e.token <;> cases e.sink <;> simp [Notice.isCall, Notice.call?]

/-- What an operation has to do after its turn. -/
theorem inside_tasksOf (t : Turn σ κ τ) {rest : List (Task σ κ τ)} (hrest : ∀ t ∈ rest, t.outside) :
    Inside [] (tasksOf t ++ rest) := by
  refine ⟨t.calls, ((t.ending.map Ending.notices).getD []).map .notify ++ rest, ?_, ?_⟩
  · simp [tasksOf]
  · intro task htask
    rcases List.mem_append.1 htask with htold | hold
    · obtain ⟨n, hn, rfl⟩ := List.mem_map.1 htold
      cases he : t.ending with
      | none => simp [he] at hn
      | some e =>
        rw [he] at hn
        simp [Task.outside, told_notices e n hn]
    · exact hrest task hold

section Steps

variable [DecidableEq ι] {callbacks : Callbacks σ κ τ} {h : Handle ι σ κ τ}

@[simp] theorem next_threads (i : ι) (tasks : List (Task σ κ τ)) :
    (h.next i tasks).threads i = tasks :=
  if_pos rfl

theorem next_threads_ne {i j : ι} (hne : j ≠ i) (tasks : List (Task σ κ τ)) :
    (h.next i tasks).threads j = h.threads j :=
  if_neg hne

@[simp] theorem next_holder (i : ι) (tasks : List (Task σ κ τ)) :
    (h.next i tasks).holder = h.holder := rfl

@[simp] theorem next_log (i : ι) (tasks : List (Task σ κ τ)) : (h.next i tasks).log = h.log := rfl

/-- Only the thread that has made a step has something else to do. -/
theorem outside_next {i : ι} {tasks : List (Task σ κ τ)} {holder : Option ι}
    (hself : holder ≠ some i → ∀ t ∈ tasks, t.outside)
    (hothers : ∀ j, j ≠ i → holder ≠ some j → ∀ t ∈ h.threads j, t.outside) :
    ∀ j, holder ≠ some j → ∀ t ∈ (h.next i tasks).threads j, t.outside := by
  intro j hj
  by_cases hji : j = i
  · subst hji
    rw [next_threads]
    exact hself hj
  · rw [next_threads_ne hji]
    exact hothers j hji hj

variable [Body σ] [Store τ]

theorem step_sound (hs : Sound callbacks h) (i : ι) : Sound callbacks (h.step callbacks i) := by
  unfold step
  split
  · exact hs
  · next a rest hi =>
    by_cases hheld : h.holder.isSome
    · rwa [if_pos hheld]
    · rw [if_neg hheld]
      rw [Option.not_isSome_iff_eq_none] at hheld
      have houtside : ∀ j, ∀ t ∈ h.threads j, t.outside := fun j =>
        hs.outside j (by rw [hheld]; exact nofun)
      have hrest : ∀ t ∈ rest, t.outside := fun t ht =>
        houtside i t (by rw [hi]; exact List.mem_cons_of_mem _ ht)
      cases a with
      | look =>
        refine ⟨fun j hj => ?_, outside_next (fun _ => hrest) fun j _ _ => houtside j, hs.free, hs.log⟩
        rw [next_holder, hheld] at hj
        cases hj
      | operate m =>
        refine ⟨fun j hj => ?_, outside_next (fun hne => absurd rfl hne) fun j _ _ => houtside j,
          nofun, hs.log⟩
        cases hj
        refine ⟨[], ?_, fun hne => absurd rfl hne, fun hent => absurd hent (hs.free hheld)⟩
        rw [next_threads]
        exact inside_tasksOf _ hrest
  · next n rest hi =>
    by_cases hheld : h.holder = some i
    · obtain ⟨asks, hinside, hent⟩ := hs.inside i hheld
      rw [hi] at hinside
      obtain ⟨rfl, hcall, hrest⟩ := hinside.of_notify
      have hnot : ¬ h.Entangled callbacks := fun h' => hent.2 h' rfl
      refine ⟨fun j hj => ?_, outside_next (fun hne => absurd hheld hne) fun j _ => hs.outside j,
        fun hfree => ?_, fun e he => ?_⟩
      · obtain rfl : i = j := Option.some.inj (hheld.symm.trans hj)
        refine ⟨callbacks n, ?_, ?_⟩
        · rw [next_threads]
          exact hrest.asked (callbacks n)
        · rw [entangled_iff (h := h) rfl]
          simp [hnot, hcall]
      · rw [show h.holder = none from hfree] at hheld
        cases hheld
      · rcases List.mem_append.1 he with hold | hnew
        · exact hs.log e hold
        · rw [List.mem_singleton.1 hnew]
          simp [hheld, hcall]
    · have hcall : n.isCall = false := by
        simpa [Task.outside] using hs.outside i hheld (.notify n) (by rw [hi]; exact List.mem_cons_self)
      have hent : ∀ {h' : Handle ι σ κ τ} {locked : Bool}, h'.log = h.log ++ [⟨i, n, locked⟩] →
          (h'.Entangled callbacks ↔ h.Entangled callbacks) := by
        intro h' locked hlog
        rw [entangled_iff hlog]
        simp [hcall]
      have hrest : ∀ t ∈ (callbacks n).map Task.ask ++ rest, t.outside :=
        outside_asks (callbacks n) fun t ht =>
          hs.outside i hheld t (by rw [hi]; exact List.mem_cons_of_mem _ ht)
      refine ⟨fun j hj => ?_, outside_next (fun _ => hrest) fun j _ => hs.outside j,
        fun hfree hent' => hs.free hfree ((hent rfl).1 hent'), fun e he => ?_⟩
      · obtain ⟨asks, hinside, hasked⟩ := hs.inside j hj
        have hne : j ≠ i := by
          rintro rfl
          exact hheld hj
        rw [next_threads_ne hne]
        exact ⟨asks, hinside, hasked.trans (hent rfl).symm⟩
      · rcases List.mem_append.1 he with hold | hnew
        · exact hs.log e hold
        · rw [List.mem_singleton.1 hnew]
          simp [hheld, hcall]
  · next rest hi =>
    have hheld : h.holder = some i := by
      by_cases hheld : h.holder = some i
      · exact hheld
      · have hout := hs.outside i hheld .unlock (by rw [hi]; exact List.mem_cons_self)
        cases hout
    obtain ⟨asks, hinside, hent⟩ := hs.inside i hheld
    rw [hi] at hinside
    obtain ⟨rfl, hrest⟩ := hinside.of_unlock
    refine ⟨nofun, outside_next (fun _ => hrest) fun j hne _ => hs.outside j ?_,
      fun _ hent' => hent.2 hent' rfl, hs.log⟩
    rw [hheld]
    exact fun hsame => hne (Option.some.inj hsame).symm

theorem run_sound (hs : Sound callbacks h) (schedule : List ι) :
    Sound callbacks (h.run callbacks schedule) := by
  induction schedule generalizing h with
  | nil => exact hs
  | cons i schedule ih => exact ih (step_sound hs i)

omit [DecidableEq ι] [Body σ] [Store τ] in
theorem sound_opening (callbacks : Callbacks σ κ τ) (url : String) (key : Key) (token : Token)
    (store : Option τ) (threads : ι → List (Access σ κ τ)) :
    Sound callbacks (opening url key token store threads) := by
  refine ⟨nofun, fun i _ t ht => ?_, ?_, nofun⟩
  · obtain ⟨a, -, rfl⟩ := List.mem_map.1 ht
    rfl
  · rintro - ⟨e, he, -⟩
    cases he

/-! ## Waiting for oneself -/

omit [DecidableEq ι] [Body σ] [Store τ] in
theorem waits_iff (hs : Sound callbacks h) : (∃ i, h.Waits i) ↔ h.Entangled callbacks := by
  constructor
  · rintro ⟨i, hheld, hwaits⟩
    obtain ⟨asks, hinside, hent⟩ := hs.inside i hheld
    exact hent.1 (hinside.ask_iff.1 hwaits)
  · intro hent
    cases hheld : h.holder with
    | none => exact absurd hent (hs.free hheld)
    | some i =>
      obtain ⟨asks, hinside, hasked⟩ := hs.inside i hheld
      exact ⟨i, hheld, hinside.ask_iff.2 (hasked.2 hent)⟩

/-- A thread that waits for itself keeps every other one from the session. -/
theorem waits_step (hs : Sound callbacks h) {i : ι} (hw : h.Waits i) (j : ι) :
    (h.step callbacks j).Waits i ∧ (h.step callbacks j).session = h.session ∧
      (h.step callbacks j).store = h.store := by
  obtain ⟨hheld, a, rest, hi⟩ := hw
  have hsame : h.Waits i ∧ h.session = h.session ∧ h.store = h.store :=
    ⟨⟨hheld, a, rest, hi⟩, rfl, rfl⟩
  unfold step
  split
  · exact hsame
  · next b more hj =>
    rw [if_pos (by simp [hheld])]
    exact hsame
  · next n more hj =>
    have hne : i ≠ j := by
      rintro rfl
      rw [hi] at hj
      cases hj
    refine ⟨⟨hheld, a, rest, ?_⟩, rfl, rfl⟩
    rwa [next_threads_ne hne]
  · next more hj =>
    have hne : h.holder ≠ some j := by
      rw [hheld]
      intro hij
      cases hij
      rw [hi] at hj
      cases hj
    have hout := hs.outside j hne .unlock (by rw [hj]; exact List.mem_cons_self)
    cases hout

theorem waits_run (hs : Sound callbacks h) {i : ι} (hw : h.Waits i) (schedule : List ι) :
    (h.run callbacks schedule).Waits i ∧ (h.run callbacks schedule).session = h.session ∧
      (h.run callbacks schedule).store = h.store := by
  induction schedule generalizing h with
  | nil => exact ⟨hw, rfl, rfl⟩
  | cons j schedule ih =>
    obtain ⟨hstep, hsession, hstore⟩ := waits_step hs hw j
    obtain ⟨hrun, hsession', hstore'⟩ := ih (step_sound hs j) hstep
    exact ⟨hrun, hsession'.trans hsession, hstore'.trans hstore⟩

/-- The lock is given back after the calls that are left, if none of those who are called asks
    the handle. -/
theorem unlocks (hfree : ∀ c, callbacks (.call c) = []) {i : ι} {calls : List Call}
    {rest : List (Task σ κ τ)}
    (hi : h.threads i = calls.map (fun c => .notify (.call c)) ++ .unlock :: rest) :
    ∃ n, (h.run callbacks (.replicate n i)).holder = none := by
  induction calls generalizing h with
  | nil =>
    refine ⟨1, ?_⟩
    show (h.step callbacks i).holder = none
    simp [step, hi]
  | cons c calls ih =>
    have hstep : (h.step callbacks i).threads i =
        calls.map (fun c => .notify (.call c)) ++ .unlock :: rest := by
      simp [step, hi, hfree c]
    obtain ⟨n, hn⟩ := ih hstep
    exact ⟨n + 1, hn⟩

variable (callbacks) in
/-- Whatever threads do with a handle, in whatever order they take their steps. -/
theorem called_under_lock (url : String) (key : Key) (token : Token) (store : Option τ)
    (threads : ι → List (Access σ κ τ)) (schedule : List ι) :
    let h := (opening url key token store threads).run callbacks schedule
    -- All calls of a turn are made under the lock, and outcomes are told without it.
    (∀ e ∈ h.log, e.locked = e.notice.isCall) ∧
    -- A thread waits for itself just if somebody who was called under the lock has asked the
    -- handle.
    ((∃ i, h.Waits i) ↔ ∃ e ∈ h.log, e.notice.isCall ∧ callbacks e.notice ≠ []) ∧
    -- Then it waits for ever, and nobody gets at the session.
    (∀ i, h.Waits i → ∀ more, (h.run callbacks more).Waits i ∧
      (h.run callbacks more).session = h.session ∧ (h.run callbacks more).store = h.store) ∧
    -- If nobody who is called under the lock asks the handle, the lock is given back.
    ((∀ c, callbacks (.call c) = []) → ∀ i, h.holder = some i →
      ∃ n, (h.run callbacks (.replicate n i)).holder = none) := by
  intro h
  have hs : Sound callbacks h :=
    run_sound (sound_opening callbacks url key token store threads) schedule
  refine ⟨hs.log, waits_iff hs, fun i hw more => waits_run hs hw more, fun hfree i hheld => ?_⟩
  obtain ⟨asks, hinside, hent⟩ := hs.inside i hheld
  have hnone : asks = [] := by
    by_cases hasks : asks = []
    · exact hasks
    · obtain ⟨e, -, hcall, hne⟩ := hent.1 hasks
      cases hn : e.notice with
      | call c =>
        rw [hn, hfree c] at hne
        exact absurd rfl hne
      | _ => simp [hn, Notice.isCall, Notice.call?] at hcall
  subst hnone
  obtain ⟨calls, rest, hi, -⟩ := hinside
  exact unlocks hfree hi

end Steps

/-- A compiler is fed under the lock; one that then looks at the session waits for ever. -/
theorem feed_that_looks_waits :
    let callbacks : Callbacks Body.Scripted Unit Store.Faulty := fun n =>
      match n with
      | .call (.feed _) => [.look]
      | _ => []
    let start : Move Body.Scripted Unit Store.Faulty :=
      ⟨.start ⟨[.chunk [1], .wait]⟩ (), ⟨fun _ => true, true⟩, id, id⟩
    let h := (opening "https://a.test/m" ⟨Record.moduleTag, [109]⟩ ⟨0⟩ none
      fun _ : Unit => [.operate start]).run callbacks [(), (), ()]
    h.log.map (fun e => (e.notice.call?.bind Call.fedChunk?, e.locked)) =
        [(none, true), (some [1], true)] ∧
      ∀ more, (h.run callbacks more).Waits () := by
  intro callbacks start h
  have hs : Sound callbacks h := run_sound (sound_opening ..) _
  have hasked : h.log.any fun e => e.notice.isCall && !(callbacks e.notice).isEmpty := by
    decide +kernel
  obtain ⟨e, he, hcall⟩ := List.any_eq_true.1 hasked
  have hent : h.Entangled callbacks := ⟨e, he, by simpa using hcall⟩
  obtain ⟨i, hw⟩ := (waits_iff hs).2 hent
  exact ⟨by decide +kernel, fun more => (waits_run hs hw more).1⟩

end Handle

end CompileCache
