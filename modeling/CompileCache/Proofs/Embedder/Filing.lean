/-
  CompileCache.Proofs.Embedder.Filing — a record that waits in a queue, and is filed.

  A queue runs its tasks in order. Those before the record's may file other records in the
  same archive, and notes may post further notes at the end (`Noted`); neither takes the task
  away, or its store, and the room that the others take is reckoned with (`Awaits`). Nothing
  that is filed later can come up after it, so when the queue is idle again the archive has the
  record (`Filed`).

  Proved: one task is a step from `Awaits` to `Filed` (`awaits_step`), and draining the queue
  takes all of them (`filed_of_drained`).
-/

import CompileCache.Proofs.Embedder.Eviction
import CompileCache.Proofs.Store.Room

namespace CompileCache

def Task.isNote : Task → Bool
  | note .. => true
  | file .. => false

/-- How many bytes a task files. -/
def Task.bytes : Task → Nat
  | file _ r => r.size
  | note .. => 0

def Task.bytesIn : List Task → Nat
  | [] => 0
  | task :: tasks => task.bytes + bytesIn tasks

theorem Posting.isNote_task (p : Posting) (mayPost : List Thread) : (p.task mayPost).isNote := by
  cases p
  rfl

theorem Task.weight_pos (task : Task) : 0 < task.weight := by
  cases task with
  | file key r => exact Nat.one_pos
  | note label next mayPost => exact Nat.lt_add_right _ Nat.one_pos

/-- Every task weighs something. -/
theorem Queue.length_le_weight (q : Queue) : q.tasks.length ≤ q.weight := by
  unfold weight
  induction q.tasks with
  | nil => exact Nat.le_refl 0
  | cons task tasks ih =>
    have hpos := task.weight_pos
    simp only [List.length_cons, List.foldr_cons]
    omega

namespace Embedder

variable {m m' m'' : Embedder} {t : Thread} {name : StoreName} {key : Key} {r : Record}

@[simp] theorem queue_putQueue (m : Embedder) (t : Thread) (q : Queue) :
    (m.putQueue t q).queue t = q := by
  cases t <;> rfl

theorem queue_putQueue_ne {t other : Thread} (h : other ≠ t) (m : Embedder) (q : Queue) :
    (m.putQueue t q).queue other = m.queue other := by
  cases t <;> cases other <;> first | rfl | exact absurd rfl h

theorem putQueue_rest (m : Embedder) (t : Thread) (q : Queue) :
    ∃ mainQueue workerQueue, m.putQueue t q = { m with mainQueue, workerQueue } := by
  cases t
  · exact ⟨q, m.workerQueue, rfl⟩
  · exact ⟨m.mainQueue, q, rfl⟩

/-! ## Notes -/

/-- Notes were posted, and nothing else has happened. -/
structure Noted (m m' : Embedder) : Prop where
  rest : ∃ mainQueue workerQueue trace, m' = { m with mainQueue, workerQueue, trace }
  queue : ∀ t, ∃ more, (m'.queue t).tasks = (m.queue t).tasks ++ more ∧ ∀ task ∈ more, task.isNote

theorem noted_log (m : Embedder) (e : Event) : Noted m (m.log e) := by
  refine ⟨⟨_, _, _, rfl⟩, fun t => ⟨[], ?_, by simp⟩⟩
  cases t <;> simp [queue, log]

theorem Noted.trans (h : Noted m m') (h' : Noted m' m'') : Noted m m'' := by
  refine ⟨?_, fun t => ?_⟩
  · obtain ⟨main, worker, trace, rfl⟩ := h.rest
    obtain ⟨main, worker, trace, rfl⟩ := h'.rest
    exact ⟨main, worker, trace, rfl⟩
  · obtain ⟨more, hmore, hnotes⟩ := h.queue t
    obtain ⟨more', hmore', hnotes'⟩ := h'.queue t
    refine ⟨more ++ more', by rw [hmore', hmore, List.append_assoc], fun task htask => ?_⟩
    rcases List.mem_append.1 htask with hold | hnew
    · exact hnotes task hold
    · exact hnotes' task hnew

theorem noted_refl (m : Embedder) : Noted m m := ⟨⟨_, _, _, rfl⟩, fun _ => ⟨[], by simp, by simp⟩⟩

theorem noted_post (m : Embedder) (t : Thread) {task : Task} (htask : task.isNote) :
    Noted m (m.post t task).2 := by
  simp only [post]
  split
  · exact noted_refl m
  · obtain ⟨main, worker, hput⟩ := putQueue_rest m t
      { m.queue t with tasks := (m.queue t).tasks ++ [task] }
    refine ⟨⟨main, worker, m.trace, hput⟩, fun other => ?_⟩
    by_cases hother : other = t
    · subst hother
      exact ⟨[task], by simp, by simpa using htask⟩
    · exact ⟨[], by simp [queue_putQueue_ne hother], by simp⟩

theorem noted_postAs (mayPost : List Thread) (m : Embedder) (p : Posting) :
    Noted m (m.postAs mayPost p).2 := by
  unfold postAs
  split
  · exact noted_post m p.thread (p.isNote_task mayPost)
  · exact noted_refl m

theorem noted_runTask (m : Embedder) {task : Task} (htask : task.isNote) : Noted m (m.runTask task) := by
  cases task with
  | file key r => cases htask
  | note label next mayPost =>
    have hfold : ∀ (next : List Posting) (m : Embedder), Noted m (next.foldl (fun m p =>
        (m.postAs mayPost p).2.log (.posted (m.postAs mayPost p).1)) m) := by
      intro next
      induction next with
      | nil => exact noted_refl
      | cons p ps ih =>
        exact fun m => ((noted_postAs mayPost m p).trans (noted_log _ _)).trans (ih _)
    exact (noted_log m (.task label)).trans (hfold next _)

/-! ## Filing -/

/-- The record waits in the queue of `t` behind the tasks `before`, and the archive takes it after
    theirs; behind it are only notes. -/
structure Awaits (t : Thread) (name : StoreName) (key : Key) (r : Record) (before : List Task)
    (m : Embedder) : Prop where
  archive : m.liveContext.bind (·.archive) = some name
  store : ∃ s, m.store? name = some s ∧ s.Takes key r.size (Task.bytesIn before)
  queued : ∃ after, (m.queue t).tasks = before ++ .file key r :: after ∧ ∀ task ∈ after, task.isNote

/-- The archive has the record, and only notes wait in the queue of `t`. -/
structure Filed (t : Thread) (name : StoreName) (key : Key) (r : Record) (m : Embedder) : Prop where
  store : ∃ s, m.store? name = some s ∧ (Store.get s key).1 = .ok (some r)
  queued : ∀ task ∈ (m.queue t).tasks, task.isNote

/-- The first task of a queue was taken from it and run. -/
def runFirst (m : Embedder) (t : Thread) (task : Task) (rest : List Task) : Embedder :=
  (m.putQueue t { m.queue t with tasks := rest }).runTask task

/-- What running a task that files a record does. -/
theorem runFirst_file {s : Store.Faulty} (harchive : m.liveContext.bind (·.archive) = some name)
    (hstore : m.store? name = some s) (key : Key) (r : Record) (rest : List Task) :
    (m.runFirst t (.file key r) rest).liveContext = m.liveContext ∧
      (m.runFirst t (.file key r) rest).store? name = some (Store.put s key r m.clock).2 ∧
      ((m.runFirst t (.file key r) rest).queue t).tasks = rest := by
  obtain ⟨main, worker, hput⟩ := putQueue_rest m t { m.queue t with tasks := rest }
  have hqueue := queue_putQueue m t { m.queue t with tasks := rest }
  have hrun : m.runFirst t (.file key r) rest =
      (({ m with mainQueue := main, workerQueue := worker } : Embedder).log
        (.storeCall .put name key)).putStore name (Store.put s key r m.clock).2 := by
    have harchive' : ({ m with mainQueue := main, workerQueue := worker } : Embedder).liveContext.bind
        (·.archive) = some name := harchive
    have hstore' : ({ m with mainQueue := main, workerQueue := worker } : Embedder).store? name =
        some s := hstore
    simp only [runFirst, hput, runTask, fileRecord, harchive', hstore']
  rw [hput] at hqueue
  rw [hrun]
  refine ⟨rfl, store?_putStore hstore _, ?_⟩
  cases t <;> simp_all [queue, log, putStore]

theorem noted_runFirst (m : Embedder) (t : Thread) {task : Task} (htask : task.isNote)
    (rest : List Task) :
    Noted (m.putQueue t { m.queue t with tasks := rest }) (m.runFirst t task rest) :=
  noted_runTask _ htask

theorem awaits_of_noted {before : List Task} (h : Awaits t name key r before m)
    (hnoted : Noted m m') : Awaits t name key r before m' := by
  obtain ⟨after, htasks, hnotes⟩ := h.queued
  obtain ⟨more, hmore, hmoreNotes⟩ := hnoted.queue t
  obtain ⟨main, worker, trace, rfl⟩ := hnoted.rest
  refine ⟨h.archive, h.store, after ++ more, ?_, fun task htask => ?_⟩
  · rw [hmore, htasks, List.append_assoc, List.cons_append]
  · rcases List.mem_append.1 htask with hold | hnew
    · exact hnotes task hold
    · exact hmoreNotes task hnew

theorem filed_of_noted (h : Filed t name key r m) (hnoted : Noted m m') : Filed t name key r m' := by
  obtain ⟨more, hmore, hmoreNotes⟩ := hnoted.queue t
  obtain ⟨main, worker, trace, rfl⟩ := hnoted.rest
  refine ⟨h.store, fun task htask => ?_⟩
  rw [hmore] at htask
  rcases List.mem_append.1 htask with hold | hnew
  · exact h.queued task hold
  · exact hmoreNotes task hnew

/-- The queue of `t` begins with `task`, which is taken. -/
theorem awaits_step {before : List Task} (h : Awaits t name key r before m) (htag : r.tag = key.tag)
    {task : Task} {rest : List Task} (htasks : (m.queue t).tasks = task :: rest) :
    match before with
    | [] => Filed t name key r (m.runFirst t task rest)
    | _ :: before => Awaits t name key r before (m.runFirst t task rest) := by
  obtain ⟨s, hs, htakes⟩ := h.store
  obtain ⟨after, hqueue, hnotes⟩ := h.queued
  rw [htasks] at hqueue
  cases before with
  | nil =>
    obtain ⟨rfl, rfl⟩ : task = .file key r ∧ rest = after := by simpa using hqueue
    obtain ⟨-, hstore, hrest⟩ := runFirst_file (t := t) h.archive hs key r rest
    refine ⟨⟨_, hstore, Store.Faulty.get_put htakes htag m.clock⟩, ?_⟩
    rw [hrest]
    exact hnotes
  | cons first before =>
    obtain ⟨rfl, rfl⟩ : task = first ∧ rest = before ++ .file key r :: after := by simpa using hqueue
    cases task with
    | file other r' =>
      obtain ⟨hcontext, hstore, hrest⟩ := runFirst_file (t := t) h.archive hs other r'
        (before ++ .file key r :: after)
      have hlater : s.Takes key r.size (r'.size + Task.bytesIn before) := htakes
      exact ⟨by rw [hcontext]; exact h.archive,
        ⟨_, hstore, Store.Faulty.takes_put hlater other m.clock⟩, after, hrest, hnotes⟩
    | note label next mayPost =>
      refine awaits_of_noted ?_ (noted_runFirst m t rfl _)
      obtain ⟨main, worker, hput⟩ := putQueue_rest m t
        { m.queue t with tasks := before ++ .file key r :: after }
      have hsame : Task.bytesIn (.note label next mayPost :: before) = Task.bytesIn before := by
        simp [Task.bytesIn, Task.bytes]
      refine ⟨?_, ?_, after, by rw [queue_putQueue], hnotes⟩
      · rw [hput]
        exact h.archive
      · rw [hput, ← hsame]
        exact h.store

theorem filed_step (h : Filed t name key r m) {task : Task} {rest : List Task}
    (htasks : (m.queue t).tasks = task :: rest) : Filed t name key r (m.runFirst t task rest) := by
  have hnotes := h.queued
  rw [htasks] at hnotes
  refine filed_of_noted ?_ (noted_runFirst m t (hnotes task (List.mem_cons_self ..)) rest)
  obtain ⟨main, worker, hput⟩ := putQueue_rest m t { m.queue t with tasks := rest }
  refine ⟨?_, fun other hother => ?_⟩
  · rw [hput]
    exact h.store
  · rw [queue_putQueue] at hother
    exact hnotes other (List.mem_cons_of_mem task hother)

theorem runTasks_cons {most : Nat} {task : Task} {rest : List Task}
    (htasks : (m.queue t).tasks = task :: rest) :
    runTasks t (most + 1) m =
      ((runTasks t most (m.runFirst t task rest)).1 + 1,
        (runTasks t most (m.runFirst t task rest)).2) := by
  simp only [runTasks, htasks, runFirst]

theorem runTasks_nil {most : Nat} (htasks : (m.queue t).tasks = []) : runTasks t most m = (0, m) := by
  cases most with
  | zero => rfl
  | succ most => simp only [runTasks, htasks]

theorem runTasks_filed {most : Nat} (h : Filed t name key r m) :
    Filed t name key r (runTasks t most m).2 := by
  induction most generalizing m with
  | zero => exact h
  | succ most ih =>
    cases htasks : (m.queue t).tasks with
    | nil =>
      rw [runTasks_nil htasks]
      exact h
    | cons task rest =>
      rw [runTasks_cons htasks]
      exact ih (filed_step h htasks)

theorem runTasks_awaits {most : Nat} {before : List Task} (h : Awaits t name key r before m)
    (htag : r.tag = key.tag) (hmost : before.length < most) :
    Filed t name key r (runTasks t most m).2 := by
  induction most generalizing before m with
  | zero => exact absurd hmost (Nat.not_lt_zero _)
  | succ most ih =>
    cases htasks : (m.queue t).tasks with
    | nil =>
      obtain ⟨after, hqueue, -⟩ := h.queued
      rw [htasks] at hqueue
      simp at hqueue
    | cons task rest =>
      have hstep := awaits_step h htag htasks
      rw [runTasks_cons htasks]
      cases before with
      | nil => exact runTasks_filed hstep
      | cons first before => exact ih hstep (Nat.lt_of_succ_lt_succ hmost)

/-- A record that is the last in its queue is what the archive has when the queue is idle. -/
theorem filed_of_drained {s : Store.Faulty} {before : List Task}
    (hidle : (m.queue t).mode = .idle) (htasks : (m.queue t).tasks = before ++ [.file key r])
    (harchive : m.liveContext.bind (·.archive) = some name) (hstore : m.store? name = some s)
    (htakes : s.Takes key r.size (Task.bytesIn before)) (htag : r.tag = key.tag) :
    ∃ s', (m.runUntilIdle t).2.store? name = some s' ∧ (Store.get s' key).1 = .ok (some r) := by
  have hawaits : Awaits t name key r before m := ⟨harchive, ⟨s, hstore, htakes⟩, [], htasks, by simp⟩
  have hmost : before.length < m.mainQueue.weight + m.workerQueue.weight := by
    have hlength := (m.queue t).length_le_weight
    rw [htasks, List.length_append, List.length_singleton] at hlength
    cases t <;> simp only [queue] at hlength <;> omega
  have hfiled := runTasks_awaits hawaits htag hmost
  simp only [runUntilIdle, hidle, if_true, drain]
  exact hfiled.store

end Embedder

end CompileCache
