/-
  CompileCache.Proofs.Embedder.Archiving — what recorders post is filed, in order and once.

  A ledger says what has become of everything that recorders of a context have posted; what
  stores were asked, and what they hold, can be read off it. Every occasion keeps the two in
  step (`Books`, `occur_books`).

  Proved: stores are asked to file exactly what was run while there was an archive, in the order
  in which it was posted; a recorder touches no store; and once the context is detached or
  released nothing is filed any more (`archived_in_order`).
-/

import CompileCache.Proofs.Embedder.Filing
import CompileCache.Proofs.Embedder.Ledger
import CompileCache.Proofs.Embedder.Telling

namespace CompileCache

def Event.isStoreCall : Event → Bool
  | storeCall .. => true
  | _ => false

namespace Embedder

/-- The store that a task would file in now. -/
def archive? (m : Embedder) : Option StoreName :=
  (m.liveContext.bind (·.archive)).filter fun name => (m.store? name).isSome

/-- What stores were asked, oldest first. -/
def storeCalls (m : Embedder) : List Event := (m.trace.filter Event.isStoreCall).reverse

def occur (t : Thread) (m : Embedder) : Occasion → Embedder
  | .report r module => (m.record { r with thread := t } module).2
  | .runNext =>
    match (m.queue t).tasks with
    | [] => m
    | task :: rest => m.runFirst t task rest
  | .drain => (m.runUntilIdle t).2
  | .detach => m.detachContext
  | .release => m.releaseContext
  | .shutDown => m.shutDown t

def occurAll (t : Thread) (m : Embedder) (occasions : List Occasion) : Embedder :=
  occasions.foldl (occur t) m

variable {m m' m₀ : Embedder} {t : Thread} {name : StoreName} {l l' : Ledger}

/-! ## What one operation does -/

@[simp] theorem queue_log (m : Embedder) (e : Event) (t : Thread) :
    (m.log e).queue t = m.queue t := by
  cases t <;> rfl

theorem storeCalls_log (m : Embedder) (e : Event) :
    (m.log e).storeCalls = m.storeCalls ++ [e].filter Event.isStoreCall := by
  cases he : e.isStoreCall <;> simp [storeCalls, log, he]

@[simp] theorem storeCalls_putQueue (m : Embedder) (t : Thread) (q : Queue) :
    (m.putQueue t q).storeCalls = m.storeCalls := by
  cases t <;> rfl

theorem record_eq (m : Embedder) (r : Recorder) (module : CompiledModule) :
    match r.why? module with
    | some why => r.filing? module = none ∧
      m.record r module = (.declined why, if why = .tooSmall then m else m.log .serialize)
    | none => ∃ record, r.filing? module = some ⟨r.key, record⟩ ∧ r.RecordOf module record ∧
      m.record r module =
        (if (m.queue r.thread).mode = .gone then (.closed, m.log .serialize)
        else (.posted, (m.log .serialize).putQueue r.thread
          { m.queue r.thread with
            tasks := (m.queue r.thread).tasks ++ [.file r.key record] })) := by
  have hwants := r.wantsSerialized_eq module
  have hjudge := r.judge_eq module
  cases hwhy : r.why? module with
  | some why =>
    rw [hwhy] at hwants hjudge
    refine ⟨by rw [Recorder.filing?, hjudge], ?_⟩
    cases why <;> simp [record, hwants, hjudge]
  | none =>
    rw [hwhy] at hwants hjudge
    obtain ⟨made, hmade, hof⟩ := hjudge
    refine ⟨made, by rw [Recorder.filing?, hmade], hof, ?_⟩
    by_cases hgone : (m.queue r.thread).mode = .gone <;>
      simp [Embedder.record, post, hwants, hmade, hgone]

theorem archive?_eq_some :
    m.archive? = some name ↔
      m.liveContext.bind (·.archive) = some name ∧ ∃ s, m.store? name = some s := by
  simp [archive?, Option.filter_eq_some_iff, Option.isSome_iff_exists]

theorem fileRecord_of_archive {s : Store.Faulty} (h : m.archive? = some name)
    (hs : m.store? name = some s) (key : Key) (r : Record) :
    m.fileRecord key r =
      (m.log (.storeCall .put name key)).putStore name (Store.put s key r m.clock).2 := by
  simp only [fileRecord, (archive?_eq_some.1 h).1, hs]

theorem fileRecord_of_none (h : m.archive? = none) (key : Key) (r : Record) :
    m.fileRecord key r = m := by
  unfold fileRecord
  split
  · rfl
  · next name hname =>
    split
    · rfl
    · next s hs =>
      rw [archive?_eq_some.2 ⟨hname, s, hs⟩] at h
      cases h

theorem archive?_putStore {s : Store.Faulty} (hs : m.store? name = some s) (s' : Store.Faulty) :
    (m.putStore name s').archive? = m.archive? := by
  have hsome : ∀ other, ((m.putStore name s').store? other).isSome = (m.store? other).isSome := by
    intro other
    by_cases hother : other = name
    · rw [hother, store?_putStore hs, hs]
      rfl
    · rw [store?_putStore_ne hother]
  simp only [archive?, hsome]
  rfl

/-! ## The books are kept -/

/-- What stores were asked, and what they hold, is what the ledger says. -/
structure Books (t : Thread) (m₀ : Embedder) (l : Ledger) (m : Embedder) : Prop where
  queue : m.queue t = ⟨l.waiting.map Filing.task, if l.isOpen then .idle else .gone⟩
  archive : m.archive? = if l.hosted then m₀.archive? else none
  hosted : l.hosted → m₀.archive?.isSome
  calls : m.storeCalls =
    m₀.storeCalls ++ l.filed.filterMap fun f => m₀.archive?.map (.storeCall .put · f.key)
  store : ∀ name, m.store? name = (m₀.store? name).map fun s =>
    if m₀.archive? = some name then
      l.filed.foldl (fun s f => (Store.put s f.key f.record m₀.clock).2) s
    else s
  clock : m.clock = m₀.clock

/-- Only the queues have changed, and the trace. -/
theorem Books.requeued (h : Books t m₀ l m)
    (hrest : ∃ mainQueue workerQueue trace, m' = { m with mainQueue, workerQueue, trace })
    (hcalls : m'.storeCalls = m.storeCalls) (hhosted : l'.hosted = l.hosted)
    (hfiled : l'.filed = l.filed)
    (hqueue : m'.queue t = ⟨l'.waiting.map Filing.task, if l'.isOpen then .idle else .gone⟩) :
    Books t m₀ l' m' := by
  obtain ⟨main, worker, trace, rfl⟩ := hrest
  refine ⟨hqueue, ?_, ?_, ?_, ?_, h.clock⟩
  · rw [hhosted]
    exact h.archive
  · rw [hhosted]
    exact h.hosted
  · rw [hcalls, hfiled]
    exact h.calls
  · rw [hfiled]
    exact h.store

/-- The context is gone or can no longer run script. -/
theorem Books.unhosted (h : Books t m₀ l m) {context : Option Context}
    (hgone : context.filter (·.live) = none) :
    Books t m₀ { l with hosted := false } { m with context } := by
  refine ⟨?_, ?_, nofun, h.calls, h.store, h.clock⟩
  · rw [← h.queue]
    cases t <;> rfl
  · simp [archive?, liveContext, hgone]

/-- A task is run. -/
theorem runFirst_books (h : Books t m₀ l m) (f : Filing) (rest : List Filing) :
    Books t m₀ (l.settle [f] rest l.fate) (m.runFirst t f.task (rest.map Filing.task)) := by
  let taken := m.putQueue t { m.queue t with tasks := rest.map Filing.task }
  have htaken : Books t m₀ { l with waiting := rest } taken := by
    obtain ⟨main, worker, hput⟩ := putQueue_rest m t
      { m.queue t with tasks := rest.map Filing.task }
    refine h.requeued ⟨main, worker, m.trace, hput⟩ (storeCalls_putQueue ..) rfl rfl ?_
    rw [queue_putQueue, h.queue]
  show Books t m₀ _ (taken.fileRecord f.key f.record)
  cases hhosted : l.hosted with
  | false =>
    have hnone : taken.archive? = none := by simpa [hhosted] using htaken.archive
    have hfiled : (l.settle [f] rest l.fate).filed = l.filed := by simp [Ledger.fate, hhosted]
    rw [fileRecord_of_none hnone]
    exact htaken.requeued ⟨_, _, _, rfl⟩ rfl rfl hfiled htaken.queue
  | true =>
    obtain ⟨name, hname⟩ := Option.isSome_iff_exists.1 (h.hosted hhosted)
    have harchive : taken.archive? = some name := by simpa [hhosted, hname] using htaken.archive
    have hfiled : (l.settle [f] rest l.fate).filed = l.filed ++ [f] := by
      simp [Ledger.fate, hhosted]
    obtain ⟨-, s, hs⟩ := archive?_eq_some.1 harchive
    obtain ⟨s₀, hs₀, hs_eq⟩ := Option.map_eq_some_iff.1 ((htaken.store name).symm.trans hs)
    rw [if_pos hname] at hs_eq
    rw [fileRecord_of_archive harchive hs]
    let noted := taken.log (.storeCall .put name f.key)
    have hnoted : noted.store? name = some s := hs
    refine ⟨?_, ?_, fun _ => h.hosted hhosted, ?_, fun other => ?_, htaken.clock⟩
    · refine Eq.trans ?_ htaken.queue
      cases t <;> rfl
    · rw [archive?_putStore hnoted]
      exact htaken.archive
    · refine (storeCalls_log taken (.storeCall .put name f.key)).trans ?_
      rw [htaken.calls, hfiled, hname, List.filterMap_append, List.append_assoc]
      rfl
    · by_cases hother : other = name
      · rw [hother, store?_putStore hnoted, hs₀, Option.map_some, if_pos hname, hfiled,
          List.foldl_append, ← hs_eq, htaken.clock]
        rfl
      · rw [store?_putStore_ne hother]
        refine (htaken.store other).trans ?_
        have hne : ¬ m₀.archive? = some other := by
          rw [hname]
          exact fun heq => hother (Option.some.inj heq).symm
        simp only [if_neg hne]

theorem Books.tasks (h : Books t m₀ l m) : (m.queue t).tasks = l.waiting.map Filing.task := by
  rw [h.queue]

theorem Books.nothing_waits (h : Books t m₀ l m) (hwaiting : l.waiting = []) :
    Books t m₀ (l.settle [] [] l.fate) m := by
  refine h.requeued ⟨_, _, _, rfl⟩ rfl rfl ?_ ?_
  · simp
  · rw [h.queue, hwaiting]
    rfl

/-- All tasks that wait are run, and counted. -/
theorem runTasks_books {most : Nat} (h : Books t m₀ l m) (hmost : l.waiting.length ≤ most) :
    (runTasks t most m).1 = l.waiting.length ∧
      Books t m₀ (l.settle l.waiting [] l.fate) (runTasks t most m).2 := by
  induction most generalizing l m with
  | zero =>
    have hwaiting := List.eq_nil_of_length_eq_zero (Nat.le_zero.1 hmost)
    rw [hwaiting]
    exact ⟨rfl, h.nothing_waits hwaiting⟩
  | succ most ih =>
    cases hwaiting : l.waiting with
    | nil =>
      rw [runTasks_nil (by rw [h.tasks, hwaiting]; rfl)]
      exact ⟨rfl, h.nothing_waits hwaiting⟩
    | cons f rest =>
      have htasks : (m.queue t).tasks = f.task :: rest.map Filing.task := by
        rw [h.tasks, hwaiting, List.map_cons]
      have hrest : rest.length ≤ most := by
        rw [hwaiting, List.length_cons] at hmost
        omega
      obtain ⟨hcount, hbooks⟩ := ih (runFirst_books h f rest) hrest
      rw [runTasks_cons htasks]
      refine ⟨by simp only [hcount]; rfl, ?_⟩
      have hsettled := l.settle_settle [f] rest rest [] l.fate
      exact hsettled ▸ hbooks

/-- A drain runs all that waits; a queue that was shut down is not run. -/
theorem runUntilIdle_books (h : Books t m₀ l m) (hclosed : l.isOpen = false → l.waiting = []) :
    (m.runUntilIdle t).1 = (if l.isOpen then some l.waiting.length else none) ∧
      Books t m₀ (l.settle l.waiting [] l.fate) (m.runUntilIdle t).2 := by
  cases hopen : l.isOpen with
  | false =>
    have hgone : ¬ (m.queue t).mode = .idle := by simp [h.queue, hopen]
    rw [runUntilIdle, if_neg hgone, hclosed hopen]
    exact ⟨rfl, h.nothing_waits (hclosed hopen)⟩
  | true =>
    have hidle : (m.queue t).mode = .idle := by simp [h.queue, hopen]
    have hmost : l.waiting.length ≤ m.mainQueue.weight + m.workerQueue.weight := by
      have hlength := (m.queue t).length_le_weight
      rw [h.tasks, List.length_map] at hlength
      cases t <;> simp only [queue] at hlength <;> omega
    obtain ⟨hcount, hbooks⟩ := runTasks_books h hmost
    rw [runUntilIdle, if_pos hidle]
    exact ⟨by simp [drain, hcount], hbooks⟩

/-- A recorder touches no store, and what it posts waits behind all else. -/
theorem record_books (h : Books t m₀ l m) (r : Recorder) (module : CompiledModule) :
    Books t m₀ (l.occur (.report r module)) (m.record { r with thread := t } module).2 := by
  have hlogged : Books t m₀ l (m.log .serialize) := by
    refine h.requeued ⟨_, _, _, rfl⟩ ?_ rfl rfl ?_
    · rw [storeCalls_log]
      exact List.append_nil _
    · rw [queue_log, h.queue]
  have hrecord := record_eq m { r with thread := t } module
  rw [show ({ r with thread := t } : Recorder).why? module = r.why? module from rfl,
    show ({ r with thread := t } : Recorder).filing? module = r.filing? module from rfl] at hrecord
  cases hwhy : r.why? module with
  | some why =>
    rw [hwhy] at hrecord
    obtain ⟨hnone, heq⟩ := hrecord
    rw [Ledger.occur, hnone, l.post_none, heq]
    by_cases hsmall : why = .tooSmall
    · simpa only [if_pos hsmall] using h
    · simpa only [if_neg hsmall] using hlogged
  | none =>
    rw [hwhy] at hrecord
    obtain ⟨made, hmade, -, heq⟩ := hrecord
    rw [Ledger.occur, hmade, heq, h.queue]
    cases hopen : l.isOpen with
    | false => simpa [l.post_of_closed hopen] using hlogged
    | true =>
      obtain ⟨main, worker, hput⟩ := putQueue_rest (m.log .serialize) t
        ⟨l.waiting.map Filing.task ++ [.file r.key made], .idle⟩
      refine hlogged.requeued ⟨main, worker, _, hput⟩ (storeCalls_putQueue ..) rfl rfl ?_
      simp [Ledger.post, hopen, Filing.task]

theorem occur_books (h : Books t m₀ l m) (hl : l.InOrder) (o : Occasion) :
    Books t m₀ (l.occur o) (m.occur t o) := by
  cases o with
  | report r module => exact record_books h r module
  | runNext =>
    unfold occur Ledger.occur
    cases hwaiting : l.waiting with
    | nil =>
      simp only [h.tasks, hwaiting, List.map_nil]
      exact h.nothing_waits hwaiting
    | cons f rest =>
      simp only [h.tasks, hwaiting, List.map_cons]
      exact runFirst_books h f rest
  | drain => exact (runUntilIdle_books h hl.closed).2
  | detach => exact h.unhosted (by cases m.context <;> simp [Context.detach])
  | release => exact h.unhosted rfl
  | shutDown =>
    obtain ⟨main, worker, hput⟩ := putQueue_rest m t { mode := .gone }
    refine h.requeued ⟨main, worker, m.trace, hput⟩ (storeCalls_putQueue ..) rfl ?_ ?_
    · exact (l.filed_settle l.waiting [] .lost).trans (List.append_nil _)
    · exact queue_putQueue m t { mode := .gone }

theorem occurAll_books (h : Books t m₀ l m) (hl : l.InOrder) (occasions : List Occasion) :
    Books t m₀ (l.occurAll occasions) (m.occurAll t occasions) := by
  induction occasions generalizing l m with
  | nil => exact h
  | cons o occasions ih => exact ih (occur_books h hl o) (hl.occur o)

/-! ## A whole life -/

/-- The books before anything is posted. -/
theorem books_of_empty (hqueue : m.queue t = {}) :
    Books t m { hosted := m.archive?.isSome } m := by
  refine ⟨hqueue, ?_, id, ?_, fun name => ?_, rfl⟩
  · cases m.archive? <;> rfl
  · simp [Ledger.filed]
  · simp [Ledger.filed]

/-- Once nothing is filed any more, stores are left alone. -/
theorem Books.untouched (h : Books t m₀ l m) (h' : Books t m₀ l' m') (hfiled : l'.filed = l.filed) :
    m'.storeCalls = m.storeCalls ∧ ∀ name, m'.store? name = m.store? name := by
  refine ⟨?_, fun name => ?_⟩
  · rw [h'.calls, h.calls, hfiled]
  · rw [h'.store, h.store, hfiled]

/-- What a recorder answers, and all that it does. -/
theorem record_answer (h : Books t m₀ l m) {r : Recorder} (hthread : r.thread = t)
    (module : CompiledModule) :
    (m.record r module).2.storeCalls = m.storeCalls ∧ (m.record r module).2.stores = m.stores ∧
    match r.why? module with
    | some why => m.record r module =
      (.declined why, if why = .tooSmall then m else m.log .serialize)
    | none => ∃ record, r.RecordOf module record ∧ m.record r module =
      if l.isOpen then
        (.posted, (m.log .serialize).putQueue t
          { m.queue t with tasks := (m.queue t).tasks ++ [.file r.key record] })
      else (.closed, m.log .serialize) := by
  have hcalls : (m.log .serialize).storeCalls = m.storeCalls :=
    (storeCalls_log m .serialize).trans (List.append_nil _)
  have hrecord := record_eq m r module
  rw [hthread, h.queue] at hrecord
  cases hwhy : r.why? module with
  | some why =>
    rw [hwhy] at hrecord
    obtain ⟨-, heq⟩ := hrecord
    refine ⟨?_, ?_, heq⟩ <;> rw [heq] <;> by_cases hsmall : why = .tooSmall
    all_goals simp only [hsmall, if_true, if_false, hcalls]
    rfl
  | none =>
    rw [hwhy] at hrecord
    obtain ⟨record, -, hof, heq⟩ := hrecord
    cases hopen : l.isOpen with
    | false =>
      simp only [hopen] at heq
      refine ⟨?_, ?_, record, hof, heq⟩ <;> rw [heq]
      · exact hcalls
      · rfl
    | true =>
      simp only [hopen] at heq
      refine ⟨?_, ?_, record, hof, ?_⟩
      · rw [heq]
        exact (storeCalls_putQueue ..).trans hcalls
      · rw [heq]
        cases t <;> rfl
      · rw [heq, h.queue, hopen]
        rfl

/-- Recorders of one context are given modules, while its queue is run or shut down and the
    context detached or released, in any order. -/
theorem archived_in_order (hqueue : m₀.queue t = {}) (occasions : List Occasion) :
    let m := m₀.occurAll t occasions
    let l := ({ hosted := m₀.archive?.isSome } : Ledger).occurAll occasions
    -- The queue takes all that is worth filing until it is shut down, and holds what waits. A
    -- task files its record, and is not skipped, if there is an archive at that moment.
    l.posted = (occasions.takeWhile (!·.shutsDown)).filterMap Occasion.filing? ∧
    (∀ f ∈ l.posted, ∃ r module,
      .report r module ∈ occasions ∧ f.key = r.key ∧ r.RecordOf module f.record) ∧
    m.queue t = ⟨l.waiting.map Filing.task, if l.isOpen then .idle else .gone⟩ ∧
    l.isOpen = !occasions.any Occasion.shutsDown ∧
    l.hosted = m.archive?.isSome ∧
    m.archive? = (if occasions.any Occasion.unhosts then none else m₀.archive?) ∧
    -- What was filed was posted first; stores were asked for nothing else, and in that order.
    l.filed <+: l.posted ∧
    m.storeCalls =
      m₀.storeCalls ++ l.filed.filterMap (fun f => m₀.archive?.map (.storeCall .put · f.key)) ∧
    (∀ name, m.store? name = (m₀.store? name).map fun s =>
      if m₀.archive? = some name then
        l.filed.foldl (fun s f => (Store.put s f.key f.record m₀.clock).2) s
      else s) ∧
    -- A drain runs and counts all that waits, what it skips included.
    (m.runUntilIdle t).1 = (if l.isOpen then some l.waiting.length else none) ∧
    ((m.runUntilIdle t).2.queue t).tasks = [] ∧
    -- After the context was detached or released, stores are left alone.
    (∀ more, occasions.any Occasion.unhosts →
      (m.occurAll t more).storeCalls = m.storeCalls ∧
      ∀ name, (m.occurAll t more).store? name = m.store? name) ∧
    -- A recorder posts one task, if anything; it touches no store, and does not ask for the
    -- serialized form of a module that is too small.
    ∀ r module, r.thread = t →
      (m.record r module).2.storeCalls = m.storeCalls ∧
      (m.record r module).2.stores = m.stores ∧
      match r.why? module with
      | some why => m.record r module =
        (.declined why, if why = .tooSmall then m else m.log .serialize)
      | none => ∃ record, r.RecordOf module record ∧ m.record r module =
        if l.isOpen then
          (.posted, (m.log .serialize).putQueue t
            { m.queue t with tasks := (m.queue t).tasks ++ [.file r.key record] })
        else (.closed, m.log .serialize) := by
  intro m l
  have hempty := Ledger.inOrder_of_empty m₀.archive?.isSome
  have hl : l.InOrder := hempty.occurAll occasions
  have hm : Books t m₀ l m := occurAll_books (books_of_empty hqueue) hempty occasions
  have hposted : l.posted = (occasions.takeWhile (!·.shutsDown)).filterMap Occasion.filing? :=
    Ledger.posted_occurAll ..
  have hisOpen : l.isOpen = !occasions.any Occasion.shutsDown := Ledger.isOpen_occurAll ..
  have hhosted : l.hosted = (m₀.archive?.isSome && !occasions.any Occasion.unhosts) :=
    Ledger.hosted_occurAll ..
  have harchive : m.archive? = if occasions.any Occasion.unhosts then none else m₀.archive? := by
    rw [hm.archive, hhosted]
    cases occasions.any Occasion.unhosts <;> cases m₀.archive? <;> rfl
  have hdrained := runUntilIdle_books hm hl.closed
  refine ⟨hposted, fun f hf => ?_, hm.queue, hisOpen, ?_, harchive, hl.filed, hm.calls, hm.store,
    hdrained.1, hdrained.2.tasks, fun more hunhosts => ?_, fun r module hr =>
    record_answer hm hr module⟩
  · rw [hposted] at hf
    obtain ⟨r, module, hmem, hkey, hof⟩ := Occasion.recordOf_of_filing? hf
    exact ⟨r, module, (List.takeWhile_sublist _).subset hmem, hkey, hof⟩
  · rw [harchive, hhosted]
    cases occasions.any Occasion.unhosts <;> simp
  · have hlate : l.hosted = false := by rw [hhosted, hunhosts, Bool.not_true, Bool.and_false]
    exact hm.untouched (occurAll_books hm hl more) (Ledger.filed_occurAll_of_unhosted hlate more)

/-- Two modules wait and one is too small; the context is detached after the first was filed. -/
theorem archived_in_order_until_detached :
    let store : Store.Faulty :=
      { mounted := ⟨.memory ⟨1024, by decide, .oldestFirst, []⟩, Disk.empty⟩ }
    let m₀ : Embedder :=
      { stores := [("s", store)], context := some ⟨.window, "https://a.test", some "s", true⟩,
        attached := true, compilers := [], clock := 0 }
    let r : Recorder := { url := "https://a.test/m", key := ⟨7, [1]⟩, threshold := 2, thread := .main }
    let other : Recorder := { r with key := ⟨7, [2]⟩ }
    let occasions : List Occasion :=
      [.report r ⟨[0, 97], .leaf [5]⟩, .report r ⟨[0], .leaf [5]⟩,
        .report other ⟨[0, 98, 1], .leaf [6]⟩, .runNext, .detach]
    let m := m₀.occurAll .main occasions
    m₀.queue .main = {} ∧ m.storeCalls = [.storeCall .put "s" r.key] ∧
      (m.runUntilIdle .main).1 = some 1 ∧
      (m.occurAll .main [.drain, .report r ⟨[0, 97], .leaf [5]⟩, .drain]).storeCalls =
        m.storeCalls := by
  intro store m₀ r other occasions m
  have hqueue : m₀.queue .main = {} := rfl
  obtain ⟨-, -, -, -, -, -, -, hcalls, -, hcount, -, hlate, -⟩ :=
    archived_in_order hqueue occasions
  refine ⟨hqueue, hcalls.trans ?_, hcount.trans ?_, (hlate _ ?_).1⟩
  · decide +kernel
  · decide +kernel
  · rfl

end Embedder

end CompileCache
