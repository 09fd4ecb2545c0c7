/-
  CompileCache.Proofs.Embedder.Ledger — what recorders post, and what becomes of it.

  Recorders of one context are given modules, tasks of the context's queue are run one by one
  or until the queue is idle, the context is detached or released and the queue is shut down,
  in any order (`Occasion`). A `Ledger` keeps the books of that: what was posted, what still
  waits, and of the rest whether it was filed, skipped because nothing could be filed any more,
  or lost with the queue.

  Proved: the queue takes everything that is worth filing until it is shut down
  (`posted_occurAll`), what was filed was posted before all else (`InOrder.occurAll`), and
  without a context nothing more is filed (`filed_occurAll_of_unhosted`).
-/

import CompileCache.Embedder.Queue
import CompileCache.Proofs.Record
import CompileCache.Recorder

namespace CompileCache

structure Filing where
  key : Key
  record : Record

def Filing.task (f : Filing) : Task := .file f.key f.record

/-! ## A module is judged -/

namespace Recorder

/-- What a recorder posts for a module, if the queue takes it. -/
def filing? (r : Recorder) (module : CompiledModule) : Option Filing :=
  match r.judge module with
  | .ok record => some ⟨r.key, record⟩
  | .error _ => none

/-- A record of the module, for the recorder's key. -/
structure RecordOf (r : Recorder) (module : CompiledModule) (record : Record) : Prop where
  tag : record.tag = r.key.tag
  decoded : Record.decode record.toBytes =
    .ok ⟨r.key.tag, Digest.compute module.wire, module.serialized.bytes⟩

/-- Why a module is not worth filing, in the order in which it is found out. -/
def why? (r : Recorder) (module : CompiledModule) : Option Decline :=
  if module.wire.length < r.threshold then some .tooSmall
  else if module.serialized.size = 0 then some .unserialized
  else if UInt32.size ≤ Digest.size + module.serialized.size then some .tooLarge
  else none

theorem judge_eq (r : Recorder) (module : CompiledModule) :
    match r.why? module with
    | some why => r.judge module = .error why
    | none => ∃ record, r.judge module = .ok record ∧ r.RecordOf module record := by
  unfold why? judge wantsSerialized
  by_cases hsmall : module.wire.length < r.threshold
  · have hnot : ¬ r.threshold ≤ module.wire.length := by omega
    simp [hsmall, hnot]
  have hwants : r.threshold ≤ module.wire.length := by omega
  by_cases hempty : module.serialized.size = 0
  · simp [hsmall, hwants, hempty]
  by_cases hlarge : UInt32.size ≤ Digest.size + module.serialized.size
  · have hpack : Record.pack r.key.tag (Digest.compute module.wire) module.serialized =
        .error (.oversized module.serialized.size) := dif_neg (by omega)
    simp [hsmall, hwants, hempty, hlarge, hpack]
  · obtain ⟨record, hpack, htag, -, hdigest, hartifact⟩ :=
      Record.exists_pack r.key.tag (Digest.compute module.wire) (Nat.lt_of_not_le hlarge)
    have hdecoded := Record.decode_toBytes hdigest hartifact
    rw [htag] at hdecoded
    simp only [hsmall, hwants, hempty, hlarge, hpack, if_false, decide_true, Bool.not_true]
    exact ⟨record, rfl, htag, hdecoded⟩

/-- A module that is too small is not asked for its serialized form, any other is. -/
theorem wantsSerialized_eq (r : Recorder) (module : CompiledModule) :
    r.wantsSerialized module = decide (r.why? module ≠ some .tooSmall) := by
  rw [wantsSerialized, decide_eq_decide]
  unfold why?
  split
  · next hsmall => simpa using hsmall
  · next hsmall =>
    refine ⟨fun _ => ?_, fun _ => Nat.le_of_not_lt hsmall⟩
    split
    · nofun
    · split <;> nofun

end Recorder

/-! ## What happens to a context's queue -/

/-- Something that is done to a context, its recorders or its queue. A report while the queue
    is being run comes between two tasks. -/
inductive Occasion where
  /-- A recorder of the context is given a module. -/
  | report (r : Recorder) (module : CompiledModule)
  | runNext
  /-- The queue is run until it is idle. -/
  | drain
  | detach
  | release
  | shutDown

namespace Occasion

/-- What is posted, if the queue takes it. -/
def filing? : Occasion → Option Filing
  | report r module => r.filing? module
  | _ => none

/-- Whether there is no context to file for afterwards. -/
def unhosts : Occasion → Bool
  | detach | release => true
  | _ => false

def shutsDown : Occasion → Bool
  | shutDown => true
  | _ => false

end Occasion

/-! ## The books -/

inductive Fate where
  | filed
  /-- Its task was run when nothing could be filed any more. -/
  | skipped
  /-- The queue was shut down before. -/
  | lost
  deriving DecidableEq

structure Ledger where
  /-- Oldest first. -/
  past : List (Filing × Fate) := []
  waiting : List Filing := []
  /-- Whether a task that is run now files its record. -/
  hosted : Bool
  /-- Whether the queue takes tasks. -/
  isOpen : Bool := true

namespace Ledger

variable {l : Ledger}

def posted (l : Ledger) : List Filing := l.past.map (·.1) ++ l.waiting

def filed (l : Ledger) : List Filing := (l.past.filter (·.2 = .filed)).map (·.1)

/-- What becomes of a filing whose task is run. -/
def fate (l : Ledger) : Fate := if l.hosted then .filed else .skipped

def settle (l : Ledger) (settled waiting : List Filing) (fate : Fate) : Ledger :=
  { l with past := l.past ++ settled.map (·, fate), waiting }

def post (l : Ledger) (f : Option Filing) : Ledger :=
  { l with waiting := l.waiting ++ if l.isOpen then f.toList else [] }

@[simp] theorem post_none (l : Ledger) : l.post none = l := by simp [post]

theorem post_of_closed (h : l.isOpen = false) (f : Option Filing) : l.post f = l := by
  rw [post, if_neg (by simp [h]), List.append_nil]

def occur (l : Ledger) : Occasion → Ledger
  | .report r module => l.post (r.filing? module)
  | .runNext => l.settle (l.waiting.take 1) (l.waiting.drop 1) l.fate
  | .drain => l.settle l.waiting [] l.fate
  | .detach | .release => { l with hosted := false }
  | .shutDown => { l.settle l.waiting [] .lost with isOpen := false }

def occurAll (l : Ledger) (occasions : List Occasion) : Ledger := occasions.foldl occur l

@[simp] theorem filed_settle (l : Ledger) (settled waiting : List Filing) (fate : Fate) :
    (l.settle settled waiting fate).filed =
      l.filed ++ if fate = .filed then settled else [] := by
  by_cases hfate : fate = .filed <;> simp [filed, settle, hfate, List.filter_map, Function.comp_def]

/-- The first of those that wait are settled. -/
theorem posted_settle {settled waiting : List Filing} (h : l.waiting = settled ++ waiting)
    (fate : Fate) : (l.settle settled waiting fate).posted = l.posted := by
  simp [posted, settle, h, Function.comp_def]

/-- Filings that are run after others of the same fate. -/
theorem settle_settle (l : Ledger) (first settled waiting waiting' : List Filing) (fate : Fate) :
    (l.settle first waiting fate).settle settled waiting' fate =
      l.settle (first ++ settled) waiting' fate := by
  simp [settle]

/-- What was filed was posted before all that was not. -/
structure InOrder (l : Ledger) : Prop where
  filed : l.filed <+: l.posted
  /-- As long as tasks file, nothing was passed over. -/
  hosted : l.hosted → l.isOpen → l.filed = l.past.map (·.1)
  closed : l.isOpen = false → l.waiting = []

theorem inOrder_of_empty (hosted : Bool) : ({ hosted } : Ledger).InOrder :=
  ⟨List.nil_prefix, fun _ _ => rfl, fun _ => rfl⟩

theorem InOrder.settle (h : l.InOrder) {settled waiting : List Filing}
    (hwaiting : l.waiting = settled ++ waiting) : (l.settle settled waiting l.fate).InOrder := by
  have hnone : l.isOpen = false → settled = [] ∧ waiting = [] := fun hclosed =>
    List.append_eq_nil_iff.1 (hwaiting.symm.trans (h.closed hclosed))
  have hall : l.hosted → l.isOpen →
      (l.settle settled waiting l.fate).filed = (l.settle settled waiting l.fate).past.map (·.1) := by
    intro hhosted hopen
    rw [filed_settle, h.hosted hhosted hopen]
    simp [Ledger.settle, fate, hhosted, Function.comp_def]
  refine ⟨?_, hall, fun hclosed => (hnone hclosed).2⟩
  cases hhosted : l.hosted with
  | false =>
    rw [posted_settle hwaiting, filed_settle]
    simpa [fate, hhosted] using h.filed
  | true =>
    cases hopen : l.isOpen with
    | false =>
      rw [posted_settle hwaiting, filed_settle, (hnone hopen).1]
      simpa using h.filed
    | true =>
      rw [hall hhosted hopen]
      exact List.prefix_append ..

theorem InOrder.occur (h : l.InOrder) (o : Occasion) : (l.occur o).InOrder := by
  cases o with
  | report r module =>
    refine ⟨?_, h.hosted, fun hclosed => ?_⟩
    · exact h.filed.trans ⟨_, List.append_assoc ..⟩
    · have hclosed' : l.isOpen = false := hclosed
      simp [Ledger.occur, post, hclosed', h.closed hclosed']
  | runNext => exact h.settle (List.take_append_drop 1 l.waiting).symm
  | drain => exact h.settle (List.append_nil _).symm
  | detach => exact ⟨h.filed, nofun, h.closed⟩
  | release => exact ⟨h.filed, nofun, h.closed⟩
  | shutDown =>
    refine ⟨?_, nofun, fun _ => rfl⟩
    have hfiled : (l.settle l.waiting [] .lost).filed = l.filed := by simp
    have hposted := posted_settle (List.append_nil l.waiting).symm .lost
    exact hfiled.symm ▸ hposted.symm ▸ h.filed

theorem InOrder.occurAll (h : l.InOrder) (occasions : List Occasion) :
    (l.occurAll occasions).InOrder := by
  induction occasions generalizing l with
  | nil => exact h
  | cons o occasions ih => exact ih (h.occur o)

theorem hosted_occur (l : Ledger) (o : Occasion) :
    (l.occur o).hosted = (l.hosted && !o.unhosts) := by
  cases o <;> simp [Ledger.occur, post, Ledger.settle, Occasion.unhosts]

theorem hosted_occurAll (l : Ledger) (occasions : List Occasion) :
    (l.occurAll occasions).hosted = (l.hosted && !occasions.any Occasion.unhosts) := by
  induction occasions generalizing l with
  | nil => simp [Ledger.occurAll]
  | cons o occasions ih =>
    refine (ih (l.occur o)).trans ?_
    simp [hosted_occur, Bool.and_assoc]

theorem isOpen_occur (l : Ledger) (o : Occasion) :
    (l.occur o).isOpen = (l.isOpen && !o.shutsDown) := by
  cases o <;> simp [Ledger.occur, post, Ledger.settle, Occasion.shutsDown]

theorem isOpen_occurAll (l : Ledger) (occasions : List Occasion) :
    (l.occurAll occasions).isOpen = (l.isOpen && !occasions.any Occasion.shutsDown) := by
  induction occasions generalizing l with
  | nil => simp [Ledger.occurAll]
  | cons o occasions ih =>
    refine (ih (l.occur o)).trans ?_
    simp [isOpen_occur, Bool.and_assoc]

theorem posted_occur (l : Ledger) (o : Occasion) :
    (l.occur o).posted = l.posted ++ if l.isOpen then o.filing?.toList else [] := by
  cases o with
  | report r module => exact (List.append_assoc ..).symm
  | runNext =>
    rw [Ledger.occur, posted_settle (List.take_append_drop 1 l.waiting).symm]
    simp [Occasion.filing?]
  | drain =>
    rw [Ledger.occur, posted_settle (List.append_nil l.waiting).symm]
    simp [Occasion.filing?]
  | detach | release => simp [Occasion.filing?, Ledger.occur, posted]
  | shutDown =>
    refine (posted_settle (List.append_nil l.waiting).symm .lost).trans ?_
    simp [Occasion.filing?]

/-- Until the queue is shut down it takes everything that is worth filing. -/
theorem posted_occurAll (l : Ledger) (occasions : List Occasion) :
    (l.occurAll occasions).posted = l.posted ++
      if l.isOpen then (occasions.takeWhile (!·.shutsDown)).filterMap Occasion.filing? else [] := by
  induction occasions generalizing l with
  | nil => simp [Ledger.occurAll]
  | cons o occasions ih =>
    refine (ih (l.occur o)).trans ?_
    rw [posted_occur, isOpen_occur, List.append_assoc]
    congr 1
    cases hopen : l.isOpen with
    | false => rfl
    | true =>
      cases hdown : o.shutsDown with
      | true =>
        have hnone : o.filing? = none := by cases o <;> first | rfl | cases hdown
        simp [hdown, hnone]
      | false => cases hfiling : o.filing? <;> simp [hdown, hfiling]

/-- Without a context nothing more is filed. -/
theorem filed_occur_of_unhosted (h : l.hosted = false) (o : Occasion) :
    (l.occur o).filed = l.filed := by
  have hfate : l.fate = .skipped := by simp [fate, h]
  cases o with
  | report | detach | release => rfl
  | runNext | drain => simp [Ledger.occur, hfate]
  | shutDown => exact (l.filed_settle l.waiting [] .lost).trans (List.append_nil _)

theorem filed_occurAll_of_unhosted (h : l.hosted = false) (occasions : List Occasion) :
    (l.occurAll occasions).filed = l.filed := by
  induction occasions generalizing l with
  | nil => rfl
  | cons o occasions ih =>
    exact (ih (by rw [hosted_occur, h, Bool.false_and])).trans (filed_occur_of_unhosted h o)

end Ledger

namespace Occasion

/-- What was posted was made by a recorder, of the module that it was given. -/
theorem recordOf_of_filing? {f : Filing} {occasions : List Occasion}
    (hf : f ∈ occasions.filterMap Occasion.filing?) :
    ∃ r module, .report r module ∈ occasions ∧ f.key = r.key ∧ r.RecordOf module f.record := by
  obtain ⟨o, ho, hfiling⟩ := List.mem_filterMap.1 hf
  cases o with
  | report r module =>
    have hjudge := r.judge_eq module
    cases hwhy : r.why? module with
    | some why =>
      rw [hwhy] at hjudge
      simp [Occasion.filing?, Recorder.filing?, hjudge] at hfiling
    | none =>
      rw [hwhy] at hjudge
      obtain ⟨record, hmade, hof⟩ := hjudge
      obtain rfl : ⟨r.key, record⟩ = f := by
        simpa [Occasion.filing?, Recorder.filing?, hmade] using hfiling
      exact ⟨r, module, ho, rfl, hof⟩
  | runNext | drain | detach | release | shutDown => cases hfiling

end Occasion

end CompileCache
