/-
  CompileCache.Proofs.Session.Chunking — it does not matter how the bytes of a body are cut.

  Two chunks, passed on one after the other, leave a session and its store as one chunk of the
  same bytes does: the trial begins with the first byte, wherever its chunk ends, and a running
  digest does not tell how what was added to it was cut (`unfed_pass_pass`). So chunks, however
  many, leave what all their bytes leave at once (`unfed_passAll`).

  Proved: two sessions whose bodies have the same bytes, cut in any two ways, feed the same
  bytes, one by one their chunks that are not empty, and agree in all else
  (`chunking_unnoticed`).
-/

import CompileCache.Proofs.Session.Reception
import CompileCache.Store.Faulty
import Mathlib.Data.List.Induction

namespace CompileCache

variable {σ κ τ : Type} [Store τ]

namespace Session

/-- What passing on leaves: session, store and the calls about a record, but not what was fed. -/
def unfed (passed : Session σ κ × Option τ × List Call) : Session σ κ × Option τ × List Call :=
  (passed.1, passed.2.1, passed.2.2.filter Call.aboutRecord)

theorem pass_nil (env : Surroundings) (s : Session σ κ) (store : Option τ) :
    s.pass env store [] = (s, store, []) := rfl

/-- What a chunk adds to the digest of a session whose trial is at `phase`. -/
def hashed (phase : Phase) (digest : RunningDigest) (chunk : Bytes) : RunningDigest :=
  if phase = .validating then digest.add chunk else digest

theorem pass_of_ne_nil (env : Surroundings) (s : Session σ κ) (store : Option τ) {chunk : Bytes}
    (hchunk : chunk ≠ []) :
    let step := s.trial.start env.accepts store
    s.pass env store chunk =
      ({ s with trial := step.trial, digest := hashed step.trial.phase s.digest chunk,
                received := s.received + chunk.length },
        step.store, step.calls ++ [.feed chunk]) := by
  have hnot : ¬ chunk.isEmpty := by simpa using hchunk
  rw [pass, if_neg hnot]
  rfl

theorem hashed_hashed (phase : Phase) (a b : Bytes) :
    hashed phase (hashed phase RunningDigest.empty a) b =
      hashed phase RunningDigest.empty (a ++ b) := by
  unfold hashed
  split
  · exact RunningDigest.add_add a b
  · rfl

/-- The calls about a record are those that begin the trial. -/
theorem unfed_pass_pass (env : Surroundings) {s : Session σ κ} (hs : s.digest = RunningDigest.empty)
    (store : Option τ) (a b : Bytes) :
    let once := s.pass env store a
    let twice := once.1.pass env once.2.1 b
    unfed (twice.1, twice.2.1, once.2.2 ++ twice.2.2) = unfed (s.pass env store (a ++ b)) := by
  by_cases ha : a = []
  · rw [ha]
    rfl
  by_cases hb : b = []
  · simp [hb, pass_nil]
  intro once twice
  have hbegun := (Trial.start_begun env.accepts s.trial store).phase_ne
  have hagain : ∀ store' : Option τ,
      (s.trial.start env.accepts store).trial.start env.accepts store' =
        ⟨(s.trial.start env.accepts store).trial, store', []⟩ := fun _ => if_pos hbegun
  have hboth : a ++ b ≠ [] := by simp [ha]
  simp only [twice, once, pass_of_ne_nil _ _ _ ha, pass_of_ne_nil _ _ _ hb,
    pass_of_ne_nil _ _ _ hboth, hagain, hs, hashed_hashed]
  simp [unfed, Call.aboutRecord, Nat.add_assoc]

/-- Chunks leave what their bytes leave at once. -/
theorem unfed_passAll (env : Surroundings) {s : Session σ κ} (hs : s.digest = RunningDigest.empty)
    (store : Option τ) (chunks : List Bytes) :
    unfed (s.passAll env store chunks) = unfed (s.pass env store chunks.flatten) := by
  induction chunks using List.reverseRecOn with
  | nil => rfl
  | append_singleton chunks chunk ih =>
    have hpair := unfed_pass_pass env hs store chunks.flatten chunk
    rw [List.flatten_append, List.flatten_singleton, ← hpair]
    simp only [unfed, Prod.mk.injEq] at ih
    obtain ⟨hsession, hstore, hcalls⟩ := ih
    simp only [passAll_append, passAll, unfed, hsession, hstore, List.append_nil,
      List.filter_append, hcalls]

/-- A delivery that ends leaves what its bytes leave at once. -/
theorem receive_whole (env : Surroundings) {s : Session σ κ} (hs : s.digest = RunningDigest.empty)
    (store : Option τ) {d : Body.Delivery σ} (hend : d.pause = .finished) :
    let whole := s.pass env store d.chunks.flatten
    let last := whole.1.succeed whole.2.1
    let t := s.receive env store d
    t.session = last.session ∧ t.store = last.store ∧
      t.calls.filter Call.aboutRecord = whole.2.2.filter Call.aboutRecord ++ last.calls := by
  intro whole last t
  have hparts := unfed_passAll env hs store d.chunks
  simp only [unfed, Prod.mk.injEq] at hparts
  obtain ⟨hsession, hstore, hcalls⟩ := hparts
  have hverdict : last.calls.filter Call.aboutRecord = last.calls :=
    List.filter_eq_self.2 (Trial.verdict_judged ..).aboutRecord
  have ht : t = last.after (s.passAll env store d.chunks).2.2 := by
    simp only [t, receive, hend, hsession, hstore]
    rfl
  rw [ht]
  refine ⟨rfl, rfl, ?_⟩
  rw [Turn.after, List.filter_append, hcalls, hverdict]

theorem received_pass (env : Surroundings) (s : Session σ κ) (store : Option τ) (chunk : Bytes) :
    (s.pass env store chunk).1.received = s.received + chunk.length := by
  by_cases hchunk : chunk = []
  · rw [hchunk]
    rfl
  · rw [pass_of_ne_nil env s store hchunk]

end Session

namespace Play

/-- What a session makes of chunks that are all at hand. -/
theorem start_whole (url : String) (key : Key) (token : Token) (store : Option τ)
    (env : Surroundings) (chunks : List Bytes) (sink : κ) :
    let p := (opening url key token store).move
      ⟨.start (⟨chunks, false⟩ : Body.Fixed) sink, env, id, id⟩
    let whole := (Session.begun url key token sink : Session Body.Fixed κ).pass env store chunks.flatten
    let last := whole.1.succeed whole.2.1
    p.session = last.session ∧ p.store = last.store ∧
      p.recordCalls = whole.2.2.filter Call.aboutRecord ++ last.calls ∧
      p.feeds = chunks.filter (!·.isEmpty) := by
  intro p whole last
  obtain ⟨hchunks, hend⟩ := Body.delivery_fixed chunks
  have hheard := heard_start url key token store env sink (⟨chunks, false⟩ : Body.Fixed)
  have hwhole := Session.receive_whole env (s := Session.begun url key token sink) rfl store hend
  rw [hchunks] at hwhole
  obtain ⟨hsession, hstore, hcalls⟩ := hwhole
  refine ⟨(congrArg Play.session hheard).trans hsession, (congrArg Play.store hheard).trans hstore,
    ?_, ?_⟩
  · rw [← recordCalls_heard, hheard, delivered, recordCalls_after, hcalls]
    rfl
  · rw [← feeds_heard, hheard, delivered, feeds_after, Session.feeds_receive, hchunks]
    rfl

/-- Two sessions whose bodies have the same bytes, in chunks of any sizes. -/
theorem chunking_unnoticed (url : String) (key : Key) (token : Token) (store : Option τ)
    (env : Surroundings) (sink : κ) (chunks chunks' : List Bytes)
    (hbytes : chunks.flatten = chunks'.flatten) :
    let start := fun chunks => (opening url key token store).move
      ⟨.start (⟨chunks, false⟩ : Body.Fixed) sink, env, id, id⟩
    let p := start chunks
    let q := start chunks'
    -- The chunks that are not empty are fed, in order, and together they are the bytes.
    p.feeds = chunks.filter (!·.isEmpty) ∧ q.feeds = chunks'.filter (!·.isEmpty) ∧
    p.feeds.flatten = chunks.flatten ∧ q.feeds.flatten = chunks.flatten ∧
    -- Nothing else tells them apart.
    p.session = q.session ∧ p.store = q.store ∧ p.recordCalls = q.recordCalls ∧
    (∃ trusted, p.session.outcome = some (.compiled trusted) ∧
      .compilerTold (.compiled trusted) ∈ p.trace ∧ .compilerTold (.compiled trusted) ∈ q.trace) ∧
    p.session.received = chunks.flatten.length ∧
    -- Of a body without bytes nothing is looked up.
    (chunks.flatten = [] → p.recordCalls = [] ∧ p.session.trial.phase = .unread) := by
  intro start p q
  obtain ⟨hsession, hstore, hcalls, hfeeds⟩ := start_whole url key token store env chunks sink
  obtain ⟨hsession', hstore', hcalls', hfeeds'⟩ := start_whole url key token store env chunks' sink
  rw [← hbytes] at hsession' hstore' hcalls'
  have hsame : p.session = q.session := hsession.trans hsession'.symm
  have hflat : ∀ chunks : List Bytes, (chunks.filter (!·.isEmpty)).flatten = chunks.flatten :=
    fun _ => List.flatten_filter_not_isEmpty
  obtain ⟨trusted, houtcome⟩ : ∃ trusted, p.session.outcome = some (.compiled trusted) := by
    rw [hsession]
    exact ⟨_, rfl⟩
  have htold : ∀ chunks, (start chunks).session.outcome = some (.compiled trusted) →
      .compilerTold (.compiled trusted) ∈ (start chunks).trace := fun chunks => by
    let m : Move Body.Fixed κ τ := ⟨.start ⟨chunks, false⟩ sink, env, id, id⟩
    exact ((opening_owes url key token store [m]).compilerTold_iff _).2
  refine ⟨hfeeds, hfeeds', ?_, ?_, hsame, hstore.trans hstore'.symm, hcalls.trans hcalls'.symm,
    ⟨trusted, houtcome, htold chunks houtcome, htold chunks' (hsame ▸ houtcome)⟩, ?_, fun hempty => ?_⟩
  · rw [hfeeds, hflat]
  · rw [hfeeds', hflat, hbytes]
  · rw [hsession]
    exact (Session.received_pass ..).trans (Nat.zero_add _)
  · rw [hcalls, hsession, hempty]
    exact ⟨rfl, rfl⟩

/-- With a record of other bytes, which is found out with the last of them. -/
theorem chunking_unnoticed_when_stale :
    let key : Key := ⟨Record.moduleTag, [109]⟩
    let stale : Record := ⟨Record.moduleTag, List.replicate 33 0, by decide⟩
    let store : Store.Faulty :=
      { mounted := ⟨.memory ⟨1024, by decide, .oldestFirst, [(key.scope, stale)]⟩, Disk.empty⟩ }
    let start := fun chunks => (opening "https://a.test/m" key ⟨0⟩ (some store)).move
      ⟨.start (⟨chunks, false⟩ : Body.Fixed) (), ⟨fun _ => true, true⟩, id, id⟩
    [[1], [], [2, 3]].flatten = [[(1 : UInt8), 2], [3], []].flatten ∧
      (start [[1], [], [2, 3]]).session.trial.flaw = some .wrongDigest ∧
      (start [[1, 2], [3], []]).session = (start [[1], [], [2, 3]]).session ∧
      (start [[1, 2], [3], []]).recordCalls.countP Call.isEvict = 1 := by
  intro key stale store start
  have hbytes : [[1], [], [2, 3]].flatten = [[(1 : UInt8), 2], [3], []].flatten := rfl
  let env : Surroundings := ⟨fun _ => true, true⟩
  obtain ⟨-, -, -, -, hsession, -, hcalls, -⟩ := chunking_unnoticed "https://a.test/m" key
    ⟨0⟩ (some store) env () [[1], [], [2, 3]] [[1, 2], [3], []] hbytes
  obtain ⟨hwhole, -, hasked, -⟩ := start_whole "https://a.test/m" key ⟨0⟩ (some store) env
    [[1], [], [2, 3]] ()
  have hflaw : (start [[1], [], [2, 3]]).session.trial.flaw = some .wrongDigest := by
    refine (congrArg (·.trial.flaw) hwhole).trans ?_
    decide +kernel
  refine ⟨hbytes, hflaw, hsession.symm,
    (congrArg (List.countP Call.isEvict) (hcalls.symm.trans hasked)).trans ?_⟩
  decide +kernel

end Play

end CompileCache
