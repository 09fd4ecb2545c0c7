/-
  CompileCache.Proofs.Embedder.WarmStart — what one compilation files, the next one trusts.

  A compilation that came to the end of its body leaves a task that files the record of its
  module (`compiled_leaves_task`). With room in the archive, the archive has the record once
  the queue was drained. The key is made of the response, the origin and the tag, so the next
  compilation of such a response looks the same key up and finds it.

  Proved: the next compilation offers its compiler the artifact of the first. If the compiler
  takes it, it is trusted if the bodies have the same digest, and evicted if they have not
  (`warm_start`).
-/

import CompileCache.Proofs.Embedder.Filing
import CompileCache.Proofs.Embedder.Playing

namespace CompileCache

/-- An event is due to a call about a record, or to the outcome. -/
theorem Notice.event?_call {c : Call} (h : c.aboutRecord = false) (w : Wiring) :
    (Notice.call c).event? w = none := by
  cases c <;> first | rfl | cases h

/-- What comes of a session that has ended is what comes of its calls about the record, and the
    outcome. -/
theorem Play.Owes.events {sink : Option Sink} {τ : Type} {p : Play AnyBody Sink τ} (h : Owes sink p)
    {outcome : Outcome} (ho : p.session.outcome = some outcome) (w : Wiring) :
    p.trace.filterMap (Notice.event? w) =
      p.recordCalls.filterMap (fun c => (Notice.call c).event? w) ++
        [.compilerTold w.compiler outcome] := by
  have hcalls : p.recordCalls.filterMap (fun c => (Notice.call c).event? w) =
      p.calls.filterMap fun c => (Notice.call c).event? w := by
    rw [Play.recordCalls, List.filterMap_filter]
    congr 1
    funext c
    split
    · rfl
    · next hc => rw [Notice.event?_call (by simpa using hc)]
  have hsink : (sink.toList.map (Notice.sinkTold · outcome)).filterMap (Notice.event? w) = [] := by
    cases sink <;> rfl
  rw [h.told ho, hcalls, List.filterMap_append, List.filterMap_map, List.filterMap_cons, hsink]
  rfl

namespace Embedder

theorem compiler_addCompiler (m : Embedder) (c : Compiler) :
    (m.addCompiler c).compilers[(m.addCompiler c).current]? = some c := by
  simp [addCompiler, current]

section WarmStart

variable {settings : StreamSettings} {context context' : Context} {name : StoreName}
  {response response' : Response AnyBody} {c c' : Compiler} {m cold warm : Embedder}
  {n : SessionId} {w : Wiring} {r : Recorder} {p : Play AnyBody Sink Store.Faulty} {wire : Bytes}

/-- A compilation that came to its end has a task waiting, which files the record of its module;
    the store may have been asked meanwhile, but has room for the record still. -/
theorem compiled_leaves_task (h : Ready settings context name response c m) {s : Store.Faulty}
    (hstore : m.store? name = some s) {sink : Sink} {arrivals : List (AnyBody → AnyBody)}
    (hfed : (m.compile response settings sink arrivals).FedToEnd m.sessions.length m.current wire)
    {artifact : Blob} (hartifact : c.artifact = some artifact) {record : Record}
    (hjudge : (recorderFor settings context response).judge ⟨wire, artifact⟩ = .ok record)
    (hidle : (m.queue context.kind.thread).mode = .idle) {key : Key} {size others : Nat}
    (htakes : s.Takes key size others) :
    let compiled := m.compile response settings sink arrivals
    compiled.liveContext = some context ∧
      (∃ s', compiled.store? name = some s' ∧ s'.Takes key size others) ∧
      compiled.queue context.kind.thread =
        ⟨(m.queue context.kind.thread).tasks ++
          [.file (recorderFor settings context response).key record], .idle⟩ := by
  intro compiled
  obtain ⟨moves, halone, hplays⟩ := compile_plays h sink arrivals
  rw [hstore] at hplays
  obtain ⟨⟨trusted, hended⟩, hwire⟩ := hplays.fedToEnd_iff.1 hfed
  have hquiet := Play.run_undisturbed (Play.undisturbed_opening _ response.url
    (recorderFor settings context response).key ⟨m.current⟩ (some s)) halone
  refine ⟨hplays.context.trans h.context, ?_, ?_⟩
  · obtain ⟨s', hs'⟩ := Option.isSome_iff_exists.1 hquiet.served.isSome_eq
    refine ⟨s', hplays.store.trans hs', ?_⟩
    refine hquiet.served.keeps (P := (·.Takes key size others))
      (fun s asked hs => Store.Faulty.takes_get hs asked)
      (fun s asked hs => Store.Faulty.takes_evict hs asked) (fun s₀ hs₀ => ?_) s' hs'
    cases hs₀
    exact htakes
  · have hqueue := hplays.queue (by rw [recorderFor, hidle]; decide)
    rw [hended, hwire, hartifact, Recorder.filings_of_judge hjudge] at hqueue
    rw [← hidle]
    exact hqueue

/-- A compilation that finds a record, and comes to its end: what is notable of it. -/
theorem events_of_found (h : Ready settings context name response c m) {s : Store.Faulty}
    (hstore : m.store? name = some s) {record : Record}
    (hget : (Store.get s (recorderFor settings context response).key).1 = .ok (some record))
    {artifact : Bytes} (hartifact : record.artifact? = some artifact) {sink : Sink}
    {arrivals : List (AnyBody → AnyBody)}
    (hfed : (m.compile response settings sink arrivals).FedToEnd m.sessions.length m.current wire)
    (hwire : wire ≠ []) :
    let key := (recorderFor settings context response).key
    (m.compile response settings sink arrivals).notable = m.notable ++
      if c.rejects then
        [.storeCall .get name key, .tryArtifact m.current artifact false,
          .storeCall .evict name key, .compilerTold m.current (.compiled false)]
      else if record.digest? = some (Digest.compute wire) then
        [.storeCall .get name key, .tryArtifact m.current artifact true,
          .compilerTold m.current (.compiled true)]
      else
        [.storeCall .get name key, .tryArtifact m.current artifact true,
          .storeCall .evict name key, .compilerTold m.current (.compiled false)] := by
  intro key
  obtain ⟨moves, halone, hplays⟩ := compile_plays h sink arrivals
  rw [hstore] at hplays
  obtain ⟨⟨trusted, hended⟩, hfedWire⟩ := hplays.fedToEnd_iff.1 hfed
  have howes := Play.opening_owes response.url key ⟨m.current⟩ (some s) moves
  have hfound := Play.found_of_run halone hget hartifact hended (by rw [hfedWire]; exact hwire)
  rw [hplays.notable, howes.events hended]
  rw [hfedWire] at hfound
  generalize Play.recordCalls _ = calls at hfound ⊢
  cases hfound with
  | refused done hrejects =>
    have hc : c.rejects = true := by simpa [surroundings] using hrejects
    simp [hc, Notice.event?, key]
  | confirmed haccepts hdigest =>
    have hc : c.rejects = false := by simpa [surroundings] using haccepts
    simp [hc, hdigest, Notice.event?, key]
  | dismissed done haccepts hdigest =>
    have hc : c.rejects = false := by simpa [surroundings] using haccepts
    simp [hc, hdigest, Notice.event?, key]

/-- What a compilation leaves to be filed, the next one for the same response finds, and tries.
    It trusts the artifact if its compiler takes it and the bodies have the same digest, and
    evicts the record otherwise. -/
theorem warm_start {s : Store.Faulty} {artifact : Blob} {wire' : Bytes} {sink sink' : Sink}
    {arrivals arrivals' : List (AnyBody → AnyBody)}
    -- A response is compiled to the end of its body, by a compiler with a module to report.
    (hcold : Ready settings context name response c cold)
    (hfed : (cold.compile response settings sink arrivals).FedToEnd cold.sessions.length
      cold.current wire)
    (hartifact : c.artifact = some artifact) (hlong : settings.threshold ≤ wire.length)
    (hsome : artifact.size ≠ 0) (hfits : Digest.size + artifact.size < UInt32.size)
    -- Its store is the archive of the context, with room for the record after what is queued.
    (harchive : context.archive = some name) (hstore : cold.store? name = some s)
    (hroom : s.Takes (.ofResource settings.tag response.url context.origin response.cacheName)
      (Record.headerSize + Digest.size + artifact.size)
      (Task.bytesIn (cold.queue context.kind.thread).tasks))
    -- The queue is drained, and the store is used for the next compilation.
    (hidle : (cold.queue context.kind.thread).mode = .idle)
    (hnext : warm.store? name = ((cold.compile response settings sink arrivals).runUntilIdle
      context.kind.thread).2.store? name)
    (hwarm : Ready settings context' name response' c' warm)
    (hurl : response'.url = response.url) (horigin : context'.origin = context.origin)
    (hcacheName : response'.cacheName = response.cacheName)
    (hfed' : (warm.compile response' settings sink' arrivals').FedToEnd warm.sessions.length
      warm.current wire') (hwire' : wire' ≠ []) :
    let key := Key.ofResource settings.tag response.url context.origin response.cacheName
    (warm.compile response' settings sink' arrivals').notable = warm.notable ++
      if c'.rejects then
        [.storeCall .get name key, .tryArtifact warm.current artifact.bytes false,
          .storeCall .evict name key, .compilerTold warm.current (.compiled false)]
      else if Digest.compute wire' = Digest.compute wire then
        [.storeCall .get name key, .tryArtifact warm.current artifact.bytes true,
          .compilerTold warm.current (.compiled true)]
      else
        [.storeCall .get name key, .tryArtifact warm.current artifact.bytes true,
          .storeCall .evict name key, .compilerTold warm.current (.compiled false)] := by
  intro key
  obtain ⟨record, hpack, htag, hsize, hdigest, hpayload⟩ :=
    Record.exists_pack settings.tag (Digest.compute wire) hfits
  have hjudge : (recorderFor settings context response).judge ⟨wire, artifact⟩ = .ok record := by
    have hkey : (recorderFor settings context response).key.tag = settings.tag := rfl
    have hwants : (recorderFor settings context response).wantsSerialized ⟨wire, artifact⟩ = true :=
      decide_eq_true hlong
    simp [Recorder.judge, hwants, hsome, hkey, hpack]
  obtain ⟨hlive, ⟨s₁, hs₁, htakes⟩, hqueue⟩ :=
    compiled_leaves_task hcold hstore hfed hartifact hjudge hidle hroom
  obtain ⟨s₂, hs₂, hget⟩ := filed_of_drained (t := context.kind.thread) (congrArg Queue.mode hqueue)
    (congrArg Queue.tasks hqueue) (by rw [hlive]; exact harchive) hs₁ (hsize ▸ htakes) htag
  have hsameKey : (recorderFor settings context' response').key = key := by
    simp only [recorderFor, hurl, horigin, hcacheName, key]
  have hevents := events_of_found hwarm (hnext.trans hs₂) (by rw [hsameKey]; exact hget) hpayload
    hfed' hwire'
  simp only [hsameKey, hdigest, Option.some.injEq] at hevents
  simp only [hevents, eq_comm (a := Digest.compute wire')]

end WarmStart

/-- A module is compiled, and filed in a store in memory; then the same bytes come again, cut
    into other chunks. -/
theorem warm_start_of_same_bytes :
    let store : Store.Faulty :=
      { mounted := ⟨.memory ⟨1024, by decide, .oldestFirst, []⟩, Disk.empty⟩ }
    let settings : StreamSettings := { threshold := 1 }
    let response : Response AnyBody :=
      { url := "https://a.test/m", mediaType := some moduleMediaType, store := some "s",
        body := some (.fixed ⟨[[1, 2], [3]], false⟩) }
    let again : Response AnyBody := { response with body := some (.fixed ⟨[[1], [], [2, 3]], false⟩) }
    let cold : Embedder :=
      { stores := [("s", store)], context := some ⟨.window, "https://a.test", some "s", true⟩,
        attached := true, compilers := [{ artifact := some (.leaf [7]) }], clock := 0 }
    let warm := ((cold.compile response settings .ignore []).runUntilIdle .main).2.addCompiler {}
    let key := Key.ofResource settings.tag response.url "https://a.test" none
    (warm.compile again settings .ignore []).notable = warm.notable ++
      [.storeCall .get "s" key, .tryArtifact warm.current [7] true,
        .compilerTold warm.current (.compiled true)] := by
  intro store settings response again cold warm key
  let context : Context := ⟨.window, "https://a.test", some "s", true⟩
  have hcold : Ready settings context "s" response { artifact := some (.leaf [7]) } cold :=
    ⟨rfl, ⟨_, Response.check_eq_ok_iff.2 ⟨rfl, by decide +kernel, rfl, rfl, rfl⟩⟩, rfl, rfl, rfl, rfl,
      fun id s hid => by cases hid⟩
  have hroom : store.Takes key 41 0 := by
    refine ⟨rfl, Store.Opened.takes_of_shows (fun m hm => ?_) (fun _ m hm => ?_)
      fun dir hdir => by cases hdir⟩
    · cases hm
      decide
    · cases hm
      exact .inl Store.Upkeep.oldestFirst_keepsNewest
  have hwarm : Ready settings context "s" again {} warm := by
    have hover : (warm.session? 0).map (fun s => (s.outcome.isSome, s.body.isNone)) =
        some (true, true) := by decide +kernel
    have hlatest : warm.latest = some 0 := by decide +kernel
    refine ⟨by decide +kernel,
      ⟨_, Response.check_eq_ok_iff.2 ⟨rfl, by decide +kernel, rfl, rfl, rfl⟩⟩, rfl, rfl,
      compiler_addCompiler _ _, rfl, fun id s hid hs => ?_⟩
    obtain rfl : 0 = id := Option.some.inj (hlatest.symm.trans hid)
    rw [hs] at hover
    obtain ⟨hended, hletGo⟩ : s.outcome.isSome = true ∧ s.body = none := by simpa using hover
    exact ⟨hended, hletGo⟩
  have hnext : warm.store? "s" =
      ((cold.compile response settings .ignore []).runUntilIdle .main).2.store? "s" := rfl
  have hevents := warm_start hcold (fedToEnd_of_fixed hcold rfl .ignore) rfl (by decide) (by decide)
    (by decide) rfl rfl hroom rfl hnext hwarm rfl rfl rfl (fedToEnd_of_fixed hwarm rfl .ignore)
    (by decide)
  have hbytes : [[1], [], [2, 3]].flatten = [[(1 : UInt8), 2], [3]].flatten := rfl
  refine Eq.trans hevents ?_
  rw [if_neg (by decide), hbytes, if_pos rfl]
  rfl

end Embedder

end CompileCache
