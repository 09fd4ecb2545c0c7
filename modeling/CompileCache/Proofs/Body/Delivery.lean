/-
  CompileCache.Proofs.Body.Delivery — what a body delivers to a reader that takes every chunk
  whole.

  The reader takes chunks until the body must wait, ends or fails; together that is a
  `Delivery`. It does not tell a body that ends with its last chunk from one that ends after
  it. Of a list of chunks it is the chunks and the end (`delivery_fixed`). Of a pipe it is what
  was sent up to the first failure and, if there is none, a wait or the end, by whether a sender
  is left (`delivery_piped`); so it is no more than what is unread, and all of it if the reader
  waits (`delivery_anyPiped`). A script can be written that delivers the same
  (`delivery_script`).
-/

import CompileCache.Body.Any

namespace CompileCache.Body

/-- Why a reader stops. -/
inductive Pause where
  | wait
  | finished
  | failed (cause : ReadFailure)
  deriving DecidableEq, Repr

structure Delivery (σ : Type) where
  chunks : List Bytes
  pause : Pause
  /-- The body as the reader leaves it. -/
  rest : σ

variable {σ : Type} [Body σ]

/-- Takes chunk after chunk, whole, until the body has no more to offer for now. -/
def delivery (body : σ) : Delivery σ :=
  let rest := (offer body).2
  match _h : (offer body).1 with
  | .wait => ⟨[], .wait, rest⟩
  | .finished => ⟨[], .finished, rest⟩
  | .failed cause => ⟨[], .failed cause, rest⟩
  | .chunk bytes =>
    let rest := (take rest bytes.length).2
    match (take (offer body).2 bytes.length).1 with
    | .more =>
      let further := delivery rest
      { further with chunks := bytes :: further.chunks }
    | .finished => ⟨[bytes], .finished, rest⟩
    | .failed cause => ⟨[bytes], .failed cause, rest⟩
termination_by pending body
decreasing_by exact pending_take_lt ‹_›

/-! ## One read -/

theorem delivery_wait {body : σ} (h : (offer body).1 = .wait) :
    delivery body = ⟨[], .wait, (offer body).2⟩ := by
  rw [delivery]
  split <;> simp_all

theorem delivery_finished {body : σ} (h : (offer body).1 = .finished) :
    delivery body = ⟨[], .finished, (offer body).2⟩ := by
  rw [delivery]
  split <;> simp_all

theorem delivery_failed {body : σ} {cause : ReadFailure} (h : (offer body).1 = .failed cause) :
    delivery body = ⟨[], .failed cause, (offer body).2⟩ := by
  rw [delivery]
  split <;> simp_all

theorem delivery_chunk {body rest : σ} {bytes : Bytes} (h : (offer body).1 = .chunk bytes)
    (htake : take (offer body).2 bytes.length = (.more, rest)) :
    delivery body = { delivery rest with chunks := bytes :: (delivery rest).chunks } := by
  rw [delivery]
  split <;> simp_all

theorem delivery_lastChunk {body : σ} {bytes : Bytes} (h : (offer body).1 = .chunk bytes)
    (htake : (take (offer body).2 bytes.length).1 = .finished) :
    delivery body = ⟨[bytes], .finished, (take (offer body).2 bytes.length).2⟩ := by
  rw [delivery]
  split <;> simp_all

theorem delivery_brokenChunk {body : σ} {bytes : Bytes} {cause : ReadFailure}
    (h : (offer body).1 = .chunk bytes)
    (htake : (take (offer body).2 bytes.length).1 = .failed cause) :
    delivery body = ⟨[bytes], .failed cause, (take (offer body).2 bytes.length).2⟩ := by
  rw [delivery]
  split <;> simp_all

/-! ## Chunks at hand -/

theorem delivery_fixed (chunks : List Bytes) :
    (delivery (⟨chunks, false⟩ : Fixed)).chunks = chunks ∧
      (delivery (⟨chunks, false⟩ : Fixed)).pause = .finished := by
  induction chunks with
  | nil =>
    rw [delivery_finished rfl]
    exact ⟨rfl, rfl⟩
  | cons bytes chunks ih =>
    have htake : take (offer (⟨bytes :: chunks, false⟩ : Fixed)).2 bytes.length =
        (.more, ⟨chunks, false⟩) := by
      simp [take, offer, Fixed.take, Fixed.offer]
    rw [delivery_chunk rfl htake]
    exact ⟨by rw [ih.1], ih.2⟩

/-- A body delivers the same when it is held as one of any kind. -/
theorem delivery_embed {ρ : Type} [Body ρ] (embed : σ → ρ)
    (hoffer : ∀ s, offer (embed s) = ((offer s).1, embed (offer s).2))
    (htake : ∀ s n, take (embed s) n = ((take s n).1, embed (take s n).2)) (body : σ) :
    (delivery (embed body)).chunks = (delivery body).chunks ∧
      (delivery (embed body)).pause = (delivery body).pause := by
  fun_induction delivery body with
  | case1 body rest h =>
    rw [delivery_wait (by rw [hoffer, h])]
    exact ⟨rfl, rfl⟩
  | case2 body rest h =>
    rw [delivery_finished (by rw [hoffer, h])]
    exact ⟨rfl, rfl⟩
  | case3 body rest cause h =>
    rw [delivery_failed (by rw [hoffer, h])]
    exact ⟨rfl, rfl⟩
  | case4 body offered bytes h rest hmore further ih =>
    have hrest : take (offer (embed body)).2 bytes.length = (.more, embed rest) := by
      rw [hoffer, htake, hmore]
    rw [delivery_chunk (by rw [hoffer, h]) hrest]
    exact ⟨congrArg (bytes :: ·) ih.1, ih.2⟩
  | case5 body offered bytes h rest hlast =>
    rw [delivery_lastChunk (by rw [hoffer, h]) (by rw [hoffer, htake, hlast])]
    exact ⟨rfl, rfl⟩
  | case6 body offered bytes h rest cause hbroken =>
    rw [delivery_brokenChunk (by rw [hoffer, h]) (by rw [hoffer, htake, hbroken])]
    exact ⟨rfl, rfl⟩

/-- A list of chunks in any state; a cancelled one offers nothing. -/
theorem delivery_anyFixed (s : Fixed) :
    (delivery (AnyBody.fixed s)).chunks = (if s.cancelled then [] else s.chunks) ∧
      (delivery (AnyBody.fixed s)).pause = .finished := by
  obtain ⟨hchunks, hpause⟩ := delivery_embed AnyBody.fixed (fun _ => rfl) (fun _ _ => rfl) s
  rw [hchunks, hpause]
  obtain ⟨chunks, cancelled⟩ := s
  cases cancelled with
  | true =>
    rw [delivery_finished rfl]
    exact ⟨rfl, rfl⟩
  | false => exact delivery_fixed chunks

/-! ## What was sent -/

/-- What a sender sends. -/
abbrev Sent := Except ReadFailure Bytes

/-- What a reader gets of what was sent: the chunks up to the first failure, and that failure.
    If there is none, it waits as long as there may be more. -/
def unpack (more : Bool) : List Sent → List Bytes × Pause
  | [] => ([], if more then .wait else .finished)
  | .ok bytes :: sent => (bytes :: (unpack more sent).1, (unpack more sent).2)
  | .error cause :: _ => ([], .failed cause)

theorem unpack_append (more : Bool) (chunks : List Bytes) (sent : List Sent) :
    unpack more (chunks.map .ok ++ sent) =
      (chunks ++ (unpack more sent).1, (unpack more sent).2) := by
  induction chunks with
  | nil => rfl
  | cons bytes chunks ih => simp [unpack, ih]

theorem unpack_chunks (more : Bool) (chunks : List Bytes) :
    unpack more (chunks.map .ok) = (chunks, if more then .wait else .finished) := by
  simpa [unpack] using unpack_append more chunks []

theorem unpack_failure (more : Bool) (chunks : List Bytes) (cause : ReadFailure) (sent : List Sent) :
    unpack more (chunks.map .ok ++ .error cause :: sent) = (chunks, .failed cause) := by
  rw [unpack_append]
  simp [unpack]

/-- Either all that was sent are chunks, or there is a first failure. -/
theorem chunks_or_failure (sent : List Sent) : (∃ chunks : List Bytes, sent = chunks.map .ok) ∨
    ∃ (chunks : List Bytes) (cause : ReadFailure) (later : List Sent),
      sent = chunks.map .ok ++ .error cause :: later := by
  induction sent with
  | nil => exact .inl ⟨[], rfl⟩
  | cons item sent ih =>
    cases item with
    | error cause => exact .inr ⟨[], cause, sent, rfl⟩
    | ok bytes =>
      rcases ih with ⟨chunks, rfl⟩ | ⟨chunks, cause, later, rfl⟩
      · exact .inl ⟨bytes :: chunks, rfl⟩
      · exact .inr ⟨bytes :: chunks, cause, later, rfl⟩

/-- Where there may be more, only a failure ends what was sent, and then there need not be. -/
theorem unpack_of_more {sent : List Sent} (h : (unpack true sent).2 ≠ .wait) (more : Bool) :
    unpack more sent = unpack true sent := by
  rcases chunks_or_failure sent with ⟨chunks, rfl⟩ | ⟨chunks, cause, later, rfl⟩
  · rw [unpack_chunks] at h
    exact absurd rfl h
  · rw [unpack_failure, unpack_failure]

theorem eq_of_unpack_wait {more : Bool} {sent : List Sent} {chunks : List Bytes}
    (h : unpack more sent = (chunks, .wait)) : sent = chunks.map .ok := by
  rcases chunks_or_failure sent with ⟨chunks', rfl⟩ | ⟨chunks', cause, later, rfl⟩
  · rw [unpack_chunks, Prod.mk.injEq] at h
    rw [h.1]
  · rw [unpack_failure, Prod.mk.injEq] at h
    cases h.2

/-- A pipe that nobody is in the middle of reading. -/
theorem delivery_piped (id : PipeId) (queue : List Sent) (senders : Nat) :
    let d := delivery (AnyBody.piped id ⟨queue, none, false, senders⟩)
    (d.chunks, d.pause) = unpack (senders != 0) queue ∧
      (d.pause = .wait → d.rest = .piped id ⟨[], none, false, senders⟩) := by
  induction queue with
  | nil =>
    by_cases hsenders : senders = 0
    · rw [delivery_finished (by simp [offer, AnyBody.offer, Piped.offer, hsenders])]
      simp [unpack, hsenders]
    · rw [delivery_wait (by simp [offer, AnyBody.offer, Piped.offer, hsenders])]
      simp [unpack, hsenders, offer, AnyBody.offer, Piped.offer]
  | cons item queue ih =>
    cases item with
    | error cause =>
      have hoffer : (offer (AnyBody.piped id ⟨.error cause :: queue, none, false, senders⟩)).1 =
          .failed cause := rfl
      rw [delivery_failed hoffer]
      exact ⟨rfl, fun h => by cases h⟩
    | ok bytes =>
      have htake : take (offer (AnyBody.piped id ⟨.ok bytes :: queue, none, false, senders⟩)).2
          bytes.length = (.more, .piped id ⟨queue, none, false, senders⟩) := by
        simp [take, offer, AnyBody.take, AnyBody.offer, Piped.take, Piped.offer]
      rw [delivery_chunk rfl htake]
      obtain ⟨hunpack, hrest⟩ := ih
      rw [Prod.mk.injEq] at hunpack
      exact ⟨by simp only [unpack, hunpack.1, hunpack.2], hrest⟩

/-- The chunks still to be read: the one that was moved out of the queue, and those in it. -/
def Piped.unread (p : Piped) : List Bytes := p.current.toList ++ p.queue.filterMap Except.toOption

theorem filterMap_toOption_ok (chunks : List Bytes) :
    (chunks.map Except.ok : List Sent).filterMap Except.toOption = chunks := by
  induction chunks with
  | nil => rfl
  | cons bytes chunks ih => rw [List.map_cons, List.filterMap_cons, ih]; rfl

theorem prefix_of_unpack (more : Bool) (sent : List Sent) :
    (unpack more sent).1 <+: sent.filterMap Except.toOption := by
  rcases chunks_or_failure sent with ⟨chunks, rfl⟩ | ⟨chunks, cause, later, rfl⟩
  · have hall : (unpack more (chunks.map .ok)).1 = (chunks.map .ok : List Sent).filterMap
        Except.toOption := by
      rw [unpack_chunks, filterMap_toOption_ok]
    exact hall ▸ List.prefix_rfl
  · rw [unpack_failure, List.filterMap_append, filterMap_toOption_ok]
    exact List.prefix_append ..

/-- A reader waits just when there may be more and nobody has failed what was sent. -/
theorem unpack_wait_iff (more : Bool) (sent : List Sent) :
    (unpack more sent).2 = .wait ↔ more ∧ ∀ item ∈ sent, item.isOk := by
  induction sent with
  | nil => cases more <;> simp [unpack]
  | cons item sent ih =>
    cases item with
    | ok bytes =>
      rw [List.forall_mem_cons]
      exact ih.trans (and_congr_right fun _ => (and_iff_right rfl).symm)
    | error cause => simp [unpack, Except.isOk, Except.toBool]

/-- A reader who waits has got all that was sent. -/
theorem unpack_of_wait {more : Bool} {sent : List Sent} (h : (unpack more sent).2 = .wait) :
    (unpack more sent).1 = sent.filterMap Except.toOption := by
  obtain ⟨chunks, rfl⟩ : ∃ chunks : List Bytes, sent = chunks.map .ok :=
    ⟨_, eq_of_unpack_wait (Prod.ext rfl h)⟩
  rw [unpack_chunks, filterMap_toOption_ok]

/-- A pipe that was not cancelled, also in the middle of a read. -/
theorem delivery_open (id : PipeId) {p : Piped} (hopen : p.cancelled = false) :
    let d := delivery (AnyBody.piped id p)
    (d.chunks, d.pause) = (p.current.toList ++ (unpack (p.senders != 0) p.queue).1,
        (unpack (p.senders != 0) p.queue).2) ∧
      (d.pause = .wait → d.rest = .piped id ⟨[], none, false, p.senders⟩) := by
  obtain ⟨queue, current, cancelled, senders⟩ := p
  obtain rfl : cancelled = false := hopen
  cases current with
  | none => exact delivery_piped id queue senders
  | some bytes =>
    have htake : take (offer (AnyBody.piped id ⟨queue, some bytes, false, senders⟩)).2
        bytes.length = (.more, .piped id ⟨queue, none, false, senders⟩) := by
      simp [take, offer, AnyBody.take, AnyBody.offer, Piped.take, Piped.offer]
    rw [delivery_chunk rfl htake]
    obtain ⟨hunpack, hrest⟩ := delivery_piped id queue senders
    rw [Prod.mk.injEq] at hunpack
    exact ⟨by simp [hunpack.1, hunpack.2], hrest⟩

/-- A pipe in any state. The reader gets no more than is unread, in order; and it waits only when
    it has got all of it and a sender is left. -/
theorem delivery_anyPiped (id : PipeId) (p : Piped) :
    let d := delivery (AnyBody.piped id p)
    d.chunks <+: p.unread ∧
    (d.pause = .wait ↔ p.cancelled = false ∧ p.senders ≠ 0 ∧ ∀ item ∈ p.queue, item.isOk) ∧
    (d.pause = .wait → d.chunks = p.unread ∧ d.rest = .piped id ⟨[], none, false, p.senders⟩) := by
  intro d
  cases hcancelled : p.cancelled with
  | true =>
    have hfinished : d = _ := delivery_finished (by simp [offer, AnyBody.offer, Piped.offer, hcancelled])
    rw [hfinished]
    exact ⟨List.nil_prefix, by simp, nofun⟩
  | false =>
    obtain ⟨hunpack, hrest⟩ := delivery_open id hcancelled
    obtain ⟨hchunks, hpause⟩ := Prod.mk.inj hunpack
    have hwait : d.pause = .wait ↔ p.senders ≠ 0 ∧ ∀ item ∈ p.queue, item.isOk := by
      rw [hpause, unpack_wait_iff, bne_iff_ne]
    refine ⟨?_, by simpa using hwait, fun h => ⟨?_, hrest h⟩⟩
    · rw [hchunks]
      exact (List.prefix_append_right_inj _).2 (prefix_of_unpack ..)
    · rw [hchunks, unpack_of_wait (hpause.symm.trans h)]
      rfl

/-! ## The same from a script -/

/-- Serves what was sent, in order and without a wait in between. A wait at the end says that
    there may be more. -/
def script (more : Bool) (sent : List Sent) : Scripted :=
  ⟨sent.map (fun | .ok bytes => .chunk bytes | .error cause => .failed cause) ++
    if more then [.wait] else []⟩

theorem delivery_script (more : Bool) (sent : List Sent) :
    let d := delivery (AnyBody.scripted (script more sent))
    (d.chunks, d.pause) = unpack more sent := by
  induction sent with
  | nil =>
    cases more with
    | true => rw [delivery_wait rfl]; rfl
    | false => rw [delivery_finished rfl]; rfl
  | cons item sent ih =>
    cases item with
    | error cause =>
      have hoffer : (offer (AnyBody.scripted (script more (.error cause :: sent)))).1 =
          .failed cause := rfl
      rw [delivery_failed hoffer]
      rfl
    | ok bytes =>
      have htake : take (offer (AnyBody.scripted (script more (.ok bytes :: sent)))).2 bytes.length =
          (.more, .scripted (script more sent)) := rfl
      rw [delivery_chunk rfl htake]
      rw [Prod.mk.injEq] at ih
      simp only [unpack, ih.1, ih.2]

end CompileCache.Body
