/-
  CompileCache.Proofs.Session.Progress — a session that reads gets to where it must wait, or ends.

  An operation that reads looks at its body once for every chunk that the body delivers, the
  empty ones among them, and at most once more (`offers_read`). What a body can deliver is
  bounded by what it holds: the chunks of a list, and the unread chunks of a pipe.

  Proved, of every operation in every state that a session can get to (`reading_ends`): it
  looks at most once more than there are chunks to read; then the session has ended, or it
  waits with a pipe that is empty and has a sender left. Excepted is an operation that does not
  read, for then nothing changes. So a session that waits can be started again in vain, and
  whatever was sent meanwhile stays unread (`ignored_start_leaves_chunk`).
-/

import CompileCache.Proofs.Session.Reading
import CompileCache.Store.Faulty

namespace CompileCache

variable {σ κ τ : Type}

/-- What the body offered with the call. -/
def Call.offer? : Call → Option Offer
  | offer answer => some answer
  | _ => none

theorem Call.offer?_of_not_toBody {c : Call} (h : c.toBody = false) : c.offer? = none := by
  cases c <;> simp_all [toBody, offer?]

/-- What the body offered, each time that the session looked. -/
def Turn.offers (t : Turn σ κ τ) : List Offer := t.calls.filterMap Call.offer?

namespace Turn

theorem offers_after (calls : List Call) (t : Turn σ κ τ) :
    (t.after calls).offers = calls.filterMap Call.offer? ++ t.offers :=
  List.filterMap_append

theorem offers_of_not_toBody {t : Turn σ κ τ} (h : ∀ c ∈ t.calls, c.toBody = false) :
    t.offers = [] :=
  List.filterMap_eq_nil_iff.2 fun c hc => Call.offer?_of_not_toBody (h c hc)

end Turn

namespace Session

/-- The body that the operation reads, if it reads. -/
def toRead (s : Session σ κ) : Operation σ κ → Option σ
  | .start body _ => if s.body.isNone && s.outcome.isNone then some body else none
  | .resume => s.body
  | _ => none

section Reads

variable [Store τ]

/-- Of one chunk there is one offer. -/
theorem offers_chunk {env : Surroundings} {s s' : Session σ κ} {store store' : Option τ}
    {bytes : Bytes} {calls : List Call} (h : s.pass env store bytes = (s', store', calls))
    (taken : Taken) :
    (Call.offer (.chunk bytes) :: calls ++ [Call.take bytes.length taken]).filterMap Call.offer? =
      [.chunk bytes] := by
  have hpass : calls.filterMap Call.offer? = [] := by
    have hcalls := pass_not_toBody env s store bytes
    rw [h] at hcalls
    exact List.filterMap_eq_nil_iff.2 fun c hc => Call.offer?_of_not_toBody (hcalls c hc)
  have hoffer : Call.offer? (.offer (.chunk bytes)) = some (.chunk bytes) := rfl
  rw [List.filterMap_append, List.filterMap_cons_some hoffer, hpass]
  rfl

variable [Body σ]

/-- The chunks that the body delivers are offered one by one, and then it may be looked at once
    more. -/
theorem offers_read (env : Surroundings) (s : Session σ κ) (body : σ) (store : Option τ) :
    ∃ last : Option Offer,
      (s.read env body store).offers = (Body.delivery body).chunks.map .chunk ++ last.toList ∧
      ((Body.delivery body).pause = .wait → last = some .wait) := by
  fun_induction Session.read env s body store with
  | case1 s body store rest hoffer =>
    rw [Body.delivery_wait hoffer]
    exact ⟨some .wait, rfl, fun _ => rfl⟩
  | case2 s body store hoffer =>
    rw [Body.delivery_finished hoffer, Turn.offers_after,
      Turn.offers_of_not_toBody (succeed_not_toBody s store)]
    exact ⟨some .finished, rfl, fun h => by cases h⟩
  | case3 s body store cause hoffer =>
    rw [Body.delivery_failed hoffer]
    exact ⟨some (.failed cause), rfl, fun h => by cases h⟩
  | case4 s body store rest bytes hoffer s' store' calls hpass taken all htaken ih =>
    obtain ⟨last, hoffers, hwait⟩ := ih
    rw [Body.delivery_chunk hoffer (Prod.ext htaken rfl), Turn.offers_after,
      offers_chunk hpass taken, hoffers]
    exact ⟨last, rfl, hwait⟩
  | case5 s body store rest bytes hoffer s' store' calls hpass taken all htaken =>
    rw [Body.delivery_lastChunk hoffer htaken, Turn.offers_after, offers_chunk hpass taken,
      Turn.offers_of_not_toBody (succeed_not_toBody s' store')]
    exact ⟨none, rfl, fun h => by cases h⟩
  | case6 s body store rest bytes hoffer s' store' calls hpass taken all cause htaken =>
    rw [Body.delivery_brokenChunk hoffer htaken]
    exact ⟨none, offers_chunk hpass taken, fun h => by cases h⟩

/-- What comes of an operation that reads, by what the body delivers. -/
structure Reached (t : Turn σ κ τ) (d : Body.Delivery σ) : Prop where
  looks : t.offers.length ≤ d.chunks.length + 1
  waits_iff : t.session.outcome = none ↔ d.pause = .wait
  waits : t.session.outcome = none → t.session.body = some d.rest ∧
    t.offers = d.chunks.map .chunk ++ [.wait]
  letsGo : t.session.outcome.isSome → t.session.body = none

theorem read_reached (env : Surroundings) {s : Session σ κ} (ho : s.outcome = none) (body : σ)
    (store : Option τ) : Reached (s.read env body store) (Body.delivery body) := by
  obtain ⟨last, hoffers, hlast⟩ := offers_read env s body store
  have hsession : (s.read env body store).session =
      (s.receive env store (Body.delivery body)).session := by
    rw [← heard_read]
    rfl
  obtain ⟨hwaits, hends, -, -⟩ := session_receive env ho store (Body.delivery body)
  rw [← hsession] at hwaits hends
  have hlooks : (s.read env body store).offers.length ≤ (Body.delivery body).chunks.length + 1 := by
    have hone : last.toList.length ≤ 1 := by cases last <;> simp
    rw [hoffers, List.length_append, List.length_map]
    omega
  by_cases hpause : (Body.delivery body).pause = .wait
  · obtain ⟨hbody, hopen⟩ := hwaits hpause
    refine ⟨hlooks, ⟨fun _ => hpause, fun _ => hopen⟩, fun _ => ⟨hbody, ?_⟩, fun hended => ?_⟩
    · rw [hoffers, hlast hpause]
      rfl
    · rw [hopen] at hended
      cases hended
  · obtain ⟨hbody, hended⟩ := hends hpause
    have hnot : (s.read env body store).session.outcome ≠ none := Option.isSome_iff_ne_none.1 hended
    exact ⟨hlooks, ⟨fun hopen => absurd hopen hnot, fun hwait => absurd hwait hpause⟩,
      fun hopen => absurd hopen hnot, fun _ => hbody⟩

theorem turn_reached {s : Session σ κ} (hongoing : s.body.isSome → s.outcome = none)
    {o : Operation σ κ} {body : σ} (h : s.toRead o = some body) (env : Surroundings)
    (store : Option τ) : Reached (o.turn env s store) (Body.delivery body) := by
  cases o with
  | start offered sink =>
    simp only [toRead, Option.ite_none_right_eq_some, Bool.and_eq_true, Option.isNone_iff_eq_none,
      Option.some.injEq] at h
    obtain ⟨⟨hb, ho⟩, rfl⟩ := h
    rw [Operation.turn, start_of_free env store hb ho]
    exact read_reached env (s := { s with sink := some sink }) ho offered store
  | resume =>
    have hb : s.body = some body := h
    have ho := hongoing (by simp [hb])
    rw [Operation.turn, resume_of_body env store hb ho]
    exact read_reached env ho body store
  | cancel => cases h
  | withdraw => cases h

/-- A start or a resumption that does not read. -/
theorem turn_idle {s : Session σ κ} {o : Operation σ κ} (h : s.toRead o = none)
    (ho : o.stops = false) (env : Surroundings) (store : Option τ) :
    o.turn env s store = ⟨s, store, [], none⟩ := by
  cases o with
  | start body sink =>
    have hbusy : (s.body.isSome || s.hasEnded) = true := by
      cases hb : s.body <;> cases hout : s.outcome <;> simp_all [toRead, hasEnded]
    exact start_of_busy env store hbusy body sink
  | resume => exact resume_of_bodiless env store h
  | cancel => cases ho
  | withdraw => cases ho

end Reads

end Session

namespace Play

variable [Store τ]

/-- Whatever was asked of a session before, with bodies of any kind, and whatever others have
    done to them. -/
theorem reading_ends (url : String) (key : Key) (token : Token) (store : Option τ)
    (moves : List (Move AnyBody κ τ)) (m : Move AnyBody κ τ) :
    let p := (opening url key token store).run moves
    -- The session as the operation finds it.
    let s := (p.meet m.onBody m.onStore).session
    let t := p.turn m
    -- A list of chunks is read to its end.
    (∀ fixed : Body.Fixed, s.toRead m.operation = some (.fixed fixed) →
      t.offers.length ≤ fixed.chunks.length + 1 ∧
      t.session.outcome.isSome ∧ t.session.body = none) ∧
    (∀ id (pipe : Body.Piped), s.toRead m.operation = some (.piped id pipe) →
      t.offers.length ≤ pipe.unread.length + 1 ∧
      -- The session waits only when all that was sent has been read and a sender is left.
      (t.session.outcome = none → pipe.senders ≠ 0 ∧
        t.session.body = some (.piped id ⟨[], none, false, pipe.senders⟩) ∧
        t.offers = pipe.unread.map .chunk ++ [.wait]) ∧
      (t.session.outcome.isSome → t.session.body = none) ∧
      -- It does wait then, if the pipe was neither cancelled nor failed.
      (t.session.outcome = none ↔
        pipe.cancelled = false ∧ pipe.senders ≠ 0 ∧ ∀ item ∈ pipe.queue, item.isOk)) ∧
    -- A start or a resumption that does not read makes no call and changes nothing.
    (s.toRead m.operation = none → m.operation.stops = false →
      t = ⟨s, p.store.map m.onStore, [], none⟩) ∧
    -- A session that was started has a body to read until it ends.
    (((opening url key token store).acceptedSink moves).isSome → p.session.outcome = none →
      s.body.isSome) := by
  intro p s t
  have howes : Owes ((opening url key token store).acceptedSink moves) p :=
    opening_owes url key token store moves
  have hongoing : s.body.isSome → s.outcome = none :=
    (owes_meet howes m.onBody m.onStore).open_of_body
  have hreached : ∀ {body}, s.toRead m.operation = some body →
      Session.Reached t (Body.delivery body) := fun h =>
    Session.turn_reached hongoing h m.env (p.store.map m.onStore)
  refine ⟨fun fixed h => ?_, fun id pipe h => ?_, fun h ho => ?_, fun hsink ho => ?_⟩
  · obtain ⟨hlooks, hwaits, -, hletsGo⟩ := hreached h
    obtain ⟨hchunks, hpause⟩ := Body.delivery_anyFixed fixed
    have hmost : (Body.delivery (AnyBody.fixed fixed)).chunks.length ≤ fixed.chunks.length := by
      rw [hchunks]
      split <;> simp
    have hended : t.session.outcome.isSome := by
      rw [Option.isSome_iff_ne_none, ne_eq, hwaits, hpause]
      nofun
    exact ⟨by omega, hended, hletsGo hended⟩
  · obtain ⟨hlooks, hwaits, hrest, hletsGo⟩ := hreached h
    obtain ⟨hpart, hpause, hall⟩ := Body.delivery_anyPiped id pipe
    have hmost := hpart.length_le
    refine ⟨by omega, fun ho => ?_, hletsGo, hwaits.trans hpause⟩
    have hwait := hwaits.1 ho
    rw [← (hall hwait).1, ← (hall hwait).2]
    exact ⟨(hpause.1 hwait).2.1, hrest ho⟩
  · exact Session.turn_idle h ho m.env (p.store.map m.onStore)
  · have hb : p.session.body.isSome := by rwa [(howes.held ho).2]
    simpa [s, meet] using hb

/-- A chunk is sent to a session that waits, and its last sender is gone; then the session is
    started again. It still waits when that returns. -/
theorem ignored_start_leaves_chunk :
    let key : Key := ⟨Record.moduleTag, [109]⟩
    let env : Surroundings := ⟨fun _ => true, true⟩
    let sent : Body.Piped → Body.Piped := fun pipe => (pipe.push (.ok [97, 98, 99])).dropSender
    let p : Play AnyBody Unit Store.Faulty := (opening "https://a.test/m" key ⟨0⟩ none).run
      [⟨.start (.piped 0 .new) (), env, id, id⟩]
    let t := p.turn ⟨.start (.fixed { chunks := [] }) (), env, AnyBody.onPipe 0 sent, id⟩
    t.session.outcome = none ∧
      t.session.body = some (.piped 0 ⟨[.ok [97, 98, 99]], none, false, 0⟩) ∧ t.offers = [] := by
  intro key env sent p t
  let begun : Session AnyBody Unit := Session.begun "https://a.test/m" key ⟨0⟩ ()
  have hwaits : p.session = { begun with body := some (.piped 0 .new) } := by
    have hheard := heard_start (τ := Store.Faulty) "https://a.test/m" key ⟨0⟩ none env ()
      (AnyBody.piped 0 .new)
    rw [Body.delivery_wait rfl] at hheard
    exact congrArg Play.session hheard
  let again : Session.Operation AnyBody Unit := .start (.fixed { chunks := [] }) ()
  let met := p.meet (AnyBody.onPipe 0 sent) id
  have hbusy : met.session.toRead again = none := by
    simp [met, again, meet, hwaits, Session.toRead]
  have hignored : t = ⟨met.session, met.store, [], none⟩ := Session.turn_idle hbusy rfl env met.store
  have hsession : met.session = { begun with body := some (.piped 0 (sent .new)) } := by
    simp [met, meet, hwaits, AnyBody.onPipe]
  rw [hignored, hsession]
  exact ⟨rfl, rfl, rfl⟩

end Play

end CompileCache
