/-
  CompileCache.Proofs.Body.Conservation — no byte of a body is lost, repeated or moved.

  What an orderly reader takes is `taken`: of each chunk that it was shown, as much as it says.
  What is taken of the first chunk and what that leaves of the chunks are the chunks again
  (`take_append_trim`). So at any time what was taken and, behind it, what the body still holds
  is what was put in: for a list of chunks `asked_fixed`, for a pipe whose senders send between
  the reader's asks `after_holds`. What a body holds is what draining it yields (`drain_fixed`,
  `drain_holds`).

  A chunk that was shown is offered again until something is taken, whatever is sent meanwhile
  (`shows_of_offer`, `Shows.after`).

  Proved, together with how data is cut into pieces (`flatten_pieces`, `length_of_mem_pieces`,
  `length_of_mem_dropLast_pieces`): `bytes_kept`.
-/

import CompileCache.Proofs.Body.Exchange

namespace CompileCache.Body

/-! ## Cutting -/

namespace Fixed

theorem flatten_pieces (size : Nat) (data : Bytes) : (pieces size data).flatten = data := by
  fun_induction pieces size data with
  | case1 => rfl
  | case2 b bs ih => simp [ih]

theorem length_of_mem_pieces {size : Nat} {data piece : Bytes} (h : piece ∈ pieces size data) :
    piece ≠ [] ∧ piece.length ≤ max size 1 := by
  fun_induction pieces size data with
  | case1 => cases h
  | case2 b bs ih =>
    rcases List.mem_cons.1 h with rfl | h
    · refine ⟨by simp, ?_⟩
      simp only [List.length_cons, List.length_take]
      omega
    · exact ih h

/-- Only the last piece can be shorter. -/
theorem length_of_mem_dropLast_pieces {size : Nat} {data piece : Bytes}
    (h : piece ∈ (pieces size data).dropLast) : piece.length = max size 1 := by
  fun_induction pieces size data with
  | case1 => cases h
  | case2 b bs ih =>
    by_cases hrest : bs.drop (size - 1) = []
    · rw [hrest, pieces] at h
      cases h
    · have hmore : pieces size (bs.drop (size - 1)) ≠ [] := by
        intro hnone
        have hflat := flatten_pieces size (bs.drop (size - 1))
        rw [hnone] at hflat
        exact hrest hflat.symm
      rw [List.dropLast_cons_of_ne_nil hmore] at h
      rcases List.mem_cons.1 h with rfl | h
      · have hlong : ¬ bs.length ≤ size - 1 := fun hle => hrest (List.drop_eq_nil_of_le hle)
        simp only [List.length_cons, List.length_take]
        omega
      · exact ih h

end Fixed

/-! ## Draining -/

section Draining

variable {σ : Type} [Body σ] {body : σ}

theorem drain_chunk {bytes : Bytes} {rest : σ} (h : offer body = (.chunk bytes, rest)) :
    (drain body).1 = bytes :: (drain (take rest bytes.length).2).1 := by
  rw [drain]
  split
  · next bytes' h' =>
    obtain rfl : bytes = bytes' := by simpa [h] using h'
    rw [h]
  · next h' =>
    rw [h] at h'
    exact absurd rfl (h' bytes)

theorem drain_nothing (h : ∀ bytes, (offer body).1 ≠ .chunk bytes) : (drain body).1 = [] := by
  rw [drain]
  split
  · next bytes h' => exact absurd h' (h bytes)
  · rfl

end Draining

theorem trim_length (bytes : Bytes) (chunks : List Bytes) :
    trim bytes.length (bytes :: chunks) = chunks := by
  simp [trim]

theorem drain_fixed (chunks : List Bytes) : (drain (⟨chunks, false⟩ : Fixed)).1 = chunks := by
  induction chunks with
  | nil => exact drain_nothing nofun
  | cons bytes chunks ih =>
    have htake := Fixed.take_eq ⟨bytes :: chunks, false⟩ bytes.length
    rw [trim_length] at htake
    rw [drain_chunk (Fixed.offer_eq (bytes :: chunks)), htake, ih]

theorem drain_holds {p : Piped} {chunks : List Bytes} (h : p.Holds chunks) : (drain p).1 = chunks := by
  induction chunks generalizing p with
  | nil =>
    refine drain_nothing fun bytes => ?_
    rw [h.offer_nil]
    split <;> nofun
  | cons bytes chunks ih =>
    obtain ⟨p', hoffer, hholds, hcurrent, -⟩ := h.offer_cons
    obtain ⟨p'', htake, hrest, -⟩ := hholds.take (by simp [hcurrent]) bytes.length
    rw [trim_length] at hrest
    rw [drain_chunk hoffer, htake, ih hrest]

/-! ## Taking -/

/-- What is taken of the chunk that was shown. -/
def Exchange.piece (shown : Option Bytes) : Exchange → Bytes
  | took count _ => (shown.getD []).take count
  | _ => []

/-- All that a reader takes, in order. -/
def taken (shown : Option Bytes) : List Exchange → Bytes
  | [] => []
  | e :: es => e.piece shown ++ taken (e.shown shown) es

theorem take_append_trim (count : Nat) (bytes : Bytes) (chunks : List Bytes) :
    bytes.take count ++ (trim count (bytes :: chunks)).flatten = (bytes :: chunks).flatten := by
  by_cases h : bytes.length ≤ count
  · simp [trim, h, List.take_of_length_le h]
  · simp [trim, h, ← List.append_assoc]

/-! ## A reader with a list of chunks -/

/-- What one ask takes, and what it leaves. A chunk that was shown is the first. -/
theorem ask_fixed {chunks : List Bytes} {shown : Option Bytes}
    (hshown : ∀ bytes, shown = some bytes → chunks.head? = some bytes) {a : Ask} (ha : a ≠ .cancel)
    (hpermitted : (ask (⟨chunks, false⟩ : Fixed) a).1.permitted shown) :
    let e := (ask (⟨chunks, false⟩ : Fixed) a).1
    ∃ left, (ask (⟨chunks, false⟩ : Fixed) a).2 = ⟨left, false⟩ ∧
      e.piece shown ++ left.flatten = chunks.flatten ∧
      ∀ bytes, e.shown shown = some bytes → left.head? = some bytes := by
  intro e
  cases a with
  | offer =>
    have hoffer := ask_offer (Fixed.offer_eq chunks)
    refine ⟨chunks, by rw [hoffer], rfl, fun bytes h => ?_⟩
    cases chunks with
    | nil => exact hshown bytes h
    | cons first chunks => exact h
  | take count =>
    obtain ⟨bytes, rfl⟩ := Option.isSome_iff_exists.1 hpermitted
    obtain ⟨rest, rfl⟩ := List.head?_eq_some_iff.1 (hshown bytes rfl)
    have htake := ask_take (Fixed.take_eq ⟨bytes :: rest, false⟩ count)
    exact ⟨trim count (bytes :: rest), by rw [htake], take_append_trim count bytes rest, nofun⟩
  | cancel => exact absurd rfl ha

theorem asked_fixed {chunks : List Bytes} {shown : Option Bytes}
    (hshown : ∀ bytes, shown = some bytes → chunks.head? = some bytes) {asks : List Ask}
    (hcancel : .cancel ∉ asks)
    (horderly : orderly shown (exchanges (⟨chunks, false⟩ : Fixed) asks)) :
    taken shown (exchanges (⟨chunks, false⟩ : Fixed) asks) ++
      (drain (asked (⟨chunks, false⟩ : Fixed) asks)).1.flatten = chunks.flatten := by
  induction asks generalizing chunks shown with
  | nil =>
    show (drain (⟨chunks, false⟩ : Fixed)).1.flatten = chunks.flatten
    rw [drain_fixed]
  | cons a asks ih =>
    rw [List.mem_cons, not_or] at hcancel
    simp only [exchanges, orderly, Bool.and_eq_true] at horderly
    obtain ⟨left, hleft, hkept, hshown'⟩ := ask_fixed hshown (Ne.symm hcancel.1) horderly.1
    have hrest := ih hshown' hcancel.2 (hleft ▸ horderly.2)
    show (_ ++ taken _ (exchanges (ask _ a).2 asks)) ++ (drain (asked (ask _ a).2 asks)).1.flatten = _
    rw [hleft, List.append_assoc, hrest, hkept]

/-! ## A reader with a pipe, and its senders -/

namespace Piped

/-- What happens to a pipe: its reader asks, or its senders do something. -/
inductive Event where
  | ask (a : Ask)
  | sending (s : Sending)
  deriving DecidableEq, Repr

namespace Event

/-- What is sent. -/
def chunk? : Event → Option Bytes
  | ask _ => none
  | sending s => s.chunk?

/-- Whether a chunk that was shown is left as it is. -/
def leaves : Event → Bool
  | ask a => a = .offer
  | sending _ => true

end Event

/-- What the reader asks, with the answers, while the senders send. -/
def exchanges (p : Piped) : List Event → List Exchange
  | [] => []
  | .ask a :: events => (Body.ask p a).1 :: exchanges (Body.ask p a).2 events
  | .sending s :: events => exchanges (p.meet s) events

def occur (p : Piped) : Event → Piped
  | .ask a => (Body.ask p a).2
  | .sending s => p.meet s

def after (p : Piped) (events : List Event) : Piped := events.foldl occur p

theorem after_append (p : Piped) (events more : List Event) :
    p.after (events ++ more) = (p.after events).after more := List.foldl_append

variable {p : Piped} {chunks : List Bytes} {shown : Option Bytes}

theorem Holds.eq_cons (h : p.Holds chunks) {bytes : Bytes} (hcurrent : p.current = some bytes) :
    ∃ rest, chunks = bytes :: rest := by
  obtain ⟨-, queued, -, rfl⟩ := h
  exact ⟨queued, by simp [hcurrent]⟩

/-- What one ask takes, and what it leaves. A chunk that was shown is out of the queue. -/
theorem ask_holds (h : p.Holds chunks)
    (hshown : ∀ bytes, shown = some bytes → p.current = some bytes) {a : Ask} (ha : a ≠ .cancel)
    (hpermitted : (Body.ask p a).1.permitted shown) :
    let e := (Body.ask p a).1
    ∃ left, (Body.ask p a).2.Holds left ∧ e.piece shown ++ left.flatten = chunks.flatten ∧
      ∀ bytes, e.shown shown = some bytes → (Body.ask p a).2.current = some bytes := by
  intro e
  cases a with
  | offer =>
    cases chunks with
    | nil =>
      have hoffer := ask_offer h.offer_nil
      refine ⟨[], by rwa [hoffer], rfl, fun bytes he => ?_⟩
      have hnone : e.shown shown = shown := by
        simp only [e, hoffer]
        split <;> rfl
      rw [hoffer]
      exact hshown bytes (hnone ▸ he)
    | cons first chunks =>
      obtain ⟨p', hoffer, hholds, hcurrent, -⟩ := h.offer_cons
      have hoffer := ask_offer hoffer
      have hfirst : e.shown shown = some first := by simp only [e, hoffer, Exchange.shown]
      refine ⟨first :: chunks, by rwa [hoffer], rfl, fun bytes he => ?_⟩
      rw [hoffer, hcurrent, ← hfirst, he]
  | take count =>
    obtain ⟨bytes, rfl⟩ := Option.isSome_iff_exists.1 hpermitted
    have hcurrent := hshown bytes rfl
    obtain ⟨rest, rfl⟩ := h.eq_cons hcurrent
    obtain ⟨p', htake, hleft, -⟩ := h.take (by simp [hcurrent]) count
    refine ⟨trim count (bytes :: rest), ?_, take_append_trim count bytes rest, nofun⟩
    rwa [ask_take htake]
  | cancel => exact absurd rfl ha

theorem after_holds (h : p.Holds chunks)
    (hshown : ∀ bytes, shown = some bytes → p.current = some bytes) {events : List Event}
    (hcancel : .ask .cancel ∉ events) (horderly : orderly shown (p.exchanges events)) :
    taken shown (p.exchanges events) ++ (drain (p.after events)).1.flatten =
      chunks.flatten ++ (events.filterMap Event.chunk?).flatten := by
  induction events generalizing p chunks shown with
  | nil =>
    show (drain p).1.flatten = chunks.flatten ++ []
    rw [drain_holds h, List.append_nil]
  | cons event events ih =>
    rw [List.mem_cons, not_or] at hcancel
    cases event with
    | ask a =>
      simp only [exchanges, orderly, Bool.and_eq_true] at horderly
      have ha : a ≠ .cancel := fun ha => hcancel.1 (ha ▸ rfl)
      obtain ⟨left, hleft, hkept, hshown'⟩ := ask_holds h hshown ha horderly.1
      have hrest := ih hleft hshown' hcancel.2 horderly.2
      show (_ ++ taken _ ((Body.ask p a).2.exchanges events)) ++
        (drain ((Body.ask p a).2.after events)).1.flatten = _
      rw [List.append_assoc, hrest, ← List.append_assoc, hkept]
      rfl
    | sending s =>
      have hshown' : ∀ bytes, shown = some bytes → (p.meet s).current = some bytes := by
        rwa [current_meet]
      have hrest := ih (h.meet s) hshown' hcancel.2 horderly
      show taken shown ((p.meet s).exchanges events) ++ (drain ((p.meet s).after events)).1.flatten = _
      have hchunks : (.sending s :: events : List Event).filterMap Event.chunk? =
          s.chunk?.toList ++ events.filterMap Event.chunk? := by
        cases s <;> rfl
      rw [hrest, hchunks, List.flatten_append, List.flatten_append, List.append_assoc]

/-! ## Looking again -/

/-- The pipe has moved a chunk out of its queue. -/
structure Shows (p : Piped) (bytes : Bytes) : Prop where
  uncancelled : p.cancelled = false
  current : p.current = some bytes

variable {bytes : Bytes}

theorem Shows.offer (h : p.Shows bytes) : Body.offer p = (.chunk bytes, p) := by
  show p.offer = _
  simp [Piped.offer, h.uncancelled, h.current]

theorem shows_of_offer (h : (Body.offer p).1 = .chunk bytes) : (Body.offer p).2.Shows bytes := by
  obtain ⟨queue, current, cancelled, senders⟩ := p
  cases cancelled with
  | true => cases h
  | false =>
    cases current with
    | some held =>
      obtain rfl : held = bytes := by simpa [Body.offer, Piped.offer] using h
      exact ⟨rfl, rfl⟩
    | none =>
      cases queue with
      | nil => by_cases hs : senders = 0 <;> simp [Body.offer, Piped.offer, hs] at h
      | cons item queue =>
        cases item with
        | error cause => cases h
        | ok held =>
          obtain rfl : held = bytes := by simpa [Body.offer, Piped.offer] using h
          exact ⟨rfl, rfl⟩

theorem Shows.after (h : p.Shows bytes) {events : List Event} (hleaves : ∀ e ∈ events, e.leaves) :
    (p.after events).Shows bytes := by
  induction events generalizing p with
  | nil => exact h
  | cons event events ih =>
    rw [List.forall_mem_cons] at hleaves
    refine ih ?_ hleaves.2
    cases event with
    | ask a =>
      obtain rfl : a = .offer := by simpa [Event.leaves] using hleaves.1
      show (Body.ask p .offer).2.Shows bytes
      rwa [ask_offer h.offer]
    | sending s =>
      refine ⟨?_, (current_meet p s).trans h.current⟩
      cases s <;> simp [occur, meet, push, addSender, dropSender, h.uncancelled]

end Piped

/-- A list of chunks is not changed by looking at it. -/
theorem asked_offers {asks : List Ask} (h : ∀ a ∈ asks, a = .offer) (f : Fixed) :
    asked f asks = f := by
  induction asks with
  | nil => rfl
  | cons a asks ih =>
    rw [List.forall_mem_cons] at h
    obtain ⟨rfl, h⟩ := h
    have hoffer : f.offer.2 = f := by
      unfold Fixed.offer
      split
      · rfl
      · split <;> rfl
    show asked f.offer.2 asks = f
    rw [hoffer, ih h]

/-- Data that is cut into pieces; a list of chunks that a reader is given; and a new pipe, whose
    senders send while its reader reads. Nothing is cancelled, and no sender fails the pipe. -/
theorem bytes_kept (data : Bytes) (size : Nat) (chunks : List Bytes) (asks : List Ask)
    (events : List Piped.Event) :
    let pieces := (Fixed.cut data size).chunks
    let fixed : Fixed := { chunks }
    let piped := Piped.new
    -- The pieces are the data, none is empty, and only the last can be shorter.
    (pieces.flatten = data ∧ (∀ piece ∈ pieces, piece ≠ [] ∧ piece.length ≤ max size 1) ∧
      ∀ piece ∈ pieces.dropLast, piece.length = max size 1) ∧
    -- What was taken, and then all that is left, is what was supplied.
    (.cancel ∉ asks → orderly none (exchanges fixed asks) →
      taken none (exchanges fixed asks) ++ (drain (asked fixed asks)).1.flatten = chunks.flatten) ∧
    (.ask .cancel ∉ events → orderly none (piped.exchanges events) →
      taken none (piped.exchanges events) ++ (drain (piped.after events)).1.flatten =
        (events.filterMap Piped.Event.chunk?).flatten) ∧
    -- A chunk that was offered is offered again until something is taken or the body cancelled.
    (∀ bytes, (offer (asked fixed asks)).1 = .chunk bytes → ∀ looks, (∀ a ∈ looks, a = .offer) →
      (offer (asked fixed (asks ++ .offer :: looks))).1 = .chunk bytes) ∧
    (∀ bytes, (offer (piped.after events)).1 = .chunk bytes →
      ∀ meanwhile, (∀ e ∈ meanwhile, e.leaves) →
        (offer (piped.after (events ++ .ask .offer :: meanwhile))).1 = .chunk bytes) := by
  intro pieces fixed piped
  refine ⟨⟨Fixed.flatten_pieces size data, fun _ => Fixed.length_of_mem_pieces,
    fun _ => Fixed.length_of_mem_dropLast_pieces⟩, asked_fixed (by simp), fun hcancel horderly => ?_,
    fun bytes hoffer looks hlooks => ?_, fun bytes hoffer meanwhile hmeanwhile => ?_⟩
  · have hkept := Piped.after_holds Piped.holds_new (by simp) hcancel horderly
    rwa [List.flatten_nil, List.nil_append] at hkept
  · have hall : ∀ a ∈ Ask.offer :: looks, a = .offer := List.forall_mem_cons.2 ⟨rfl, hlooks⟩
    rw [asked_append, asked_offers hall]
    exact hoffer
  · rw [Piped.after_append]
    have hshown := (Piped.shows_of_offer hoffer).after hmeanwhile
    show (offer ((offer (piped.after events)).2.after meanwhile)).1 = .chunk bytes
    rw [hshown.offer]

/-- Five bytes cut in twos. Of the first chunk two parts are taken, of the second too much, and the
    last is sent while the second is being looked at. -/
theorem bytes_kept_in_parts :
    let asks : List Ask := [.offer, .take 1, .offer, .offer, .take 1, .offer, .take 7]
    let fixed := Fixed.cut [1, 2, 3, 4, 5] 2
    let events : List Piped.Event := [.sending (.send [1, 2]), .ask .offer, .ask (.take 1),
      .sending (.send [3, 4]), .ask .offer, .ask (.take 1), .ask .offer, .sending (.send [5]),
      .ask .offer, .ask (.take 7)]
    let piped := Piped.new
    fixed.chunks = [[1, 2], [3, 4], [5]] ∧
    (.cancel ∉ asks ∧ orderly none (exchanges fixed asks) ∧
      taken none (exchanges fixed asks) ++ (drain (asked fixed asks)).1.flatten = [1, 2, 3, 4, 5]) ∧
    (.ask .cancel ∉ events ∧ orderly none (piped.exchanges events) ∧
      taken none (piped.exchanges events) ++ (drain (piped.after events)).1.flatten =
        [1, 2, 3, 4, 5]) := by
  intro asks fixed events piped
  have hpieces : fixed.chunks = [[1, 2], [3, 4], [5]] := by
    simp [fixed, Fixed.cut, Fixed.pieces]
  have hfixed : fixed = { chunks := [[1, 2], [3, 4], [5]] } := by
    simp [fixed, Fixed.cut, Fixed.pieces]
  have hasks : .cancel ∉ asks := by decide
  have hevents : .ask .cancel ∉ events := by decide
  have horderly : orderly none (exchanges ({ chunks := [[1, 2], [3, 4], [5]] } : Fixed) asks) := by
    decide
  have hpiped : orderly none (piped.exchanges events) := by decide
  obtain ⟨-, hkept, hkept', -⟩ :=
    bytes_kept [1, 2, 3, 4, 5] 2 [[1, 2], [3, 4], [5]] asks events
  refine ⟨hpieces, ⟨hasks, ?_, ?_⟩, hevents, hpiped, hkept' hevents hpiped⟩
  · rwa [hfixed]
  · rw [hfixed]
    exact hkept hasks horderly

end CompileCache.Body
