/-
  CompileCache.Proofs.Body.Exchange — what a reader asks of a body, and what it is answered.

  A reader asks for the next chunk, says how much of it was taken, or cancels the body; each
  time it is answered (`Exchange`). A reader is `orderly` if it takes only of a chunk that it
  was shown: offered since it last took something.

  A list of chunks and an open pipe both hold chunks in order and offer the first one; what is
  taken of it trims them (`trim`). But the list takes from its front whether or not it was
  offered, and a pipe only from the chunk that it has moved out of its queue. `Alike` is how the
  two stand while the reader is orderly. It is kept by every exchange (`ask_alike`), also by a
  cancellation, after which neither has anything to offer (`finished_of_cancelled`).

  Proved: a pipe to which chunks were sent, and whose senders are gone, answers every orderly
  reader as a list of these chunks does (`piped_answers_as_fixed`). That holds of any list of
  asks, so also of a reader who asks by what he was answered: until two answers differ, he asks
  the same of both.
-/

import CompileCache.Body.Fixed
import CompileCache.Body.Piped

namespace CompileCache.Body

inductive Ask where
  | offer
  /-- So much was taken of the chunk last offered. -/
  | take (count : Nat)
  | cancel
  deriving DecidableEq, Repr

/-- What was asked, with the answer. -/
inductive Exchange where
  | offered (answer : Offer)
  | took (count : Nat) (answer : Taken)
  | cancelled
  deriving DecidableEq, Repr

namespace Exchange

/-- The chunk that a reader has been shown and has taken nothing of. -/
def shown (before : Option Bytes) : Exchange → Option Bytes
  | offered (.chunk bytes) => some bytes
  | took .. => none
  | _ => before

def permitted (shown : Option Bytes) : Exchange → Bool
  | took .. => shown.isSome
  | _ => true

end Exchange

/-- Something is taken only if a chunk was offered since something was last taken. -/
def orderly (shown : Option Bytes) : List Exchange → Bool
  | [] => true
  | e :: es => e.permitted shown && orderly (e.shown shown) es

section Asking

variable {σ : Type} [Body σ]

def ask (body : σ) : Ask → Exchange × σ
  | .offer => (.offered (offer body).1, (offer body).2)
  | .take count => (.took count (take body count).1, (take body count).2)
  | .cancel => (.cancelled, cancel body)

theorem ask_offer {body rest : σ} {answer : Offer} (h : offer body = (answer, rest)) :
    ask body .offer = (.offered answer, rest) := by
  rw [ask, h]

theorem ask_take {body rest : σ} {count : Nat} {answer : Taken}
    (h : take body count = (answer, rest)) : ask body (.take count) = (.took count answer, rest) := by
  rw [ask, h]

def exchanges (body : σ) : List Ask → List Exchange
  | [] => []
  | a :: asks => (ask body a).1 :: exchanges (ask body a).2 asks

/-- The body after it was asked. -/
def asked (body : σ) (asks : List Ask) : σ := asks.foldl (fun body a => (ask body a).2) body

theorem asked_append (body : σ) (asks more : List Ask) :
    asked body (asks ++ more) = asked (asked body asks) more := List.foldl_append

/-- What a cancellation brings about, and nothing undoes, holds after it. -/
theorem asked_of_cancel {P : σ → Prop} (hcancel : ∀ body : σ, P (cancel body))
    (hkept : ∀ (body : σ) (a : Ask), P body → P (ask body a).2) {asks : List Ask}
    (h : .cancel ∈ asks) (body : σ) : P (asked body asks) := by
  obtain ⟨before, after, rfl⟩ := List.append_of_mem h
  rw [asked_append]
  show P (asked (cancel (asked body before)) after)
  have hnow := hcancel (asked body before)
  generalize cancel (asked body before) = body' at hnow
  induction after generalizing body' with
  | nil => exact hnow
  | cons a after ih => exact ih (by simp) _ (hkept body' a hnow)

end Asking

/-- What is left of chunks when so much was taken of the first. -/
def trim (count : Nat) : List Bytes → List Bytes
  | [] => []
  | bytes :: chunks => if bytes.length ≤ count then chunks else bytes.drop count :: chunks

/-! ## Chunks at hand -/

namespace Fixed

theorem offer_eq (chunks : List Bytes) : Body.offer (⟨chunks, false⟩ : Fixed) =
    (match chunks with | [] => .finished | bytes :: _ => .chunk bytes, ⟨chunks, false⟩) := by
  cases chunks <;> rfl

theorem take_eq (s : Fixed) (count : Nat) :
    Body.take s count = (.more, { s with chunks := trim count s.chunks }) := by
  obtain ⟨chunks, cancelled⟩ := s
  show Fixed.take _ count = _
  cases chunks with
  | nil => rfl
  | cons bytes chunks => by_cases h : bytes.length ≤ count <;> simp [take, trim, h]

theorem offer_cancelled {s : Fixed} (h : s.cancelled) : Body.offer s = (.finished, s) := by
  show s.offer = _
  simp [offer, h]

end Fixed

/-! ## Chunks that were sent -/

namespace Piped

/-- The pipe is open, nobody has failed it, and these chunks are still to be read. The first
    of them may have been moved out of the queue. -/
structure Holds (p : Piped) (chunks : List Bytes) : Prop where
  uncancelled : p.cancelled = false
  chunks : ∃ queued, p.queue = queued.map .ok ∧ p.current.toList ++ queued = chunks

theorem holds_new : new.Holds [] := ⟨rfl, [], rfl, rfl⟩

variable {p : Piped} {bytes : Bytes} {chunks : List Bytes}

/-- What is offered stays to be read, outside the queue. -/
theorem Holds.offer_cons (h : p.Holds (bytes :: chunks)) :
    ∃ p', Body.offer p = (.chunk bytes, p') ∧ p'.Holds (bytes :: chunks) ∧
      p'.current = some bytes ∧ p'.senders = p.senders := by
  obtain ⟨queue, current, cancelled, senders⟩ := p
  obtain ⟨rfl, queued, rfl, hchunks⟩ := h
  cases current with
  | some held =>
    obtain ⟨rfl, rfl⟩ : held = bytes ∧ queued = chunks := by simpa using hchunks
    exact ⟨_, rfl, ⟨rfl, queued, rfl, rfl⟩, rfl, rfl⟩
  | none =>
    obtain rfl : queued = bytes :: chunks := hchunks
    exact ⟨_, rfl, ⟨rfl, chunks, rfl, rfl⟩, rfl, rfl⟩

theorem Holds.offer_nil (h : p.Holds []) :
    Body.offer p = (if p.senders = 0 then .finished else .wait, p) := by
  obtain ⟨queue, current, cancelled, senders⟩ := p
  obtain ⟨rfl, queued, rfl, hchunks⟩ := h
  obtain ⟨hcurrent, rfl⟩ := List.append_eq_nil_iff.1 hchunks
  obtain rfl : current = none := by simpa using hcurrent
  rfl

theorem Holds.take (h : p.Holds chunks) (hshown : p.current.isSome) (count : Nat) :
    ∃ p', Body.take p count = (.more, p') ∧ p'.Holds (trim count chunks) ∧
      p'.senders = p.senders := by
  obtain ⟨queue, current, cancelled, senders⟩ := p
  obtain ⟨rfl, queued, rfl, rfl⟩ := h
  obtain ⟨held, rfl⟩ := Option.isSome_iff_exists.1 hshown
  show ∃ p', Piped.take _ count = _ ∧ _
  by_cases hall : held.length ≤ count
  · refine ⟨⟨queued.map .ok, none, false, senders⟩, ?_, ⟨rfl, queued, rfl, ?_⟩, rfl⟩
    · simp [Piped.take, hall]
    · simp [trim, hall]
  · refine ⟨⟨queued.map .ok, some (held.drop count), false, senders⟩, ?_, ⟨rfl, queued, rfl, ?_⟩, rfl⟩
    · simp [Piped.take, hall]
    · simp [trim, hall]

theorem take_of_none (h : p.current = none) (count : Nat) : Body.take p count = (.more, p) := by
  show p.take count = _
  simp [take, h]

theorem offer_cancelled (h : p.cancelled) : Body.offer p = (.finished, p) := by
  show p.offer = _
  simp [offer, h]

/-- What the sending side of a pipe does. -/
inductive Sending where
  | send (chunk : Bytes)
  | addSender
  | dropSender
  deriving DecidableEq, Repr

def Sending.chunk? : Sending → Option Bytes
  | send chunk => some chunk
  | _ => none

def meet (p : Piped) : Sending → Piped
  | .send chunk => p.push (.ok chunk)
  | .addSender => p.addSender
  | .dropSender => p.dropSender

def met (p : Piped) (sending : List Sending) : Piped := sending.foldl meet p

theorem Holds.meet (h : p.Holds chunks) (s : Sending) :
    (p.meet s).Holds (chunks ++ s.chunk?.toList) := by
  obtain ⟨hopen, queued, hqueue, rfl⟩ := h
  cases s with
  | send chunk =>
    refine ⟨?_, queued ++ [chunk], ?_, ?_⟩
    · simp [Piped.meet, push, hopen]
    · simp [Piped.meet, push, hopen, hqueue]
    · simp [Piped.meet, push, hopen, Sending.chunk?]
  | addSender => exact ⟨hopen, queued, hqueue, by simp [Piped.meet, addSender, Sending.chunk?]⟩
  | dropSender => exact ⟨hopen, queued, hqueue, by simp [Piped.meet, dropSender, Sending.chunk?]⟩

theorem current_meet (p : Piped) (s : Sending) : (p.meet s).current = p.current := by
  cases s with
  | send chunk =>
    simp only [meet, push]
    split <;> rfl
  | addSender => rfl
  | dropSender => rfl

theorem Holds.met (h : p.Holds chunks) (sending : List Sending) :
    (p.met sending).Holds (chunks ++ sending.filterMap Sending.chunk?) := by
  induction sending generalizing p chunks with
  | nil => simpa [Piped.met] using h
  | cons s sending ih =>
    have hall : ((p.meet s).met sending).Holds
        (chunks ++ s.chunk?.toList ++ sending.filterMap Sending.chunk?) := ih (h.meet s)
    have hchunks : (s :: sending).filterMap Sending.chunk? =
        s.chunk?.toList ++ sending.filterMap Sending.chunk? := by
      cases s <;> rfl
    rw [hchunks, ← List.append_assoc]
    exact hall

end Piped

/-! ## The two compared -/

/-- How a list of chunks and a pipe stand when they have answered alike so far. -/
inductive Alike (shown : Option Bytes) : Fixed → Piped → Prop
  | serving {chunks : List Bytes} {p : Piped} : p.Holds chunks → p.senders = 0 →
      (shown.isSome → p.current.isSome) → Alike shown ⟨chunks, false⟩ p
  | cancelled {p : Piped} : p.cancelled → p.current = none → Alike shown ⟨[], true⟩ p

theorem ask_alike {shown : Option Bytes} {f : Fixed} {p : Piped} (h : Alike shown f p) (a : Ask)
    (hpermitted : (ask f a).1.permitted shown ∨ (ask p a).1.permitted shown) :
    (ask f a).1 = (ask p a).1 ∧
      Alike ((ask f a).1.shown shown) (ask f a).2 (ask p a).2 := by
  cases h with
  | @serving chunks _ hholds hsenders hshown =>
    cases a with
    | offer =>
      have hfixed := ask_offer (Fixed.offer_eq chunks)
      cases chunks with
      | nil =>
        have hoffer := hholds.offer_nil
        rw [if_pos hsenders] at hoffer
        rw [hfixed, ask_offer hoffer]
        exact ⟨rfl, .serving hholds hsenders hshown⟩
      | cons bytes chunks =>
        obtain ⟨p', hoffer, hholds', hcurrent, hsenders'⟩ := hholds.offer_cons
        rw [hfixed, ask_offer hoffer]
        exact ⟨rfl, .serving hholds' (hsenders'.trans hsenders) fun _ => by simp [hcurrent]⟩
    | take count =>
      have hsome : p.current.isSome := hshown (by simpa [ask, Exchange.permitted] using hpermitted)
      obtain ⟨p', htake, hholds', hsenders'⟩ := hholds.take hsome count
      rw [ask_take (Fixed.take_eq ⟨chunks, false⟩ count), ask_take htake]
      exact ⟨rfl, .serving hholds' (hsenders'.trans hsenders) nofun⟩
    | cancel => exact ⟨rfl, .cancelled rfl rfl⟩
  | cancelled hcancelled hcurrent =>
    cases a with
    | offer =>
      rw [ask_offer (Piped.offer_cancelled hcancelled)]
      exact ⟨rfl, .cancelled hcancelled hcurrent⟩
    | take count =>
      rw [ask_take (Piped.take_of_none hcurrent count)]
      exact ⟨rfl, .cancelled hcancelled hcurrent⟩
    | cancel => exact ⟨rfl, .cancelled rfl rfl⟩

theorem exchanges_alike {shown : Option Bytes} {f : Fixed} {p : Piped} (h : Alike shown f p)
    {asks : List Ask} (horderly : orderly shown (exchanges f asks) ∨ orderly shown (exchanges p asks)) :
    exchanges f asks = exchanges p asks := by
  induction asks generalizing shown f p with
  | nil => rfl
  | cons a asks ih =>
    simp only [exchanges, orderly, Bool.and_eq_true] at horderly ⊢
    obtain ⟨hsame, halike⟩ := ask_alike h a (horderly.imp And.left And.left)
    rw [← hsame] at horderly ⊢
    rw [ih halike (horderly.imp And.right And.right)]

/-! ## After a cancellation -/

theorem Fixed.cancelled_ask {f : Fixed} (h : f.cancelled) (a : Ask) : (ask f a).2.cancelled := by
  cases a with
  | offer =>
    rw [ask_offer (Fixed.offer_cancelled h)]
    exact h
  | take count =>
    rw [ask_take (Fixed.take_eq f count)]
    exact h
  | cancel => rfl

theorem Piped.cancelled_ask {p : Piped} (h : p.cancelled) (a : Ask) : (ask p a).2.cancelled := by
  cases a with
  | offer =>
    rw [ask_offer (Piped.offer_cancelled h)]
    exact h
  | take count =>
    show (p.take count).2.cancelled
    unfold Piped.take
    split
    · exact h
    · split <;> exact h
  | cancel => rfl

theorem finished_of_cancelled {asks : List Ask} (h : .cancel ∈ asks) (f : Fixed) (p : Piped) :
    (offer (asked f asks)).1 = .finished ∧ (offer (asked p asks)).1 = .finished := by
  have hfixed : (asked f asks).cancelled :=
    asked_of_cancel (P := fun f : Fixed => f.cancelled) (fun _ => rfl)
      (fun _ a hf => Fixed.cancelled_ask hf a) h f
  have hpiped : (asked p asks).cancelled :=
    asked_of_cancel (P := fun p : Piped => p.cancelled) (fun _ => rfl)
      (fun _ a hp => Piped.cancelled_ask hp a) h p
  rw [Fixed.offer_cancelled hfixed, Piped.offer_cancelled hpiped]
  exact ⟨rfl, rfl⟩

/-- A list of chunks, and a pipe to which they were sent, by however many senders, of which none
    is left. -/
theorem piped_answers_as_fixed (chunks : List Bytes) (sending : List Piped.Sending)
    (hsent : sending.filterMap Piped.Sending.chunk? = chunks)
    (hclosed : (Piped.new.met sending).senders = 0) (asks : List Ask) :
    let fixed : Fixed := { chunks }
    let piped := Piped.new.met sending
    -- It is enough that the reader is orderly with one of the two.
    (orderly none (exchanges fixed asks) ∨ orderly none (exchanges piped asks) →
      exchanges fixed asks = exchanges piped asks) ∧
    (.cancel ∈ asks →
      (offer (asked fixed asks)).1 = .finished ∧ (offer (asked piped asks)).1 = .finished) := by
  intro fixed piped
  have hholds : piped.Holds chunks := by
    rw [← hsent]
    exact Piped.holds_new.met sending
  have halike : Alike none fixed piped := .serving hholds hclosed nofun
  exact ⟨exchanges_alike halike, fun h => finished_of_cancelled h fixed piped⟩

/-- An empty chunk, a chunk that is looked at twice and taken in three parts, and a chunk of which
    too much is taken. -/
theorem piped_answers_as_fixed_in_parts :
    let chunks : List Bytes := [[], [1, 2, 3], [4]]
    let sending : List Piped.Sending :=
      [.send [], .addSender, .send [1, 2, 3], .dropSender, .send [4], .dropSender]
    let asks : List Ask := [.offer, .take 0, .offer, .take 0, .offer, .offer, .take 2, .offer,
      .take 1, .offer, .take 7, .offer, .cancel, .offer]
    let fixed : Fixed := { chunks }
    let piped := Piped.new.met sending
    (sending.filterMap Piped.Sending.chunk? = chunks ∧ piped.senders = 0 ∧
      orderly none (exchanges fixed asks)) ∧
    exchanges fixed asks = exchanges piped asks ∧ .cancel ∈ asks ∧
      (offer (asked piped asks)).1 = .finished := by
  intro chunks sending asks fixed piped
  have horderly : orderly none (exchanges fixed asks) := by decide
  have hcancel : .cancel ∈ asks := by decide
  obtain ⟨hsame, hfinished⟩ := piped_answers_as_fixed chunks sending rfl rfl asks
  exact ⟨⟨rfl, rfl, horderly⟩, hsame (.inl horderly), hcancel, (hfinished hcancel).2⟩

end CompileCache.Body
