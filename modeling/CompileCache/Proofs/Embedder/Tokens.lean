/-
  CompileCache.Proofs.Embedder.Tokens — a token is spent once.

  Whoever spends a token, lets it go or takes down the guard that holds it tells the compiler
  an outcome. A guard goes in parts: a failure that it has noted takes the token out and
  spends it, and then what is left goes by itself, when a token that is still unspent tells a
  silent failure. The functions that run know only the sum of that. Here the parts go one by
  one, with a mark on a token that was spent (`Token.Held`, `Guard.Held`), and come to the
  same (`Parting.told_held`).

  On a desk, tokens are made, laid in the place of others, guarded, handed on and spent in
  any order (`Deskwork`). Each piece of work keeps the sum of what a compiler was told and
  what is still unspent (`work_linear`), so that only a new token adds to it
  (`works_linear`). Nobody else tells the compiler as long as no session is to
  (`Unwired`).

  Proved: whatever failures are noted, however the guard is taken down and whatever is done
  with a token that it hands on, the compiler is told once, and told the first failure if
  there is one (`guarded_token_told_once`).
-/

import CompileCache.Embedder.Desk
import CompileCache.Proofs.Embedder.Setup

namespace CompileCache

/-! ## What is done with tokens and guards -/

/-- The ways to note a failure. -/
inductive Noting where
  | error (error : CompileError)
  | silent
  | reason (failure : Failure)

namespace Noting

def failure : Noting → Failure
  | error e => .visible e
  | silent => .silent
  | reason failure => failure

def on (g : Guard) : Noting → Guard
  | error e => g.noteError e
  | silent => g.noteSilent
  | reason failure => g.note failure

theorem on_eq (g : Guard) (n : Noting) : n.on g = g.note n.failure := by
  cases n <;> rfl

end Noting

/-- The ways to use a token up. -/
inductive Spending where
  | succeed (trusted : Bool)
  | fail (failure : Failure)
  | letGo

namespace Spending

def spend (t : Token) : Spending → Outcome
  | succeed trusted => t.succeed trusted
  | fail failure => t.fail failure
  | letGo => t.drop

/-- What the compiler is told. -/
def outcome : Spending → Outcome
  | succeed trusted => .compiled trusted
  | fail failure => .failed failure
  | letGo => .failed .silent

theorem spend_eq (t : Token) (s : Spending) : s.spend t = s.outcome := by
  cases s <;> rfl

end Spending

/-- The ways to take a guard down. A token that is handed on is spent in some way; to finish a
    guard is to let it go. -/
inductive Parting where
  | handOn (spending : Spending)
  | letGo

/-- What the compiler is told in the end, by the first failure that was noted. -/
def Parting.outcome (first : Option Failure) : Parting → Outcome
  | handOn spending =>
    match first with
    | some failure => .failed failure
    | none => spending.outcome
  | letGo => .failed (first.getD .silent)

/-- What is done by hand with tokens and guards. -/
inductive Deskwork where
  | newToken
  | spend (spending : Spending)
  | newGuard
  | note (noting : Noting)
  | handOn
  | dropGuard

def Deskwork.makesToken : Deskwork → Bool
  | newToken => true
  | _ => false

/-- What is done to take the guard down, and to use up a token that it hands on. -/
def Parting.works : Parting → List Deskwork
  | handOn spending => [.handOn, .spend spending]
  | letGo => [.dropGuard]

/-! ## Part by part -/

/-- A token with a mark that it was spent. -/
structure Token.Held where
  token : Token
  spent : Bool := false

namespace Token.Held

/-- What is told when the token goes. -/
def gone (t : Held) : List Outcome := if t.spent then [] else [t.token.drop]

/-- The token is marked, the compiler told, and then the token goes. -/
def spend (t : Held) : Spending → List Outcome
  | .letGo => t.gone
  | .succeed trusted => t.token.succeed trusted :: { t with spent := true }.gone
  | .fail failure => t.token.fail failure :: { t with spent := true }.gone

theorem spend_eq (t : Token) (s : Spending) : (⟨t, false⟩ : Held).spend s = [s.spend t] := by
  cases s <;> rfl

end Token.Held

/-- A guard whose token may have been taken out. -/
structure Guard.Held where
  token : Option Token.Held
  noted : Option Failure

namespace Guard

namespace Held

/-- What is told when the guard goes: a noted failure takes the token out and spends it, and
    then what is left of the guard goes. -/
def gone (g : Held) : List Outcome :=
  match g.noted, g.token with
  | some failure, some t => t.spend (.fail failure)
  | some _, none => []
  | none, token => token.toList.flatMap Token.Held.gone

/-- Takes the token out if no failure was noted. Either way the guard goes. -/
def handOn (g : Held) : Option Token.Held × List Outcome :=
  if g.noted.isSome then (none, g.gone) else (g.token, { g with token := none }.gone)

end Held

/-- The guard, with its parts apart. -/
def held (g : Guard) : Held := ⟨some ⟨g.token, false⟩, g.noted⟩

theorem gone_held (g : Guard) : g.held.gone = [g.drop] := by
  obtain ⟨token, noted⟩ := g
  cases noted <;> rfl

theorem handOn_held (g : Guard) : g.held.handOn = match g.handOn with
    | .ok t => (some ⟨t, false⟩, [])
    | .error outcome => (none, [outcome]) := by
  obtain ⟨token, noted⟩ := g
  cases noted <;> rfl

theorem drop_eq (g : Guard) : g.drop = .failed (g.noted.getD .silent) := by
  obtain ⟨token, noted⟩ := g
  cases noted <;> rfl

end Guard

/-- All that is told when the guard is taken down and its parts go. -/
def Parting.told (g : Guard.Held) : Parting → List Outcome
  | handOn spending => g.handOn.2 ++ g.handOn.1.toList.flatMap (·.spend spending)
  | letGo => g.gone

theorem Parting.told_held (g : Guard) (p : Parting) : p.told g.held = [p.outcome g.noted] := by
  cases p with
  | letGo => rw [Parting.told, Guard.gone_held, Guard.drop_eq, Parting.outcome]
  | handOn spending =>
    rw [Parting.told, Guard.handOn_held]
    cases hnoted : g.noted with
    | some failure => simp [Guard.handOn, hnoted, Parting.outcome, Token.fail]
    | none =>
      simp [Guard.handOn, hnoted, Parting.outcome, Token.Held.spend_eq, Spending.spend_eq]

/-! ## Who is told -/

/-- Whether the event is that the compiler is told an outcome. -/
def Event.tells (id : CompilerId) : Event → Bool
  | compilerTold other _ => other = id
  | _ => false

theorem Event.compiler?_of_tells {id : CompilerId} {e : Event} (h : e.tells id) :
    e.compiler? = some id := by
  cases e <;> simp_all [tells, compiler?]

/-- How often the compiler is to be told, by whoever spends the token. -/
def Token.due (id : CompilerId) : Option Token → Nat
  | some t => if t.compiler = id then 1 else 0
  | none => 0

namespace Embedder

variable {m m' : Embedder} {id : CompilerId}

/-- How often the compiler was told. -/
def timesTold (m : Embedder) (id : CompilerId) : Nat := m.trace.countP (Event.tells id)

/-- Compiler `id` exists, and no session is to call it. -/
structure Unwired (id : CompilerId) (m : Embedder) : Prop where
  made : id < m.compilers.length
  unwired : Confined (· ≠ id) m

/-- Nothing is rewired while sessions run, whoever they call. -/
theorem Ran.unwired {calls : CompilerId → Prop} (h : Ran calls m m') (hm : Unwired id m) :
    Unwired id m' := by
  have hlength : m'.compilers.length = m.compilers.length := by
    simpa using congrArg List.length h.compilers
  exact ⟨hlength ▸ hm.made, h.confined hm.unwired⟩

theorem Ran.timesTold (h : Ran (· ≠ id) m m') : m'.timesTold id = m.timesTold id := by
  obtain ⟨new, hnew, hall⟩ := h.events
  have hnone : new.countP (Event.tells id) = 0 :=
    List.countP_eq_zero.2 fun e he htells => (hall e he).2 id (Event.compiler?_of_tells htells) rfl
  rw [Embedder.timesTold, hnew, List.countP_append, hnone, Nat.zero_add]
  rfl

/-- Nobody is told anything by a task that is posted. -/
theorem trace_post (m : Embedder) (t : Thread) (task : Task) : (m.post t task).2.trace = m.trace := by
  simp only [post]
  split
  · rfl
  · cases t <;> rfl

/-- A compiler that reports its module is told nothing by that. -/
theorem report_trace (m : Embedder) (c : Compiler) :
    ∃ new, (m.report id c).trace = new ++ m.trace ∧ ∀ e ∈ new, e.tells id = false := by
  have hserialize : ∀ (r : Recorder) (module : CompiledModule),
      ∃ new, (if r.wantsSerialized module then m.log .serialize else m).trace = new ++ m.trace ∧
        ∀ e ∈ new, e.tells id = false := by
    intro r module
    split
    · exact ⟨[.serialize], rfl, by simp [Event.tells]⟩
    · exact ⟨[], rfl, List.forall_mem_nil _⟩
  unfold report
  split
  · next serialized r _ _ =>
    obtain ⟨new, hnew, hnone⟩ := hserialize r ⟨c.wire, serialized⟩
    have hrecord : (m.record r ⟨c.wire, serialized⟩).2.trace = new ++ m.trace := by
      unfold record
      cases r.judge ⟨c.wire, serialized⟩ with
      | error why => exact hnew
      | ok record => exact (trace_post _ _ _).trans hnew
    exact ⟨.reported id (m.record r ⟨c.wire, serialized⟩).1 :: new, congrArg _ hrecord,
      List.forall_mem_cons.2 ⟨rfl, hnone⟩⟩
  · exact ⟨[], rfl, List.forall_mem_nil _⟩

/-- The compiler is told and reports its module, and then it makes its requests. -/
theorem tell_eq {c : Compiler} (hc : m.compilers[id]? = some c) (outcome : Outcome) :
    ∃ told : Embedder, m.tell id outcome = told.makeRequests (tellEnding m.running) c.program ∧
      Aside m told ∧ ∃ new, told.trace = new ++ .compilerTold id outcome :: m.trace ∧
        ∀ e ∈ new, e.tells id = false := by
  let m₁ := m.log (.compilerTold id outcome)
  have haside : Aside m m₁ := aside_log m _
  simp only [tell, tellCompiler, hc]
  cases outcome with
  | compiled trusted =>
    exact ⟨m₁.report id c, rfl, haside.trans (aside_report m₁ id c), report_trace m₁ c⟩
  | failed failure => exact ⟨m₁, rfl, haside, [], rfl, List.forall_mem_nil _⟩

/-- Only sessions can come to tell the compiler anything more. -/
theorem tell_trace {c : Compiler} (hc : m.compilers[id]? = some c) (outcome : Outcome) :
    ∃ new, (m.tell id outcome).trace = new ++ .compilerTold id outcome :: m.trace ∧
      (Confined (· ≠ id) m → ∀ e ∈ new, e.tells id = false) := by
  obtain ⟨told, htell, ⟨_, _, _, haside⟩, new, hnew, hnone⟩ := tell_eq hc outcome
  let calls : CompilerId → Prop := fun other => ∃ slot ∈ m.sessions, slot.wiring.compiler = other
  have hcalls : Confined calls told := by
    rw [haside]
    exact fun slot hslot => ⟨slot, hslot, rfl⟩
  obtain ⟨more, hmore, -, hall, -⟩ := makeRequests_events m.running hcalls c.program
  refine ⟨more ++ new, by rw [htell, hmore, hnew, List.append_assoc], fun hm e he => ?_⟩
  rcases List.mem_append.1 he with he | he
  · refine Bool.eq_false_iff.2 fun htells => ?_
    obtain ⟨slot, hslot, heq⟩ := (hall e he).2 id (Event.compiler?_of_tells htells)
    exact hm slot hslot heq
  · exact hnone e he

/-- To be told counts once, and only for the compiler that is told. -/
theorem timesTold_tell (hm : Unwired id m) (other : CompilerId) (outcome : Outcome) :
    (m.tell other outcome).timesTold id = m.timesTold id + if other = id then 1 else 0 := by
  split
  · next heq =>
    subst heq
    obtain ⟨new, hnew, hnone⟩ := tell_trace (List.getElem?_eq_getElem hm.made) outcome
    have hzero : new.countP (Event.tells other) = 0 :=
      List.countP_eq_zero.2 fun e he => by simp [hnone hm.unwired e he]
    rw [timesTold, hnew, List.countP_append, hzero]
    simp [Event.tells, timesTold]
  · next hne =>
    have hran : Ran (· ≠ id) m (m.tell other outcome) :=
      tellCompiler_ran (tellEnding_ran m.running) hm.unwired hne outcome
    exact hran.timesTold

/-! ## The desk -/

theorem desk_turn (m : Embedder) (id : SessionId) (r : Request) :
    (m.turn id r).2.desk = m.desk := by
  unfold turn
  split
  · rfl
  · next slot _ =>
    split
    · rfl
    · next s _ =>
      let t := r.turn ⟨m.accepts slot.wiring.compiler, m.liveContext.isSome⟩ s
        (m.wiredStore? slot.wiring.store)
      obtain ⟨_, hput⟩ := putWiredStore_rest (m.putSession id (some t.session)) slot.wiring.store
        t.store
      obtain ⟨_, _, _, hcarried⟩ := (carryAll_carried slot.wiring
        ((m.putSession id (some t.session)).putWiredStore slot.wiring.store t.store) (r.script? s)
        t.calls).rest
      show (carryAll _ _ _ _).desk = m.desk
      rw [hcarried, hput]
      rfl

theorem desk_makeRequests {again : CompilerId → Ending Sink → Embedder → Embedder}
    (hagain : ∀ id e m, (again id e m).desk = m.desk) (m : Embedder) (program : List Request) :
    (m.makeRequests again program).desk = m.desk := by
  induction program generalizing m with
  | nil => rfl
  | cons r rs ih =>
    have hstep : (m.makeRequests again [r]).desk = m.desk := by
      simp only [makeRequests, List.foldl_cons, List.foldl_nil]
      split
      · rfl
      · next id _ =>
        rcases (m.turn id r).1 with _ | ⟨compiler, ending⟩
        · dsimp only
          split <;> exact desk_turn m id r
        · have hcalled := (hagain compiler ending _).trans (desk_turn m id r)
          dsimp only
          split <;> exact hcalled
    exact (ih _).trans hstep

theorem desk_tellCompiler {again : CompilerId → Ending Sink → Embedder → Embedder}
    (hagain : ∀ id e m, (again id e m).desk = m.desk) (m : Embedder) (id : CompilerId)
    (outcome : Outcome) : (m.tellCompiler again id outcome).desk = m.desk := by
  unfold tellCompiler
  split
  · rfl
  · next c _ =>
    cases outcome with
    | compiled trusted =>
      obtain ⟨_, _, _, haside⟩ := aside_report (m.log (.compilerTold id (.compiled trusted))) id c
      refine (desk_makeRequests hagain _ c.program).trans ?_
      rw [haside]
      rfl
    | failed failure => exact desk_makeRequests hagain _ c.program

theorem desk_tellEnding (depth : Nat) (id : CompilerId) (e : Ending Sink) (m : Embedder) :
    (tellEnding depth id e m).desk = m.desk := by
  induction depth generalizing id e m with
  | zero => rfl
  | succ depth ih =>
    have hcompiler : (m.tellOwed (tellEnding depth) id e).desk = m.desk := by
      unfold tellOwed
      split
      · rfl
      · exact desk_tellCompiler ih m id _
    simp only [tellEnding]
    split
    · next sink _ =>
      cases sink with
      | ignore => exact hcompiler
      | notify program => exact (desk_makeRequests ih _ program).trans hcompiler
    · exact hcompiler

/-- The desk is left alone while a compiler is told and makes its requests. -/
theorem desk_tell (m : Embedder) (id : CompilerId) (outcome : Outcome) :
    (m.tell id outcome).desk = m.desk := desk_tellCompiler (desk_tellEnding _) m id outcome

/-! ## Work on the desk -/

def work (m : Embedder) : Deskwork → Embedder
  | .newToken => m.newToken.2
  | .spend spending => (m.spendToken spending.spend).2
  | .newGuard => m.newGuard
  | .note noting => m.onGuard noting.on
  | .handOn => m.releaseGuard
  | .dropGuard => m.dropGuard.2

/-- How often the compiler was told, and how often it is to be by what lies on the desk. -/
def dues (m : Embedder) (id : CompilerId) : Nat :=
  m.timesTold id + Token.due id m.desk.token + Token.due id (m.desk.guard.map (·.token))

/-- How many tokens for the compiler are made by the work, which are for the current one. -/
def added (m : Embedder) (id : CompilerId) (works : List Deskwork) : Nat :=
  if m.current = id then works.countP Deskwork.makesToken else 0

theorem dues_tell (hm : Unwired id m) (t : Token) (outcome : Outcome) :
    (m.tell t.compiler outcome).dues id = m.dues id + Token.due id (some t) := by
  simp only [dues, timesTold_tell hm, desk_tell, Token.due]
  omega

theorem dues_dropToken (hm : Unwired id m) (token : Option Token) :
    (m.dropToken token).dues id = m.dues id + Token.due id token := by
  cases token with
  | none => rfl
  | some t => exact dues_tell hm t t.drop

theorem dues_letGoOfGuard (hm : Unwired id m) (guard : Option Guard) :
    (m.letGoOfGuard guard).dues id = m.dues id + Token.due id (guard.map (·.token)) := by
  cases guard with
  | none => rfl
  | some g => exact dues_tell hm g.token g.drop

theorem dues_onDesk (m : Embedder) (f : Desk → Desk) : (m.onDesk f).dues id =
    m.timesTold id + Token.due id (f m.desk).token +
      Token.due id ((f m.desk).guard.map (·.token)) := rfl

/-- Whoever is told, sessions are all that can run of it. -/
theorem ran_onDesk (m : Embedder) (f : Desk → Desk) : Ran (fun _ => True) m (m.onDesk f) :=
  ⟨⟨rfl, rfl⟩, rfl, rfl, rfl, rfl, [], rfl, List.forall_mem_nil _⟩

theorem ran_tell (m : Embedder) (id : CompilerId) (outcome : Outcome) :
    Ran (fun _ => True) m (m.tell id outcome) :=
  tellCompiler_ran (tellEnding_ran m.running) (fun _ _ => trivial) trivial outcome

theorem ran_dropToken (m : Embedder) (token : Option Token) :
    Ran (fun _ => True) m (m.dropToken token) := by
  cases token with
  | none => exact .refl m
  | some t => exact ran_tell m _ _

theorem ran_letGoOfGuard (m : Embedder) (guard : Option Guard) :
    Ran (fun _ => True) m (m.letGoOfGuard guard) := by
  cases guard with
  | none => exact .refl m
  | some g => exact ran_tell m _ _

theorem work_ran (m : Embedder) (w : Deskwork) : Ran (fun _ => True) m (m.work w) := by
  cases w with
  | newToken => exact (ran_onDesk m _).trans (ran_dropToken _ _)
  | spend spending =>
    simp only [work, spendToken]
    split
    · exact .refl m
    · exact (ran_onDesk m _).trans (ran_tell _ _ _)
  | newGuard => exact (ran_onDesk m _).trans (ran_letGoOfGuard _ _)
  | note noting =>
    simp only [work, onGuard]
    exact ran_onDesk m _
  | handOn =>
    simp only [work, releaseGuard]
    split
    · exact .refl m
    · split
      · exact (ran_onDesk m _).trans ((ran_onDesk _ _).trans (ran_dropToken _ _))
      · exact (ran_onDesk m _).trans
          ((ran_tell _ _ _).trans ((ran_onDesk _ _).trans (ran_dropToken _ _)))
  | dropGuard => exact (ran_onDesk m _).trans (ran_letGoOfGuard _ _)

/-- Work turns tokens into outcomes, one for one. -/
theorem work_linear (hm : Unwired id m) (w : Deskwork) :
    (m.work w).dues id = m.dues id + m.added id [w] := by
  have hdesk : ∀ f, Unwired id (m.onDesk f) := fun f => (ran_onDesk m f).unwired hm
  -- Whoever the compiler is, only a new token counts.
  have hnone : w.makesToken = false → m.added id [w] = 0 := by
    intro hw
    simp [added, hw]
  cases w with
  | newToken =>
    have hadded : m.added id [.newToken] = Token.due id (some ⟨m.current⟩) := rfl
    rw [work, newToken, dues_dropToken (hdesk _), dues_onDesk, dues, hadded]
    dsimp only
    omega
  | spend spending =>
    rw [hnone rfl]
    cases ht : m.desk.token with
    | none => simp only [work, spendToken, ht, Nat.add_zero]
    | some t =>
      simp only [work, spendToken, ht]
      rw [dues_tell (hdesk _), dues_onDesk, dues, ht]
      simp only [Token.due]
      omega
  | newGuard =>
    rw [hnone rfl]
    have hsame : m.desk.token.map ((·.token) ∘ fun token => ({ token } : Guard)) = m.desk.token :=
      Option.map_id'
    rw [work, newGuard, dues_letGoOfGuard (hdesk _), dues_onDesk, dues, Option.map_map, hsame]
    simp only [Token.due]
    omega
  | note noting =>
    rw [hnone rfl]
    have hsame : ((·.token) ∘ noting.on : Guard → Token) = (·.token) := by
      funext g
      simp [Noting.on_eq, Guard.note]
    rw [work, onGuard, dues_onDesk, dues, Option.map_map, hsame, Nat.add_zero]
  | handOn =>
    rw [hnone rfl]
    cases hg : m.desk.guard with
    | none => simp only [work, releaseGuard, hg, Nat.add_zero]
    | some g =>
      cases hnoted : g.noted with
      | none =>
        simp only [work, releaseGuard, hg, Guard.handOn, hnoted]
        rw [dues_dropToken ((ran_onDesk _ _).unwired (hdesk _)), dues_onDesk, dues, hg]
        simp only [onDesk, timesTold, Option.map_none, Option.map_some, Token.due]
        omega
      | some failure =>
        simp only [work, releaseGuard, hg, Guard.handOn, hnoted]
        have htold := (ran_tell _ g.token.compiler (g.token.fail failure)).unwired
          (hdesk fun d => { d with guard := none })
        rw [dues_dropToken ((ran_onDesk _ _).unwired htold), dues_onDesk,
          timesTold_tell (hdesk _), desk_tell, dues, hg]
        simp only [onDesk, timesTold, Option.map_none, Option.map_some, Token.due]
        omega
  | dropGuard =>
    rw [hnone rfl]
    rw [work, dropGuard, dues_letGoOfGuard (hdesk _), dues_onDesk, dues]
    simp only [Option.map_none, Token.due]
    omega

theorem added_cons (m : Embedder) (id : CompilerId) (w : Deskwork) (ws : List Deskwork) :
    m.added id (w :: ws) = m.added id [w] + m.added id ws := by
  unfold added
  split
  · rw [List.countP_cons, List.countP_singleton, Nat.add_comm]
  · rfl

/-- Every token that was ever made is told of once, or is still there. -/
theorem works_linear (hm : Unwired id m) (ws : List Deskwork) :
    (ws.foldl work m).dues id = m.dues id + m.added id ws := by
  induction ws generalizing m with
  | nil =>
    have hnone : m.added id [] = 0 := by simp [added]
    rw [hnone]
    rfl
  | cons w ws ih =>
    have hran := work_ran m w
    have hcurrent : (m.work w).current = m.current := by
      simpa [current] using congrArg (·.length - 1) hran.compilers
    have hadded : (m.work w).added id ws = m.added id ws := by rw [added, added, hcurrent]
    rw [List.foldl_cons, ih (hran.unwired hm), hadded, work_linear hm, m.added_cons id w ws,
      Nat.add_assoc]

/-! ## The life of a guard -/

theorem onDesk_of_eq {f : Desk → Desk} (h : f m.desk = m.desk) : m.onDesk f = m := by
  rw [onDesk, h]

/-- The first failure stays, whatever is noted after it. -/
theorem works_note {g : Guard} (hg : m.desk.guard = some g) (notings : List Noting) :
    (notings.map .note).foldl work m = m.onDesk fun d => { d with
      guard := some { g with noted := g.noted <|> notings.head?.map Noting.failure } } := by
  induction notings generalizing m g with
  | nil =>
    refine (onDesk_of_eq ?_).symm
    simp [← hg]
  | cons n ns ih =>
    have hnoted : (m.work (.note n)).desk.guard = some (g.note n.failure) := by
      simp [work, onGuard, onDesk, hg, Noting.on_eq]
    rw [List.map_cons, List.foldl_cons, ih hnoted]
    cases hfirst : g.noted <;> simp [work, onGuard, onDesk, Guard.note, hfirst]

/-- With neither token nor guard. -/
def bare (m : Embedder) : Embedder := m.onDesk fun d => { d with token := none, guard := none }

/-- A token under guard, and no other one on the desk. -/
def guarded (m : Embedder) (t : Token) (first : Option Failure) : Embedder :=
  m.onDesk fun d => { d with token := none, guard := some ⟨t, first⟩ }

theorem handOn_guarded (m : Embedder) (t : Token) (first : Option Failure) :
    (m.guarded t first).work .handOn = match first with
      | none => m.onDesk fun d => { d with token := some t, guard := none }
      | some failure => m.bare.tell t.compiler (.failed failure) := by
  cases first with
  | none => rfl
  | some failure =>
    show (m.bare.tell t.compiler (.failed failure)).onDesk (fun d => { d with token := none }) = _
    refine onDesk_of_eq ?_
    rw [desk_tell]
    rfl

theorem parted_guarded (m : Embedder) (t : Token) (first : Option Failure) (p : Parting) :
    p.works.foldl work (m.guarded t first) = m.bare.tell t.compiler (p.outcome first) := by
  cases p with
  | letGo =>
    show m.bare.tell t.compiler (Guard.drop ⟨t, first⟩) = _
    rw [Guard.drop_eq]
    rfl
  | handOn spending =>
    simp only [Parting.works, List.foldl_cons, List.foldl_nil, handOn_guarded]
    cases first with
    | none =>
      show m.bare.tell t.compiler (spending.spend t) = _
      rw [Spending.spend_eq]
      rfl
    | some failure =>
      have hdesk : (m.bare.tell t.compiler (.failed failure)).desk.token = none := by
        rw [desk_tell]
        rfl
      simp only [work, spendToken, hdesk]
      rfl

/-- A token is put under guard, failures are noted, and the guard is taken down. -/
theorem guarded_token_told_once (m : Embedder) (t : Token) (notings : List Noting)
    (hmade : t.compiler < m.compilers.length) (htoken : m.desk.token = some t)
    (hguard : m.desk.guard = none) :
    let noted := (notings.map .note).foldl work (m.work .newGuard)
    let first := notings.head?.map Noting.failure
    -- Until it is taken down nobody is told, and the guard keeps the first failure.
    noted = m.guarded t first ∧ noted.trace = m.trace ∧
    -- Without a failure the token is back in its place and still nobody was told.
    (first = none → noted.work .handOn = m) ∧
    -- With a failure there is no token to hand on.
    (first.isSome → (noted.work .handOn).desk.token = none ∧
      ∀ s, (noted.work .handOn).work (.spend s) = noted.work .handOn) ∧
    (∀ p : Parting,
      let outcome := p.outcome first
      let parted := p.works.foldl work noted
      -- In all, the compiler is told one outcome, and that is what the parts tell as they go.
      parted = m.bare.tell t.compiler outcome ∧
      (∃ new, parted.trace = new ++ .compilerTold t.compiler outcome :: m.trace) ∧
      (Confined (· ≠ t.compiler) m →
        parted.timesTold t.compiler = m.timesTold t.compiler + 1) ∧
      p.told (⟨t, first⟩ : Guard).held = [outcome]) ∧
    -- In whatever order tokens are made, guarded, handed on and spent, each is told of once or
    -- is still there.
    (Confined (· ≠ t.compiler) m → ∀ works : List Deskwork,
      (works.foldl work m).dues t.compiler =
        m.dues t.compiler + m.added t.compiler works) := by
  intro noted first
  have hnoted : noted = m.guarded t first := by
    have hnew : m.work .newGuard = m.guarded t none := by
      simp only [work, newGuard, htoken, hguard]
      rfl
    have hnotes := works_note (m := m.guarded t none) (g := ⟨t, none⟩) rfl notings
    rw [← hnew] at hnotes
    exact hnotes.trans (by simp [hnew, guarded, onDesk, first])
  rw [hnoted]
  refine ⟨rfl, rfl, fun hfirst => ?_, fun hfirst => ?_, fun p => ?_,
    fun hm works => works_linear ⟨hmade, hm⟩ works⟩
  · rw [hfirst, handOn_guarded]
    refine onDesk_of_eq ?_
    rw [← htoken, ← hguard]
  · obtain ⟨failure, hfailure⟩ := Option.isSome_iff_exists.1 hfirst
    have hnone : ((m.guarded t first).work .handOn).desk.token = none := by
      rw [hfailure, handOn_guarded]
      exact congrArg Desk.token (desk_tell m.bare t.compiler (.failed failure))
    exact ⟨hnone, fun s => by rw [work, spendToken, hnone]⟩
  · intro outcome parted
    have hparted : parted = m.bare.tell t.compiler outcome := parted_guarded m t first p
    have hc : m.bare.compilers[t.compiler]? = some m.compilers[t.compiler] :=
      List.getElem?_eq_getElem hmade
    obtain ⟨new, hnew, -⟩ := tell_trace hc outcome
    refine ⟨hparted, ⟨new, by rw [hparted, hnew]; rfl⟩, fun hm => ?_, Parting.told_held _ p⟩
    have hbare : Unwired t.compiler m.bare := ⟨hmade, hm⟩
    rw [hparted, timesTold_tell hbare, if_pos rfl]
    rfl

/-- Of two failures the first is told, and what is handed on then is nothing. -/
theorem first_of_two_failures_told :
    let m : Embedder := { stores := [], context := none, attached := false, compilers := [{}],
                          clock := 0, desk := { token := some ⟨0⟩ } }
    let notings := [Noting.error .downloadStopped, .silent]
    let noted := (notings.map .note).foldl work (m.work .newGuard)
    let parted := (Parting.handOn (.succeed true)).works.foldl work noted
    (0 < m.compilers.length ∧ m.desk.token = some ⟨0⟩ ∧ m.desk.guard = none ∧
      Confined (· ≠ 0) m) ∧
    noted.trace = [] ∧ (noted.work .handOn).desk.token = none ∧
      parted = m.bare.tell 0 (.failed (.visible .downloadStopped)) ∧ parted.timesTold 0 = 1 ∧
      ([Deskwork.newToken, .newGuard, .dropGuard].foldl work m).dues 0 = 2 := by
  intro m notings noted parted
  have hconfined : Confined (· ≠ 0) m := List.forall_mem_nil _
  obtain ⟨-, htrace, -, hfailed, hparted, hdues⟩ :=
    guarded_token_told_once m ⟨0⟩ notings Nat.zero_lt_one rfl rfl
  obtain ⟨htold, -, htimes, -⟩ := hparted (.handOn (.succeed true))
  exact ⟨⟨Nat.zero_lt_one, rfl, rfl, hconfined⟩, htrace, (hfailed rfl).1, htold, htimes hconfined,
    hdues hconfined _⟩

end Embedder

end CompileCache
