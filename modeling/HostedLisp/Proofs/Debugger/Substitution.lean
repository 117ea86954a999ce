import HostedLisp.Proofs.Debugger.Exclusion
import HostedLisp.Proofs.Debugger.Stages
import HostedLisp.Proofs.Machine.HostCode

/-!
# Values to resume with

The value that a pause ends with is left in the debugger for whoever asked for the pause. A host
that pauses by itself does not take it, so it may lie there for long. Still no one ever takes the
value of another pause: a pause begins by dropping what is there, during a pause there is nothing
to take, and a pause that is refused yields nothing. Main statement: `Machine.resumes_with_own`.
-/

namespace HostedLisp

open Debugger

variable {α β : Type}

namespace Machine

/-- The lines of a pause, obeyed one after the other: from a state to the end of the pause, with
the value of the command that it was left by if that was one to resume with a value. -/
inductive Talk (S : Service) (leader : Char) (frame : FrameId) :
    State → Option Value → State → Prop
  | silence {s : State} (hs : s.terminal.input = []) :
      Talk S leader frame s none { s with terminal := s.terminal.record (.prompt none) }
  | stay {s t u : State} {line : String} {rest : List String} {w : Option Value}
      (hs : s.terminal.input = line :: rest)
      (hline : S.Yields (obeyLine leader frame line s.afterLine) (.ok .stay) t)
      (hrest : Talk S leader frame t w u) : Talk S leader frame s w u
  | leave {s t : State} {line : String} {rest : List String} (hs : s.terminal.input = line :: rest)
      (hne : ∀ source, Command.read leader line.toList ≠ .ok (.resumeWith source))
      (hline : S.Yields (obeyLine leader frame line s.afterLine) (.ok .resume) t) :
      Talk S leader frame s none t
  | resumeWith {s t : State} {line : String} {rest : List String} {source : List Char}
      {value : Value} (hs : s.terminal.input = line :: rest)
      (hread : Command.read leader line.toList = .ok (.resumeWith source))
      (hvalue : S.Yields (evalLine source frame s.afterLine) (.ok (.ok value)) t) :
      Talk S leader frame s (some value)
        { t with debugger := { t.debugger.clearSteps with substitute := some value } }

/-- A pause begins in the first state and ends in the second, with the value of the command that it
was left by, if that gives one. -/
def Converses (S : Service) (leader : Char) (frame : FrameId) (s : State) (w : Option Value)
    (t : State) : Prop :=
  s.debugger.paused = none ∧ ∃ u, Talk S leader frame (opened leader frame s) w u ∧ t = closed u

end Machine

/-! ### Nothing to take during a pause -/

/-- During a pause no value is there to resume with. -/
def State.Fresh (s : State) : Prop :=
  s.debugger.paused.isSome = true → s.debugger.substitute = none

/-- The second state is in the same pause as the first, or in none like it, and is fresh. -/
structure StillFresh (s t : State) : Prop where
  paused : t.debugger.paused = s.debugger.paused
  fresh : t.Fresh

lemma StillFresh.trans {s t u : State} (h : StillFresh s t) (h' : StillFresh t u) :
    StillFresh s u :=
  ⟨h'.paused.trans h.paused, h'.fresh⟩

/-- Requests are asked and answered in fresh states, in the same pause. -/
def freshness : Contract where
  may _ s := s.Fresh
  gives _ s _ t := StillFresh s t
  faults := True

/-- A run asks only in fresh states and ends in one, with an error only if it may fail. -/
def Run.StaysFresh (fails : Prop) (x : Run α) : Prop :=
  ∀ s : State, s.Fresh →
    (x s).Meets freshness fun result t => StillFresh s t ∧ ∀ e, result = .error e → fails

lemma chained_stillFresh : Chained State.Fresh StillFresh where
  refl _ hs := ⟨rfl, hs⟩
  trans _ _ _ := StillFresh.trans
  fit _ _ _ h := h.fresh

namespace Run.StaysFresh

variable {fails : Prop} {x : Run α}

lemma pure (a : α) : (Pure.pure a : Run α).StaysFresh fails := Leads.pure chained_stillFresh a

lemma raise (e : Error) : (Run.raise e : Run α).StaysFresh True := Leads.raise chained_stillFresh e

lemma fault : (Run.halt .fault : Run α).StaysFresh fails := Leads.fault trivial

lemma bind {f : α → Run β} (hx : x.StaysFresh fails) (hf : ∀ a, (f a).StaysFresh fails) :
    (x >>= f).StaysFresh fails :=
  Leads.bind chained_stillFresh hx hf

lemma attempt (hx : x.StaysFresh True) : (Run.attempt x).StaysFresh fails := Leads.attempt hx

lemma request (r : Request) : (Run.request r).StaysFresh True :=
  Leads.request (fun _ hs => hs) fun _ _ _ h => h

lemma view (f : State → α) : (Run.view f).StaysFresh fails := Leads.view chained_stillFresh f

/-- Beside the pause and the value to resume with. -/
lemma aside {f : State → State} (hpaused : ∀ s, (f s).debugger.paused = s.debugger.paused)
    (hsubstitute : ∀ s, (f s).debugger.substitute = s.debugger.substitute) :
    (Run.modify f).StaysFresh fails := by
  refine Leads.modify fun s hs => ⟨hpaused s, fun hp => ?_⟩
  rw [hpaused] at hp
  rw [hsubstitute]
  exact hs hp

lemma changeHeap (f : Heap → Heap) : (Run.changeHeap f).StaysFresh fails :=
  aside (fun _ => rfl) fun _ => rfl

lemma changeDebugger {f : Controller → Controller} (hpaused : ∀ c, (f c).paused = c.paused)
    (hsubstitute : ∀ c, (f c).substitute = c.substitute) :
    (Run.changeDebugger f).StaysFresh fails :=
  aside (fun s => hpaused s.debugger) fun s => hsubstitute s.debugger

lemma set (which : Setting) (on : Bool) :
    (Run.changeDebugger (·.set which on)).StaysFresh fails := by
  cases which <;> exact changeDebugger (fun _ => rfl) fun _ => rfl

lemma display (event : Event) : (Run.display event).StaysFresh fails :=
  aside (fun _ => rfl) fun _ => rfl

lemma record (event : Event) : (Run.record event).StaysFresh fails :=
  aside (fun _ => rfl) fun _ => rfl

end Run.StaysFresh

lemma staysFresh_compositional : Run.Compositional (Run.StaysFresh True) where
  pure := .pure
  raise := .raise
  fault := .fault
  bind := .bind
  view := .view
  change := Run.Compositional.of_changeHeap (P := Run.StaysFresh True) .pure .bind .view .changeHeap
  displayLine _ := .display _
  request := .request

namespace Machine

open Run

variable {leader : Char} {frame : FrameId} {fails : Prop} {s t : State}

lemma evalLine_staysFresh (source : List Char) (frame : FrameId) :
    (evalLine source frame).StaysFresh fails := by
  refine Run.evalLine_of (P := StaysFresh fails) .pure .bind .view (fun d => ?_)
    (fun _ => .changeDebugger (fun _ => rfl) fun _ => rfl) (fun _ => .attempt (.request _)) source
  exact Compositional.of_changeHeap (P := StaysFresh fails) .pure .bind .view .changeHeap _

lemma staysFresh_obedient : Run.Obedient (Run.StaysFresh fails) where
  pure := .pure
  bind := .bind
  view := .view
  output _ := .display _
  quit := .record .quit
  set := .set
  clearSteps := .changeDebugger (fun _ => rfl) fun _ => rfl
  singleStep := .changeDebugger (fun _ => rfl) fun _ => rfl
  stepOutOf _ := .changeDebugger (fun _ => rfl) fun _ => rfl
  evalLine := evalLine_staysFresh

/-- A line leaves a value to resume with only if it resumes. -/
def AfterLine (s : State) (result : Except Error Flow) (t : State) : Prop :=
  ∃ flow, result = .ok flow ∧ t.debugger.paused = s.debugger.paused ∧ (flow = .stay → t.Fresh)

lemma AfterLine.of_staysFresh {result : Except Error Flow}
    (h : StillFresh s t ∧ ∀ e, result = .error e → False) : AfterLine s result t := by
  cases result with
  | ok flow => exact ⟨flow, rfl, h.1.paused, fun _ => h.1.fresh⟩
  | error e => exact (h.2 e rfl).elim

/-- A line that is not one to resume with a value keeps the state fresh. -/
lemma obeyLine_staysFresh {line : String}
    (hne : ∀ source, Command.read leader line.toList ≠ .ok (.resumeWith source)) :
    (obeyLine leader frame line).StaysFresh fails := by
  have h : Run.Obedient (Run.StaysFresh fails) := staysFresh_obedient
  unfold obeyLine
  split
  · exact StaysFresh.pure _
  · split
    · exact h.say (h.output _) .stay
    · next command hread =>
      refine h.obey_of_not_resumeWith ?_
      rintro source rfl
      exact hne source hread

lemma obeyLine_resumeWith {line : String} {source : List Char}
    (hread : Command.read leader line.toList = .ok (.resumeWith source)) :
    obeyLine leader frame line = obey leader frame (.resumeWith source) :=
  obeyLine_command hread nofun

lemma obeyLine_meets_freshness (line : String) (hs : s.Fresh) :
    (obeyLine leader frame line s).Meets freshness (AfterLine s) := by
  by_cases h : ∃ source, Command.read leader line.toList = .ok (.resumeWith source)
  · obtain ⟨source, hread⟩ := h
    rw [obeyLine_resumeWith hread]
    have hline : (evalLine source frame).StaysFresh False := evalLine_staysFresh source frame
    refine (hline s hs).bind (fun result t ht => ?_) fun e t ht => (ht.2 e rfl).elim
    cases result with
    | ok value => exact ⟨.resume, rfl, ht.1.paused, nofun⟩
    | error e =>
      have hfailure : (do
          displayFailure e
          pure .stay : Run Flow).StaysFresh False :=
        StaysFresh.bind (StaysFresh.display _) fun _ => StaysFresh.pure _
      refine (hfailure t ht.1.fresh).post_mono fun _ _ hu => ?_
      exact .of_staysFresh ⟨ht.1.trans hu.1, hu.2⟩
  · have hkeeps : (obeyLine leader frame line).StaysFresh False :=
      obeyLine_staysFresh (not_exists.1 h)
    exact (hkeeps s hs).post_mono fun _ _ => AfterLine.of_staysFresh

lemma converseFor_meets_freshness (lines : Nat) (hs : s.Fresh) :
    (converseFor leader frame lines s).Meets freshness fun result _ => result = .ok () := by
  induction lines generalizing s with
  | zero => exact rfl
  | succ lines ih =>
    cases hinput : s.terminal.input with
    | nil =>
      rw [converseFor_end hinput]
      exact rfl
    | cons line rest =>
      rw [converseFor_line hinput]
      have hafter : s.afterLine.Fresh := hs
      refine (obeyLine_meets_freshness line hafter).bind ?_ ?_
      · rintro flow t ⟨_, ⟨⟩, -, hstay⟩
        cases flow with
        | resume => exact rfl
        | stay => exact ih (hstay rfl)
      · rintro e t ⟨_, h, -⟩
        cases h

/-- Whatever was there to resume with is gone when a pause begins. -/
lemma converse_staysFresh : (converse leader frame).StaysFresh fails := by
  intro s hs
  cases hpaused : s.debugger.paused with
  | none =>
    rw [converse_eq hpaused]
    have hopened : (opened leader frame s).Fresh := fun _ => rfl
    refine (converseFor_meets_freshness _ hopened).bind (fun _ u _ => ?_) fun e u hu => nomatch hu
    exact ⟨⟨hpaused.symm, nofun⟩, nofun⟩
  | some other =>
    rw [converse_of_paused (by rw [hpaused]; rfl)]
    exact StaysFresh.display _ s hs

lemma takeSubstitute_staysFresh : takeSubstitute.StaysFresh fails := by
  intro s hs
  exact ⟨⟨rfl, fun _ => rfl⟩, nofun⟩

lemma staysFresh_attentive : Run.Attentive leader (Run.StaysFresh True) where
  pure := .pure
  raise := .raise
  bind := .bind
  view := .view
  display := .display
  clearSteps := .changeDebugger (fun _ => rfl) fun _ => rfl
  unwind := .changeDebugger (fun _ => rfl) fun _ => rfl
  takeSubstitute := takeSubstitute_staysFresh
  converse _ := converse_staysFresh

end Machine

/-- What comes in the place of something idle is in no pause either. -/
lemma Run.StaysFresh.replace {fails : Prop} (r : Replacement) :
    (Run.replace Replacement.isIdle r).StaysFresh fails := by
  refine Leads.replace trivial fun s hidle => ?_
  obtain ⟨hbefore, hafter⟩ := Replacement.paused_of_isIdle hidle
  refine ⟨hafter.trans hbefore.symm, fun hpaused => ?_⟩
  rw [hafter] at hpaused
  cases hpaused

/-- Code of the host can not put a value there. -/
theorem HostCode.staysFresh {x : Run α} (hx : HostCode Replacement.isIdle x) :
    x.StaysFresh True := by
  open Run in
  induction hx with
  | pure a => exact StaysFresh.pure a
  | raise e => exact StaysFresh.raise e
  | fault => exact StaysFresh.fault
  | bind _ _ ihx ihf => exact StaysFresh.bind ihx ihf
  | attempt _ ih => exact StaysFresh.attempt ih
  | view f => exact StaysFresh.view f
  | changeHeap f => exact StaysFresh.changeHeap f
  | changeTerminal f => exact StaysFresh.aside (fun _ => rfl) fun _ => rfl
  | set which on => exact StaysFresh.set which on
  | setInteractive on | setSingleStep on =>
    exact StaysFresh.changeDebugger (fun _ => rfl) fun _ => rfl
  | replace r => exact StaysFresh.replace r
  | request r => exact StaysFresh.request r
  | offer leader e frame => exact Machine.staysFresh_attentive.offer e frame
  | converse leader frame => exact Machine.converse_staysFresh

lemma GuestCode.hostCode {leader : Char} {x : Run α} (hx : GuestCode leader x) :
    HostCode Replacement.isIdle x := by
  induction hx with
  | pure a => exact .pure a
  | raise e => exact .raise e
  | fault => exact .fault
  | bind _ _ ihx ihf => exact .bind ihx ihf
  | attempt _ ih => exact .attempt ih
  | view f => exact .view f
  | changeHeap f => exact .changeHeap f
  | output text => exact .changeTerminal (·.display (.output text))
  | set which on => exact .set which on
  | setInteractive on => exact .setInteractive on
  | setSingleStep on => exact .setSingleStep on
  | request r => exact .request r
  | offer e frame => exact .offer leader e frame
  | converse frame => exact .converse leader frame

namespace Machine

open Run

variable {m : Machine} {leader : Char} {frame : FrameId} {fails : Prop} {s t u : State}
  {w : Option Value}

/-! ### The evaluator -/

lemma staysFresh_thorough : Run.Thorough m (Run.StaysFresh True) where
  toCompositional := staysFresh_compositional
  attempt := .attempt
  setCode _ _ := .changeHeap _
  output _ := .display _
  set := .set
  offer := staysFresh_attentive.offer
  hold := staysFresh_attentive.hold
  converse _ := converse_staysFresh
  takeSubstitute := takeSubstitute_staysFresh

lemma begin_stillFresh (hs : s.Fresh) : StillFresh s (begin s) := by
  unfold begin
  split
  · exact ⟨rfl, hs⟩
  · exact ⟨rfl, hs⟩

lemma evaluate_staysFresh (expr : Value) (frame : FrameId) :
    (m.evaluate expr frame).StaysFresh True :=
  Leads.evaluate chained_stillFresh (fun _ hs => begin_stillFresh hs)
    (fun _ _ _ h => ⟨h.paused, h.fresh⟩) (staysFresh_thorough.evalWithin expr frame)

/-- Whatever serves a request, the state stays fresh. -/
theorem Guests.staysFresh {r : Request} {x : Run Value} (hx : m.Guests r x) :
    x.StaysFresh True := by
  cases hx with
  | own =>
    cases r with
    | eval expr frame => exact evaluate_staysFresh expr frame
    | _ => exact staysFresh_thorough.serve nofun
  | guest hx => exact hx.hostCode.staysFresh

/-! ### Around a pause -/

/-- The state in which the pause before an evaluation begins. -/
def heldUp (expr : Value) (s : State) : State :=
  { s with
    debugger := s.debugger.clearSteps
    terminal := s.terminal.display (.held expr (s.heap.render expr)) }

lemma hold_of_isHeld (expr : Value) (hheld : isHeld s frame = true) :
    hold leader expr frame s =
      (converse leader frame (heldUp expr s)).bind fun _ => takeSubstitute := by
  rw [hold, bind_apply]
  simp only [view, Plan.bind_stop_ok, hheld]
  rfl

/-- The value of an expression that is not held up, or no longer. -/
def evalFree (m : Machine) (expr : Value) (frame : FrameId) : Run Value :=
  match expr with
  | .sym name => do
    match ← view (·.heap.lookup? frame name) with
    | some value => pure value
    | none => offer m.config.leader (.unbound name.name) frame
  | .pair id => m.evalList id frame
  | _ => pure expr

lemma evalWithin_eq (expr : Value) (frame : FrameId) :
    m.evalWithin expr frame = hold m.config.leader expr frame >>= fun held =>
      held.elim (m.evalFree expr frame) pure := by
  unfold evalWithin
  refine congrArg _ (funext fun held => ?_)
  cases held with
  | some value => rfl
  | none => cases expr <;> rfl

/-- Nothing is left to resume with. -/
def taken (s : State) : State := { s with debugger := { s.debugger with substitute := none } }

lemma takeSubstitute_apply (s : State) :
    takeSubstitute s = .stop (.ok s.debugger.substitute) (taken s) := rfl

/-- The user has let a failure pass. -/
def letPass (s : State) : State := { s with debugger := { s.debugger with unwinding := true } }

/-! ### The value of a pause -/

variable {S : Service} (hS : ∀ r x, S r x → m.Guests r x)

include hS

lemma meets_freshness (r : Request) (x : Run Value) (s : State) (hx : S r x)
    (hs : freshness.may r s) : (x s).Meets freshness (freshness.gives r s) :=
  ((hS r x hx).staysFresh s hs).post_mono fun _ _ ht => ht.1

/-- What a pause leaves in the debugger is the value of the command that it was left by. -/
lemma Talk.substitute (h : Talk S leader frame s w t) (hs : s.Fresh)
    (hpaused : s.debugger.paused = some frame) : t.debugger.substitute = w := by
  have hfresh {v : State} (hv : v.Fresh) (hp : v.debugger.paused = some frame) :
      v.debugger.substitute = none := hv (by rw [hp]; rfl)
  induction h with
  | silence _ => exact hfresh hs hpaused
  | @stay s t u line rest w _ hline _ ih =>
    have hmeets : (obeyLine leader frame line s.afterLine).Meets freshness _ :=
      obeyLine_meets_freshness line (s := s.afterLine) hs
    obtain ⟨_, ⟨⟩, hp, hstay⟩ := hline.meets (meets_freshness hS) hmeets
    exact ih (hstay rfl) (hp.trans hpaused)
  | @leave s t line rest _ hne hline =>
    have hmeets : (obeyLine leader frame line).StaysFresh False := obeyLine_staysFresh hne
    obtain ⟨hend, -⟩ := hline.meets (meets_freshness hS) (hmeets s.afterLine hs)
    exact hfresh hend.fresh (hend.paused.trans hpaused)
  | resumeWith => rfl

/-- The loop of a pause obeys its lines one after the other. -/
lemma converseFor_talks {lines : Nat} {result : Except Error Unit}
    (hpaused : s.debugger.paused = some frame) (hlines : s.terminal.input.length < lines)
    (h : S.Yields (converseFor leader frame lines s) result t) :
    result = .ok () ∧ ∃ w, Talk S leader frame s w t := by
  induction lines generalizing s with
  | zero => exact absurd hlines (Nat.not_lt_zero _)
  | succ lines ih =>
    cases hinput : s.terminal.input with
    | nil =>
      rw [converseFor_end hinput, Service.yields_stop_ok] at h
      obtain ⟨rfl, rfl⟩ := h
      exact ⟨rfl, none, .silence hinput⟩
    | cons line rest =>
      rw [converseFor_line hinput, Service.yields_bind] at h
      -- obeying the line leaves the other lines where they are
      have hduring := duringPause_spared (s := s.afterLine) (by
        change s.debugger.paused.isSome = true
        rw [hpaused]
        rfl)
      have hobeyed : (obeyLine leader frame line).Hushed False := obeyLine_hushed line
      have hmeets := hobeyed _ hduring s.afterLine (Spared.refl _)
      have hguests (r : Request) (x : Run Value) (s : State) (hx : S r x) :=
        Guests.meets hduring r x s (hS r x hx)
      obtain ⟨flow, u, hflow, hrest⟩ | ⟨e, he, -⟩ := h
      · have hspared := (hflow.meets hguests hmeets).1
        cases flow with
        | stay =>
          have hlength : u.terminal.input.length < lines := by
            have hsame : s.afterLine.terminal.input = u.terminal.input := hspared.terminal.input
            rw [← hsame, State.afterLine, Terminal.input_readLine, hinput, List.tail_cons]
            rw [hinput, List.length_cons] at hlines
            omega
          obtain ⟨hok, w, hw⟩ := ih (hspared.paused.trans hpaused) hlength hrest
          exact ⟨hok, w, .stay hinput hflow hw⟩
        | resume =>
          obtain ⟨rfl, rfl⟩ := Service.yields_stop_ok.1 hrest
          refine ⟨rfl, ?_⟩
          by_cases hread : ∃ source, Command.read leader line.toList = .ok (.resumeWith source)
          · obtain ⟨source, hread⟩ := hread
            rw [obeyLine_resumeWith hread, obey, bind_apply, Service.yields_bind] at hflow
            obtain ⟨evaluated, v, hevaluated, hlast⟩ | ⟨e, -, he⟩ := hflow
            · cases evaluated with
              | ok value =>
                obtain ⟨-, rfl⟩ := Service.yields_stop_ok.1 hlast
                exact ⟨some value, .resumeWith hinput hread hevaluated⟩
              | error e =>
                obtain ⟨h, -⟩ := Service.yields_stop_ok.1 hlast
                cases h
            · cases he
          · exact ⟨none, .leave hinput (not_exists.1 hread) hflow⟩
      · exact ((he.meets hguests hmeets).2 e rfl).elim

/-- A pause that is not refused leaves the value of its own last command, whatever was left by
others. -/
lemma converse_talks {result : Except Error Unit} (hs : s.debugger.paused = none)
    (h : S.Yields (converse leader frame s) result t) :
    result = .ok () ∧ ∃ w, Converses S leader frame s w t ∧ t.debugger.substitute = w := by
  rw [converse_eq hs, Service.yields_bind] at h
  have hlines : (opened leader frame s).terminal.input.length < rounds s :=
    length_opened_lt_rounds
  obtain ⟨⟨⟩, u, hu, hclosed⟩ | ⟨e, he, -⟩ := h
  · obtain ⟨rfl, rfl⟩ := Service.yields_stop_ok.1 hclosed
    obtain ⟨-, w, hw⟩ := converseFor_talks hS rfl hlines hu
    have hleft : u.debugger.substitute = w := Talk.substitute hS hw (fun _ => rfl) rfl
    exact ⟨rfl, w, ⟨hs, u, hw, rfl⟩, hleft⟩
  · cases (converseFor_talks hS rfl hlines he).1

/-- A pause that is asked for is refused during another one, and yields nothing then, since nothing
is there to be taken. -/
lemma pause_talks {result : Except Error Value} (h : S.Yields (m.serve (.pause frame) s) result t) :
    (s.debugger.interactive = false ∨ s.debugger.paused.isSome = true) ∧
        (s.Fresh → result = .ok .nil) ∨
      ∃ w u, Converses S m.config.leader frame s w u ∧ result = .ok (w.getD .nil) ∧
        t = taken u := by
  rw [serve, bind_apply] at h
  simp only [view, Plan.bind_stop_ok] at h
  cases hinteractive : s.debugger.interactive with
  | false =>
    rw [hinteractive] at h
    exact .inl ⟨.inl rfl, fun _ => (Service.yields_stop_ok.1 h).1⟩
  | true =>
    rw [hinteractive, if_pos rfl, bind_apply] at h
    cases hpaused : s.debugger.paused with
    | none =>
      obtain ⟨_, u, hu, hlast⟩ | ⟨e, he, -⟩ := Service.yields_bind.1 h
      · obtain ⟨-, w, hw, hleft⟩ := converse_talks hS hpaused hu
        rw [bind_apply, takeSubstitute_apply, hleft] at hlast
        exact .inr ⟨w, u, hw, Service.yields_stop_ok.1 hlast⟩
      · cases (converse_talks hS hpaused he).1
    | some other =>
      have hsome : s.debugger.paused.isSome = true := by rw [hpaused]; rfl
      rw [converse_of_paused hsome] at h
      refine .inl ⟨.inr rfl, fun hs => ?_⟩
      have hnothing : (s.debugger.substitute).getD .nil = .nil := by rw [hs hsome]; rfl
      rw [← hnothing]
      exact (Service.yields_stop_ok.1 h).1

lemma offer_talks {e : Error} {result : Except Error Value}
    (h : S.Yields (offer m.config.leader e frame s) result t) :
    s.debugger.breaks = false ∧ result = .error e ∧ t = s ∨
      ∃ w u, Converses S m.config.leader frame (failed e s) w u ∧
        result = w.elim (.error e) .ok ∧ t = w.elim (letPass (taken u)) fun _ => taken u := by
  cases hbreaks : s.debugger.breaks with
  | false =>
    rw [offer_of_not_breaks e hbreaks] at h
    exact .inl ⟨rfl, Service.yields_stop_error.1 h⟩
  | true =>
    have hpaused : (failed e s).debugger.paused = none := by
      have hconditions := hbreaks
      simp only [Controller.breaks, Bool.and_eq_true] at hconditions
      exact Option.isNone_iff_eq_none.1 hconditions.2
    rw [offer_of_breaks e hbreaks] at h
    obtain ⟨_, u, hu, hlast⟩ | ⟨e, he, -⟩ := Service.yields_bind.1 h
    · obtain ⟨-, w, hw, hleft⟩ := converse_talks hS hpaused hu
      refine .inr ⟨w, u, hw, ?_⟩
      rw [takeOrPass, bind_apply, takeSubstitute_apply, hleft, Plan.bind_stop_ok] at hlast
      cases w with
      | some value => exact Service.yields_stop_ok.1 hlast
      | none => exact Service.yields_stop_error.1 hlast
    · cases (converse_talks hS hpaused he).1

lemma evalWithin_talks {expr : Value} {result : Except Error Value}
    (hheld : isHeld s frame = true) (h : S.Yields (m.evalWithin expr frame s) result t) :
    ∃ w u, Converses S m.config.leader frame (heldUp expr s) w u ∧
      match w with
      | some value => result = .ok value ∧ t = taken u
      | none => S.Yields (m.evalFree expr frame (taken u)) result t := by
  have hpaused : (heldUp expr s).debugger.paused = none := by
    have hconditions := hheld
    simp only [isHeld, Bool.and_eq_true] at hconditions
    exact Option.isNone_iff_eq_none.1 hconditions.1.2
  rw [evalWithin_eq, bind_apply, hold_of_isHeld expr hheld, Plan.bind_assoc] at h
  obtain ⟨_, u, hu, hlast⟩ | ⟨e, he, -⟩ := Service.yields_bind.1 h
  · obtain ⟨-, w, hw, hleft⟩ := converse_talks hS hpaused hu
    refine ⟨w, u, hw, ?_⟩
    rw [takeSubstitute_apply, hleft, Plan.bind_stop_ok] at hlast
    cases w with
    | some value => exact Service.yields_stop_ok.1 hlast
    | none => exact hlast
  · cases (converse_talks hS hpaused he).1

/-- Whatever a host does with an interpreter while no pause is under way, and whichever of the runs
that can serve the requests do so: a pause that is asked for by a program, a failure that is offered
and an evaluation that is held up get the value of the command that ended the very pause they led
to, and nothing if that was not one to resume with a value, or if there was no pause. They go on in
the state that this pause ended in, where nothing is left to resume with. What earlier pauses left
behind plays no part in it. -/
theorem resumes_with_own {x : Run α} {start : State} (hx : HostCode Replacement.isIdle x)
    (hstart : start.debugger.paused = none) :
    (∀ frame s result t, S.Yields (m.serve (.pause frame) s) result t →
      (s.debugger.interactive = false ∨ s.debugger.paused.isSome = true) ∧
          (S.Asked (x start) (.pause frame, s) → result = .ok .nil) ∨
        ∃ w u, Converses S m.config.leader frame s w u ∧ result = .ok (w.getD .nil) ∧
          t = taken u) ∧
    (∀ e frame s result t, S.Yields (offer m.config.leader e frame s) result t →
      s.debugger.breaks = false ∧ result = .error e ∧ t = s ∨
        ∃ w u, Converses S m.config.leader frame (failed e s) w u ∧
          result = w.elim (.error e) .ok ∧ t = w.elim (letPass (taken u)) fun _ => taken u) ∧
    ∀ expr frame s result t, isHeld s frame = true →
      S.Yields (m.evalWithin expr frame s) result t →
      ∃ w u, Converses S m.config.leader frame (heldUp expr s) w u ∧
        match w with
        | some value => result = .ok value ∧ t = taken u
        | none => S.Yields (m.evalFree expr frame (taken u)) result t := by
  have hfresh : start.Fresh := fun hpaused => by simp [hstart] at hpaused
  refine ⟨fun frame s result t h => ?_, fun e frame s result t h => offer_talks hS h,
    fun expr frame s result t hheld h => evalWithin_talks hS hheld h⟩
  obtain ⟨hrefused, hnothing⟩ | hpause := pause_talks hS h
  · exact .inl ⟨hrefused, fun hy =>
      hnothing (hy.may (meets_freshness hS) (hx.staysFresh start hfresh))⟩
  · exact .inr hpause

end Machine

namespace Interpreter

open Machine

/-- A host that pauses by itself and then asks for a pause as a program does. -/
def pausesTwice : Run Value := do
  Machine.converse ':' .global
  Run.request (.pause .global)

/-- A user who ends the first pause with a value and lets the second one pass. -/
def resumedOnce : Interpreter :=
  let i := bare { Config.standard with interactive := true }
  { i with state := { i.state with terminal := .ofLines [":r 5", ":c"] } }

/-- The value that was left over from the first pause is there when the second one is asked for,
which yields nothing and leaves nothing. -/
theorem resumes_with_own_leftover :
    HostCode Replacement.isIdle pausesTwice ∧ resumedOnce.state.debugger.paused = none ∧
      ∃ s t, s.debugger.substitute = some (.int 5) ∧
        resumedOnce.machine.Guests.Asked (pausesTwice resumedOnce.state) (.pause .global, s) ∧
        resumedOnce.machine.Guests.Yields (resumedOnce.machine.serve (.pause .global) s)
          (.ok .nil) t ∧
        ∃ w u, Converses resumedOnce.machine.Guests ':' .global s w u ∧ w.getD .nil = .nil ∧
          t = taken u := by
  have hcode : HostCode Replacement.isIdle pausesTwice :=
    .bind (.converse ':' .global) fun _ => .request _
  have hpaused : resumedOnce.state.debugger.paused = none := rfl
  let first := (Machine.converse ':' .global resumedOnce.state).execute
    (resumedOnce.machine.perform 1)
  have hfirst : first.1 = (Except.ok ()).mapError .error := by decide +kernel
  have hleft : first.2.debugger.substitute = some (.int 5) := by decide +kernel
  let second := (resumedOnce.machine.serve (.pause .global) first.2).execute
    (resumedOnce.machine.perform 1)
  have hsecond : second.1 = (Except.ok Value.nil).mapError .error := by decide +kernel
  have hinteractive : first.2.debugger.interactive = true := by decide +kernel
  have hfree : first.2.debugger.paused = none := by decide +kernel
  have hasked : resumedOnce.machine.Guests.Asked (pausesTwice resumedOnce.state)
      (.pause .global, first.2) := by
    refine Service.Asked.bind_right (.of_execute Guests.own (Outcome.eq_answered hfirst)) ?_
    exact .now _ _ _
  have hyields := Service.Yields.of_execute Guests.own (Outcome.eq_answered hsecond)
  have hown := (resumes_with_own (fun _ _ hx => hx) hcode hpaused).1 _ _ _ _ hyields
  obtain ⟨hrefused, -⟩ | ⟨w, u, hw, hresult, ht⟩ := hown
  · simp [hinteractive, hfree] at hrefused
  · exact ⟨hcode, hpaused, first.2, _, hleft, hasked, hyields, w, u, hw,
      (Except.ok.inj hresult).symm, ht⟩

end Interpreter

end HostedLisp
