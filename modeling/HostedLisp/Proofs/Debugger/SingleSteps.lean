import HostedLisp.Proofs.Debugger.Substitution
import HostedLisp.Proofs.Machine.Limit
import HostedLisp.Proofs.Plan.Visits

/-!
# Single steps

A user who asks for a step in every pause meets each evaluation once. A step is forgotten when its
pause begins and asked for again by the line that ends the pause; so as long as there are lines, a
pause is announced before each evaluation that the limit lets in, and nothing else is announced:
`Machine.perform_announces`. The pauses do not show in what the program does, so the announcements
are the visits of the run without steps: `Interpreter.run_inSingleSteps`.
-/

namespace HostedLisp

open Debugger

variable {α β : Type} {leader : Char} {s t u : State}

/-- The evaluation that an event announces a pause before. -/
def Debugger.Event.held? : Event → Option Visit
  | .held expr text => some (expr, text)
  | _ => none

namespace State

/-- The evaluations that pauses were announced before, in their order. -/
def announced (s : State) : List Visit := s.terminal.events.toList.filterMap Event.held?

/-- How many evaluations are held up if each line asks for another step: the next one if a step is
asked for, and one more for each line. -/
def stepsLeft (s : State) : Nat :=
  if s.debugger.singleStep then s.terminal.input.length + 1 else 0

end State

/-- Nobody reads the terminal and no pause is under way. All lines that wait ask for a step, and no
pause is asked for apart from steps. -/
structure Stepping (leader : Char) (s : State) : Prop where
  interactive : s.debugger.interactive = false
  paused : s.debugger.paused = none
  evaluatingLine : s.debugger.evaluatingLine = false
  pending : s.debugger.singleStep = true ∨ s.debugger.stepOutOf = none
  working : s.terminal.broken = false
  lines : ∀ line ∈ s.terminal.input, Command.read leader line.toList = .ok .step

namespace Debugger.Terminal

lemma events_readLine (t : Terminal) :
    t.readLine.2.events = t.events.push (.prompt t.readLine.1) := by
  unfold readLine
  split <;> rfl

lemma broken_readLine (t : Terminal) : t.readLine.2.broken = t.broken := by
  unfold readLine
  split <;> rfl

end Debugger.Terminal

/-- From the first state to the second, pauses are announced before the visits as far as there are
steps left for them. -/
structure Announces (leader : Char) (visits : List Visit) (s t : State) : Prop where
  stepping : Stepping leader t
  announced : t.announced = s.announced ++ visits.take s.stepsLeft
  stepsLeft : t.stepsLeft = s.stepsLeft - visits.length

namespace Announces

lemma refl (hs : Stepping leader s) : Announces leader [] s s :=
  ⟨hs, by rw [List.take_nil, List.append_nil], rfl⟩

lemma trans {first second : List Visit} (h : Announces leader first s t)
    (h' : Announces leader second t u) : Announces leader (first ++ second) s u where
  stepping := h'.stepping
  announced := by
    rw [h'.announced, h.announced, h.stepsLeft, List.append_assoc, List.take_append]
  stepsLeft := by rw [h'.stepsLeft, h.stepsLeft, List.length_append, Nat.sub_sub]

lemma of_same (ht : Stepping leader t) (hterminal : t.terminal = s.terminal)
    (hstep : t.debugger.singleStep = s.debugger.singleStep) : Announces leader [] s t where
  stepping := ht
  announced := by rw [State.announced, hterminal, List.take_nil, List.append_nil, State.announced]
  stepsLeft := by rw [State.stepsLeft, hterminal, hstep, List.length_nil, Nat.sub_zero,
    State.stepsLeft]

/-- What is shown of other things announces nothing. -/
lemma display (hs : Stepping leader s) {event : Event} (hevent : event.held? = none) :
    Announces leader [] s { s with terminal := s.terminal.display event } := by
  have hshown : s.terminal.display event = s.terminal.record event := by
    rw [Terminal.display, hs.working]
    rfl
  rw [hshown]
  refine ⟨⟨hs.interactive, hs.paused, hs.evaluatingLine, hs.pending, hs.working, hs.lines⟩, ?_, rfl⟩
  simp [State.announced, hevent]

end Announces

lemma Debugger.Controller.setting_set (c : Controller) (which other : Setting) (on : Bool) :
    (c.set which on).setting other = if which = other then on else c.setting other := by
  cases which <;> cases other <;> rfl

/-! ### A pause for a step -/

namespace Machine

open Run

variable {frame : FrameId}

lemma converseFor_step {line : String} {rest : List String} (k : Nat)
    (hs : s.terminal.input = line :: rest) (hstep : Command.read leader line.toList = .ok .step) :
    converseFor leader frame (k + 1) s =
      .stop (.ok ()) { s.afterLine with debugger := { s.debugger with singleStep := true } } := by
  rw [converseFor_line hs, obeyLine_command hstep nofun]
  rfl

/-- After the pause for a step: the user asked for another one if there was a line left. -/
def afterStep (leader : Char) (frame : FrameId) (expr : Value) (s : State) : State :=
  { s with
    debugger := { s.debugger with
      singleStep := !s.terminal.input.isEmpty, stepOutOf := none, paused := none,
      substitute := none }
    terminal := (opened leader frame (heldUp expr s)).terminal.readLine.2 }

lemma hold_of_step (hs : Stepping leader s) (hstep : s.debugger.singleStep = true) (expr : Value)
    (frame : FrameId) :
    hold leader expr frame s = .stop (.ok none) (afterStep leader frame expr s) := by
  have hheld : isHeld s frame = true := by simp [isHeld, hs.evaluatingLine, hs.paused, hstep]
  have hlines : (opened leader frame (heldUp expr s)).terminal.input = s.terminal.input := by
    simp [opened, heldUp]
  rw [hold_of_isHeld expr hheld, converse_eq (s := heldUp expr s) hs.paused, rounds]
  cases hinput : s.terminal.input with
  | nil =>
    rw [hinput] at hlines
    rw [converseFor_end hlines]
    simp only [afterStep, Terminal.readLine, hlines, hinput]
    rfl
  | cons line rest =>
    rw [hinput] at hlines
    have hread := hs.lines line (hinput ▸ List.mem_cons_self)
    rw [converseFor_step _ hlines hread]
    simp only [afterStep, hinput]
    rfl

/-- The pause is announced, and it uses up a line. -/
lemma afterStep_announces (hs : Stepping leader s) (hstep : s.debugger.singleStep = true)
    (expr : Value) (frame : FrameId) :
    Announces leader [(expr, s.heap.render expr)] s (afterStep leader frame expr s) := by
  have hopened : (opened leader frame (heldUp expr s)).terminal =
      (s.terminal.record (.held expr (s.heap.render expr))).record
        (.pause (s.heap.header frame) leader) := by
    simp [opened, heldUp, Terminal.display, hs.working, Terminal.record]
  have hlines : (afterStep leader frame expr s).terminal.input = s.terminal.input.tail := by
    rw [afterStep, Terminal.input_readLine, hopened]
    rfl
  have hsteps : s.stepsLeft = s.terminal.input.length + 1 := if_pos hstep
  refine ⟨⟨hs.interactive, rfl, hs.evaluatingLine, .inr rfl, ?_, fun line hline => ?_⟩, ?_, ?_⟩
  · rw [afterStep, Terminal.broken_readLine, hopened]
    exact hs.working
  · rw [hlines] at hline
    exact hs.lines line (List.mem_of_mem_tail hline)
  · rw [State.announced, afterStep, Terminal.events_readLine, hopened, hsteps]
    simp [Terminal.record, Event.held?, State.announced]
  · rw [hsteps, State.stepsLeft, hlines, List.length_tail]
    cases hinput : s.terminal.input <;> simp [afterStep, hinput]

/-- Before each evaluation the run goes on with the expression, and a pause is announced if there
is a step left. -/
lemma hold_stepping (hs : Stepping leader s) (expr : Value) (frame : FrameId) :
    ∃ t, hold leader expr frame s = .stop (.ok none) t ∧
      Announces leader [(expr, s.heap.render expr)] s t ∧ t.heap = s.heap ∧ t.depth = s.depth ∧
      ∀ which, t.debugger.setting which = s.debugger.setting which := by
  cases hstep : s.debugger.singleStep with
  | false =>
    have hfree : s.debugger.stepOutOf = none := hs.pending.resolve_left (by simp [hstep])
    have hnone : s.stepsLeft = 0 := by simp [State.stepsLeft, hstep]
    refine ⟨s, hold_of_unattended expr frame ⟨hs.interactive, hstep, hfree⟩, ⟨hs, ?_, ?_⟩, rfl, rfl,
      fun _ => rfl⟩
    · rw [hnone, List.take_zero, List.append_nil]
    · rw [hnone, Nat.zero_sub]
  | true =>
    exact ⟨_, hold_of_step hs hstep expr frame, afterStep_announces hs hstep expr frame, rfl, rfl,
      fun which => by cases which <;> rfl⟩

/-! ### Runs that announce nothing of their own -/

end Machine

/-- From a state on, announces nothing between its requests, if they leave such states behind. -/
def Plan.Silent (leader : Char) : State → Plan α → Prop
  | s, stop _ t => Announces leader [] s t
  | s, ask _ t next => Announces leader [] s t ∧
    ∀ a u, Stepping leader u → (next a u).Silent leader u

namespace Plan.Silent

variable {p : Plan α}

lemma of_announces (h : Announces leader [] s t) (hp : p.Silent leader t) : p.Silent leader s := by
  cases p with
  | stop result u => exact h.trans hp
  | ask r u next => exact ⟨h.trans hp.1, hp.2⟩

lemma bind {f : α → Run β} (hp : p.Silent leader s)
    (hf : ∀ a t, Stepping leader t → (f a t).Silent leader t) : (p.bind f).Silent leader s := by
  induction p generalizing s with
  | stop result t =>
    cases result with
    | ok a => exact of_announces hp (hf a t hp.stepping)
    | error e => exact hp
  | ask r t next ih => exact ⟨hp.1, fun a u hu => ih a u (hp.2 a u hu)⟩

lemma attempt (hp : p.Silent leader s) : p.attempt.Silent leader s := by
  induction p generalizing s with
  | stop result t =>
    match result, hp with
    | .ok a, hp | .error (.error e), hp | .error .fault, hp | .error .exhausted, hp => exact hp
  | ask r t next ih => exact ⟨hp.1, fun a u hu => ih a u (hp.2 a u hu)⟩

lemma atEnd {f : State → State} (hp : p.Silent leader s)
    (hf : ∀ t, Stepping leader t → Announces leader [] t (f t)) :
    (p.atEnd f).Silent leader s := by
  induction p generalizing s with
  | stop result t => exact Announces.trans hp (hf t hp.stepping)
  | ask r t next ih => exact ⟨hp.1, fun a u hu => ih a u (hp.2 a u hu)⟩

/-- What a silent plan announces is what its requests announce. -/
theorem announces {answer : Answer} {inside : Request → State → List Visit}
    (hp : p.Silent leader s)
    (hanswer : ∀ r t, Stepping leader t → Announces leader (inside r t) t (answer r t).2) :
    Announces leader (p.visits answer inside) s (p.execute answer).2 := by
  induction p generalizing s with
  | stop result t => exact hp
  | ask r t next ih =>
    have hfirst := hp.1.trans (hanswer r t hp.1.stepping)
    obtain ⟨a, u, hu⟩ | ⟨u, hu⟩ | ⟨u, hu⟩ := (answer r t).cases
    · rw [hu] at hfirst
      rw [visits_ask_answered hu, execute_ask_answered hu]
      exact hfirst.trans (ih a u (hp.2 a u hfirst.stepping))
    · rw [hu] at hfirst
      rw [visits_ask_fault hu, execute_ask_fault hu]
      exact hfirst
    · rw [hu] at hfirst
      rw [visits_ask_exhausted hu, execute_ask_exhausted hu]
      exact hfirst

end Plan.Silent

/-- From every state of a user who steps on, a run announces nothing of its own. -/
def Run.Silent (leader : Char) (x : Run α) : Prop :=
  ∀ s, Stepping leader s → (x s).Silent leader s

namespace Run.Silent

variable {x : Run α} {f : α → Run β}

lemma pure (a : α) : (Pure.pure a : Run α).Silent leader := fun _ hs => Announces.refl hs

lemma halt (reason : Halt) : (Run.halt reason : Run α).Silent leader :=
  fun _ hs => Announces.refl hs

lemma bind (hx : x.Silent leader) (hf : ∀ a, (f a).Silent leader) : (x >>= f).Silent leader :=
  fun s hs => (hx s hs).bind fun a t ht => hf a t ht

lemma view (f : State → α) : (Run.view f).Silent leader := fun _ hs => Announces.refl hs

lemma changeHeap (f : Heap → Heap) : (Run.changeHeap f).Silent leader := fun _ hs =>
  Announces.of_same ⟨hs.interactive, hs.paused, hs.evaluatingLine, hs.pending, hs.working,
    hs.lines⟩ rfl rfl

lemma set (which : Setting) (on : Bool) :
    (Run.changeDebugger (·.set which on)).Silent leader := fun _ hs => by
  cases which <;>
    exact Announces.of_same ⟨hs.interactive, hs.paused, hs.evaluatingLine, hs.pending, hs.working,
      hs.lines⟩ rfl rfl

lemma output (text : String) : (Run.display (.output text)).Silent leader :=
  fun _ hs => Announces.display hs rfl

lemma request (r : Request) : (Run.request r).Silent leader :=
  fun _ hs => ⟨Announces.refl hs, fun _ _ hu => Announces.refl hu⟩

lemma attempt (hx : x.Silent leader) : x.attempt.Silent leader := fun s hs => (hx s hs).attempt

end Run.Silent

lemma silent_compositional : Run.Compositional (Run.Silent leader) where
  pure := .pure
  raise e := .halt (.error e)
  fault := .halt .fault
  bind := .bind
  view := .view
  change := Run.Compositional.of_changeHeap (P := Run.Silent leader) .pure .bind .view .changeHeap
  displayLine _ := .output _
  request := .request

namespace Machine

open Run

variable {m : Machine} {frame : FrameId}

lemma offer_silent (e : Error) (frame : FrameId) : (offer leader e frame).Silent leader := by
  intro s hs
  have hbreaks : s.debugger.breaks = false := by simp [Controller.breaks, hs.interactive]
  rw [offer_of_not_breaks e hbreaks]
  exact Announces.refl hs

lemma evalList_silent (id : CellId) (frame : FrameId) :
    (m.evalList id frame).Silent m.config.leader := by
  have hlast (value : Value) :
      (do traceValue "=> " value; Pure.pure value : Run Value).Silent m.config.leader :=
    Silent.bind (silent_compositional.traceValue _ _) fun _ => Silent.pure value
  refine Silent.bind (Silent.changeHeap _) fun _ => ?_
  refine Silent.bind (silent_compositional.traceValue _ _) fun _ => ?_
  refine Silent.bind (silent_compositional.evalPair m id frame).attempt fun result => ?_
  cases result with
  | ok value => exact hlast value
  | error e => exact Silent.bind (Silent.view _) fun _ => Silent.bind (offer_silent _ frame) hlast

lemma evalFree_silent (expr : Value) (frame : FrameId) :
    (m.evalFree expr frame).Silent m.config.leader := by
  cases expr with
  | sym name =>
    refine Silent.bind (Silent.view _) fun value => ?_
    cases value with
    | some value => exact Silent.pure value
    | none => exact offer_silent _ frame
  | pair id => exact evalList_silent id frame
  | _ => exact Silent.pure _

lemma begin_announces (hs : Stepping leader s) : Announces leader [] s (begin s) := by
  unfold begin
  split
  · exact Announces.of_same ⟨hs.interactive, hs.paused, hs.evaluatingLine, hs.pending, hs.working,
      hs.lines⟩ rfl rfl
  · exact Announces.refl hs

lemma setDepth_announces (hs : Stepping leader s) (n : Nat) :
    Announces leader [] s { s with depth := n } :=
  Announces.of_same ⟨hs.interactive, hs.paused, hs.evaluatingLine, hs.pending, hs.working,
    hs.lines⟩ rfl rfl

/-- An evaluation announces its visit if it is let in, and then nothing of its own. -/
lemma evaluate_announces (hs : Stepping m.config.leader s) (expr : Value) (frame : FrameId) :
    ∃ t, Announces m.config.leader (m.entered (.eval expr frame) s) s t ∧
      (m.evaluate expr frame s).Silent m.config.leader t := by
  have hbegin := begin_announces hs
  obtain ⟨hheap, hdepth⟩ := begin_heap s
  unfold evaluate
  dsimp only [entered]
  rw [hdepth]
  by_cases hlimit : m.config.maxDepth ≤ s.depth
  · rw [if_neg (Nat.not_lt.2 hlimit), if_pos hlimit]
    exact ⟨s, Announces.refl hs, hbegin⟩
  · have hdeeper := setDepth_announces hbegin.stepping (s.depth + 1)
    obtain ⟨t, ht, hannounces, -⟩ := hold_stepping hdeeper.stepping expr frame
    rw [if_pos (Nat.not_le.1 hlimit), if_neg hlimit, evalWithin_eq, bind_apply, ht]
    refine ⟨t, ?_, ?_⟩
    · rw [← hheap]
      exact (hbegin.trans hdeeper).trans hannounces
    · exact (evalFree_silent expr frame t hannounces.stepping).atEnd fun u hu =>
        setDepth_announces hu _

/-- Serving a request begins with its visit, and then announces nothing of its own. -/
lemma serve_announces (hs : Stepping m.config.leader s) (r : Request) :
    ∃ t, Announces m.config.leader (m.entered r s) s t ∧
      (m.serve r s).Silent m.config.leader t := by
  cases r with
  | eval expr frame => exact evaluate_announces hs expr frame
  | apply func args frame =>
    exact ⟨s, .refl hs, silent_compositional.applyTo m func args frame s hs⟩
  | call func operands frame =>
    exact ⟨s, .refl hs, silent_compositional.call m func operands frame s hs⟩
  | pause frame =>
    refine ⟨s, .refl hs, ?_⟩
    change Plan.Silent _ _ (Plan.bind _ _)
    simp only [view, Plan.bind_stop_ok, hs.interactive]
    exact Announces.refl hs
  | setting which change =>
    have hread : (do Pure.pure (Value.bool (← view (·.debugger.setting which))) :
        Run Value).Silent m.config.leader := Silent.bind (Silent.view _) fun _ => Silent.pure _
    refine ⟨s, .refl hs, ?_⟩
    cases change with
    | none => exact hread s hs
    | some on => exact Silent.bind (Silent.set which on) (fun _ => hread) s hs
  | print text =>
    exact ⟨s, .refl hs, Silent.bind (Silent.output text) (fun _ => Silent.pure _) s hs⟩
  | isPaused | depth =>
    exact ⟨s, .refl hs, Silent.bind (Silent.view _) (fun _ => Silent.pure _) s hs⟩

/-- While a request is answered, a pause is announced before each visit that there is a step for,
and before nothing else. -/
theorem perform_announces (fuel : Nat) (r : Request) (s : State)
    (hs : Stepping m.config.leader s) :
    Announces m.config.leader (m.visits fuel r s) s (m.perform fuel r s).2 := by
  induction fuel generalizing r s with
  | zero => exact Announces.refl hs
  | succ fuel ih =>
    obtain ⟨t, ht, hsilent⟩ := serve_announces hs r
    exact ht.trans (hsilent.announces ih)

/-! ### Steps do not show -/

/-- The same program goes on in both states, in the first in steps and in the second without a
user. -/
structure StepsBeside (leader : Char) (s t : State) : Prop where
  stepping : Stepping leader s
  unattended : t.Unattended
  paused : t.debugger.paused = none
  heap : t.heap = s.heap
  depth : t.depth = s.depth
  setting : ∀ which, t.debugger.setting which = s.debugger.setting which

lemma StepsBeside.announces (h : StepsBeside leader s t) {visits : List Visit}
    (ht : Announces leader visits s u) (hheap : u.heap = s.heap) (hdepth : u.depth = s.depth)
    (hsetting : ∀ which, u.debugger.setting which = s.debugger.setting which) :
    StepsBeside leader u t :=
  ⟨ht.stepping, h.unattended, h.paused, h.heap.trans hheap.symm, h.depth.trans hdepth.symm,
    fun which => (h.setting which).trans (hsetting which).symm⟩

lemma coupling_stepsBeside : Coupling (StepsBeside leader) where
  heap h := h.heap
  depth h := h.depth
  setHeap h heap := ⟨(Silent.changeHeap (fun _ => heap) _ h.stepping).stepping, h.unattended,
    h.paused, rfl, h.depth, h.setting⟩
  setDepth h n := ⟨(setDepth_announces h.stepping n).stepping, h.unattended, h.paused, h.heap, rfl,
    h.setting⟩

lemma display_stepsBeside {event : Event} (hevent : event.held? = none) :
    (display event).Matches (StepsBeside leader) (display event) :=
  Matches.modify fun _ _ h => ⟨(Announces.display h.stepping hevent).stepping, h.unattended,
    h.paused, h.heap, h.depth, h.setting⟩

lemma viewSetting_stepsBeside {β : Type} (which : Setting) (f : Bool → β) :
    (view fun s => f (s.debugger.setting which)).Matches (StepsBeside leader)
      (view fun s => f (s.debugger.setting which)) :=
  Matches.view fun _ _ h => congrArg f (h.setting which)

lemma traceValue_stepsBeside (mark : String) (value : Value) :
    (traceValue mark value).Matches (StepsBeside leader) (traceValue mark value) := by
  refine Matches.bind (viewSetting_stepsBeside .trace id) fun on => ?_
  cases on with
  | false => exact Matches.pure ()
  | true =>
    refine Matches.bind (Matches.view fun _ _ h => h.depth) fun depth => ?_
    exact Matches.bind (Matches.viewHeap coupling_stepsBeside (·.render value)) fun _ =>
      display_stepsBeside rfl

lemma offer_stepsBeside (e : Error) (frame : FrameId) :
    (offer leader e frame).Matches (StepsBeside leader) (offer leader e frame) := by
  intro s t h
  have hbreaks : s.debugger.breaks = false := by
    simp [Controller.breaks, h.stepping.interactive]
  rw [offer_of_not_breaks e hbreaks, offer_of_unattended e frame h.unattended]
  exact .stop h

lemma hold_stepsBeside (expr : Value) (frame : FrameId) :
    (hold leader expr frame).Matches (StepsBeside leader) (hold leader expr frame) := by
  intro s t h
  obtain ⟨u, hu, hannounces, hheap, hdepth, hsetting⟩ := hold_stepping h.stepping expr frame
  rw [hu, hold_of_unattended expr frame h.unattended]
  exact .stop (h.announces hannounces hheap hdepth hsetting)

lemma set_stepsBeside (which : Setting) (on : Bool) :
    (changeDebugger (·.set which on)).Matches (StepsBeside leader)
      (changeDebugger (·.set which on)) := by
  refine Matches.modify fun s t h => ?_
  have hsetting (other : Setting) :
      (t.debugger.set which on).setting other = (s.debugger.set which on).setting other := by
    rw [Controller.setting_set, Controller.setting_set, h.setting]
  have hunattended : (t.debugger.set which on).Unattended := by
    cases which <;>
      exact ⟨h.unattended.interactive, h.unattended.singleStep, h.unattended.stepOutOf⟩
  have hpaused : (t.debugger.set which on).paused = none := by cases which <;> exact h.paused
  exact ⟨(Silent.set which on s h.stepping).stepping, hunattended, hpaused, h.heap, h.depth,
    hsetting⟩

lemma debugger_stepsBeside {r : Request} (hr : r.ToDebugger) :
    (m.serve r).Matches (StepsBeside m.config.leader) (m.serve r) := by
  cases r with
  | pause frame =>
    intro s t h
    change Plan.Matches _ _ (Plan.bind _ _) (Plan.bind _ _)
    simp only [view, Plan.bind_stop_ok, h.stepping.interactive, h.unattended.interactive]
    exact .stop h
  | setting which change =>
    have hread : (do Pure.pure (Value.bool (← view (·.debugger.setting which)))).Matches
        (StepsBeside m.config.leader) _ :=
      Matches.bind (viewSetting_stepsBeside which id) fun _ => Matches.pure _
    cases change with
    | none => exact hread
    | some on => exact Matches.bind (set_stepsBeside which on) fun _ => hread
  | print text => exact Matches.bind (display_stepsBeside rfl) fun _ => Matches.pure _
  | isPaused =>
    refine Matches.bind (Matches.view fun _ _ h => ?_) fun _ => Matches.pure _
    exact h.paused.trans h.stepping.paused.symm
  | _ => exact hr.elim

/-- A machine does the same in steps and without a user. -/
theorem mirrors_stepsBeside (m : Machine) :
    Mirrors (StepsBeside m.config.leader) (fun _ => True) m m where
  coupling := coupling_stepsBeside
  bodies := rfl
  maxDepth := rfl
  begin s t h := by
    have hbegin := (begin_announces h.stepping).stepping
    revert hbegin
    unfold begin
    rw [h.depth]
    split
    · refine fun hbegin => ⟨hbegin, ⟨h.unattended.interactive, h.unattended.singleStep,
        h.unattended.stepOutOf⟩, h.paused, h.heap, rfl, fun which => ?_⟩
      cases which
      exacts [h.setting .trace, h.setting .breakOnError]
    · exact fun _ => h
  trace := traceValue_stepsBeside
  offer := offer_stepsBeside
  hold := hold_stepsBeside
  debugger _ hr _ := debugger_stepsBeside hr

end Machine

namespace Interpreter

/-- The interpreter with a user who writes the lines at a display that works, and a host that asks
for a pause before the next evaluation. -/
def inSingleSteps (i : Interpreter) (lines : List String) : Interpreter :=
  { i with state := { i.state with
      debugger := { i.state.debugger with singleStep := true }
      terminal := .ofLines lines } }

/-- The interpreter without any request to pause. -/
def withoutSteps (i : Interpreter) : Interpreter :=
  { i with state := { i.state with debugger := i.state.debugger.clearSteps } }

/-- Single steps visit every evaluation once. A program runs twice from the same state, in which no
pause is under way and there is no interactive user: in steps, where each line that waits asks for
another one, and without any request to pause. The result and the heap are the same. What pauses
are announced before, in steps, are the evaluations that the other run visits, in their order, up to
its end or its error: as many as there are lines and one more, so all of them if there are lines
enough. -/
theorem run_inSingleSteps {α : Type} {i : Interpreter} {lines : List String}
    (hinteractive : i.state.debugger.interactive = false)
    (hpaused : i.state.debugger.paused = none)
    (hevaluating : i.state.debugger.evaluatingLine = false)
    (hlines : ∀ line ∈ lines, Command.read i.machine.config.leader line.toList = .ok .step)
    (p : Program α) (fuel : Nat) :
    ((i.inSingleSteps lines).run fuel p).1 = (i.withoutSteps.run fuel p).1 ∧
      ((i.inSingleSteps lines).run fuel p).2.state.heap =
        (i.withoutSteps.run fuel p).2.state.heap ∧
      ((i.inSingleSteps lines).run fuel p).2.state.announced =
        (i.withoutSteps.visits fuel p).take (lines.length + 1) ∧
      ((i.withoutSteps.visits fuel p).length ≤ lines.length + 1 →
        ((i.inSingleSteps lines).run fuel p).2.state.announced =
          i.withoutSteps.visits fuel p) := by
  have hstepping : Stepping i.machine.config.leader (i.inSingleSteps lines).state :=
    ⟨hinteractive, hpaused, hevaluating, .inl rfl, rfl, hlines⟩
  have hstart : Machine.StepsBeside i.machine.config.leader (i.inSingleSteps lines).state
      i.withoutSteps.state :=
    ⟨hstepping, ⟨hinteractive, rfl, rfl⟩, hpaused, rfl, rfl, fun which => by cases which <;> rfl⟩
  have hmirrors := Machine.mirrors_stepsBeside i.machine
  have hplans := Run.Matches.program hmirrors.coupling p _ _ hstart
  obtain ⟨hresult, hend⟩ := hmirrors.execute fuel hplans (fun _ _ _ h => h) fun _ _ => trivial
  have hvisits := hmirrors.visits_execute fuel hplans fun _ _ => trivial
  have hsilent := silent_compositional.program p _ hstepping
  have hannounced := (hsilent.announces fun r s hs =>
    Machine.perform_announces fuel r s hs).announced
  rw [hvisits] at hannounced
  have htake : ((i.inSingleSteps lines).run fuel p).2.state.announced =
      (i.withoutSteps.visits fuel p).take (lines.length + 1) := hannounced
  refine ⟨hresult, hend.heap.symm, htake, fun henough => ?_⟩
  rw [htake, List.take_of_length_le henough]

/-- A program in which a primitive calls a closure for each item of a list. -/
def increments : Program Value := .evalText "(map (lambda (x) (+ x 1)) '(1 2))"

/-- The user meets operands, what a special form evaluates of its operands, and the body of the
closure as often as it is called. -/
theorem run_inSingleSteps_increments :
    (full .standard).state.debugger.interactive = false ∧
      (full .standard).state.debugger.paused = none ∧
      (full .standard).state.debugger.evaluatingLine = false ∧
      (∀ line ∈ List.replicate 13 ":s", Command.read ':' line.toList = .ok .step) ∧
      (((full .standard).inSingleSteps (List.replicate 13 ":s")).run 12
          increments).2.state.announced.map Prod.snd =
        ["(map (lambda (x) (+ x 1)) (quote (1 2)))", "map", "(lambda (x) (+ x 1))", "lambda",
          "(quote (1 2))", "quote", "(+ x 1)", "+", "x", "1", "(+ x 1)", "+", "x", "1"] := by
  have hlines : ∀ line ∈ List.replicate 13 ":s", Command.read ':' line.toList = .ok .step := by
    intro line hline
    rw [List.eq_of_mem_replicate hline]
    decide +kernel
  have hvisits : ((full .standard).withoutSteps.visits 12 increments).map Prod.snd =
      ["(map (lambda (x) (+ x 1)) (quote (1 2)))", "map", "(lambda (x) (+ x 1))", "lambda",
        "(quote (1 2))", "quote", "(+ x 1)", "+", "x", "1", "(+ x 1)", "+", "x", "1"] := by
    decide +kernel
  have hcount := congrArg List.length hvisits
  rw [List.length_map] at hcount
  obtain ⟨-, -, -, hall⟩ :=
    run_inSingleSteps (i := full .standard) rfl rfl rfl hlines increments 12
  refine ⟨rfl, rfl, rfl, hlines, ?_⟩
  rw [hall (by rw [hcount]; decide), hvisits]

end Interpreter

end HostedLisp
