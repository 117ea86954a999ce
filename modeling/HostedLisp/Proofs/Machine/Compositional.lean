import HostedLisp.Machine.Evaluation
import Mathlib.Tactic.Lemma

/-!
# Compositional properties of runs

What programs do, how functions are called and how the parts of a list are evaluated is all made of
the same few steps. A property that these steps have, and that goes over from the parts of a run to
the whole, is one of all such runs: `Run.Compositional.evalPair`. What is done about a failure is
not covered, since a run that goes on after an error is more than its parts.

The lines of a user are obeyed in small steps too: `Run.Obedient.converseFor`. From what is known of
pauses follows what is known of offered failures and of evaluations that are held up,
`Run.Attentive.offer`, and from all this what is known of all requests but that for an evaluation,
which has a level of its own: `Run.Thorough.serve`.
-/

namespace HostedLisp

/-- A property that single steps have and that goes over from the parts of a run to the whole. -/
structure Run.Compositional (P : {α : Type} → Run α → Prop) : Prop where
  pure {α : Type} (a : α) : P (Pure.pure a : Run α)
  raise {α : Type} (e : Error) : P (Run.raise e : Run α)
  fault {α : Type} : P (Run.halt .fault : Run α)
  bind {α β : Type} {x : Run α} {f : α → Run β} (hx : P x) (hf : ∀ a, P (f a)) : P (x >>= f)
  view {α : Type} (f : State → α) : P (Run.view f)
  change (c : Change) : P (Program.perform c).run
  displayLine (text : String) : P (Run.displayLine text)
  request (r : Request) : P (Run.request r)

namespace Run.Compositional

variable {P : {α : Type} → Run α → Prop}

/-- What is known of all functions on heaps is known of the changes: the heap is looked at, replaced
by the changed one, and the answer is given. -/
lemma of_changeHeap (pure : ∀ {α : Type} (a : α), P (Pure.pure a : Run α))
    (bind : ∀ {α β : Type} {x : Run α} {f : α → Run β}, P x → (∀ a, P (f a)) → P (x >>= f))
    (view : ∀ {α : Type} (f : State → α), P (Run.view f))
    (changeHeap : ∀ f : Heap → Heap, P (Run.changeHeap f)) (c : Change) :
    P (Program.perform c).run := by
  have hanswer (before : Heap) : P (Run.changeHeap (fun _ => (before.apply c).2) >>= fun _ =>
      (Pure.pure (before.apply c).1 : Run c.Answer)) :=
    bind (changeHeap _) fun _ => pure _
  exact bind (view State.heap) hanswer

variable (h : Run.Compositional P)

include h

lemma program {α : Type} (p : Program α) : P p.run := by
  induction p with
  | done a => exact h.pure a
  | fail e => exact h.raise e
  | fault => exact h.fault
  | look next ih => exact h.bind (h.view State.heap) ih
  | change c next ih => exact h.bind (h.change c) ih
  | ask r next ih => exact h.bind (h.request r) ih

lemma traceValue (mark : String) (value : Value) : P (Machine.traceValue mark value) := by
  refine h.bind (h.view _) fun on => ?_
  split
  · refine h.bind (h.view _) fun depth => ?_
    exact h.bind (h.view _) fun text => h.displayLine _
  · exact h.pure ()

lemma invoke (m : Machine) (p : Primitive) (args : List Value) (frame : FrameId) :
    P (m.invoke p args frame) := by
  unfold Machine.invoke
  split
  · cases m.bodies[p.id]? with
    | none => exact h.fault
    | some body => exact h.program _
  · exact h.raise _

lemma applyTo (m : Machine) (func : Value) (args : List Value) (frame : FrameId) :
    P (m.applyTo func args frame) := by
  cases func with
  | primitive p =>
    unfold Machine.applyTo
    dsimp only
    cases p.kind with
    | function => exact h.invoke m p args frame
    | specialForm => exact h.raise _
  | closure id => exact h.bind (h.view _) fun c => h.program _
  | _ => exact h.bind (h.view _) fun _ => h.raise _

lemma call (m : Machine) (func : Value) (operands : List Value) (frame : FrameId) :
    P (m.call func operands frame) := by
  have hfunction : P (do m.applyTo func (← (Program.evalAll operands frame).run) frame) :=
    h.bind (h.program _) fun args => h.applyTo m func args frame
  cases func with
  | primitive p =>
    unfold Machine.call
    dsimp only
    cases p.kind with
    | function => exact hfunction
    | specialForm => exact h.invoke m p operands frame
  | _ => exact hfunction

/-- The evaluation of a list before anything is done about its failure. -/
theorem evalPair (m : Machine) (id : CellId) (frame : FrameId) : P (m.evalPair id frame) := by
  refine h.bind (h.view _) fun head => ?_
  refine h.bind (h.request _) fun func => ?_
  refine h.bind (h.view _) fun tail => ?_
  refine h.bind (h.view _) fun operands => ?_
  cases operands with
  | none => exact h.bind (h.view _) fun _ => h.raise _
  | some operands =>
    dsimp only
    split
    · exact h.call m func operands frame
    · exact h.bind (h.view _) fun _ => h.raise _

end Run.Compositional

/-! ### Lines of the user -/

/-- The steps in which an expression on a line is evaluated. Its failure is a result, too. -/
lemma Run.evalLine_of {P : {α : Type} → Run α → Prop} {frame : FrameId}
    (pure : ∀ {α : Type} (a : α), P (Pure.pure a : Run α))
    (bind : ∀ {α β : Type} {x : Run α} {f : α → Run β}, P x → (∀ a, P (f a)) → P (x >>= f))
    (view : ∀ {α : Type} (f : State → α), P (Run.view f))
    (place : ∀ d, P (Program.perform (.place d)).run)
    (mark : ∀ on, P (Run.changeDebugger fun c => { c with evaluatingLine := on }))
    (ask : ∀ expr, P (Run.attempt (Run.request (.eval expr frame)))) (source : List Char) :
    P (Machine.evalLine source frame) := by
  unfold Machine.evalLine
  split
  · exact pure _
  · refine bind (place _) fun expr => ?_
    refine bind (view _) fun outer => ?_
    refine bind (mark true) fun _ => ?_
    exact bind (ask expr) fun result => bind (mark outer) fun _ => pure result

/-- A property of the steps in which lines of the user are obeyed, apart from resuming with a
value. -/
structure Run.Obedient (P : {α : Type} → Run α → Prop) : Prop where
  pure {α : Type} (a : α) : P (Pure.pure a : Run α)
  bind {α β : Type} {x : Run α} {f : α → Run β} (hx : P x) (hf : ∀ a, P (f a)) : P (x >>= f)
  view {α : Type} (f : State → α) : P (Run.view f)
  output (text : String) : P (Run.display (.output text))
  quit : P (Run.record .quit)
  set (which : Debugger.Setting) (on : Bool) : P (Run.changeDebugger (·.set which on))
  clearSteps : P (Run.changeDebugger Debugger.Controller.clearSteps)
  singleStep : P (Run.changeDebugger fun c => { c with singleStep := true })
  stepOutOf (frame : FrameId) : P (Run.changeDebugger fun c => { c with stepOutOf := some frame })
  evalLine (source : List Char) (frame : FrameId) : P (Machine.evalLine source frame)

namespace Run.Obedient

open Debugger

variable {P : {α : Type} → Run α → Prop} (h : Run.Obedient P) {leader : Char} {frame : FrameId}

include h

lemma displayView (text : Heap → String) : P (Machine.displayView text) :=
  h.bind (h.view _) fun _ => h.output _

lemma say {x : Run Unit} (hx : P x) (flow : Machine.Flow) : P (x >>= fun _ => Pure.pure flow) :=
  h.bind hx fun _ => h.pure flow

lemma displayFailure (e : Error) : P (Machine.displayFailure e) := h.output _

/-- Every command that leaves the paused expression its own value. -/
lemma obey_of_not_resumeWith {command : Command} (hne : ∀ source, command ≠ .resumeWith source) :
    P (Machine.obey leader frame command) := by
  cases command with
  | help => exact h.say (h.output _) .stay
  | backtrace | dump | frame => exact h.say (h.displayView _) .stay
  | breakOnError on => exact h.bind (h.set .breakOnError on) fun _ => h.say (h.output _) .stay
  | trace on => exact h.bind (h.set .trace on) fun _ => h.say (h.output _) .stay
  | resume => exact h.say h.clearSteps .resume
  | quit => exact h.say h.quit .resume
  | step => exact h.say h.singleStep .resume
  | stepOut =>
    refine h.bind (h.view _) fun parent => ?_
    cases parent with
    | none => exact h.say (h.output _) .stay
    | some _ => exact h.say (h.stepOutOf frame) .resume
  | resumeWith source => exact absurd rfl (hne source)
  | evaluate source =>
    refine h.bind (h.evalLine source frame) fun result => ?_
    cases result with
    | ok value => exact h.say (h.displayView _) .stay
    | error e => exact h.say (h.displayFailure e) .stay

variable (hsubstitute : ∀ value,
  P (Run.changeDebugger fun c => { c.clearSteps with substitute := some value }))

include hsubstitute

lemma obey (command : Command) : P (Machine.obey leader frame command) := by
  cases command with
  | resumeWith source =>
    refine h.bind (h.evalLine source frame) fun result => ?_
    cases result with
    | ok value => exact h.say (hsubstitute value) .resume
    | error e => exact h.say (h.displayFailure e) .stay
  | _ => exact h.obey_of_not_resumeWith nofun

theorem obeyLine (line : String) : P (Machine.obeyLine leader frame line) := by
  unfold Machine.obeyLine
  split
  · exact h.pure _
  · split
    · exact h.say (h.output _) .stay
    · exact h.obey hsubstitute _

/-- The loop of a pause is made of reading lines and of obeying them. -/
theorem converseFor (hread : P Run.readLine) (lines : Nat) :
    P (Machine.converseFor leader frame lines) := by
  induction lines with
  | zero => exact h.pure ()
  | succ lines ih =>
    refine h.bind hread fun line => ?_
    cases line with
    | none => exact h.pure ()
    | some line =>
      refine h.bind (h.obeyLine hsubstitute line) fun flow => ?_
      cases flow with
      | resume => exact h.pure ()
      | stay => exact ih

end Run.Obedient

/-! ### Pauses of an evaluation -/

/-- A property of pauses and of the steps before and after them, when a failure is offered or an
evaluation is held up. -/
structure Run.Attentive (leader : Char) (P : {α : Type} → Run α → Prop) : Prop where
  pure {α : Type} (a : α) : P (Pure.pure a : Run α)
  raise {α : Type} (e : Error) : P (Run.raise e : Run α)
  bind {α β : Type} {x : Run α} {f : α → Run β} (hx : P x) (hf : ∀ a, P (f a)) : P (x >>= f)
  view {α : Type} (f : State → α) : P (Run.view f)
  display (event : Debugger.Event) : P (Run.display event)
  clearSteps : P (Run.changeDebugger Debugger.Controller.clearSteps)
  unwind : P (Run.changeDebugger fun c => { c with unwinding := true })
  takeSubstitute : P Machine.takeSubstitute
  converse (frame : FrameId) : P (Machine.converse leader frame)

namespace Run.Attentive

variable {P : {α : Type} → Run α → Prop} {leader : Char} (h : Run.Attentive leader P)

include h

lemma offer (e : Error) (frame : FrameId) : P (Machine.offer leader e frame) := by
  refine h.bind (h.view _) fun breaks => ?_
  split
  · refine h.bind (h.display _) fun _ => ?_
    refine h.bind (h.converse frame) fun _ => ?_
    refine h.bind h.takeSubstitute fun value => ?_
    cases value with
    | some value => exact h.pure value
    | none => exact h.bind h.unwind fun _ => h.raise e
  · exact h.raise e

lemma hold (expr : Value) (frame : FrameId) : P (Machine.hold leader expr frame) := by
  refine h.bind (h.view _) fun held => ?_
  split
  · refine h.bind h.clearSteps fun _ => ?_
    refine h.bind (h.view _) fun text => ?_
    refine h.bind (h.display _) fun _ => ?_
    exact h.bind (h.converse frame) fun _ => h.takeSubstitute
  · exact h.pure none

end Run.Attentive

/-! ### All requests -/

/-- A property that programs have, and also what is done about failures, pauses and steps. -/
structure Run.Thorough (m : Machine) (P : {α : Type} → Run α → Prop) : Prop
    extends Run.Compositional P where
  attempt {α : Type} {x : Run α} (hx : P x) : P x.attempt
  setCode (frame : FrameId) (code : Value) : P (Run.changeHeap (·.setCode frame code))
  output (text : String) : P (Run.display (.output text))
  set (which : Debugger.Setting) (on : Bool) : P (Run.changeDebugger (·.set which on))
  offer (e : Error) (frame : FrameId) : P (Machine.offer m.config.leader e frame)
  hold (expr : Value) (frame : FrameId) : P (Machine.hold m.config.leader expr frame)
  converse (frame : FrameId) : P (Machine.converse m.config.leader frame)
  takeSubstitute : P Machine.takeSubstitute

namespace Run.Thorough

open Machine

variable {m : Machine} {P : {α : Type} → Run α → Prop} (h : Run.Thorough m P)

include h

lemma evalList (id : CellId) (frame : FrameId) : P (m.evalList id frame) := by
  have hlast (value : Value) : P (do
      traceValue "=> " value
      Pure.pure value : Run Value) :=
    h.bind (h.toCompositional.traceValue _ _) fun _ => h.pure value
  refine h.bind (h.setCode frame _) fun _ => ?_
  refine h.bind (h.toCompositional.traceValue _ _) fun _ => ?_
  refine h.bind (h.attempt (h.toCompositional.evalPair m id frame)) fun result => ?_
  cases result with
  | ok value => exact hlast value
  | error e => exact h.bind (h.view _) fun _ => h.bind (h.offer _ frame) hlast

theorem evalWithin (expr : Value) (frame : FrameId) : P (m.evalWithin expr frame) := by
  refine h.bind (h.hold expr frame) fun held => ?_
  cases held with
  | some value => exact h.pure value
  | none =>
    cases expr with
    | sym name =>
      refine h.bind (h.view _) fun value => ?_
      cases value with
      | some value => exact h.pure value
      | none => exact h.offer _ frame
    | pair id => exact h.evalList id frame
    | _ => exact h.pure _

theorem serve {r : Request} (hne : ∀ expr frame, r ≠ .eval expr frame) : P (m.serve r) := by
  cases r with
  | eval expr frame => exact absurd rfl (hne expr frame)
  | apply func args frame => exact h.toCompositional.applyTo m func args frame
  | call func operands frame => exact h.toCompositional.call m func operands frame
  | pause frame =>
    refine h.bind (h.view _) fun interactive => ?_
    split
    · refine h.bind (h.converse frame) fun _ => ?_
      exact h.bind h.takeSubstitute fun _ => h.pure _
    · exact h.pure _
  | setting which change =>
    have hread : P (do Pure.pure (Value.bool (← view (·.debugger.setting which))) : Run Value) :=
      h.bind (h.view _) fun _ => h.pure _
    cases change with
    | none => exact hread
    | some on => exact h.bind (h.set which on) fun _ => hread
  | print text => exact h.bind (h.output text) fun _ => h.pure _
  | isPaused | depth => exact h.bind (h.view _) fun _ => h.pure _

end Run.Thorough

end HostedLisp
