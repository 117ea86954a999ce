import HostedLisp.Interpreter
import HostedLisp.Proofs.Machine.Mirroring

/-!
# A display that someone watches

Nothing that is shown is ever read back. So a run does the same whatever was shown before it and
whether or not the display is broken; what it leaves on the terminal is what a display that works
would have shown, less what a broken one leaves out: `Interpreter.run_watched`.
-/

namespace HostedLisp

open Debugger

/-- Whether an event is recorded even if the display is broken. -/
def Debugger.Event.kept : Event → Bool
  | .prompt _ | .quit => true
  | _ => false

/-- The two states differ in the terminal only. The first display works; what it shows comes after
the `earlier` events of the second, less what is left out there if it is broken. -/
structure Shows (earlier : List Event) (mute : Bool) (s t : State) : Prop where
  heap : t.heap = s.heap
  depth : t.depth = s.depth
  debugger : t.debugger = s.debugger
  input : t.terminal.input = s.terminal.input
  working : s.terminal.broken = false
  broken : t.terminal.broken = mute
  events : t.terminal.events.toList =
    earlier ++ s.terminal.events.toList.filter fun e => !mute || e.kept

lemma Shows.record {earlier : List Event} {mute : Bool} {event : Event} {s t : State}
    (h : Shows earlier mute s t) (hevent : event.kept = true) :
    Shows earlier mute { s with terminal := s.terminal.record event }
      { t with terminal := t.terminal.record event } := by
  refine ⟨h.heap, h.depth, h.debugger, h.input, h.working, h.broken, ?_⟩
  simp [h.events, hevent]

namespace Machine

open Run

variable {earlier : List Event} {mute : Bool} {leader : Char} {frame : FrameId} {α : Type}

lemma coupling_shows : Coupling (Shows earlier mute) where
  heap h := h.heap
  depth h := h.depth
  setHeap h _ := ⟨rfl, h.depth, h.debugger, h.input, h.working, h.broken, h.events⟩
  setDepth h _ := ⟨h.heap, rfl, h.debugger, h.input, h.working, h.broken, h.events⟩

/-! ### Steps of the debugger -/

lemma display_shows {event : Event} (hevent : event.kept = false) :
    (display event).Matches (Shows earlier mute) (display event) := by
  refine Matches.modify fun s t h => ?_
  have hs : s.terminal.display event = s.terminal.record event := by
    rw [Terminal.display, h.working]
    rfl
  rw [hs, Terminal.display, h.broken]
  refine ⟨h.heap, h.depth, h.debugger, ?_, h.working, ?_, ?_⟩
  · cases mute <;> exact h.input
  · cases mute <;> exact h.broken
  · cases mute with
    | true => simp [h.events, hevent]
    | false => simp [h.events]

lemma record_shows {event : Event} (hevent : event.kept = true) :
    (record event).Matches (Shows earlier mute) (record event) :=
  Matches.modify fun _ _ h => h.record hevent

lemma readLine_shows : readLine.Matches (Shows earlier mute) readLine := by
  intro s t h
  rw [readLine_apply, readLine_apply]
  unfold Terminal.readLine
  rw [h.input]
  cases s.terminal.input with
  | nil => exact .stop (h.record rfl)
  | cons line rest =>
    have hrest : Shows earlier mute { s with terminal := { s.terminal with input := rest } }
        { t with terminal := { t.terminal with input := rest } } :=
      ⟨h.heap, h.depth, h.debugger, rfl, h.working, h.broken, h.events⟩
    exact .stop (hrest.record rfl)

lemma displayView_shows (text : Heap → String) :
    (displayView text).Matches (Shows earlier mute) (displayView text) :=
  Matches.bind (Matches.viewHeap coupling_shows fun heap => heap) fun _ => display_shows rfl

lemma viewDebugger_shows (f : Controller → α) :
    (view (f ·.debugger)).Matches (Shows earlier mute) (view (f ·.debugger)) :=
  Matches.view fun _ _ h => congrArg f h.debugger

lemma changeDebugger_shows (f : Controller → Controller) :
    (changeDebugger f).Matches (Shows earlier mute) (changeDebugger f) :=
  Matches.modify fun _ _ h =>
    ⟨h.heap, h.depth, congrArg f h.debugger, h.input, h.working, h.broken, h.events⟩

lemma traceValue_shows (mark : String) (value : Value) :
    (traceValue mark value).Matches (Shows earlier mute) (traceValue mark value) := by
  refine Matches.bind (viewDebugger_shows (·.trace)) fun on => ?_
  cases on with
  | false => exact Matches.pure ()
  | true =>
    refine Matches.bind (Matches.view fun _ _ h => h.depth) fun depth => ?_
    exact Matches.bind (Matches.viewHeap coupling_shows (·.render value)) fun _ =>
      display_shows rfl

lemma takeSubstitute_shows : takeSubstitute.Matches (Shows earlier mute) takeSubstitute := by
  refine Matches.bind (viewDebugger_shows (·.substitute)) fun value => ?_
  exact Matches.bind (changeDebugger_shows _) fun _ => Matches.pure value

lemma evalLine_shows (source : List Char) (frame : FrameId) :
    (evalLine source frame).Matches (Shows earlier mute) (evalLine source frame) := by
  unfold evalLine
  cases Datum.read (String.ofList source) with
  | error e => exact Matches.pure _
  | ok d =>
    refine Matches.bind (Matches.program coupling_shows _) fun expr => ?_
    refine Matches.bind (viewDebugger_shows (·.evaluatingLine)) fun outer => ?_
    refine Matches.bind (changeDebugger_shows _) fun _ => ?_
    refine Matches.bind (Matches.attempt (Matches.request _)) fun result => ?_
    exact Matches.bind (changeDebugger_shows _) fun _ => Matches.pure result

lemma obey_shows (command : Command) :
    (obey leader frame command).Matches (Shows earlier mute) (obey leader frame command) := by
  have hstay {text : String} : (do displayLine text; pure Flow.stay).Matches
      (Shows earlier mute) _ := Matches.bind (display_shows rfl) fun _ => Matches.pure _
  have hresume (f : Controller → Controller) :
      (do changeDebugger f; pure Flow.resume).Matches (Shows earlier mute) _ :=
    Matches.bind (changeDebugger_shows f) fun _ => Matches.pure _
  cases command with
  | help => exact Matches.bind (display_shows rfl) fun _ => Matches.pure _
  | backtrace | dump | frame => exact Matches.bind (displayView_shows _) fun _ => Matches.pure _
  | breakOnError on | trace on => exact Matches.bind (changeDebugger_shows _) fun _ => hstay
  | quit => exact Matches.bind (record_shows rfl) fun _ => Matches.pure _
  | resume | step => exact hresume _
  | stepOut =>
    refine Matches.bind (Matches.viewHeap coupling_shows (·.parent? frame)) fun parent => ?_
    cases parent with
    | none => exact hstay
    | some _ => exact hresume _
  | resumeWith source =>
    refine Matches.bind (evalLine_shows source frame) fun result => ?_
    cases result with
    | ok value => exact hresume _
    | error e => exact hstay
  | evaluate source =>
    refine Matches.bind (evalLine_shows source frame) fun result => ?_
    cases result with
    | ok value => exact Matches.bind (displayView_shows _) fun _ => Matches.pure _
    | error e => exact hstay

lemma obeyLine_shows (line : String) :
    (obeyLine leader frame line).Matches (Shows earlier mute) (obeyLine leader frame line) := by
  unfold obeyLine
  split
  · exact Matches.pure _
  · cases Command.read leader line.toList with
    | error refusal => exact Matches.bind (display_shows rfl) fun _ => Matches.pure _
    | ok command => exact obey_shows command

/-! ### Pauses -/

lemma converseFor_shows (lines : Nat) :
    (converseFor leader frame lines).Matches (Shows earlier mute)
      (converseFor leader frame lines) := by
  induction lines with
  | zero => exact Matches.pure ()
  | succ lines ih =>
    refine Matches.bind readLine_shows fun line => ?_
    cases line with
    | none => exact Matches.pure ()
    | some line =>
      refine Matches.bind (obeyLine_shows line) fun flow => ?_
      cases flow with
      | resume => exact Matches.pure ()
      | stay => exact ih

lemma converse_shows :
    (converse leader frame).Matches (Shows earlier mute) (converse leader frame) := by
  refine Matches.bind (viewDebugger_shows (·.paused)) fun paused => ?_
  split
  · exact display_shows rfl
  · refine Matches.bind (changeDebugger_shows _) fun _ => ?_
    refine Matches.bind (Matches.viewHeap coupling_shows (·.header frame)) fun _ => ?_
    refine Matches.bind (display_shows rfl) fun _ => ?_
    refine Matches.bind (Matches.view fun s t h => ?_) fun lines => ?_
    · rw [rounds, rounds, h.debugger, h.input]
    · exact Matches.bind (converseFor_shows _) fun _ => changeDebugger_shows _

lemma offer_shows (error : Error) (frame : FrameId) :
    (offer leader error frame).Matches (Shows earlier mute) (offer leader error frame) := by
  refine Matches.bind (viewDebugger_shows (·.breaks)) fun breaks => ?_
  cases breaks with
  | false => exact Matches.raise error
  | true =>
    refine Matches.bind (display_shows rfl) fun _ => ?_
    refine Matches.bind converse_shows fun _ => ?_
    refine Matches.bind takeSubstitute_shows fun value => ?_
    cases value with
    | some value => exact Matches.pure value
    | none => exact Matches.bind (changeDebugger_shows _) fun _ => Matches.raise error

lemma hold_shows (expr : Value) (frame : FrameId) :
    (hold leader expr frame).Matches (Shows earlier mute) (hold leader expr frame) := by
  refine Matches.bind (Matches.view fun s t h => ?_) fun held => ?_
  · unfold isHeld
    rw [h.debugger, h.heap]
  · split
    · refine Matches.bind (changeDebugger_shows _) fun _ => ?_
      refine Matches.bind (Matches.viewHeap coupling_shows (·.render expr)) fun _ => ?_
      refine Matches.bind (display_shows rfl) fun _ => ?_
      exact Matches.bind converse_shows fun _ => takeSubstitute_shows
    · exact Matches.pure none

lemma debugger_shows (m : Machine) {r : Request} (hr : r.ToDebugger) :
    (m.serve r).Matches (Shows earlier mute) (m.serve r) := by
  cases r with
  | pause frame =>
    refine Matches.bind (viewDebugger_shows (·.interactive)) fun interactive => ?_
    cases interactive with
    | false => exact Matches.pure _
    | true =>
      refine Matches.bind converse_shows fun _ => ?_
      exact Matches.bind takeSubstitute_shows fun _ => Matches.pure _
  | setting which change =>
    have hread : (do pure (Value.bool (← view (·.debugger.setting which)))).Matches
        (Shows earlier mute) _ :=
      Matches.bind (viewDebugger_shows (·.setting which)) fun _ => Matches.pure _
    cases change with
    | none => exact hread
    | some on => exact Matches.bind (changeDebugger_shows _) fun _ => hread
  | print text => exact Matches.bind (display_shows rfl) fun _ => Matches.pure _
  | isPaused => exact Matches.bind (viewDebugger_shows (·.paused)) fun _ => Matches.pure _
  | _ => exact hr.elim

/-- A machine does the same whatever the display is. -/
theorem mirrors_shows (m : Machine) : Mirrors (Shows earlier mute) (fun _ => True) m m where
  coupling := coupling_shows
  bodies := rfl
  maxDepth := rfl
  begin s t h := by
    unfold begin
    rw [h.depth]
    split
    · exact ⟨h.heap, rfl, congrArg ({ · with unwinding := false }) h.debugger, h.input, h.working,
        h.broken, h.events⟩
    · exact h
  trace := traceValue_shows
  offer := offer_shows
  hold := hold_shows
  debugger _ hr _ := debugger_shows m hr

end Machine

namespace Interpreter

/-- The interpreter at a display that works and shows nothing yet, before a user who writes the
lines. -/
def facing (i : Interpreter) (lines : List String) : Interpreter :=
  { i with state := { i.state with terminal := .ofLines lines } }

/-- The interpreter at such a display, before the same user. -/
def watched (i : Interpreter) : Interpreter := i.facing i.state.terminal.input

/-- A program runs in the same way whatever was shown before and whether or not the display is
broken. -/
theorem run_watched (i : Interpreter) {α : Type} (p : Program α) (fuel : Nat) :
    (i.run fuel p).1 = (i.watched.run fuel p).1 ∧
      Shows i.state.terminal.events.toList i.state.terminal.broken
        (i.watched.run fuel p).2.state (i.run fuel p).2.state := by
  have hstart : Shows i.state.terminal.events.toList i.state.terminal.broken i.watched.state
      i.state := ⟨rfl, rfl, rfl, rfl, rfl, rfl, (List.append_nil _).symm⟩
  have hplans := Run.Matches.program Machine.coupling_shows p i.watched.state i.state hstart
  obtain ⟨hresult, hend⟩ := (Machine.mirrors_shows i.machine).execute fuel hplans
    (fun _ _ _ h => h) fun _ _ => trivial
  exact ⟨hresult.symm, hend⟩

end Interpreter

end HostedLisp
