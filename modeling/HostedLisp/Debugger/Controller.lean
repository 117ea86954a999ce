import HostedLisp.Heap.Scope

/-!
# The state of the debugger

Settings, requests to pause that are still to be met, and the pause that is under way. Main
definitions: `Controller`, `Controller.breaks`.
-/

namespace HostedLisp.Debugger

/-- The settings of the debugger that programs can read and change. -/
inductive Setting where
  | trace
  | breakOnError
deriving DecidableEq, Repr

/-- The state of the debugger of one interpreter. -/
structure Controller where
  /-- Show every list expression and its value. -/
  trace : Bool
  breakOnError : Bool
  /-- A user reads the terminal. -/
  interactive : Bool
  singleStep : Bool
  /-- Pause before the next evaluation in the parent of this frame. -/
  stepOutOf : Option FrameId
  evaluatingLine : Bool
  /-- The frame of the pause that is under way. -/
  paused : Option FrameId
  /-- The value that stands in for the paused expression. -/
  substitute : Option Value
  /-- The user has let a failure pass, which ends the whole evaluation. -/
  unwinding : Bool
  /-- Code of the host can put other lines into the input during a pause, which may go on for this
  number of lines more than were there at first. -/
  spare : Nat
deriving DecidableEq, Repr, Inhabited

namespace Controller

/-- Whether a failure is offered to the user. -/
def breaks (c : Controller) : Bool :=
  c.breakOnError && c.interactive && !c.evaluatingLine && !c.unwinding && c.paused.isNone

/-- During a pause no failure is offered. -/
theorem breaks_eq_false_of_paused {c : Controller} (h : c.paused.isSome = true) :
    c.breaks = false := by
  cases paused : c.paused with
  | none => simp [paused] at h
  | some frame => simp [breaks, paused]

/-- Forgets requests to pause before an evaluation. -/
def clearSteps (c : Controller) : Controller := { c with singleStep := false, stepOutOf := none }

def setting (c : Controller) : Setting → Bool
  | .trace => c.trace
  | .breakOnError => c.breakOnError

def set (c : Controller) (which : Setting) (on : Bool) : Controller :=
  match which with
  | .trace => { c with trace := on }
  | .breakOnError => { c with breakOnError := on }

/-- The state in a debugging view. -/
def inspect (c : Controller) (h : Heap) : String :=
  let paused := match c.paused with
    | some frame => s!"Some({h.inspectFrame frame})"
    | none => "None"
  "DebugController \x7b " ++
    s!"trace: {c.trace}, break_on_error: {c.breakOnError}, interactive: {c.interactive}, " ++
    s!"single_step: {c.singleStep}, paused: {paused}, .. " ++ "\x7d"

end Controller

end HostedLisp.Debugger
