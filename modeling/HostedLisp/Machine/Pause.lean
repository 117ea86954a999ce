import HostedLisp.Machine.Run

/-!
# Pauses

A pause holds an evaluation up until the user resumes it. Meanwhile the debugger reads lines and
obeys them; lines that are expressions are evaluated in the frame of the pause. Only one pause can
be under way. Main definitions: `converse`, `offer`, `hold`.
-/

namespace HostedLisp.Machine

open Debugger Run

/-- What the debugger does after a command. -/
inductive Flow where
  | stay
  | resume
deriving DecidableEq, Repr

/-- The value of an expression that the user wrote, evaluated in the frame of the pause. -/
def evalLine (source : List Char) (frame : FrameId) : Run (Except Error Value) := do
  match Datum.read (String.ofList source) with
  | .error e => pure (.error (.parse e))
  | .ok d =>
    let expr ← (Program.perform (.place d)).run
    let outer ← view (·.debugger.evaluatingLine)
    changeDebugger fun c => { c with evaluatingLine := true }
    let result ← attempt (request (.eval expr frame))
    changeDebugger fun c => { c with evaluatingLine := outer }
    pure result

/-- Says that a line of the user could not be evaluated. -/
def displayFailure (error : Error) : Run Unit :=
  displayLine s!"Error in evaluation: {error.message}"

/-- Shows a text that depends on the heap. -/
def displayView (text : Heap → String) : Run Unit := do
  display (.output (text (← view State.heap)))

/-- Carries out a command of the user. -/
def obey (leader : Char) (frame : FrameId) : Command → Run Flow
  | .help => do
    display (.output (Command.helpText leader))
    pure .stay
  | .backtrace => do
    displayView (·.headers frame)
    pure .stay
  | .dump => do
    displayView (·.dump frame)
    pure .stay
  | .frame index => do
    displayView (·.dumpFrame frame index)
    pure .stay
  | .breakOnError on => do
    changeDebugger (·.set .breakOnError on)
    displayLine (if on then "Break on error on." else "Break on error off.")
    pure .stay
  | .trace on => do
    changeDebugger (·.set .trace on)
    displayLine (if on then "Trace on." else "Trace off.")
    pure .stay
  | .resume => do
    changeDebugger Controller.clearSteps
    pure .resume
  | .quit => do
    record .quit
    pure .resume
  | .step => do
    changeDebugger fun c => { c with singleStep := true }
    pure .resume
  | .stepOut => do
    match ← view (·.heap.parent? frame) with
    | none =>
      displayLine "Already at top frame."
      pure .stay
    | some _ =>
      changeDebugger fun c => { c with stepOutOf := some frame }
      pure .resume
  | .resumeWith source => do
    match ← evalLine source frame with
    | .ok value =>
      changeDebugger fun c => { c.clearSteps with substitute := some value }
      pure .resume
    | .error e =>
      displayFailure e
      pure .stay
  | .evaluate source => do
    match ← evalLine source frame with
    | .ok value => displayView fun h => s!"==> {h.render value}\n"
    | .error e => displayFailure e
    pure .stay

/-- Obeys a line of the user. -/
def obeyLine (leader : Char) (frame : FrameId) (line : String) : Run Flow := do
  if (Text.trim line.toList).isEmpty then pure .stay
  else match Command.read leader line.toList with
    | .error refusal => do
      displayLine refusal.message
      pure .stay
    | .ok command => obey leader frame command

/-- Reads and obeys lines until one resumes or there are no more of them. Each round looks at the
input anew, which code of the host may have changed since the last one. -/
def converseFor (leader : Char) (frame : FrameId) : Nat → Run Unit
  | 0 => pure ()
  | rounds + 1 => do
    match ← readLine with
    | none => pure ()
    | some line =>
      match ← obeyLine leader frame line with
      | .resume => pure ()
      | .stay => converseFor leader frame rounds

/-- How often a pause that begins now looks for a line at most: once for each line that it may read,
and once for the end of the input. -/
def rounds (s : State) : Nat := s.terminal.input.length + s.debugger.spare + 1

/-- Pauses in a frame until the user resumes. The value to resume with, if any, is left in the
debugger. -/
def converse (leader : Char) (frame : FrameId) : Run Unit := do
  if (← view (·.debugger.paused)).isSome then displayLine "Debugger already active."
  else
    changeDebugger fun c => { c with paused := some frame, substitute := none }
    display (.pause (← view (·.heap.header frame)) leader)
    converseFor leader frame (← view rounds)
    changeDebugger fun c => { c with paused := none }

/-- The value that the user resumed with. It is handed out once. -/
def takeSubstitute : Run (Option Value) := do
  let value ← view (·.debugger.substitute)
  changeDebugger fun c => { c with substitute := none }
  pure value

/-- Offers a failure to the user, who can put a value in its place. A failure that the user lets
pass is not offered again. -/
def offer (leader : Char) (error : Error) (frame : FrameId) : Run Value := do
  if (← view (·.debugger.breaks)) then
    display (.failure error)
    converse leader frame
    match ← takeSubstitute with
    | some value => pure value
    | none =>
      changeDebugger fun c => { c with unwinding := true }
      raise error
  else raise error

/-- Whether the user asked for a pause before an evaluation in a frame. -/
def isHeld (s : State) (frame : FrameId) : Bool :=
  let c := s.debugger
  !c.evaluatingLine && c.paused.isNone &&
    (c.singleStep || (c.stepOutOf.bind s.heap.parent?) == some frame)

/-- Pauses before an evaluation if the user asked for it, and yields the value that is to stand in
for the expression. -/
def hold (leader : Char) (expr : Value) (frame : FrameId) : Run (Option Value) := do
  if (← view (isHeld · frame)) then
    changeDebugger Controller.clearSteps
    display (.held expr (← view (·.heap.render expr)))
    converse leader frame
    takeSubstitute
  else pure none

end HostedLisp.Machine
