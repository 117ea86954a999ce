import HostedLisp.Debugger.Command
import HostedLisp.Error
import HostedLisp.Value

/-!
# The terminal of the debugger

Lines that wait to be read, and a record of what was shown. A terminal whose display is broken
still takes input: it records no output, only the lines that are read and the end of the session.
Main definitions: `Event`, `Terminal.display`, `Terminal.readLine`.
-/

namespace HostedLisp.Debugger

/-- What happens on the terminal. -/
inductive Event where
  /-- A failure is offered to the user. -/
  | failure (error : Error)
  /-- The evaluation of an expression is held up; the text is that of the expression. -/
  | held (expr : Value) (text : String)
  /-- A pause begins in a frame with that header. -/
  | pause (header : String) (leader : Char)
  /-- A line was read, unless there were none left. -/
  | prompt (line : Option String)
  /-- The user asked to end the session. -/
  | quit
  | output (text : String)
deriving DecidableEq, Repr

/-- How an event looks on the terminal. -/
def Event.render : Event → String
  | failure error => s!"ERROR!  {error.message}\n"
  | held _ text => s!"Paused before: {text}\n"
  | pause header leader => s!"Debugger: {header}    (type " ++ leader.toString ++ "? for help)\n"
  | prompt (some line) => s!"D> {line}\n"
  | prompt none => "D> [eof]\n"
  | quit => "[quit]\n"
  | output text => text

/-- A user at a terminal. -/
structure Terminal where
  /-- The lines that are yet to be read. -/
  input : List String
  /-- What has happened so far. -/
  events : Array Event
  /-- Whether the display is broken. -/
  broken : Bool
deriving Inhabited

namespace Terminal

def ofLines (lines : List String) : Terminal := ⟨lines, #[], false⟩

/-- Records an event, however the display is. -/
def record (t : Terminal) (event : Event) : Terminal := { t with events := t.events.push event }

/-- Shows an event on the display. -/
def display (t : Terminal) (event : Event) : Terminal := if t.broken then t else t.record event

/-- The next line and the terminal after it was read. -/
def readLine (t : Terminal) : Option String × Terminal :=
  match t.input with
  | [] => (none, t.record (.prompt none))
  | line :: rest => (some line, { t with input := rest }.record (.prompt (some line)))

@[simp] theorem input_record (t : Terminal) (event : Event) : (t.record event).input = t.input :=
  rfl

@[simp] theorem events_record (t : Terminal) (event : Event) :
    (t.record event).events = t.events.push event := rfl

@[simp] theorem input_display (t : Terminal) (event : Event) :
    (t.display event).input = t.input := by
  unfold display
  split <;> rfl

theorem input_readLine (t : Terminal) : t.readLine.2.input = t.input.tail := by
  unfold readLine
  cases h : t.input <;> simp [record, h]

def transcript (t : Terminal) : String := t.events.foldl (fun text e => text ++ e.render) ""

end Terminal

end HostedLisp.Debugger
