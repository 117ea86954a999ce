import HostedLisp.Machine.Pause

/-!
# Evaluation

A name stands for its value, a list for the call of its first element, and everything else for
itself. The number of evaluations that are under way at once is limited. What the evaluation of
one expression needs of others it asks for by requests; answering these in the same way, from a
stock of fuel, closes the circle. Main definitions: `Machine.evaluate`, `Machine.call`,
`Machine.applyTo`, `Machine.serve`, `Machine.perform`.
-/

namespace HostedLisp

/-- What stays the same while programs run: the configuration, and what each primitive does. -/
structure Machine where
  config : Config
  bodies : Array Body

namespace Machine

open Run

/-! ### Errors and traces -/

/-- Begins the part of a message that shows an expression. -/
def contextMark : String := "\n  Context: "

/-- Adds the expression that failed to a message without one. -/
def addContext (h : Heap) (expr : Value) (text : String) : String :=
  if Text.occurs contextMark.toList text.toList then text
  else text ++ contextMark ++ "while evaluating: " ++ h.render expr

/-- Adds the expression that failed to the errors that show one. -/
def locate (h : Heap) (expr : Value) : Error → Error
  | .eval text => .eval (addContext h expr text)
  | .type text => .type (addContext h expr text)
  | other => other

/-- Shows a value behind a mark if evaluations are traced, indented by the evaluations under
way. -/
def traceValue (mark : String) (value : Value) : Run Unit := do
  if (← view (·.debugger.trace)) then
    let indent := "".pushn ' ' (2 * ((← view State.depth) - 1))
    displayLine (indent ++ mark ++ (← view (·.heap.render value)))

/-! ### Calls -/

/-- Runs the body of a primitive for a number of arguments that it takes. -/
def invoke (m : Machine) (p : Primitive) (args : List Value) (frame : FrameId) : Run Value :=
  if p.arity.accepts args.length then
    match m.bodies[p.id]? with
    | some body => (body args frame).run
    | none => halt .fault
  else raise (.arity p.arity args.length (some p.name))

/-- Calls a function with values. -/
def applyTo (m : Machine) (func : Value) (args : List Value) (frame : FrameId) : Run Value :=
  match func with
  | .primitive p =>
    match p.kind with
    | .function => m.invoke p args frame
    | .specialForm =>
      raise (.type s!"special form {p.name} cannot be applied to evaluated arguments")
  | .closure id => do
    (Program.enter (← view (·.heap.closure id)) args).run
  | other => do
    raise (.type s!"not a function: {← view (·.heap.render other)}")

/-- Calls a function with operands, which a special form receives as they are written. -/
def call (m : Machine) (func : Value) (operands : List Value) (frame : FrameId) : Run Value :=
  let applyFunction : Run Value := do
    let args ← (Program.evalAll operands frame).run
    m.applyTo func args frame
  match func with
  | .primitive p =>
    match p.kind with
    | .specialForm => m.invoke p operands frame
    | .function => applyFunction
  | _ => applyFunction

/-- The value of a list: its first element is evaluated and called with the others. -/
def evalPair (m : Machine) (id : CellId) (frame : FrameId) : Run Value := do
  let func ← request (.eval (← view fun s => (s.heap.cell id).head) frame)
  let tail ← view fun s => (s.heap.cell id).tail
  match ← view (·.heap.listItems? tail) with
  | none => raise (.eval s!"Improper argument list: {← view (·.heap.render tail)}")
  | some operands =>
    if func.isFunction then m.call func operands frame
    else raise (.type s!"not a function: {← view (·.heap.render func)}")

/-! ### Evaluation -/

/-- The value of a list, which leaves traces and offers a failure to the user. -/
def evalList (m : Machine) (id : CellId) (frame : FrameId) : Run Value := do
  let expr := Value.pair id
  changeHeap (·.setCode frame expr)
  traceValue "" expr
  let value ← match ← attempt (m.evalPair id frame) with
    | .ok value => pure value
    | .error e => offer m.config.leader (locate (← view State.heap) expr e) frame
  traceValue "=> " value
  pure value

/-- The value of an expression, without regard to the limit. -/
def evalWithin (m : Machine) (expr : Value) (frame : FrameId) : Run Value := do
  match ← hold m.config.leader expr frame with
  | some value => pure value
  | none =>
    match expr with
    | .sym name =>
      match ← view (·.heap.lookup? frame name) with
      | some value => pure value
      | none => offer m.config.leader (.unbound name.name) frame
    | .pair id => m.evalList id frame
    | _ => pure expr

/-- A failure that the user let pass concerns one evaluation, so it is forgotten when the next one
begins. -/
def begin (s : State) : State :=
  if s.depth = 0 then { s with debugger := { s.debugger with unwinding := false } } else s

/-- The error of too many evaluations under way. -/
def tooDeep (limit : Nat) : Error := .eval s!"Evaluation depth limit exceeded (max: {limit})"

/-- The value of an expression, one level below the evaluations under way. -/
def evaluate (m : Machine) (expr : Value) (frame : FrameId) : Run Value := fun s =>
  let s := begin s
  if m.config.maxDepth ≤ s.depth then raise (tooDeep m.config.maxDepth) s
  else
    (m.evalWithin expr frame { s with depth := s.depth + 1 }).atEnd
      fun t => { t with depth := t.depth - 1 }

/-! ### Requests -/

/-- The run that answers a request. -/
def serve (m : Machine) : Request → Run Value
  | .eval expr frame => m.evaluate expr frame
  | .apply func args frame => m.applyTo func args frame
  | .call func operands frame => m.call func operands frame
  | .pause frame => do
    if (← view (·.debugger.interactive)) then
      converse m.config.leader frame
      pure ((← takeSubstitute).getD .nil)
    else pure .nil
  | .setting which change => do
    if let some on := change then changeDebugger (·.set which on)
    pure (.bool (← view (·.debugger.setting which)))
  | .print text => do
    display (.output text)
    pure .nil
  | .isPaused => do pure (.bool (← view (·.debugger.paused)).isSome)
  | .depth => do pure (.int (Int64.ofNat (← view State.depth)))

/-- Answers a request if the fuel lasts for all requests that come up inside each other. -/
def perform (m : Machine) : Nat → Answer
  | 0 => fun _ s => (.error .exhausted, s)
  | fuel + 1 => fun r s => (m.serve r s).execute (m.perform fuel)

end Machine

end HostedLisp
