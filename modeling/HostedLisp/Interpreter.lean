import HostedLisp.Form
import HostedLisp.Library.Arithmetic
import HostedLisp.Library.Debugging
import HostedLisp.Library.DeviceFields
import HostedLisp.Library.Lists
import HostedLisp.Library.Vectors
import HostedLisp.Machine.Evaluation

/-!
# Interpreters

An interpreter is a machine and its state. A host makes one, registers primitives of its own, and
evaluates expressions and calls functions with it; every use answers the interpreter as it is
afterwards. Main definitions: `Interpreter.minimal`, `Interpreter.full`, `Interpreter.register`,
`Interpreter.eval`, `Interpreter.apply`, `Interpreter.call`, `Interpreter.evalText`.
-/

namespace HostedLisp

/-- A machine in a state. -/
structure Interpreter where
  machine : Machine
  state : State

namespace Interpreter

/-! ### Making -/

/-- A debugger in the state that a configuration asks for. -/
def initialDebugger (config : Config) : Debugger.Controller where
  trace := config.trace
  breakOnError := config.breakOnError
  interactive := config.interactive
  singleStep := false
  stepOutOf := none
  evaluatingLine := false
  paused := none
  substitute := none
  unwinding := false
  spare := 0

/-- An interpreter with an empty global frame. -/
def bare (config : Config) : Interpreter where
  machine := ⟨config, #[]⟩
  state := ⟨Heap.empty.newRoot.2, initialDebugger config, .ofLines [], 0⟩

def changeHeap (i : Interpreter) (f : Heap → Heap) : Interpreter :=
  { i with state := { i.state with heap := f i.state.heap } }

/-- Binds a primitive in the global frame, replacing an earlier binding of its name. -/
def register (i : Interpreter) (n : Native) : Interpreter :=
  let primitive : Primitive := ⟨i.machine.bodies.size, n.name, n.arity, n.kind⟩
  let machine := { i.machine with bodies := i.machine.bodies.push n.body }
  { i with machine := machine }.changeHeap fun h =>
    h.define .global ⟨n.name⟩ (.primitive primitive)

def registerAll (i : Interpreter) (library : List Native) : Interpreter :=
  library.foldl register i

/-- An interpreter with the special forms and the primitives of the debugger. -/
def minimal (config : Config) : Interpreter :=
  ((bare config).registerAll Form.core).registerAll Debugging.library

/-- An interpreter with all libraries. -/
def full (config : Config) : Interpreter :=
  [Arithmetic.library, Lists.library, Vectors.library, DeviceFields.library].foldl registerAll
    (minimal config)

/-! ### Using -/

/-- Carries a run out from the present state, with a stock of fuel for its requests. -/
def carryOut {α : Type} (i : Interpreter) (fuel : Nat) (run : Run α) :
    Except Halt α × Interpreter :=
  match (run i.state).execute (i.machine.perform fuel) with
  | (result, state) => (result, { i with state := state })

/-- Carries out a program of the host. -/
def run {α : Type} (i : Interpreter) (fuel : Nat) (p : Program α) : Except Halt α × Interpreter :=
  i.carryOut fuel p.run

def eval (i : Interpreter) (fuel : Nat) (expr : Value) (frame : FrameId) :
    Except Halt Value × Interpreter :=
  i.run fuel (.eval expr frame)

def apply (i : Interpreter) (fuel : Nat) (func : Value) (args : List Value) (frame : FrameId) :
    Except Halt Value × Interpreter :=
  i.run fuel (.apply func args frame)

/-- The result of a function for operands. -/
def call (i : Interpreter) (fuel : Nat) (func : Value) (operands : List Value) (frame : FrameId) :
    Except Halt Value × Interpreter :=
  i.run fuel (.request (.call func operands frame))

/-- The value of the last expression of a program text. -/
def evalText (i : Interpreter) (fuel : Nat) (text : String) : Except Halt Value × Interpreter :=
  i.run fuel (.evalText text)

/-- Offers an error of the host to the user. -/
def offer (i : Interpreter) (fuel : Nat) (error : Error) (frame : FrameId) :
    Except Halt Value × Interpreter :=
  i.carryOut fuel (Machine.offer i.machine.config.leader error frame)

/-- Pauses in a frame at the wish of the host. -/
def converse (i : Interpreter) (fuel : Nat) (frame : FrameId) : Except Halt Unit × Interpreter :=
  i.carryOut fuel (Machine.converse i.machine.config.leader frame)

/-- Ends the use of an interpreter: its frames lose their bindings. -/
def close (i : Interpreter) : Interpreter := i.changeHeap (·.teardown .global)

end Interpreter

end HostedLisp
