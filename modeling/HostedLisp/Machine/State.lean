import HostedLisp.Debugger.Terminal
import HostedLisp.Program

/-!
# The state of the machine

What runs of the machine read and change: the heap, the debugger, the terminal and the number of
evaluations under way. Main definitions: `Config`, `State`, `Halt`.
-/

namespace HostedLisp

/-- The configuration of an interpreter. -/
structure Config where
  /-- The number of evaluations that may be under way at once. -/
  maxDepth : Nat
  interactive : Bool
  breakOnError : Bool
  trace : Bool
  /-- The character that debugger commands start with. -/
  leader : Char
deriving DecidableEq, Repr

namespace Config

/-- The configuration of an interpreter that is given no other. -/
def standard : Config := ⟨256, false, true, false, ':'⟩

instance : Inhabited Config := ⟨standard⟩

def inspect (c : Config) : String :=
  let leader := String.ofList (Text.quoteCharVisibly c.leader)
  "InterpreterConfig \x7b " ++
    s!"max_eval_depth: {c.maxDepth}, interactive: {c.interactive}, " ++
    s!"break_on_error: {c.breakOnError}, trace: {c.trace}, command_prefix: {leader} " ++ "\x7d"

end Config

/-- What runs of the machine read and change. -/
structure State where
  heap : Heap
  debugger : Debugger.Controller
  terminal : Debugger.Terminal
  /-- The number of evaluations under way. -/
  depth : Nat
deriving Inhabited

/-- Why a run has no result. -/
inductive Halt where
  | error (error : Error)
  /-- The host's own code was used outside its contract. -/
  | fault
  /-- The fuel of the run is used up. -/
  | exhausted
deriving DecidableEq, Repr

end HostedLisp
