import HostedLisp.Arity
import HostedLisp.Text.Snippet

/-!
# Errors

What can go wrong when text is read and programs are run. An error is a value: it carries what its
message needs, and `Error.message` words it.
-/

namespace HostedLisp

/-- The ways in which reading fails. -/
inductive ParseError.Kind where
  /-- Bad tokens or malformed expressions. -/
  | invalidSyntax
  /-- The text ended before the expression did. -/
  | incomplete
  /-- The expression has too many levels. -/
  | tooDeeplyNested
  /-- Something follows a complete expression. -/
  | trailingContent
  /-- There is no reader. -/
  | unavailable
deriving DecidableEq, Repr

/-- A failure to read, with a snippet of the text around it. -/
structure ParseError where
  kind : ParseError.Kind
  message : String
  context : Option String
deriving DecidableEq, Repr

/-- A failure at a byte offset of a text. -/
def ParseError.at (kind : Kind) (message : String) (input : List Char) (offset : Nat) :
    ParseError :=
  ⟨kind, message, some (Text.Snippet.around input offset).render⟩

/-- The errors of a program. -/
inductive Error where
  | parse (error : ParseError)
  | eval (text : String)
  /-- A value of the wrong kind. -/
  | type (text : String)
  /-- A name without a binding. -/
  | unbound (name : String)
  /-- A wrong number of arguments, of the expression if that is known. -/
  | arity (expected : Arity) (got : Nat) (expression : Option String)
  /-- A position outside a sequence. -/
  | index (text : String)
  /-- A value of the right kind that the operation is not defined for. -/
  | domain (text : String)
  | divideByZero
deriving DecidableEq, Repr

namespace Error

def message : Error → String
  | parse e =>
    match e.context with
    | some context => s!"ParseError: {e.message}\nContext: {context}"
    | none => s!"ParseError: {e.message}"
  | eval text => s!"EvaluationError: {text}"
  | type text => s!"Type error: {text}"
  | unbound name => s!"Unbound symbol: {name}"
  | arity expected got expression =>
    match expression with
    | some callee => s!"ArityError: {callee} expected {expected.display} arguments, got {got}"
    | none => s!"ArityError: function expected {expected.display} arguments but got {got}"
  | index text => s!"Index error: {text}"
  | domain text => s!"Domain error: {text}"
  | divideByZero => "Division by zero"

end Error

end HostedLisp
