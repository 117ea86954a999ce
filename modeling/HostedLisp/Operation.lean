import HostedLisp.Program

/-!
# Operations on typed arguments

A host writes most primitives as functions of numbers, strings and so on. The signature says how
to convert the arguments, and the conversion rejects a call before the function sees any of it.
Main definitions: `Native`, `Native.fixed`, `Native.variadic`.
-/

namespace HostedLisp

/-- A primitive as the host provides it: what a program sees of it, and what it does. -/
structure Native where
  name : String
  arity : Arity
  kind : Primitive.Kind
  body : Body

namespace Native

/-- A primitive that takes the values of its operands. -/
def function (name : String) (arity : Arity) (body : Body) : Native :=
  ⟨name, arity, .function, body⟩

/-- A primitive that takes its operands as they are written. -/
def form (name : String) (arity : Arity) (body : Body) : Native :=
  ⟨name, arity, .specialForm, body⟩

end Native

/-- The types that a parameter can have. -/
inductive Param where
  | any
  | int
  | float
  | bool
  | string
  | symbol
  | number
deriving DecidableEq, Repr

namespace Param

/-- What a function receives for a parameter. -/
abbrev Carrier : Param → Type
  | any => Value
  | int => Int64
  | float => Float
  | bool => Bool
  | string => String
  | symbol => Symbol
  | number => Number

/-- How a message names what a parameter expects. -/
def noun : Param → String
  | any => "value"
  | int => "integer"
  | float => "number"
  | bool => "boolean"
  | string => "string"
  | symbol => "symbol"
  | number => "number"

/-- The argument as the parameter takes it. An integer can stand for a floating point number, not
the other way round. -/
def ofValue? : (p : Param) → Value → Option p.Carrier
  | any, v => some v
  | int, .int n => some n
  | float, .float x => some x
  | float, .int n => some (Number.widen n)
  | bool, .bool b => some b
  | string, .str text => some text
  | symbol, .sym name => some name
  | number, .int n => some (.int n)
  | number, .float x => some (.float x)
  | _, _ => none

/-- Converts an argument, or fails with a message that shows it. -/
def convert (p : Param) (value : Value) : Program p.Carrier :=
  match p.ofValue? value with
  | some x => .done x
  | none => .wrongType s!"expected {p.noun}, got " value

/-- Converts arguments that all go to parameters of one type. -/
def convertAll (p : Param) : List Value → Program (List p.Carrier)
  | [] => .done []
  | value :: rest =>
    (p.convert value).bind fun x => (convertAll p rest).bind fun xs => .done (x :: xs)

end Param

namespace Native

/-- A function of parameters that ends in `result`. -/
abbrev Function (result : Type) : List Param → Type
  | [] => result
  | p :: ps => p.Carrier → Function result ps

/-- Converts arguments from left to right, gives them to a function and goes on with what it yields
and the arguments that are left. -/
def feed {result : Type} (next : result → List Value → Program Value) :
    (ps : List Param) → Function result ps → List Value → Program Value
  | [], f, rest => next f rest
  | p :: ps, f, value :: rest => (p.convert value).bind fun x => feed next ps (f x) rest
  | _ :: _, _, [] => .fault

/-- What a function of a fixed number of parameters does with arguments. -/
def fixedBody (ps : List Param) (f : Function (Program Value) ps) : Body := fun args _ =>
  if args.length = ps.length then feed (fun result _ => result) ps f args
  else .fail (.arity (.exactly ps.length) args.length none)

/-- What a function does with arguments if it takes the remaining ones as a list. -/
def variadicBody (ps : List Param) (rest : Param)
    (f : Function (List rest.Carrier → Program Value) ps) : Body := fun args _ =>
  if ps.length ≤ args.length then
    feed (fun f remaining => (rest.convertAll remaining).bind f) ps f args
  else .fail (.arity (.atLeast ps.length) args.length none)

/-- The primitive of a function of a fixed number of parameters. -/
def fixed (name : String) (ps : List Param) (f : Function (Program Value) ps) : Native :=
  .function name (.exactly ps.length) (fixedBody ps f)

/-- The primitive of a function that takes the remaining arguments as a list. How many there may be
does not follow from the parameters. -/
def variadic (name : String) (arity : Arity) (ps : List Param) (rest : Param)
    (f : Function (List rest.Carrier → Program Value) ps) : Native :=
  .function name arity (variadicBody ps rest f)

end Native

end HostedLisp
