import HostedLisp.Operation

/-!
# Special forms

The forms that decide themselves which of their operands are evaluated: quoting, conditions,
definitions, functions and local bindings. Main definition: `Form.core`.
-/

namespace HostedLisp.Form

open Program

/-- The expression itself, unevaluated. -/
def quote : Body := fun operands _ =>
  match operands with
  | [expr] => done expr
  | _ => fail (.arity (.exactly 1) operands.length none)

/-- The value of one of two expressions. -/
def conditional : Body := fun operands frame =>
  match operands with
  | [test, consequent] => do
    if (← eval test frame).isTruthy then eval consequent frame else pure .nil
  | [test, consequent, alternative] => do
    if (← eval test frame).isTruthy then eval consequent frame else eval alternative frame
  | _ => fail (.arity (.oneOf [2, 3]) operands.length (some "if"))

/-- The value of the first clause whose test holds. A clause without a body yields its test. -/
def clauses (frame : FrameId) : List Value → Program Value
  | [] => done .nil
  | clause :: rest =>
    look fun h =>
      match h.listItems? clause with
      | none => wrongType "cond clause must be a list, got " clause
      | some [] => fail (.type "cond clause must not be empty")
      | some (test :: body) =>
        (if test = .sym ⟨"else"⟩ then done (.bool true) else eval test frame).bind fun verdict =>
          if verdict.isTruthy then
            if body.isEmpty then done verdict else evalBody body frame
          else clauses frame rest

def cases : Body := fun operands frame => clauses frame operands

/-- The parameters of a function: a list of distinct names, which may end in a name for the
remaining arguments. -/
structure Params where
  names : List Symbol
  rest : Option Symbol
deriving DecidableEq, Repr

/-- Why something is not a list of parameters. -/
inductive ParamsFault where
  | repeated (name : Symbol)
  | notSymbol (value : Value)
  | notList (value : Value)
deriving DecidableEq, Repr

/-- The parameters that a value lists after those in `before`, which are in reverse. Only a chain
without repeated names comes to its end, so it visits each pair at most once. -/
def paramsFrom (h : Heap) : Nat → List Symbol → Value → Except ParamsFault Params
  | _, before, .nil => .ok ⟨before.reverse, none⟩
  | _, before, .sym name =>
    if before.contains name then .error (.repeated name) else .ok ⟨before.reverse, some name⟩
  | 0, _, other => .error (.notList other)
  | steps + 1, before, .pair id =>
    match (h.cell id).head with
    | .sym name =>
      if before.contains name then .error (.repeated name)
      else paramsFrom h steps (name :: before) (h.cell id).tail
    | other => .error (.notSymbol other)
  | _, _, other => .error (.notList other)

def params (h : Heap) (value : Value) : Except ParamsFault Params :=
  paramsFrom h (h.cells.size + 1) [] value

def ParamsFault.toError (h : Heap) : ParamsFault → Error
  | repeated name => .eval s!"Duplicate parameter name: {name.name}"
  | notSymbol value => .type s!"Lambda parameters must be symbols, got {h.render value}"
  | notList value => .type s!"Lambda parameters must be a list, got {h.render value}"

/-- A closure of the given parameters and body. -/
def makeClosure (parameters : Value) (body : List Value) (frame : FrameId)
    (name : Option Symbol) : Program Value :=
  look fun h =>
    match params h parameters with
    | .error e => fail (e.toError h)
    | .ok p => perform (.closure ⟨p.names, p.rest, body, frame, name⟩)

/-- Binds a name in a frame and answers the name. -/
def bindName (frame : FrameId) (name : Symbol) (value : Value) : Program Value := do
  perform (.define frame name value)
  pure (.sym name)

/-- Binds a name to a value, or to a function written with its name and parameters. -/
def define : Body := fun operands frame =>
  match operands with
  | [.sym name] => bindName frame name .nil
  | [.sym name, expr] => do
    let value ← eval expr frame
    match value with
    | .closure id => perform (.nameClosure id name)
    | _ => pure ()
    bindName frame name value
  | .sym _ :: _ => fail (.arity (.exactly 2) operands.length (some "define"))
  | .pair id :: body =>
    look fun h =>
      match (h.cell id).head with
      | .sym name =>
        if body.isEmpty then fail (.eval s!"define of {name.name} has no body")
        else (makeClosure (h.cell id).tail body frame (some name)).bind (bindName frame name)
      | other => wrongType "define requires a symbol, got " other
  | other :: _ => wrongType "define requires a symbol, got " other
  | [] => fail (.arity (.atLeast 1) 0 (some "define"))

/-- Changes the innermost binding of a name. -/
def assign (frame : FrameId) (name : Symbol) (value : Value) : Program Unit :=
  look fun h =>
    match h.resolve? frame name with
    | some target => perform (.define target name value)
    | none => fail (.unbound name.name)

/-- Assigns the value of an expression to a name that is bound. -/
def set : Body := fun operands frame =>
  match operands with
  | [.sym name, expr] => do
    let value ← eval expr frame
    assign frame name value
    pure value
  | [other, _] => wrongType "set! requires a symbol, got " other
  | _ => fail (.arity (.exactly 2) operands.length (some "set!"))

def lambda : Body := fun operands frame =>
  match operands with
  | parameters :: expr :: body => makeClosure parameters (expr :: body) frame none
  | _ => fail (.arity (.atLeast 2) operands.length (some "lambda"))

/-- The name and the initial expression of a local binding. -/
def localBinding? (h : Heap) : Value → Option (Symbol × Option Value)
  | .sym name => some (name, none)
  | .pair id =>
    match (h.cell id).head, h.listItems? (h.cell id).tail with
    | .sym name, some [] => some (name, none)
    | .sym name, some [expr] => some (name, some expr)
    | _, _ => none
  | _ => none

/-- The names and values of local bindings after those in `before`, which are in reverse. All
expressions see the outer frame. -/
def initialValues (frame : FrameId) (before : List (Symbol × Value)) :
    List Value → Program (List (Symbol × Value))
  | [] => done before.reverse
  | binding :: rest =>
    look fun h =>
      match localBinding? h binding with
      | none => wrongType "malformed let binding: " binding
      | some (name, none) => initialValues frame ((name, .nil) :: before) rest
      | some (name, some expr) =>
        (eval expr frame).bind fun value => initialValues frame ((name, value) :: before) rest

/-- Binds names in a frame one after the other. -/
def defineAll (frame : FrameId) : List (Symbol × Value) → Program Unit
  | [] => done ()
  | (name, value) :: rest => (perform (.define frame name value)).bind fun _ => defineAll frame rest

/-- Evaluates a body in a new frame with local bindings. -/
def locals : Body := fun operands frame =>
  match operands with
  | [] => fail (.arity (.atLeast 2) 0 (some "let"))
  | bindings :: body =>
    look fun h =>
      match h.listItems? bindings with
      | none => wrongType "let bindings must be a list, got " bindings
      | some items => do
        let values ← initialValues frame [] items
        let inner ← perform (.frame frame "let")
        defineAll inner values
        evalBody body inner

def sequence : Body := fun operands frame => evalBody operands frame

/-- The first value that counts as false, or the last one. -/
def conjunctionFrom (frame : FrameId) (last : Value) : List Value → Program Value
  | [] => done last
  | expr :: rest =>
    (eval expr frame).bind fun value =>
      if value.isTruthy then conjunctionFrom frame value rest else done value

def conjunction : Body := fun operands frame => conjunctionFrom frame (.bool true) operands

/-- The first value that counts as true. -/
def disjunctionFrom (frame : FrameId) : List Value → Program Value
  | [] => done (.bool false)
  | expr :: rest =>
    (eval expr frame).bind fun value =>
      if value.isTruthy then done value else disjunctionFrom frame rest

def disjunction : Body := fun operands frame => disjunctionFrom frame operands

/-- The forms that every interpreter starts with. -/
def core : List Native := [
  .form "quote" (.exactly 1) quote,
  .form "if" (.oneOf [2, 3]) conditional,
  .form "cond" .any cases,
  .form "define" (.atLeast 1) define,
  .form "set!" (.exactly 2) set,
  .form "lambda" (.atLeast 2) lambda,
  .form "let" (.atLeast 2) locals,
  .form "begin" .any sequence,
  .form "and" .any conjunction,
  .form "or" .any disjunction
]

end HostedLisp.Form
