import HostedLisp.Operation

/-!
# Samples

Primitives that show what a host can offer to programs: functions of typed arguments, with and
without a list of remaining ones, functions that call back, and objects that programs can only
pass on.
-/

namespace HostedLisp.Samples

open Program

/-- The error of a kind that is given by its name. A name of no other kind stands for a failure to
read. -/
def errorNamed (name message : String) : Error :=
  match name with
  | "EvalError" => .eval message
  | "TypeError" => .type message
  | "UnboundSymbol" => .unbound message
  | "ArityError" => .arity (.oneOf []) 0 none
  | "IndexError" => .index message
  | "DomainError" => .domain message
  | "DivideByZero" => .divideByZero
  | _ => .parse ⟨.invalidSyntax, message, none⟩

/-! ### Functions of typed arguments -/

def fiveParams : List Param := [.symbol, .number, .string, .any, .int]

/-- A list of five arguments of different types. -/
def five (name : Symbol) (n : Number) (text : String) (value : Value) (k : Int64) :
    Program Value :=
  list [.sym name, n.toValue, .str text, value, .int k]

/-- The remaining strings with the first one between them. -/
def join (separator : String) (parts : List String) : Program Value :=
  done (.str (separator.intercalate parts))

/-- A list of a name, a string, a truth value and numbers. -/
def tagged (name : Symbol) (text : String) (flag : Bool) (ns : List Number) : Program Value :=
  list ([.sym name, .str text, .bool flag] ++ ns.map Number.toValue)

/-- The sum of two integers within the 64 bits of one. -/
def add (a b : Int64) : Program Value := done (.int (a + b))

/-- The quotient of two integers within the 64 bits of one. -/
def divide (a b : Int64) : Program Value :=
  if b = 0 then fail .divideByZero else done (.int (a / b))

/-- The product of a weight and the sum of numbers. -/
def weightedSum (weight : Int64) (ns : List Number) : Program Value :=
  done (.float (Number.widen weight * ns.foldl (fun sum n => sum + n.toFloat) 0.0))

/-- Two bounds and what is given between them. -/
def between (low high : Int64) (values : List Value) : Program Value :=
  list ([.int low, .int high, .int (Int64.ofNat values.length)] ++ values)

/-- Functions whose arguments are converted. -/
def typed : List Native := [
  .fixed "add2" [.int, .int] add,
  .fixed "forty-two" [] (done (.int 42)),
  .fixed "noop" [] (done .nil),
  .fixed "safe-div" [.int, .int] divide,
  .fixed "upcase" [.string] fun text => done (.str (text.map Char.toUpper)),
  .fixed "half" [.float] fun x => done (.float (x / 2.0)),
  .fixed "negate" [.bool] fun b => done (.bool !b),
  .fixed "greet" [.string] fun name => done (.str ("hello, " ++ name)),
  .fixed "sym-name" [.symbol] fun name => done (.str name.name),
  .fixed "num-kind" [.number] fun n =>
    done (.str (match n with | .int _ => "integer" | .float _ => "float")),
  .fixed "three" [.int, .string, .any] fun n text value => list [.int n, .str text, value],
  .fixed "four" [.int, .float, .bool, .string] fun n x flag text =>
    list [.int n, .float x, .bool flag, .str text],
  .fixed "five" fiveParams five,
  .variadic "weighted-sum" (.atLeast 1) [.int] .number weightedSum,
  .variadic "join" (.atLeast 1) [.string] .string join,
  .variadic "between" (.atLeast 2) [.int, .int] .any between,
  .variadic "tagged" (.atLeast 3) [.symbol, .string, .bool] .number tagged,
  .variadic "count-strings" (.oneOf [0, 2, 4]) [] .string fun texts =>
    done (.int (Int64.ofNat texts.length))
]

/-- Functions that are offered for any number of arguments and check it themselves. -/
def loose : List Native := [
  .function "loose-add2" .any (Native.fixedBody [.int, .int] add),
  .function "loose-noop" .any (Native.fixedBody [] (done .nil)),
  .function "loose-five" .any (Native.fixedBody fiveParams five),
  .function "loose-join" .any (Native.variadicBody [.string] .string join),
  .function "loose-tagged" .any
    (Native.variadicBody [.symbol, .string, .bool] .number tagged)
]

/-! ### Functions that call back -/

/-- The result of a function for its result for a value. -/
def callTwice : Body := fun args frame =>
  match args with
  | [func, value] => do
    let value ← apply func [value] frame
    apply func [value] frame
  | _ => fault

/-- The result of a function for the elements of a list. -/
def applyValues : Body := fun args frame =>
  match args with
  | [func, values] => do
    let values ← listItems values
    apply func values frame
  | _ => fault

/-- The result of a function for the elements of a list, taken as expressions. -/
def applyExprs : Body := fun args frame =>
  match args with
  | [func, exprs] => do
    let exprs ← listItems exprs
    request (.call func exprs frame)
  | _ => fault

def evalArgument : Body := fun args frame =>
  match args with
  | [expr] => eval expr frame
  | _ => fault

/-- The label of the frame of the call. -/
def frameLabel : Body := fun _ frame => view fun h => .str (h.frame frame).label

/-- Functions that use the interpreter. -/
def callbacks : List Native := [
  .function "call-twice" (.exactly 2) callTwice,
  .function "apply-values" (.exactly 2) applyValues,
  .function "apply-exprs" (.exactly 2) applyExprs,
  .function "eval" (.exactly 1) evalArgument,
  .fixed "eval-string" [.string] evalText,
  .fixed "paused?" [] (request .isPaused),
  .fixed "eval-depth" [] (request .depth),
  .function "frame-label" (.exactly 0) frameLabel,
  .fixed "fail" [.string, .string] fun name message => fail (errorNamed name message)
]

/-! ### Objects -/

/-- A new object with a tag and an integer. -/
def makeObject (tag : String) (payload : List Int64) : Program Value :=
  perform (.object ⟨tag, .integer (payload.headD 7)⟩)

def objectPayload (value : Value) : Program Value :=
  match value with
  | .object id =>
    view fun h =>
      match (h.object id).payload with
      | .integer n => .int n
      | _ => .bool false
  | _ => wrongType "not an object: " value

def objects : List Native := [
  .variadic "make-object" (.oneOf [1, 2]) [.string] .int makeObject,
  .fixed "object-payload" [.any] objectPayload
]

def library : List Native := typed ++ loose ++ callbacks ++ objects

end HostedLisp.Samples
