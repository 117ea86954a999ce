import HostedLisp.Operation

/-!
# Arithmetic

Integers stay integers until a floating point number joins the computation. Integer arithmetic is
exact: a result that is not an integer of 64 bits is an error.
-/

namespace HostedLisp.Arithmetic

open Program

def give (result : Except Error Number) : Program Value := (ofExcept result).bind fun n =>
  done n.toValue

def giveInt (result : Except Error Int64) : Program Value := (ofExcept result).bind fun n =>
  done (.int n)

def giveBool (b : Bool) : Program Value := done (.bool b)

/-- An exact result, or an error that names the operation. -/
def exactly (operation : String) (n : Int) : Except Error Int64 :=
  match Numeral.word? n with
  | some word => .ok word
  | none => .error (.eval s!"Integer overflow in {operation}")

/-- Combines two numbers, exactly if both are integers. -/
def combine (operation : String) (onInts : Int → Int → Int) (onFloats : Float → Float → Float) :
    Number → Number → Except Error Number
  | .int a, .int b => (exactly operation (onInts a.toInt b.toInt)).map .int
  | a, b => .ok (.float (onFloats a.toFloat b.toFloat))

/-- The sum of numbers and what was added up before. -/
def addFrom (sum : Number) : List Number → Except Error Number
  | [] => .ok sum
  | n :: rest => (combine "addition" (· + ·) (· + ·) sum n).bind fun sum => addFrom sum rest

/-- The product of numbers and what was multiplied before. -/
def mulFrom (product : Number) : List Number → Except Error Number
  | [] => .ok product
  | n :: rest =>
    (combine "multiplication" (· * ·) (· * ·) product n).bind fun product => mulFrom product rest

/-- What is left of a number after subtracting others. -/
def subFrom (difference : Number) : List Number → Except Error Number
  | [] => .ok difference
  | n :: rest =>
    (combine "subtraction" (· - ·) (· - ·) difference n).bind fun difference =>
      subFrom difference rest

/-- The number with the other sign. -/
def negate : Number → Except Error Number
  | .int n => (exactly "negation" (-n.toInt)).map .int
  | .float x => .ok (.float (-x))

/-- The first number less the others, or its negation if there are no others. -/
def subtract (first : Number) (rest : List Number) : Except Error Number :=
  if rest.isEmpty then negate first else subFrom first rest

/-- A number divided by others one after the other. Integers are divided toward zero. -/
def divFrom (quotient : Number) : List Number → Except Error Number
  | [] => .ok quotient
  | n :: rest =>
    if n.isZero then .error .divideByZero
    else (combine "division" Int.tdiv (· / ·) quotient n).bind fun quotient =>
      divFrom quotient rest

/-- The quotient of integers, rounded toward zero. -/
def quotient (a b : Int64) : Except Error Int64 :=
  if b = 0 then .error .divideByZero else exactly "quotient" (Int.tdiv a.toInt b.toInt)

/-- The remainder of integers, which has the sign of the dividend. -/
def remainder (a b : Int64) : Except Error Int64 :=
  if b = 0 then .error .divideByZero else .ok (Int64.ofInt (Int.tmod a.toInt b.toInt))

/-- The remainder of integers, which has the sign of the divisor. -/
def modulo (a b : Int64) : Program Value :=
  match remainder a b with
  | .error e => fail e
  | .ok r =>
    if r ≠ 0 ∧ decide (r < 0) ≠ decide (b < 0) then
      match Numeral.word? (r.toInt + b.toInt) with
      | some m => done (.int m)
      | none => fault
    else done (.int r)

def absolute : Number → Except Error Number
  | .int n => (exactly "abs" n.toInt.natAbs).map .int
  | .float x => .ok (.float x.abs)

/-- The last number that is greater, as floating point numbers, than all before it. -/
def greatest (first : Number) (rest : List Number) : Number :=
  rest.foldl (fun best n => if n.toFloat > best.toFloat then n else best) first

/-- The last number that is less, as floating point numbers, than all before it. -/
def least (first : Number) (rest : List Number) : Number :=
  rest.foldl (fun best n => if n.toFloat < best.toFloat then n else best) first

/-- The order of two numbers. There is none if one of them is not a number. -/
def compare? : Number → Number → Option Ordering
  | .int a, .int b => some (compare a.toInt b.toInt)
  | a, b =>
    if a.toFloat < b.toFloat then some .lt
    else if a.toFloat == b.toFloat then some .eq
    else if a.toFloat > b.toFloat then some .gt
    else none

/-- Whether every number stands in a relation to the next one. -/
def ordered (relation : Ordering → Bool) (previous : Number) : List Number → Bool
  | [] => true
  | n :: rest => (compare? previous n).any relation && ordered relation n rest

/-- A comparison of neighbours. -/
def comparison (name : String) (relation : Ordering → Bool) : Native :=
  .variadic name (.atLeast 2) [.number] .number fun first rest =>
    giveBool (ordered relation first rest)

def library : List Native := [
  .variadic "+" .any [] .number fun ns => give (addFrom (.int 0) ns),
  .variadic "*" .any [] .number fun ns => give (mulFrom (.int 1) ns),
  .variadic "-" (.atLeast 1) [.number] .number fun first rest => give (subtract first rest),
  .variadic "/" (.atLeast 1) [.number] .number fun first rest => give (divFrom first rest),
  .fixed "quotient" [.int, .int] fun a b => giveInt (quotient a b),
  .fixed "remainder" [.int, .int] fun a b => giveInt (remainder a b),
  .fixed "modulo" [.int, .int] modulo,
  .fixed "abs" [.number] fun n => give (absolute n),
  .variadic "max" (.atLeast 1) [.number] .number fun first rest => give (.ok (greatest first rest)),
  .variadic "min" (.atLeast 1) [.number] .number fun first rest => give (.ok (least first rest)),
  comparison "=" (· == .eq),
  comparison "<" (· == .lt),
  comparison ">" (· == .gt),
  comparison "<=" (· != .gt),
  comparison ">=" (· != .lt),
  .fixed "!=" [.number, .number] fun a b => giveBool (compare? a b != some .eq),
  .fixed "number?" [.any] fun v => giveBool (Number.ofValue? v).isSome,
  .fixed "integer?" [.any] fun v => giveBool (Param.int.ofValue? v).isSome,
  .fixed "float?" [.any] fun v => giveBool (v matches .float _),
  .fixed "zero?" [.number] fun n => giveBool n.isZero,
  .fixed "even?" [.int] fun n => giveBool (n.toInt % 2 == 0),
  .fixed "odd?" [.int] fun n => giveBool (n.toInt % 2 != 0)
]

end HostedLisp.Arithmetic
