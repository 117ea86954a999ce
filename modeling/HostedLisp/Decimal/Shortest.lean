import HostedLisp.Decimal.Basic

/-!
# Floating point numbers as decimals

A finite number is the exact value `mantissa · 2 ^ exponent`. Its shortest decimal has the fewest
digits that still round to the number; of two such decimals the nearer one is taken, and of two
equally near ones the larger. Main definitions: `Decimal.exact`, `Decimal.shortest`,
`Decimal.display`, `Decimal.displayBare`.
-/

namespace HostedLisp.Decimal

def isNegative (x : Float) : Bool := x.toBits.toNat >>> 63 = 1

/-- Mantissa and exponent of the magnitude of a finite number. -/
def binaryParts (x : Float) : Nat × Int :=
  let bits : Nat := x.toBits.toNat
  let fraction : Nat := bits % (1 <<< 52)
  let scale : Nat := (bits >>> 52) % (1 <<< 11)
  if scale = 0 then (fraction, -1074) else (fraction + (1 <<< 52), (scale : Int) - 1075)

/-- Numerator and denominator of the magnitude of a finite number. -/
def ratio (x : Float) : Nat × Nat :=
  let (mantissa, exponent) := binaryParts x
  if 0 ≤ exponent then (mantissa <<< exponent.toNat, 1) else (mantissa, 1 <<< exponent.natAbs)

/-- The decimal equal to a finite number. -/
def exact (x : Float) : Decimal :=
  let (mantissa, exponent) := binaryParts x
  if 0 ≤ exponent then ⟨isNegative x, mantissa <<< exponent.toNat, 0⟩
  else ⟨isNegative x, mantissa * Nat.pow 5 exponent.natAbs, exponent⟩

/-- How many times a ratio below one tenth can be multiplied by ten and stay below one tenth. -/
def leadingZeros : Nat → Nat → Nat → Nat
  | 0, _, _ => 0
  | steps + 1, num, den =>
    if den ≤ num * 10 then 0 else leadingZeros steps (num * 10) den + 1

/-- The least power of ten above a positive ratio. -/
def decimalPlace (num den : Nat) : Int :=
  if den ≤ num then (Nat.toDigits 10 (num / den)).length
  else -(leadingZeros 400 num den : Int)

/-- The decimal, without a zero as its last digit. -/
def dropZero (digits : Nat) (exponent : Int) : Decimal :=
  if digits % 10 = 0 then ⟨false, digits / 10, exponent + 1⟩ else ⟨false, digits, exponent⟩

/-- Of the two neighbours of `num / den` among the multiples of `10 ^ unit`, the one that rounds
to `x`; the nearer one if both do. -/
def neighbour? (x : Float) (num den : Nat) (unit : Int) : Option Decimal :=
  let scaled := num * Nat.pow 10 (-unit).toNat
  let divisor := den * Nat.pow 10 unit.toNat
  let below := dropZero (scaled / divisor) unit
  let above := dropZero (scaled / divisor + 1) unit
  let nearerBelow := decide (2 * (scaled % divisor) < divisor)
  match decide (below.toFloat = x), decide (above.toFloat = x) with
  | true, true => some (if nearerBelow then below else above)
  | true, false => some below
  | false, true => some above
  | false, false => none

/-- The first decimal that rounds to `x` when the grid becomes finer step by step. -/
def refine? (x : Float) (num den : Nat) : Nat → Int → Option Decimal
  | 0, _ => none
  | steps + 1, unit =>
    match neighbour? x num den unit with
    | some d => some d
    | none => refine? x num den steps (unit - 1)

/-- The decimal of fewest digits that rounds to a finite number. Seventeen digits always
suffice. -/
def shortest (x : Float) : Decimal :=
  let (num, den) := ratio x
  if num = 0 then ⟨isNegative x, 0, 0⟩
  else
    let magnitude := if isNegative x then -x else x
    match refine? magnitude num den 17 (decimalPlace num den - 1) with
    | some d => { d with negative := isNegative x }
    | none => exact x

def isWhole (x : Float) : Bool :=
  let (num, den) := ratio x
  num % den = 0

/-- The text of a number that is not finite. -/
def displayInfinite (x : Float) : String :=
  if x.isNaN then "NaN" else if isNegative x then "-inf" else "inf"

/-- The text of a floating point number in a program: a whole number in full with `.0` behind
it, any other one by its shortest decimal. -/
def display (x : Float) : String :=
  if !x.isFinite then displayInfinite x
  else if isWhole x then
    let (num, den) := ratio x
    String.ofList (write ⟨isNegative x, num / den, 0⟩ ++ ['.', '0'])
  else String.ofList (write (shortest x))

/-- The text of a floating point number in a debugging view: its shortest decimal. -/
def displayBare (x : Float) : String :=
  if x.isFinite then String.ofList (write (shortest x)) else displayInfinite x

end HostedLisp.Decimal
