import HostedLisp.Numeral

/-!
# Decimal fractions

A decimal fraction is a whole number times a power of ten. This file reads one from text, rounds
it to a floating point number and writes it without an exponent.
-/

namespace HostedLisp

/-- The number `digits · 10 ^ exponent`, with a sign that zero has too. -/
structure Decimal where
  negative : Bool
  digits : Nat
  exponent : Int
deriving DecidableEq, Repr

namespace Decimal

/-- Whether a minus sign stands before the text, and the text after its sign. -/
def splitSign : List Char → Bool × List Char
  | '-' :: rest => (true, rest)
  | '+' :: rest => (false, rest)
  | text => (false, text)

/-- The power of ten at the end of a decimal: nothing, or `e` and a whole number. -/
def exponent? : List Char → Option Int
  | [] => some 0
  | c :: rest => if c = 'e' ∨ c = 'E' then Numeral.integer? 10 rest else none

/-- The decimal that a text writes: digits, a point among or beside them, and an exponent. -/
def read? (text : List Char) : Option Decimal :=
  let (negative, unsigned) := splitSign text
  let (whole, afterWhole) := unsigned.span Char.isDigit
  let (fraction, suffix) := match afterWhole with
    | '.' :: rest => rest.span Char.isDigit
    | _ => ([], afterWhole)
  match Numeral.natural? 10 (whole ++ fraction), exponent? suffix with
  | some digits, some exponent => some ⟨negative, digits, exponent - fraction.length⟩
  | _, _ => none

/-- The floating point number nearest to the decimal, infinite beyond the finite ones. -/
def toFloat (d : Decimal) : Float :=
  let magnitude := Float.ofScientific d.digits (d.exponent < 0) d.exponent.natAbs
  if d.negative then -magnitude else magnitude

/-- The digits with a point after all but the last `places` of them. -/
def withPoint (digits : List Char) (places : Nat) : List Char :=
  if places < digits.length then
    digits.take (digits.length - places) ++ '.' :: digits.drop (digits.length - places)
  else
    '0' :: '.' :: (List.replicate (places - digits.length) '0' ++ digits)

/-- The decimal written out in full, without an exponent. -/
def write (d : Decimal) : List Char :=
  let digits := Nat.toDigits 10 d.digits
  let magnitude :=
    if 0 ≤ d.exponent then digits ++ List.replicate d.exponent.toNat '0'
    else withPoint digits d.exponent.natAbs
  if d.negative then '-' :: magnitude else magnitude

end Decimal

end HostedLisp
