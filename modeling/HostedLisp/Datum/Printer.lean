import HostedLisp.Datum
import HostedLisp.Decimal.Shortest
import HostedLisp.Text.Quoted

/-!
# Writing data

The text of a datum, which reads back as that datum. Nesting beyond `Datum.shownLevels` is
elided. Main definitions: `Datum.write`, `Datum.render`.
-/

namespace HostedLisp.Datum

/-- The levels of lists and vectors that are written out. -/
def shownLevels : Nat := 128

def writeInt (n : Int64) : List Char :=
  let value := n.toInt
  if value < 0 then '-' :: Nat.toDigits 10 value.natAbs else Nat.toDigits 10 value.natAbs

def writeBool (b : Bool) : List Char := ['#', if b then 't' else 'f']

/-- What stands for a list or a vector that is nested too deeply. -/
def elidedList : List Char := ['(', '.', '.', '.', ')']

/-- What stands for a vector that is nested too deeply. -/
def elidedVector : List Char := '#' :: elidedList

mutual

def writeWithin (levels : Nat) : Datum → List Char
  | nil => ['(', ')']
  | bool b => writeBool b
  | int n => writeInt n
  | float x => (Decimal.display x).toList
  | str text => Text.quote text.toList
  | sym name => name.name.toList
  | pair head tail =>
    match levels with
    | 0 => elidedList
    | levels + 1 => '(' :: (writeWithin levels head ++ writeTail levels tail)
  | vector items =>
    match levels with
    | 0 => elidedVector
    | levels + 1 => '#' :: '(' :: (writeItems levels false items ++ [')'])

/-- The text of a list after its first element. -/
def writeTail (levels : Nat) : Datum → List Char
  | nil => [')']
  | pair head tail => ' ' :: (writeWithin levels head ++ writeTail levels tail)
  | vector items =>
    match levels with
    | 0 => [' ', '.', ' '] ++ elidedVector ++ [')']
    | levels + 1 =>
      [' ', '.', ' ', '#', '('] ++ writeItems levels false items ++ [')', ')']
  | bool b => [' ', '.', ' '] ++ writeBool b ++ [')']
  | int n => [' ', '.', ' '] ++ writeInt n ++ [')']
  | float x => [' ', '.', ' '] ++ (Decimal.display x).toList ++ [')']
  | str text => [' ', '.', ' '] ++ Text.quote text.toList ++ [')']
  | sym name => [' ', '.', ' '] ++ name.name.toList ++ [')']

/-- The texts of the items of a vector with blanks between them, and one before the first if
others have come before it. -/
def writeItems (levels : Nat) (continued : Bool) : List Datum → List Char
  | [] => []
  | d :: rest =>
    (if continued then [' '] else []) ++ writeWithin levels d ++ writeItems levels true rest

end

def write (d : Datum) : List Char := writeWithin shownLevels d

def render (d : Datum) : String := String.ofList (write d)

end HostedLisp.Datum
