import HostedLisp.Numeral
import HostedLisp.Text.Blank

/-!
# Arities

How many arguments a function takes, and the notation for it: `2` is exactly two, `>=1` at least
one, `1|2` one or two, `*` any number. Main definitions: `Arity.accepts`, `Arity.read?`,
`Arity.display`.
-/

namespace HostedLisp

/-- A set of argument counts. -/
inductive Arity where
  | exactly (count : Nat)
  | atLeast (count : Nat)
  | oneOf (counts : List Nat)
  | any
deriving DecidableEq, Repr

namespace Arity

/-- Whether a call with so many arguments is right. -/
def accepts : Arity → Nat → Bool
  | exactly n, count => count == n
  | atLeast n, count => n ≤ count
  | oneOf counts, count => counts.contains count
  | any, _ => true

/-- The counts of a message: separated by commas, the last one by `or`. -/
def displayCounts : List Nat → String
  | [] => "no"
  | [n] => toString n
  | [m, n] => s!"{m} or {n}"
  | n :: rest => s!"{n}, " ++ displayCounts rest

def display : Arity → String
  | exactly n => toString n
  | atLeast n => s!"at least {n}"
  | oneOf counts => displayCounts counts
  | any => "any number of"

/-- Puts a count into an ascending list that may hold it already. -/
def insertCount (n : Nat) : List Nat → List Nat
  | [] => [n]
  | m :: rest => if n < m then n :: m :: rest else if n = m then m :: rest
    else m :: insertCount n rest

/-- The counts in ascending order, each one once. -/
def normalize (counts : List Nat) : List Nat := counts.foldr insertCount []

/-- The parts of a text between its bars. -/
def splitBars : List Char → List (List Char)
  | [] => [[]]
  | c :: rest =>
    match c, splitBars rest with
    | '|', parts => [] :: parts
    | c, part :: parts => (c :: part) :: parts
    | c, [] => [[c]]

/-- A count with blanks around it. -/
def readCount? (text : List Char) : Option Nat := Numeral.count? (Text.trim text)

/-- The arity that a notation without blanks around it stands for. -/
def readTrimmed? : List Char → Option Arity
  | ['*'] => some any
  | '>' :: '=' :: bound => (readCount? bound).map atLeast
  | text =>
    if text.contains '|' then ((splitBars text).mapM readCount?).map fun counts =>
      oneOf (normalize counts)
    else (readCount? text).map exactly

/-- The arity that a notation stands for. -/
def read? (text : List Char) : Option Arity := readTrimmed? (Text.trim text)

end Arity

end HostedLisp
