import HostedLisp.Text.Alphanumeric

/-!
# Symbols

A symbol is a name. Its text may be anything, since a host can make symbols too; `Symbol.isName`
says which texts a program can write as a symbol.
-/

namespace HostedLisp

/-- A name in a program. Symbols are ordered by the bytes of their names. -/
structure Symbol where
  name : String
deriving DecidableEq, Repr, Inhabited

namespace Symbol

/-- The characters that a name may hold besides letters and digits. -/
def punctuation : List Char :=
  ['+', '-', '*', '/', '<', '>', '=', '!', '?', '_', '$', '%', '&', ':', '.', '^', '~', '@']

/-- Whether a character may stand in a name. -/
def isNameChar (c : Char) : Bool := Text.isAlphanumeric c || punctuation.contains c

/-- Whether a text starts like a number: with a digit, or with one after a minus sign or point. -/
def startsLikeNumber : List Char → Bool
  | '-' :: c :: _ => c.isDigit
  | '.' :: c :: _ => c.isDigit
  | c :: _ => c.isDigit
  | [] => false

/-- Whether a program can write the text as a name. A lone point is not a name. -/
def isName (text : List Char) : Bool :=
  !text.isEmpty && !startsLikeNumber text && text != ['.'] && text.all isNameChar

end Symbol

end HostedLisp
