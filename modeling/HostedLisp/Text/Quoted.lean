import HostedLisp.Text.Printable

/-!
# Strings between quotes

`Text.quote` writes a string as a program would, `Text.quoteVisibly` for a debugging view. The
first leaves every character alone but the quote, the backslash, newline, tab and return; the
second also writes invisible characters by their code points.
-/

namespace HostedLisp.Text

/-- A character inside the quotes of a program text. -/
def escape : Char → List Char
  | '"' => ['\\', '"']
  | '\\' => ['\\', '\\']
  | '\n' => ['\\', 'n']
  | '\t' => ['\\', 't']
  | '\r' => ['\\', 'r']
  | c => [c]

/-- The character that a letter after a backslash stands for. -/
def unescape? : Char → Option Char
  | 'n' => some '\n'
  | 't' => some '\t'
  | 'r' => some '\r'
  | '\\' => some '\\'
  | '"' => some '"'
  | _ => none

def quote (text : List Char) : List Char := '"' :: (text.flatMap escape ++ ['"'])

/-- A character inside the quotes of a debugging view. -/
def escapeVisibly (c : Char) : List Char :=
  if c.toNat = 0 then ['\\', '0']
  else if c = '"' ∨ c = '\\' ∨ c = '\n' ∨ c = '\t' ∨ c = '\r' then escape c
  else if isPrintable c then [c]
  else ['\\', 'u', '{'] ++ Nat.toDigits 16 c.toNat ++ ['}']

/-- A string in a debugging view. -/
def quoteVisibly (text : List Char) : List Char := '"' :: (text.flatMap escapeVisibly ++ ['"'])

/-- The mark around a single character. -/
def apostrophe : Char := '\x27'

/-- A single character in a debugging view, where a quote needs no backslash and the mark does. -/
def quoteCharVisibly (c : Char) : List Char :=
  let shown :=
    if c = '"' then [c] else if c = apostrophe then ['\\', c] else escapeVisibly c
  apostrophe :: (shown ++ [apostrophe])

end HostedLisp.Text
