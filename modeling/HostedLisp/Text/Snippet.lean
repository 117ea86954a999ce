import HostedLisp.Text.Extent

/-!
# Snippets around a position

A message about a text shows the part of it around the failing position, which is given as a byte
offset. The snippet leaves out as many characters at the start as there are bytes up to twenty
before that position, so it starts later than that in a text beyond ASCII.
-/

namespace HostedLisp.Text

/-- A part of a text, and whether something was left out on either side. -/
structure Snippet where
  cutBefore : Bool
  shown : List Char
  cutAfter : Bool
deriving DecidableEq, Repr

namespace Snippet

/-- The most characters that a snippet shows. -/
def width : Nat := 100

/-- How far before the position a snippet starts. -/
def lead : Nat := 20

/-- The snippet of `input` around the byte offset. -/
def around (input : List Char) (offset : Nat) : Snippet :=
  let start := offset - lead
  let shown := (input.drop start).take width
  ⟨0 < start, shown, start + byteLength shown < byteLength input⟩

/-- A character of a snippet on one line. -/
def flatten : Char → List Char
  | '\n' => ['\\', 'n']
  | '\r' => []
  | c => [c]

/-- The mark that stands for what was left out. -/
def ellipsis : List Char := ['[', '.', '.', '.', ']']

/-- The snippet on one line, with marks for what was left out. -/
def render (s : Snippet) : String :=
  let before := if s.cutBefore then ellipsis else []
  let after := if s.cutAfter then ellipsis else []
  String.ofList (before ++ s.shown.flatMap flatten ++ after)

end Snippet

end HostedLisp.Text
