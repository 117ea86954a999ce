import HostedLisp.Datum
import HostedLisp.Decimal.Basic
import HostedLisp.Error
import HostedLisp.Text.Quoted

/-!
# Reading data

A text is read from left to right; a reader takes what precedes it and answers with what is left.
One character decides between quote, vector, list, string and atom, so there is no going back.
Nesting is limited: every quote, element and tail stands one level deeper than what it belongs
to. Main definitions: `Datum.readFrom`, `Datum.read`, `Datum.readAll`.
-/

namespace HostedLisp.Datum

/-- Why a reader stopped. -/
inductive Fault where
  | tooDeep
  /-- No token where one has to stand. -/
  | noToken
  | integerRange
  | badHexadecimal
  | badFloat
  | badName
  | badEscape
  | unexpected
deriving DecidableEq, Repr

/-- Why a reader stopped, and the text from there on. -/
structure Failure where
  fault : Fault
  rest : List Char
deriving DecidableEq, Repr

/-- What a reader found, and the text after it. -/
abbrev Reading (α : Type) := Except Failure (α × List Char)

/-- The levels of nesting that a text may have. -/
def maxLevels : Nat := 64

/-- The blanks that may stand between tokens. -/
def isSeparator (c : Char) : Bool := c = ' ' || c = '\t' || c = '\r' || c = '\n'

/-- The characters that end an atom. -/
def isDelimiter (c : Char) : Bool :=
  Text.isBlank c || c = '(' || c = ')' || c = '"' || c = ';' || c = '\''

/-- The text without separators and, if `comments` is set, without the comments at its start. A
comment runs from a semicolon to the end of the line; `inside` says that one has begun. -/
def skipFrom (comments : Bool) : Bool → List Char → List Char
  | _, [] => []
  | true, c :: rest => skipFrom comments (c != '\n') rest
  | false, c :: rest =>
    if isSeparator c then skipFrom comments false rest
    else if comments && c = ';' then skipFrom comments true rest
    else c :: rest

/-- The text from the next token on. -/
def skip (comments : Bool) (text : List Char) : List Char := skipFrom comments false text

/-- Whether a token starts like a number: a digit, or a point and a digit, after at most one
sign. -/
def looksNumeric (token : List Char) : Bool :=
  match (Decimal.splitSign token).2 with
  | '.' :: c :: _ => c.isDigit
  | c :: _ => c.isDigit
  | [] => false

/-- The number that a token writes. A whole number outside the range of integers is an error,
not a floating point number. -/
def readNumber (token : List Char) : Except Fault Datum :=
  if (Decimal.splitSign token).2.all Char.isDigit then
    match Numeral.readWord? 10 token with
    | some n => .ok (int n)
    | none => .error .integerRange
  else
    match Decimal.read? token with
    | some d => .ok (float d.toFloat)
    | none => .error .badFloat

/-- The integer that hexadecimal digits write. -/
def readHexadecimal (digits : List Char) : Except Fault Datum :=
  match Numeral.readWord? 16 digits with
  | some n => .ok (int n)
  | none => .error .badHexadecimal

/-- What a token denotes. -/
def readToken : List Char → Except Fault Datum
  | ['#', 't'] | ['#', 't', 'r', 'u', 'e'] => .ok (bool true)
  | ['#', 'f'] | ['#', 'f', 'a', 'l', 's', 'e'] => .ok (bool false)
  | '#' :: 'x' :: digits | '#' :: 'X' :: digits => readHexadecimal digits
  | token =>
    if looksNumeric token then readNumber token
    else if Symbol.isName token then .ok (sym ⟨String.ofList token⟩)
    else .error .badName

/-- Reads a number, a truth value or a symbol. -/
def readAtom (text : List Char) : Reading Datum :=
  match text.span (fun c => !isDelimiter c) with
  | ([], _) => .error ⟨.noToken, text⟩
  | (token, rest) =>
    match readToken token with
    | .ok d => .ok (d, rest)
    | .error fault => .error ⟨fault, text⟩

/-- Reads the rest of a string, after its opening quote. -/
def readString : List Char → Reading (List Char)
  | [] => .error ⟨.unexpected, []⟩
  | ['\\'] => .error ⟨.unexpected, []⟩
  | '"' :: rest => .ok ([], rest)
  | '\\' :: c :: rest =>
    match Text.unescape? c with
    | some d => (readString rest).map fun (text, rest) => (d :: text, rest)
    | none => .error ⟨.badEscape, '\\' :: c :: rest⟩
  | c :: rest => (readString rest).map fun (text, rest) => (c :: text, rest)

/-- The text after a point that stands by itself and so announces the tail of a list. -/
def afterPoint? : List Char → Option (List Char)
  | ['.'] => some []
  | '.' :: c :: rest => if isDelimiter c then some (c :: rest) else none
  | _ => none

/-- Reads the closing parenthesis after the tail of a list. -/
def readClose (comments : Bool) (tail : Datum) (text : List Char) :
    Reading (List Datum × Datum) :=
  match skip comments text with
  | ')' :: rest => .ok (([], tail), rest)
  | rest => .error ⟨.unexpected, rest⟩

/-- Reads elements by `element` up to the closing parenthesis. A tail after a point is allowed if
`dotted` is set and an element has come before it, as `started` says. Every element takes a
character, so a first argument that is longer than the text, such as the text from the opening
parenthesis on, is never used up. -/
def readElements (comments dotted : Bool) (element : List Char → Reading Datum) :
    List Char → Bool → List Char → Reading (List Datum × Datum)
  | [], _, text => .error ⟨.unexpected, text⟩
  | _ :: bound, started, text =>
    match skip comments text with
    | ')' :: rest => .ok (([], nil), rest)
    | text =>
      match (if dotted && started then afterPoint? text else none) with
      | some rest => (element rest).bind fun (tail, rest) => readClose comments tail rest
      | none =>
        (element text).bind fun (first, rest) =>
          (readElements comments dotted element bound true rest).map
            fun ((items, tail), rest) => ((first :: items, tail), rest)

/-- Reads one datum that may have the given number of levels. -/
def readFrom (comments : Bool) : Nat → List Char → Reading Datum
  | 0, text => .error ⟨.tooDeep, text⟩
  | levels + 1, text =>
    match skip comments text with
    | '\'' :: rest => (readFrom comments levels rest).map fun (d, rest) => (quoted d, rest)
    | '#' :: '(' :: rest =>
      (readElements comments false (readFrom comments levels) ('(' :: rest) false rest).map
        fun ((items, _), rest) => (vector items, rest)
    | '(' :: rest =>
      (readElements comments true (readFrom comments levels) ('(' :: rest) false rest).map
        fun ((items, tail), rest) => (chain items tail, rest)
    | '"' :: rest => (readString rest).map fun (text, rest) => (str (String.ofList text), rest)
    | text => readAtom text

/-- The kind and the wording of a failure at a byte offset. -/
def Failure.describe (f : Failure) (position : Nat) : ParseError.Kind × String :=
  if f.fault = .tooDeep then
    (.tooDeeplyNested, s!"Expression too deeply nested (max depth: {maxLevels})")
  else if (Text.trim f.rest).isEmpty then (.incomplete, "Unexpected end of input")
  else
    (.invalidSyntax, match f.fault with
      | .integerRange => s!"Integer literal out of range at position {position}"
      | .badEscape => s!"Unknown escape sequence at position {position}"
      | .unexpected => s!"Unexpected character at position {position}"
      | _ => "Invalid syntax near '" ++ String.ofList (f.rest.take 10) ++ "'")

/-- The byte offset of the part of `input` that is left. -/
def offsetOf (input rest : List Char) : Nat := Text.byteLength input - Text.byteLength rest

/-- A failure inside `input` as an error. -/
def Failure.toError (input : List Char) (f : Failure) : ParseError :=
  let position := offsetOf input f.rest
  let (kind, message) := f.describe position
  .at kind message input position

def readChars (comments : Bool) (input : List Char) : Except ParseError Datum :=
  match readFrom comments maxLevels input with
  | .error f => .error (f.toError input)
  | .ok (d, rest) =>
    match skip comments rest with
    | [] => .ok d
    | rest =>
      .error (.at .trailingContent
        ("Unexpected remaining input: '" ++ String.ofList rest ++ "'") input
        (offsetOf input rest))

/-- Reads the data in what is left of `input`. -/
def readAllFrom (input : List Char) : Nat → List Char → Except ParseError (List Datum)
  | 0, _ => .ok []
  | budget + 1, text =>
    match skip true text with
    | [] => .ok []
    | text =>
      match readFrom true maxLevels text with
      | .error f => .error (f.toError input)
      | .ok (d, rest) => (readAllFrom input budget rest).map (d :: ·)

def readAllChars (input : List Char) : Except ParseError (List Datum) :=
  readAllFrom input (input.length + 1) input

/-- Reads a text that holds one datum, with comments or without. -/
def readWith (comments : Bool) (text : String) : Except ParseError Datum :=
  readChars comments text.toList

def read (text : String) : Except ParseError Datum := readWith true text

def readAll (text : String) : Except ParseError (List Datum) := readAllChars text.toList

end HostedLisp.Datum
