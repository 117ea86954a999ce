import HostedLisp.Datum.Printer
import HostedLisp.Heap.Basic
import HostedLisp.Heap.Container

/-!
# Writing values

The text of a value is that of the tree it unfolds to, as long as that is finite and not too deep:
a container inside itself is written as a mark, and so is what is nested beyond
`Datum.shownLevels`. Main definitions: `Heap.write`, `Heap.render`, `Heap.inspect`.
-/

namespace HostedLisp.Heap

/-- What stands for a container inside itself. -/
def cycleMark : List Char := "#<cycle>".toList

/-- The text of a callable or a host object. -/
def writeNamed (kind name : String) : List Char := s!"#<{kind}:{name}>".toList

/-- The text of a list after its first element, given how elements are written inside the
containers that are `opened`. No pair is opened twice, so a budget of more than the number of
pairs is never used up. -/
def writeSpine (h : Heap) (inner : ContainerSet → Value → List Char) :
    Nat → ContainerSet → Value → List Char
  | 0, _, _ => [')']
  | budget + 1, opened, tail =>
    match tail with
    | .nil => [')']
    | .pair id =>
      if opened.contains (.pair id) then [' ', '.', ' '] ++ cycleMark ++ [')']
      else
        let opened := opened.insert (.pair id)
        ' ' :: (inner opened (h.cell id).head ++ h.writeSpine inner budget opened (h.cell id).tail)
    | other => [' ', '.', ' '] ++ inner opened other ++ [')']

/-- The texts of the items of a vector with blanks between them. -/
def writeItems (inner : Value → List Char) : List Value → List Char
  | [] => []
  | [value] => inner value
  | value :: rest => inner value ++ ' ' :: writeItems inner rest

/-- The text of a value inside the containers that are `opened`; `inner` writes the parts of a
container and is missing where no more levels are shown. -/
def writeValue (h : Heap) (inner : Option (ContainerSet → Value → List Char))
    (opened : ContainerSet) : Value → List Char
  | .nil => ['(', ')']
  | .bool b => Datum.writeBool b
  | .int n => Datum.writeInt n
  | .float x => (Decimal.display x).toList
  | .str text => Text.quote text.toList
  | .sym name => name.name.toList
  | .pair id =>
    if opened.contains (.pair id) then cycleMark
    else match inner with
      | none => Datum.elidedList
      | some inner =>
        let opened := opened.insert (.pair id)
        '(' :: (inner opened (h.cell id).head ++
          h.writeSpine inner (h.cells.size + 1) opened (h.cell id).tail)
  | .vector id =>
    if opened.contains (.vector id) then cycleMark
    else match inner with
      | none => Datum.elidedVector
      | some inner =>
        '#' :: '(' ::
          (writeItems (inner (opened.insert (.vector id))) (h.vector id).toList ++ [')'])
  | .closure id =>
    writeNamed "function" (((h.closure id).name.map Symbol.name).getD "anonymous")
  | .primitive p => writeNamed "primitive" p.name
  | .object id => writeNamed "object" (h.object id).tag

/-- The text of a value inside the containers that are `opened`, of which the given number of
levels is shown. -/
def writeWithin (h : Heap) : Nat → ContainerSet → Value → List Char
  | 0 => h.writeValue none
  | levels + 1 => h.writeValue (some (h.writeWithin levels))

def write (h : Heap) (value : Value) : List Char := h.writeWithin Datum.shownLevels .empty value

def render (h : Heap) (value : Value) : String := String.ofList (h.write value)

/-- A symbol in a debugging view. -/
def inspectSymbol (name : Symbol) : String := s!"Symbol({name.name})"

/-- A value in a debugging view, which also tells its kind. -/
def inspect (h : Heap) (value : Value) : String :=
  match value with
  | .nil => "Nil"
  | .bool b => s!"Bool({b})"
  | .int _ => s!"Integer({h.render value})"
  | .float x => s!"Float({Decimal.displayBare x})"
  | .str text => "String(" ++ String.ofList (Text.quoteVisibly text.toList) ++ ")"
  | .sym name => inspectSymbol name
  | .pair _ => s!"List({h.render value})"
  | .vector _ => s!"Vector({h.render value})"
  | .closure id =>
    let c := h.closure id
    let params := ", ".intercalate (c.params.map inspectSymbol)
    let rest := match c.rest with
      | some name => s!"Some({inspectSymbol name})"
      | none => "None"
    s!"Closure(params=[{params}], rest={rest})"
  | .primitive p => s!"Primitive({p.name})"
  | .object id => s!"Object({(h.object id).tag})"

end HostedLisp.Heap
