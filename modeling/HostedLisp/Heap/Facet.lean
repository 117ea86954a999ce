import HostedLisp.Heap.Basic

/-!
# Facets of values

A host that knows the kind of a value looks at it through the facet of that kind. To look through
another facet is a mistake of the host. Main definitions: `Facet.Content`, `Heap.see?`,
`Facet.misuse`.
-/

namespace HostedLisp

/-- The ways to look at a value. -/
inductive Facet where
  | integer
  | float
  | boolean
  | string
  | symbol
  | pair
  | vector
  | closure
  | primitive
  | object
deriving DecidableEq, Repr

namespace Facet

def name : Facet → String
  | integer => "integer"
  | float => "float"
  | boolean => "boolean"
  | string => "string"
  | symbol => "symbol"
  | pair => "pair"
  | vector => "vector"
  | closure => "closure"
  | primitive => "primitive"
  | object => "object"

/-- What is seen through a facet. -/
abbrev Content : Facet → Type
  | integer => Int64
  | float => Float
  | boolean => Bool
  | string => String
  | symbol => Symbol
  | pair => Cell
  | vector => Array Value
  | closure => Closure
  | primitive => Primitive
  | object => HostObject

/-- The complaint about a value that does not have the facet. -/
def misuse (facet : Facet) (value : Value) : String :=
  s!"{facet.name}_value called on {value.typeName}"

end Facet

/-- What a value shows through a facet. An integer can be seen as a floating point number. -/
def Heap.see? (h : Heap) : (facet : Facet) → Value → Option facet.Content
  | .integer, .int n => some n
  | .float, .float x => some x
  | .float, .int n => some (Number.widen n)
  | .boolean, .bool b => some b
  | .string, .str text => some text
  | .symbol, .sym name => some name
  | .pair, .pair id => some (h.cell id)
  | .vector, .vector id => some (h.vector id)
  | .closure, .closure id => some (h.closure id)
  | .primitive, .primitive p => some p
  | .object, .object id => some (h.object id)
  | _, _ => none

end HostedLisp
