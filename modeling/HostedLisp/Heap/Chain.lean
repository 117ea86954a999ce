import HostedLisp.Heap.Basic

/-!
# Chains of pairs

Following the tails of pairs ends in the empty list, in something else, or never. A chain visits
no pair twice before it comes back on itself, so one that is longer than the table of pairs never
ends. Main definitions: `Heap.walk`, `Heap.isList`, `Heap.listItems?`.
-/

namespace HostedLisp

/-- How a chain of pairs ends. -/
inductive ChainEnd where
  /-- In the empty list. -/
  | proper
  /-- In something that is neither a pair nor the empty list. -/
  | improper
  /-- Not at all. -/
  | circular
deriving DecidableEq, Repr

namespace Heap

/-- The heads of a chain of at most `steps` pairs, and how it ends. -/
def walkFrom (h : Heap) : Nat → Value → List Value × ChainEnd
  | steps, value =>
    match value with
    | .nil => ([], .proper)
    | .pair id =>
      match steps with
      | 0 => ([], .circular)
      | steps + 1 =>
        let (items, ending) := h.walkFrom steps (h.cell id).tail
        ((h.cell id).head :: items, ending)
    | _ => ([], .improper)

/-- The heads of a chain, and how it ends. -/
def walk (h : Heap) (value : Value) : List Value × ChainEnd :=
  h.walkFrom (h.cells.size + 1) value

/-- Whether a value is the empty list or a chain that ends in it. -/
def isList (h : Heap) (value : Value) : Bool := (h.walk value).2 = .proper

def listItems? (h : Heap) (value : Value) : Option (List Value) :=
  match h.walk value with
  | (items, .proper) => some items
  | _ => none

/-- The first heads of a chain, at most `limit` of them. -/
def firstHeads (h : Heap) : Nat → Value → List Value
  | 0, _ => []
  | limit + 1, .pair id => (h.cell id).head :: h.firstHeads limit (h.cell id).tail
  | _, _ => []

end Heap

end HostedLisp
