import HostedLisp.Heap.Basic
import HostedLisp.Heap.Container

/-!
# Equality of values

Two values are equal if no walk into both of them at once finds a difference: atoms by their
value, pairs and vectors by their parts, everything else by identity. Containers that are compared
already are not compared again, so cycles do no harm. Main definitions: `Heap.equal`,
`Heap.identical`.
-/

namespace HostedLisp

/-- What has to hold for two values to be equal. -/
inductive Comparison where
  /-- It is known whether they are. -/
  | settled (equal : Bool)
  /-- The parts of these containers have to be equal. -/
  | inside (left right : Container)
deriving DecidableEq, Repr

namespace Heap

/-- Looks at two values without looking into their parts. -/
def compareOnce (h : Heap) : Value → Value → Comparison
  | .nil, .nil => .settled true
  | .bool a, .bool b => .settled (a == b)
  | .int a, .int b => .settled (a == b)
  | .float a, .float b => .settled (a == b)
  | .str a, .str b => .settled (a == b)
  | .sym a, .sym b => .settled (a == b)
  | .pair a, .pair b =>
    if a = b then .settled true
    else .inside (.pair a) (.pair b)
  | .vector a, .vector b =>
    if a = b then .settled true
    else if (h.vector a).size = (h.vector b).size then .inside (.vector a) (.vector b)
    else .settled false
  | .closure a, .closure b => .settled (a == b)
  | .primitive a, .primitive b => .settled (a.id == b.id)
  | .object a, .object b => .settled (a == b)
  | _, _ => .settled false

def parts (h : Heap) : Container → List Value
  | .pair id => [(h.cell id).head, (h.cell id).tail]
  | .vector id => (h.vector id).toList

/-- Compares what is left to compare. Containers that were `seen` together are taken as equal; new
ones are handed to `expand` together with their parts. -/
def settle (h : Heap) (expand : ContainerPairs → List (Value × Value) → Bool)
    (seen : ContainerPairs) : List (Value × Value) → Bool
  | [] => true
  | (a, b) :: work =>
    match h.compareOnce a b with
    | .settled false => false
    | .settled true => h.settle expand seen work
    | .inside left right =>
      if seen.contains left right then h.settle expand seen work
      else expand (seen.insert left right) ((h.parts left).zip (h.parts right) ++ work)

/-- Compares what is left to compare, looking into at most the given number of containers. -/
def equalFrom (h : Heap) : Nat → ContainerPairs → List (Value × Value) → Bool
  | 0 => h.settle fun _ _ => true
  | budget + 1 => h.settle (h.equalFrom budget)

/-- The number of pairs of containers, all of which a comparison may have to look into. -/
def comparisons (h : Heap) : Nat := h.cells.size * h.cells.size + h.vectors.size * h.vectors.size

def equal (h : Heap) (a b : Value) : Bool := h.equalFrom h.comparisons .empty [(a, b)]

/-- Whether two values are the same object, or the same atom. -/
def identical : Value → Value → Bool
  | .nil, .nil => true
  | .bool a, .bool b => a == b
  | .int a, .int b => a == b
  | .float a, .float b => a == b
  | .str a, .str b => a == b
  | .sym a, .sym b => a == b
  | .pair a, .pair b => a == b
  | .vector a, .vector b => a == b
  | .closure a, .closure b => a == b
  | .primitive a, .primitive b => a.id == b.id
  | .object a, .object b => a == b
  | _, _ => false

end Heap

end HostedLisp
