import HostedLisp.Heap.Scope

/-!
# Changes of the heap

Every change that a running program can make is one of a closed list, each of which answers with
the handle of what it made, if anything. What holds of every change so holds of every program.
Main definitions: `Change`, `Heap.apply`.
-/

namespace HostedLisp

/-- What a program can do to the heap. -/
inductive Change where
  /-- Make a chain of pairs. -/
  | chain (items : List Value) (tail : Value)
  | vector (items : List Value)
  | closure (c : Closure)
  | object (o : HostObject)
  /-- Make the objects of a datum. -/
  | place (d : Datum)
  /-- Make the objects of several data. -/
  | placeAll (ds : List Datum)
  | frame (parent : FrameId) (label : String)
  | setHead (id : CellId) (value : Value)
  | setTail (id : CellId) (value : Value)
  /-- Write values into the slots of a vector from a position on. -/
  | setSlots (id : VectorId) (start : Nat) (values : List Value)
  /-- Copy slots one by one, in ascending or descending order. -/
  | copySlots (source : VectorId) (start count : Nat) (target : VectorId) (position : Nat)
      (descending : Bool)
  | define (frame : FrameId) (name : Symbol) (value : Value)
  | nameClosure (id : ClosureId) (name : Symbol)

/-- What a change answers. -/
abbrev Change.Answer : Change → Type
  | chain .. | vector .. | closure .. | object .. | place .. => Value
  | placeAll .. => List Value
  | frame .. => FrameId
  | _ => Unit

/-- The answer of a change and the heap after it. -/
def Heap.apply (h : Heap) : (c : Change) → c.Answer × Heap
  | .chain items tail => h.newChain items tail
  | .vector items => h.newVector items
  | .closure c => h.newClosure c
  | .object o => h.newObject o
  | .place d => h.place d
  | .placeAll ds => h.placeAll ds
  | .frame parent label => h.newFrame parent label
  | .setHead id value => ((), h.setHead id value)
  | .setTail id value => ((), h.setTail id value)
  | .setSlots id start values => ((), h.setSlots id start values)
  | .copySlots source start count target position descending =>
    ((), h.copySlots source start count target position descending)
  | .define frame name value => ((), h.define frame name value)
  | .nameClosure id name => ((), h.nameClosure id name)

end HostedLisp
