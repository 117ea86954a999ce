import HostedLisp.Bindings
import HostedLisp.Datum
import HostedLisp.DeviceField

/-!
# The heap

All that can be shared and changed: pairs, vectors, closures, frames and host objects, each kind
in a table of its own that only grows. Reading a handle that was never given out answers an empty
object. This file has the tables and the elementary operations on pairs, vectors, closures and
host objects.
-/

namespace HostedLisp

structure Cell where
  head : Value
  tail : Value
deriving DecidableEq, Repr, Inhabited

/-- A function written in a program: its parameters and body, and the frame that it was made in. A
closure takes the name of the first definition that binds it. -/
structure Closure where
  params : List Symbol
  rest : Option Symbol
  body : List Value
  frame : FrameId
  name : Option Symbol
deriving DecidableEq, Repr, Inhabited

namespace Closure

/-- The argument counts that a closure takes. -/
def arity (c : Closure) : Arity :=
  if c.rest.isSome then .atLeast c.params.length else .exactly c.params.length

/-- The name that messages and frames use for a closure. -/
def label (c : Closure) : String := (c.name.map Symbol.name).getD "lambda"

end Closure

/-- A frame of bindings inside its parent. A root is a frame without a parent, and every frame
knows the root that it was made under. -/
structure Frame where
  bindings : Bindings
  parent : Option FrameId
  label : String
  /-- The expression last evaluated in the frame. -/
  code : Option Value
  root : FrameId
  /-- Whether the root still keeps track of the frame. -/
  tracked : Bool
deriving Inhabited

/-- A frame after its bindings and its expression are gone. -/
def Frame.clear (f : Frame) : Frame :=
  { f with bindings := .empty, code := none, tracked := false }

/-- What a host object carries. -/
inductive Payload where
  | none
  | integer (n : Int64)
  | field (f : DeviceField)
deriving DecidableEq, Repr, Inhabited

/-- An object of the host, which programs can only pass on. -/
structure HostObject where
  tag : String
  payload : Payload
deriving DecidableEq, Repr, Inhabited

/-- The tables of all objects. -/
structure Heap where
  cells : Array Cell
  vectors : Array (Array Value)
  closures : Array Closure
  frames : Array Frame
  objects : Array HostObject
deriving Inhabited

namespace Heap

def empty : Heap := ⟨#[], #[], #[], #[], #[]⟩

/-! ### Reading -/

def cell (h : Heap) (id : CellId) : Cell := h.cells.getD id.index default

def vector (h : Heap) (id : VectorId) : Array Value := h.vectors.getD id.index #[]

def closure (h : Heap) (id : ClosureId) : Closure := h.closures.getD id.index default

def frame (h : Heap) (id : FrameId) : Frame := h.frames.getD id.index default

def object (h : Heap) (id : ObjectId) : HostObject := h.objects.getD id.index default

/-! ### Making -/

def newCell (h : Heap) (head tail : Value) : Value × Heap :=
  (.pair ⟨h.cells.size⟩, { h with cells := h.cells.push ⟨head, tail⟩ })

/-- New pairs for the items of a chain that ends in `tail`. -/
def newChain (h : Heap) (items : List Value) (tail : Value) : Value × Heap :=
  items.foldr (fun item (tail, h) => h.newCell item tail) (tail, h)

def newVector (h : Heap) (items : List Value) : Value × Heap :=
  (.vector ⟨h.vectors.size⟩, { h with vectors := h.vectors.push items.toArray })

def newClosure (h : Heap) (c : Closure) : Value × Heap :=
  (.closure ⟨h.closures.size⟩, { h with closures := h.closures.push c })

def newObject (h : Heap) (o : HostObject) : Value × Heap :=
  (.object ⟨h.objects.size⟩, { h with objects := h.objects.push o })

mutual

/-- New objects for a datum. -/
def place (h : Heap) : Datum → Value × Heap
  | .nil => (.nil, h)
  | .bool b => (.bool b, h)
  | .int n => (.int n, h)
  | .float x => (.float x, h)
  | .str text => (.str text, h)
  | .sym name => (.sym name, h)
  | .pair a b =>
    let (head, h) := h.place a
    let (tail, h) := h.place b
    h.newCell head tail
  | .vector items =>
    let (values, h) := h.placeAll items
    h.newVector values

def placeAll (h : Heap) : List Datum → List Value × Heap
  | [] => ([], h)
  | d :: rest =>
    let (value, h) := h.place d
    let (values, h) := h.placeAll rest
    (value :: values, h)

end

/-! ### Changing -/

def setHead (h : Heap) (id : CellId) (value : Value) : Heap :=
  { h with cells := h.cells.modify id.index fun c => { c with head := value } }

def setTail (h : Heap) (id : CellId) (value : Value) : Heap :=
  { h with cells := h.cells.modify id.index fun c => { c with tail := value } }

def setSlot (h : Heap) (id : VectorId) (slot : Nat) (value : Value) : Heap :=
  { h with vectors := h.vectors.modify id.index fun items => items.setIfInBounds slot value }

/-- Gives the slots of a vector from `start` on the listed values, as far as there are slots. -/
def setSlots (h : Heap) (id : VectorId) (start : Nat) : List Value → Heap
  | [] => h
  | value :: rest => (h.setSlot id start value).setSlots id (start + 1) rest

/-- Copies one slot of a vector to a slot of the same or another vector. -/
def copySlot (h : Heap) (source : VectorId) (start : Nat) (target : VectorId) (position k : Nat) :
    Heap :=
  h.setSlot target (position + k) ((h.vector source).getD (start + k) .nil)

/-- Copies `count` slots one after the other, from the first to the last or the other way round.
The direction shows where source and target overlap. -/
def copySlots (h : Heap) (source : VectorId) (start count : Nat) (target : VectorId)
    (position : Nat) (descending : Bool) : Heap :=
  let offsets := if descending then (List.range count).reverse else List.range count
  offsets.foldl (fun h k => h.copySlot source start target position k) h

/-- Names a closure that has no name yet. -/
def nameClosure (h : Heap) (id : ClosureId) (name : Symbol) : Heap :=
  { h with closures := h.closures.modify id.index fun c =>
      { c with name := some (c.name.getD name) } }

end Heap

end HostedLisp
